import Admission.Proofs.Server.Buckets

/-! # Which buckets are kept apart

A bucket is kept under a text that joins the name of its policy and the caller by a colon, and both may
hold colons themselves. Two buckets share their text if a colon of the one's caller can be read as the
end of the other's policy. All other buckets are kept apart, whatever is done to them. -/

namespace Admission.Bucket

/-! ## Texts that two buckets share -/

/-- Two texts joined by a colon are two others joined so if they are the same, or if the cut is at
another colon. -/
theorem append_colon_eq_iff {a b c d : List Char} :
    a ++ ':' :: b = c ++ ':' :: d ↔
      (a = c ∧ b = d) ∨ (∃ s, c = a ++ ':' :: s ∧ b = s ++ ':' :: d) ∨
        ∃ s, a = c ++ ':' :: s ∧ d = s ++ ':' :: b := by
  rw [List.append_eq_append_iff]
  constructor
  · rintro (⟨s, rfl, hs⟩ | ⟨s, rfl, hs⟩)
    · cases s with
      | nil => exact .inl ⟨(List.append_nil a).symm, by simpa using hs⟩
      | cons x s =>
          obtain ⟨rfl, rfl⟩ := List.cons_eq_cons.mp hs
          exact .inr (.inl ⟨s, rfl, rfl⟩)
    · cases s with
      | nil => exact .inl ⟨List.append_nil c, by simpa using hs.symm⟩
      | cons x s =>
          obtain ⟨rfl, rfl⟩ := List.cons_eq_cons.mp hs
          exact .inr (.inr ⟨s, rfl, rfl⟩)
  · rintro (⟨rfl, rfl⟩ | ⟨s, rfl, rfl⟩ | ⟨s, rfl, rfl⟩)
    · exact .inl ⟨[], (List.append_nil a).symm, rfl⟩
    · exact .inl ⟨':' :: s, rfl, rfl⟩
    · exact .inr ⟨':' :: s, rfl, rfl⟩

namespace Key

/-- The policy of the other bucket goes on where that of this one ends and takes in its caller up to a
colon. -/
def Reaches (k k' : Key) : Prop :=
  ∃ s, k'.policy = k.policy ++ ":" ++ s ∧ k.identifier = s ++ ":" ++ k'.identifier

theorem reaches_iff {k k' : Key} :
    k.Reaches k' ↔ ∃ s, k'.policy.toList = k.policy.toList ++ ':' :: s ∧
      k.identifier.toList = s ++ ':' :: k'.identifier.toList := by
  constructor
  · rintro ⟨s, hpolicy, hidentifier⟩
    exact ⟨s.toList, by simp [hpolicy], by simp [hidentifier]⟩
  · rintro ⟨s, hpolicy, hidentifier⟩
    exact ⟨String.ofList s, String.toList_inj.mp (by simp [hpolicy]),
      String.toList_inj.mp (by simp [hidentifier])⟩

/-- Only a policy with a colon in its name reaches so far, and only into a caller with a colon. -/
theorem Reaches.colon_mem {k k' : Key} (h : k.Reaches k') :
    ':' ∈ k'.policy.toList ∧ ':' ∈ k.identifier.toList := by
  obtain ⟨s, hpolicy, hidentifier⟩ := reaches_iff.mp h
  exact ⟨by simp [hpolicy], by simp [hidentifier]⟩

theorem toList_text (k : Key) :
    k.text.toList = "rate_limit:\x7b".toList ++
      ((k.policy.toList ++ ':' :: k.identifier.toList) ++ ['\x7d']) := by
  simp [text]

/-- Two buckets share their text only if they are the same or one policy reaches into the caller of the
other bucket. -/
theorem text_eq_iff {k k' : Key} :
    k.text = k'.text ↔ k = k' ∨ k.Reaches k' ∨ k'.Reaches k := by
  have hsame : k.policy.toList = k'.policy.toList ∧ k.identifier.toList = k'.identifier.toList ↔
      k = k' := by
    cases k
    cases k'
    simp [String.toList_inj]
  have htext : k.text = k'.text ↔ k.policy.toList ++ ':' :: k.identifier.toList =
      k'.policy.toList ++ ':' :: k'.identifier.toList := by
    rw [← String.toList_inj, toList_text, toList_text, List.append_right_inj, List.append_left_inj]
  rw [htext, append_colon_eq_iff, hsame, ← reaches_iff, ← reaches_iff]

end Key

/-! ## Calls on other buckets -/

namespace Store

theorem entries_mutate_of_ne (s : Store) {key : Key} {name : String} (h : name ≠ key.text)
    (nowMs : UInt64) (ttl : Span) (f : Option State → State) :
    (s.mutate key nowMs ttl f).2.entries.get? name = s.entries.get? name :=
  s.entries.get?_insert_of_ne _ h

/-- A call leaves everything alone that is kept under another text. -/
theorem entries_answer_of_ne (s : Store) {call : Call} {name : String} (h : name ≠ call.key.text) :
    (s.answer call).2.entries.get? name = s.entries.get? name := by
  cases call with
  | refill key capacity rate now ttl =>
      exact s.entries_mutate_of_ne h now ttl fun prior => Bucket.refill prior capacity rate now
  | deduct key capacity cost now ttl =>
      exact s.entries_mutate_of_ne h now ttl fun prior => Bucket.deduct prior capacity cost now
  | reset key capacity now ttl =>
      exact s.entries_mutate_of_ne h now ttl fun _ => .full capacity now

theorem entries_serve_of_ne (s : Store) {calls : List Call} {name : String}
    (h : ∀ call ∈ calls, name ≠ call.key.text) :
    (s.serve calls).entries.get? name = s.entries.get? name := by
  induction calls generalizing s with
  | nil => rfl
  | cons call calls ih =>
      calc ((s.answer call).2.serve calls).entries.get? name
          = (s.answer call).2.entries.get? name :=
            ih _ fun call' hmem => h call' (List.mem_cons_of_mem call hmem)
        _ = s.entries.get? name := s.entries_answer_of_ne (h call List.mem_cons_self)

end Store

/-! ## Isolation -/

namespace Key

/-- No calls on the one bucket change what is kept for the other one, its state or its lifetime. -/
def KeptApart (k k' : Key) : Prop :=
  ∀ (s : Store) (calls : List Call), (∀ call ∈ calls, call.key = k) →
    (s.serve calls).entries.get? k'.text = s.entries.get? k'.text

/-- A server keeps the two buckets under four names. -/
def NamedApart (k k' : Key) : Prop :=
  [k.tokensName, k.lastRefillName, k'.tokensName, k'.lastRefillName].Nodup

theorem keptApart_iff_text_ne {k k' : Key} : k.KeptApart k' ↔ k.text ≠ k'.text := by
  constructor
  · intro h htext
    -- One call makes the bucket of the other key.
    have hmade := h .empty [.reset k 1 0 ⟨0⟩] fun call hcall => by
      rw [List.mem_singleton.mp hcall]
      rfl
    rw [← htext] at hmade
    simp [Store.serve, Store.answer, Store.mutate, Store.empty] at hmade
  · intro hne s calls hcalls
    refine s.entries_serve_of_ne fun call hmem => ?_
    rw [hcalls call hmem]
    exact hne.symm

theorem namedApart_iff_text_ne {k k' : Key} : k.NamedApart k' ↔ k.text ≠ k'.text := by
  constructor
  · intro h htext
    rw [NamedApart, tokensName_inj.mpr htext] at h
    simp at h
  · intro hne
    have htokens : k.tokensName ≠ k'.tokensName := tokensName_inj.not.mpr hne
    have hlast : k.lastRefillName ≠ k'.lastRefillName := lastRefillName_inj.not.mpr hne
    have hothers : ∀ a b : Key, a.tokensName ≠ b.lastRefillName := tokensName_ne_lastRefillName
    simp [NamedApart, htokens, hlast, hothers, (hothers _ _).symm]

/-- Policies without colons in their names keep their buckets apart, whatever their callers are
called. -/
theorem apart_of_colon_not_mem {k k' : Key} (hne : k ≠ k') (h : ':' ∉ k.policy.toList)
    (h' : ':' ∉ k'.policy.toList) : k.KeptApart k' ∧ k.NamedApart k' := by
  have htext : k.text ≠ k'.text := by
    intro htext
    rcases text_eq_iff.mp htext with heq | hreaches | hreaches
    · exact hne heq
    · exact h' hreaches.colon_mem.1
    · exact h hreaches.colon_mem.1
  exact ⟨keptApart_iff_text_ne.mpr htext, namedApart_iff_text_ne.mpr htext⟩

/-- The buckets of two different pairs of a policy and a caller are isolated, in memory and on a
server, if and only if neither policy reaches into the caller of the other pair. -/
theorem isolated_iff_not_reaches {k k' : Key} (hne : k ≠ k') :
    (k.KeptApart k' ↔ ¬ k.Reaches k' ∧ ¬ k'.Reaches k) ∧
      (k.NamedApart k' ↔ ¬ k.Reaches k' ∧ ¬ k'.Reaches k) := by
  have htext : k.text ≠ k'.text ↔ ¬ k.Reaches k' ∧ ¬ k'.Reaches k := by
    rw [ne_eq, text_eq_iff, not_or, not_or]
    exact and_iff_right hne
  exact ⟨keptApart_iff_text_ne.trans htext, namedApart_iff_text_ne.trans htext⟩

/-- Colons in the names of callers alone do no harm. -/
theorem isolated_colonCallers :
    let k : Key := ⟨"ENTRIES_WRITE", "bank:1"⟩
    let k' : Key := ⟨"ENTRIES_WRITE", "bank:1:2"⟩
    k ≠ k' ∧ k.KeptApart k' ∧ k.NamedApart k' := by
  intro k k'
  have hne : k ≠ k' := by decide
  have hcolon : ':' ∉ "ENTRIES_WRITE".toList := by decide
  have hfar : ¬ k.Reaches k' ∧ ¬ k'.Reaches k :=
    ⟨fun h => hcolon h.colon_mem.1, fun h => hcolon h.colon_mem.1⟩
  obtain ⟨hkept, hnamed⟩ := isolated_iff_not_reaches hne
  exact ⟨hne, hkept.mpr hfar, hnamed.mpr hfar⟩

/-- The caller `B:C` of the policy `A` draws on the bucket of the caller `C` of the policy `A:B`. -/
theorem not_isolated_shiftedColon :
    let k : Key := ⟨"A", "B:C"⟩
    let k' : Key := ⟨"A:B", "C"⟩
    k ≠ k' ∧ k.tokensName = k'.tokensName ∧ k.lastRefillName = k'.lastRefillName ∧
      Store.empty.peek k' = none ∧
      (Store.empty.serve [.deduct k 10 1 0 (.ofSecs 120)]).peek k' = some ⟨9, 0⟩ := by
  decide +kernel

end Key

end Admission.Bucket
