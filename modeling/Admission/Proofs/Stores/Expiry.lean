import Admission.Table

/-! # Entries that expire

A store keeps an entry that has expired until a call replaces it or a purge drops it, and every call
passes over it from then on. So two stores that agree on what is alive, and differ in what they have
not dropped yet, are the same to all that use them. -/

namespace Admission

/-! ## What is alive in a table -/

namespace Table

variable {ε : Type} (expiry : ε → UInt64)

/-- What is kept under a name and has not expired. -/
def alive? (t : Table String ε) (now : UInt64) (name : String) : Option ε :=
  (t.get? name).filter fun e => now < expiry e

/-- The tables differ in nothing that is alive at a reading. -/
def AgreeAt (now : UInt64) (t u : Table String ε) : Prop :=
  ∀ name, t.alive? expiry now name = u.alive? expiry now name

/-- What a call does to the entry under its name. -/
inductive Edit (ε : Type)
  | leave
  | put (e : ε)
  | drop

def edit (t : Table String ε) (name : String) : Edit ε → Table String ε
  | .leave => t
  | .put e => t.insert name e
  | .drop => t.erase name

variable {expiry} {t u : Table String ε} {now next : UInt64}

/-- Nothing comes to life by waiting. -/
theorem alive?_later (h : now ≤ next) (name : String) :
    t.alive? expiry next name = (t.alive? expiry now name).filter fun e => next < expiry e := by
  rw [alive?, alive?, Option.filter_filter]
  congr 1
  funext e
  rw [Bool.eq_iff_iff, Bool.and_eq_true, decide_eq_true_eq, decide_eq_true_eq]
  exact ⟨fun hnext => ⟨UInt64.lt_of_le_of_lt h hnext, hnext⟩, And.right⟩

theorem alive?_purge (t : Table String ε) (now : UInt64) (name : String) :
    (t.filter fun _ e => now < expiry e).alive? expiry now name = t.alive? expiry now name := by
  rw [alive?, get?_filter, Option.filter_filter]
  simp [alive?]

theorem get?_edit_of_ne {name k : String} (h : k ≠ name) (x : Edit ε) :
    (t.edit name x).get? k = t.get? k := by
  cases x with
  | leave => rfl
  | put e => exact t.get?_insert_of_ne e h
  | drop => exact t.get?_erase_of_ne h

namespace AgreeAt

theorem refl (t : Table String ε) (now : UInt64) : AgreeAt expiry now t t := fun _ => rfl

theorem later (h : AgreeAt expiry now t u) (hle : now ≤ next) : AgreeAt expiry next t u := by
  intro name
  rw [alive?_later hle, alive?_later hle, h name]

theorem purge (h : AgreeAt expiry now t u) :
    AgreeAt expiry now (t.filter fun _ e => now < expiry e) u :=
  fun name => (t.alive?_purge now name).trans (h name)

/-- Tables in which the same is written under the same name agree as much as before. -/
theorem edit (h : AgreeAt expiry now t u) (name : String) (x : Edit ε) :
    AgreeAt expiry now (t.edit name x) (u.edit name x) := by
  intro k
  by_cases hk : k = name
  · subst hk
    cases x with
    | leave => exact h k
    | put e => simp [alive?, Table.edit]
    | drop => simp [alive?, Table.edit]
  · simpa only [alive?, get?_edit_of_ne hk] using h k

end AgreeAt

/-- The entries that a filter drops are those that fail its test. -/
theorem size_sub_size_filter (t : Table String ε) (keep : String → ε → Bool) :
    t.size - (t.filter keep).size = t.entries.countP fun e => !keep e.1 e.2 := by
  have hsplit := List.length_eq_countP_add_countP (fun e => keep e.1 e.2) (l := t.entries)
  simp only [size, filter, ← List.countP_eq_length_filter]
  simp only [Bool.not_eq_true, Bool.decide_eq_false] at hsplit
  omega

end Table

/-! ## Histories with purges and without them -/

/-- A relation between two states of a store, of which nobody that calls the store can tell one from
the other: waiting keeps it, a purge of one state keeps it and is answered nothing, and a call keeps
it and is answered alike in both. -/
structure Unnoticed {σ ℓ α : Type} (use : σ → ℓ → σ) (answers : σ → List ℓ → List α)
    (now : ℓ → UInt64) (isCall : ℓ → Bool) (Same : UInt64 → σ → σ → Prop) : Prop where
  answers_nil : ∀ s, answers s [] = []
  later : ∀ {m n s t}, Same m s t → m ≤ n → Same n s t
  purge : ∀ {s t u}, isCall u = false → Same (now u) s t →
    Same (now u) (use s u) t ∧ ∀ rest, answers s (u :: rest) = answers (use s u) rest
  call : ∀ {s t u}, isCall u = true → Same (now u) s t →
    Same (now u) (use s u) (use t u) ∧ ∃ a, ∀ rest,
      answers s (u :: rest) = a :: answers (use s u) rest ∧
        answers t (u :: rest) = a :: answers (use t u) rest

namespace Unnoticed

variable {σ ℓ α : Type} {use : σ → ℓ → σ} {answers : σ → List ℓ → List α} {now : ℓ → UInt64}
  {isCall : ℓ → Bool} {Same : UInt64 → σ → σ → Prop}

/-- On a clock that never goes back, a history gives the answers that it gives without its purges. -/
theorem answers_eq (H : Unnoticed use answers now isCall Same) {history : List ℓ} {s t : σ}
    {m : UInt64} (h : Same m s t) (hordered : history.Pairwise fun u v => now u ≤ now v)
    (hsince : ∀ u ∈ history, m ≤ now u) :
    answers s history = answers t (history.filter isCall) := by
  induction history generalizing s t m with
  | nil => rw [List.filter_nil, H.answers_nil, H.answers_nil]
  | cons u history ih =>
      have hu := H.later h (hsince u List.mem_cons_self)
      have htail : ∀ v ∈ history, now u ≤ now v := fun v => List.rel_of_pairwise_cons hordered
      cases hcall : isCall u with
      | false =>
          obtain ⟨hsame, hpurge⟩ := H.purge hcall hu
          rw [List.filter_cons_of_neg (by simp [hcall]), hpurge, ih hsame hordered.tail htail]
      | true =>
          obtain ⟨hsame, a, ha⟩ := H.call hcall hu
          rw [List.filter_cons_of_pos hcall, (ha _).1, (ha _).2, ih hsame hordered.tail htail]

/-- It ends in a state that is the same from then on. -/
theorem follow (H : Unnoticed use answers now isCall Same) {history : List ℓ} {s t : σ}
    {m n : UInt64} (h : Same m s t) (hordered : history.Pairwise fun u v => now u ≤ now v)
    (hsince : ∀ u ∈ history, m ≤ now u) (hle : m ≤ n) (hupTo : ∀ u ∈ history, now u ≤ n) :
    Same n (history.foldl use s) ((history.filter isCall).foldl use t) := by
  induction history generalizing s t m with
  | nil => exact H.later h hle
  | cons u history ih =>
      have hu := H.later h (hsince u List.mem_cons_self)
      have htail : ∀ v ∈ history, now u ≤ now v := fun v => List.rel_of_pairwise_cons hordered
      have hend : now u ≤ n := hupTo u List.mem_cons_self
      have hrest : ∀ v ∈ history, now v ≤ n := fun v hv => hupTo v (List.mem_cons_of_mem u hv)
      cases hcall : isCall u with
      | false =>
          rw [List.filter_cons_of_neg (by simp [hcall]), List.foldl_cons]
          exact ih (H.purge hcall hu).1 hordered.tail htail hend hrest
      | true =>
          rw [List.filter_cons_of_pos hcall, List.foldl_cons, List.foldl_cons]
          exact ih (H.call hcall hu).1 hordered.tail htail hend hrest

end Unnoticed

end Admission
