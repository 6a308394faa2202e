import Admission.Proofs.Record.History

/-! # When a key can be claimed again

The entry that a claim puts in keeps its deadlines, whatever is written into its record, until it
is deleted or expires. Up to then another claim only wins the key when the lease is over and there
is no response. -/

namespace Admission.Record

namespace Entry

/-- Two entries that expire together and have the same lease. -/
structure SameDeadlines (e origin : Entry) : Prop where
  expiresAt : e.expiresAt = origin.expiresAt
  leaseUntil : e.leaseUntil = origin.leaseUntil

theorem SameDeadlines.isLive_eq {e origin : Entry} (h : e.SameDeadlines origin) (now : UInt64) :
    e.isLive now = origin.isLive now := by
  rw [isLive, h.expiresAt, isLive]

/-- What a claim has put in lives for the lifetime that the claim gives it. -/
theorem le_of_isLive_ofClaim_eq_false {key : String} {since now : UInt64} {ttl lease : Span}
    (hrange : now.toNat < UInt64.size - 1)
    (hover : (ofClaim key since ttl lease).isLive now = false) :
    since.toNat + (lifetimeSecs ttl).toNat ≤ now.toNat := by
  have hlate : ¬ now < Word.addClamped since (lifetimeSecs ttl) := of_decide_eq_false hover
  exact Nat.le_of_not_lt (mt (lt_addClamped_iff hrange).mpr hlate)

end Entry

namespace Store

variable {s : Store} {key : String} {origin : Entry} {now : UInt64}

/-- As long as `origin` would be alive, the entry of the key has its deadlines. -/
def Retains (s : Store) (key : String) (origin : Entry) (now : UInt64) : Prop :=
  origin.isLive now = true → ∃ e, s.entries.get? key = some e ∧ e.SameDeadlines origin

theorem retains_claim (s : Store) (key : String) (now : UInt64) (ttl lease : Span)
    (hwon : (s.answer (.claim key now ttl lease)).1 = none) :
    (s.use (.call (.claim key now ttl lease))).Retains key (.ofClaim key now ttl lease) now := by
  intro _
  rcases s.answer_claim_cases key now ttl lease with ⟨e, -, -, ha⟩ | ⟨-, ha⟩
  · rw [ha] at hwon
    cases hwon
  · rw [use, ha]
    exact ⟨_, get?_put_self s _, rfl, rfl⟩

/-- Only a claim that is won and a release that deletes the record end the deadlines early. -/
theorem Retains.use (h : s.Retains key origin now) {u : Use} (hnow : now ≤ u.nowSecs)
    (hkept : ∀ a ∈ s.answers [u], a.wins key = false ∧ a.frees key = false) :
    (s.use u).Retains key origin u.nowSecs := by
  intro hlive
  obtain ⟨e, he, hsame⟩ := h (Entry.isLive_of_le hlive hnow)
  rw [← hsame.isLive_eq] at hlive
  cases u with
  | purge now => exact ⟨e, get?_purgeExpired_of_live he hlive, hsame⟩
  | call call =>
      obtain ⟨hwins, hfrees⟩ := hkept _ (s.mem_answers_call call [])
      by_cases hkey : key = call.key
      · cases call with
        | claim k now ttl lease =>
            obtain rfl : key = k := hkey
            rcases s.answer_claim_cases key now ttl lease with ⟨e', -, -, ha⟩ | ⟨-, ha⟩
            · exact ⟨e, by rw [Store.use, ha, he], hsame⟩
            · simp [ha, Answered.wins] at hwins
        | complete k status body now ttl =>
            obtain rfl : key = k := hkey
            exact ⟨_, get?_answer_complete_of_live he hlive status body ttl, hsame.1, hsame.2⟩
        | fetch k now => exact ⟨e, he, hsame⟩
        | release k now =>
            obtain rfl : key = k := hkey
            rcases s.answer_release_cases key now with ⟨e', -, -, ha⟩ | ha
            · simp [ha, Answered.frees] at hfrees
            · exact ⟨e, by rw [Store.use, ha, he], hsame⟩
      · exact ⟨e, (get?_answer_of_ne hkey).trans he, hsame⟩

theorem Retains.follow (h : s.Retains key origin now) {history : List Use}
    (hordered : history.Pairwise fun u v => u.nowSecs ≤ v.nowSecs)
    (hnow : ∀ u ∈ history, now ≤ u.nowSecs) {last : UInt64} (hle : now ≤ last)
    (hlast : ∀ u ∈ history, u.nowSecs ≤ last)
    (hkept : ∀ a ∈ s.answers history, a.wins key = false ∧ a.frees key = false) :
    (s.follow history).Retains key origin last := by
  induction history generalizing s now with
  | nil => exact fun hlive => h (Entry.isLive_of_le hlive hle)
  | cons u history ih =>
      obtain ⟨hfirst, hordered⟩ := List.pairwise_cons.mp hordered
      have hu : ∀ a ∈ s.answers [u], a.wins key = false ∧ a.frees key = false :=
        fun a ha => hkept a (s.answers_single_subset u history ha)
      exact ih (h.use (hnow u List.mem_cons_self) hu) hordered hfirst (hlast u List.mem_cons_self)
        (fun v hv => hlast v (List.mem_cons_of_mem u hv))
        (fun a ha => hkept a (s.answers_subset_cons u history ha))

/-- A key with an entry is only won when its lifetime is over, or its lease is and its record is
still processing. -/
theorem Retains.over_of_won (h : s.Retains key origin now) {ttl lease : Span}
    (hwon : (s.answer (.claim key now ttl lease)).1 = none) :
    origin.isLive now = false ∨ origin.leaseUntil ≤ now ∧
      ∃ record, (s.answer (.fetch key now)).1 = some record ∧ record.isProcessing = true := by
  cases hlive : origin.isLive now with
  | false => exact .inl rfl
  | true =>
      obtain ⟨e, he, hsame⟩ := h hlive
      rw [← hsame.isLive_eq] at hlive
      have hfree : e.isHeld now = false := by
        rw [← Bool.not_eq_true]
        intro hheld
        rw [answer_claim_of_held he hheld] at hwon
        cases hwon
      have hover : e.record.isProcessing = true ∧ ¬ now < e.leaseUntil := by
        simpa [Entry.isHeld, hlive] using hfree
      rw [hsame.leaseUntil, UInt64.not_lt] at hover
      exact .inr ⟨hover.2, e.record, by rw [answer_fetch_of_live he hlive], hover.1⟩

/-- Whatever is done with a store, two claims on a key are only both won, with none won in between,
if the record has been deleted meanwhile, its lifetime is over, or its lease is over and there is no
response. A claim that is refused is answered the record that can be read at its time. -/
theorem claims_exclude (s : Store) {history : List Use}
    (hordered : history.Pairwise fun u v => u.nowSecs ≤ v.nowSecs)
    (hrange : ∀ u ∈ history, u.nowSecs.toNat < UInt64.size - 1) :
    (∀ before between after key t t' ttl ttl' lease lease',
        history = before ++ .call (.claim key t ttl lease) ::
          (between ++ .call (.claim key t' ttl' lease') :: after) →
        let first := s.follow before
        let middle := first.use (.call (.claim key t ttl lease))
        let second := middle.follow between
        (first.answer (.claim key t ttl lease)).1 = none →
        (second.answer (.claim key t' ttl' lease')).1 = none →
        (∀ a ∈ middle.answers between, a.wins key = false) →
        (∃ a ∈ middle.answers between, a.frees key = true) ∨
          t.toNat + (lifetimeSecs ttl).toNat ≤ t'.toNat ∨
          t.toNat + (lifetimeSecs lease).toNat ≤ t'.toNat ∧
            ∃ record, (second.answer (.fetch key t')).1 = some record ∧
              record.status = processingStatus) ∧
      ∀ before after key now ttl lease record,
        history = before ++ .call (.claim key now ttl lease) :: after →
        ((s.follow before).answer (.claim key now ttl lease)).1 = some record →
        ((s.follow before).answer (.fetch key now)).1 = some record := by
  constructor
  · intro before between after key t t' ttl ttl' lease lease' hhistory first middle second hwon
      hagain hkept
    by_cases hfreed : ∃ a ∈ middle.answers between, a.frees key = true
    · exact .inl hfreed
    right
    have hquiet : ∀ a ∈ middle.answers between, a.wins key = false ∧ a.frees key = false :=
      fun a ha => ⟨hkept a ha, Bool.eq_false_iff.mpr fun hfrees => hfreed ⟨a, ha, hfrees⟩⟩
    have hrange : t'.toNat < UInt64.size - 1 :=
      hrange (.call (.claim key t' ttl' lease')) (by simp [hhistory])
    rw [hhistory] at hordered
    obtain ⟨-, hordered, -⟩ := List.pairwise_append.mp hordered
    obtain ⟨hfrom, hordered⟩ := List.pairwise_cons.mp hordered
    obtain ⟨hbetween, -, hto⟩ := List.pairwise_append.mp hordered
    have hretains : second.Retains key (.ofClaim key t ttl lease) t' :=
      (first.retains_claim key t ttl lease hwon).follow hbetween
        (fun u hu => hfrom u (List.mem_append_left _ hu)) (hfrom _ List.mem_append_cons_self)
        (fun u hu => hto u hu _ List.mem_cons_self) hquiet
    rcases hretains.over_of_won hagain with hover | ⟨hlease, record, hfetch, hprocessing⟩
    · exact .inl (Entry.le_of_isLive_ofClaim_eq_false hrange hover)
    · have hlease := mt (lt_addClamped_iff hrange).mpr (UInt64.not_lt.mpr hlease)
      exact .inr ⟨Nat.le_of_not_lt hlease, record, hfetch, beq_iff_eq.mp hprocessing⟩
  · intro before after key now ttl lease record _ hanswer
    rcases (s.follow before).answer_claim_cases key now ttl lease with ⟨e, he, hheld, ha⟩ | ⟨-, ha⟩
    · rw [ha] at hanswer
      rw [answer_fetch_of_live he (Entry.isLive_of_isHeld hheld)]
      exact hanswer
    · rw [ha] at hanswer
      cases hanswer

/-- A claim that is refused in the last second of the lease, and one that is won in the next. -/
def takeoverHistory : List Use :=
  [.call (.claim "k" 100 (.ofSecs 50) (.ofSecs 10)), .purge 105, .call (.release "j" 105),
    .call (.claim "k" 109 (.ofSecs 50) (.ofSecs 10)),
    .call (.claim "k" 110 (.ofSecs 50) (.ofSecs 0))]

theorem claims_exclude_takeoverHistory :
    takeoverHistory.Pairwise (fun u v => u.nowSecs ≤ v.nowSecs) ∧
      (∀ u ∈ takeoverHistory, u.nowSecs.toNat < UInt64.size - 1) ∧
      ((empty.follow (takeoverHistory.take 4)).answer
        (.claim "k" 110 (.ofSecs 50) (.ofSecs 0))).1 = none ∧
      (100 + 10 ≤ 110 ∧ ∃ record,
        ((empty.follow (takeoverHistory.take 4)).answer (.fetch "k" 110)).1 = some record ∧
          record.status = processingStatus) ∧
      ((empty.follow (takeoverHistory.take 3)).answer (.fetch "k" 109)).1 =
        some (.processing "k" 100) := by
  have hordered : takeoverHistory.Pairwise fun u v => u.nowSecs ≤ v.nowSecs := by decide +kernel
  have hrange : ∀ u ∈ takeoverHistory, u.nowSecs.toNat < UInt64.size - 1 := by decide +kernel
  have hagain : ((empty.follow (takeoverHistory.take 4)).answer
      (.claim "k" 110 (.ofSecs 50) (.ofSecs 0))).1 = none := by decide +kernel
  obtain ⟨hexclude, hread⟩ := empty.claims_exclude hordered hrange
  have hover := hexclude [] _ [] "k" 100 110 (.ofSecs 50) (.ofSecs 50) (.ofSecs 10) (.ofSecs 0) rfl
    (by decide +kernel) hagain (by decide +kernel)
  have hnotFreed : ¬ ∃ a ∈ (empty.use (.call (.claim "k" 100 (.ofSecs 50) (.ofSecs 10)))).answers
      (takeoverHistory.take 4).tail, a.frees "k" = true := by decide +kernel
  refine ⟨hordered, hrange, hagain, ?_, ?_⟩
  · rcases hover with hfreed | hlifetime | hlease
    · exact absurd hfreed hnotFreed
    · exact absurd hlifetime (by decide +kernel)
    · exact hlease
  · exact hread (takeoverHistory.take 3) _ "k" 109 (.ofSecs 50) (.ofSecs 10) _ rfl
      (by decide +kernel)

end Store

end Admission.Record
