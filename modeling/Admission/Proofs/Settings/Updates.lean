import Admission.Session.Step
import Mathlib.Data.List.FinRange
import Mathlib.Data.List.Induction

/-! # Updates that are made at the same time

Calls of `update` on clones of one handle read and write the shared value in turns. Whatever the turns
are, the value is what some of the changes make of the first one, each applied whole and after those
before it. None of them is lost just if nobody writes between the two turns of a call. -/

namespace Admission

namespace Shared

variable {α : Type} {n : Nat}

/-- Calls on clones of one handle, the value that they share, and who has written it so far. -/
structure Calls (n : Nat) (α : Type) where
  shared : Shared α
  updates : Fin n → Update α
  writers : List (Fin n) := []

/-- Applies changes one after another. -/
def applyAll (changes : Fin n → α → α) (order : List (Fin n)) (value : α) : α :=
  order.foldl (fun value i => changes i value) value

@[simp] theorem applyAll_concat (changes : Fin n → α → α) (order : List (Fin n)) (i : Fin n)
    (value : α) : applyAll changes (order ++ [i]) value = changes i (applyAll changes order value) := by
  simp [applyAll]

namespace Calls

/-- Calls of which none has begun. -/
def start (value : α) (changes : Fin n → α → α) : Calls n α where
  shared := ⟨value⟩
  updates i := .pending (changes i)

/-- A call takes its next step. -/
def turn (c : Calls n α) (i : Fin n) : Calls n α where
  shared := ((c.updates i).step c.shared).2
  updates := Function.update c.updates i ((c.updates i).step c.shared).1
  writers :=
    match c.updates i with
    | .loaded _ _ => c.writers ++ [i]
    | _ => c.writers

def run (c : Calls n α) (turns : List (Fin n)) : Calls n α := turns.foldl turn c

@[simp] theorem run_concat (c : Calls n α) (turns : List (Fin n)) (i : Fin n) :
    c.run (turns ++ [i]) = (c.run turns).turn i := by
  simp [run]

/-! ## What a turn does -/

section Turn

variable {c : Calls n α} {i j : Fin n} {change : α → α} {seen : α}

theorem turn_of_pending (h : c.updates i = .pending change) :
    (c.turn i).shared = c.shared ∧ (c.turn i).writers = c.writers := by
  simp [turn, h, Update.step]

theorem turn_of_loaded (h : c.updates i = .loaded change seen) :
    (c.turn i).shared = ⟨change seen⟩ ∧ (c.turn i).writers = c.writers ++ [i] := by
  simp [turn, h, Update.step, set]

theorem length_writers_of_loaded (h : c.updates i = .loaded change seen) :
    (c.turn i).writers.length = c.writers.length + 1 := by
  simp [turn_of_loaded h]

theorem turn_of_stored (h : c.updates i = .stored) : c.turn i = c := by
  have hsame : Function.update c.updates i .stored = c.updates := by
    rw [← h, Function.update_eq_self]
  simp [turn, h, Update.step, hsame]

theorem updates_turn_self : (c.turn i).updates i = ((c.updates i).step c.shared).1 :=
  Function.update_self ..

theorem updates_turn_of_ne (h : j ≠ i) : (c.turn i).updates j = c.updates j :=
  Function.update_of_ne h ..

theorem pending_of_turn (h : (c.turn i).updates j = .pending change) :
    c.updates j = .pending change := by
  rcases eq_or_ne j i with rfl | hne
  · rw [updates_turn_self] at h
    cases hj : c.updates j <;> rw [hj] at h <;> cases h
  · rwa [updates_turn_of_ne hne] at h

/-- A call that has read the value did so earlier, or just now. -/
theorem loaded_of_turn (h : (c.turn i).updates j = .loaded change seen) :
    (c.updates j = .loaded change seen ∧ j ≠ i) ∨
      (j = i ∧ c.updates i = .pending change ∧ seen = c.shared.get) := by
  rcases eq_or_ne j i with rfl | hne
  · rw [updates_turn_self] at h
    cases hj : c.updates j <;> rw [hj] at h <;> cases h
    exact .inr ⟨rfl, rfl, rfl⟩
  · rw [updates_turn_of_ne hne] at h
    exact .inl ⟨h, hne⟩

theorem stored_turn_iff : (c.turn i).updates j = .stored ↔
    c.updates j = .stored ∨ j = i ∧ ∃ change seen, c.updates i = .loaded change seen := by
  rcases eq_or_ne j i with rfl | hne
  · rw [updates_turn_self]
    cases hj : c.updates j <;> simp [Update.step]
  · simp [updates_turn_of_ne hne, hne]

theorem writers_sublist_turn (c : Calls n α) (i : Fin n) : c.writers.Sublist (c.turn i).writers := by
  cases hi : c.updates i with
  | pending change => simp [turn_of_pending hi]
  | loaded change seen => simp [turn_of_loaded hi]
  | stored => rw [turn_of_stored hi]

end Turn

/-! ## Every run -/

/-- What holds whatever the turns are: all that anybody has read or written comes from changes of
writers, in the order in which they wrote, and the last one of them has not been lost. -/
structure Sound (value : α) (changes : Fin n → α → α) (c : Calls n α) : Prop where
  nodup : c.writers.Nodup
  mem_writers : ∀ i, i ∈ c.writers ↔ c.updates i = .stored
  pending : ∀ i change, c.updates i = .pending change → change = changes i
  loaded : ∀ i change seen, c.updates i = .loaded change seen → change = changes i ∧
    ∃ kept : List (Fin n), kept.Sublist c.writers ∧ seen = applyAll changes kept value
  shared : ∃ kept : List (Fin n), kept.Sublist c.writers ∧
    kept.getLast? = c.writers.getLast? ∧ c.shared.get = applyAll changes kept value

variable {value : α} {changes : Fin n → α → α} {c : Calls n α}

theorem sound_start (value : α) (changes : Fin n → α → α) :
    (start value changes).Sound value changes where
  nodup := List.nodup_nil
  mem_writers i := by simp [start]
  pending i change h := (Update.pending.inj h).symm
  loaded i change seen h := by cases h
  shared := ⟨[], .refl _, rfl, rfl⟩

theorem Sound.turn (hc : c.Sound value changes) (i : Fin n) : (c.turn i).Sound value changes where
  nodup := by
    cases hi : c.updates i with
    | pending change => simpa [turn_of_pending hi] using hc.nodup
    | loaded change seen =>
        have hnew : i ∉ c.writers := by simp [hc.mem_writers, hi]
        rw [(turn_of_loaded hi).2, ← List.concat_eq_append]
        exact hc.nodup.concat hnew
    | stored => simpa [turn_of_stored hi] using hc.nodup
  mem_writers j := by
    cases hi : c.updates i with
    | pending change => simp [turn_of_pending hi, stored_turn_iff, hc.mem_writers, hi]
    | loaded change seen => simp [turn_of_loaded hi, stored_turn_iff, hc.mem_writers, hi]
    | stored => simpa [turn_of_stored hi] using hc.mem_writers j
  pending j change hj := hc.pending j change (pending_of_turn hj)
  loaded j change seen hj := by
    rcases loaded_of_turn hj with ⟨hold, -⟩ | ⟨rfl, hpending, rfl⟩
    · obtain ⟨hchange, kept, hkept, hseen⟩ := hc.loaded j change seen hold
      exact ⟨hchange, kept, hkept.trans (c.writers_sublist_turn i), hseen⟩
    · obtain ⟨kept, hkept, -, hshared⟩ := hc.shared
      exact ⟨hc.pending j change hpending, kept, hkept.trans (c.writers_sublist_turn j), hshared⟩
  shared := by
    cases hi : c.updates i with
    | pending change => simpa [turn_of_pending hi] using hc.shared
    | loaded change seen =>
        obtain ⟨rfl, kept, hkept, rfl⟩ := hc.loaded i change seen hi
        rw [(turn_of_loaded hi).1, (turn_of_loaded hi).2]
        exact ⟨kept ++ [i], hkept.append_right [i], by simp, (applyAll_concat ..).symm⟩
    | stored => simpa [turn_of_stored hi] using hc.shared

theorem sound_run (value : α) (changes : Fin n → α → α) (turns : List (Fin n)) :
    ((start value changes).run turns).Sound value changes := by
  induction turns using List.reverseRecOn with
  | nil => exact sound_start value changes
  | append_singleton turns i ih =>
      rw [run_concat]
      exact ih.turn i

/-! ## Turns -/

/-- Where a call stands that has had so many turns. -/
def Stands (change : α → α) : Nat → Update α → Prop
  | 0, update => update = .pending change
  | 1, update => ∃ seen, update = .loaded change seen
  | _, update => update = .stored

theorem Stands.step {change : α → α} {k : Nat} {update : Update α} (h : Stands change k update)
    (s : Shared α) : Stands change (k + 1) (update.step s).1 := by
  match k with
  | 0 =>
      cases (h : update = .pending change)
      exact ⟨_, rfl⟩
  | 1 =>
      obtain ⟨seen, rfl⟩ := h
      rfl
  | _ + 2 =>
      cases (h : update = .stored)
      rfl

theorem Stands.exists_loaded_iff {change : α → α} {k : Nat} {update : Update α}
    (h : Stands change k update) : (∃ change' seen, update = .loaded change' seen) ↔ k = 1 := by
  match k with
  | 0 =>
      cases (h : update = .pending change)
      simp
  | 1 =>
      obtain ⟨seen, rfl⟩ := h
      simp
  | _ + 2 =>
      cases (h : update = .stored)
      simp

theorem stands_run (value : α) (changes : Fin n → α → α) (turns : List (Fin n)) (i : Fin n) :
    Stands (changes i) (turns.count i) (((start value changes).run turns).updates i) := by
  induction turns using List.reverseRecOn with
  | nil => rfl
  | append_singleton turns j ih =>
      rw [run_concat]
      rcases eq_or_ne i j with rfl | hne
      · rw [updates_turn_self, List.count_append, List.count_singleton_self]
        exact ih.step _
      · have hcount : (turns ++ [j]).count i = turns.count i := by
          simp [hne.symm]
        rw [updates_turn_of_ne hne, hcount]
        exact ih

/-- Every call has had its two turns. -/
def Complete (turns : List (Fin n)) : Prop := ∀ i, 2 ≤ turns.count i

instance (turns : List (Fin n)) : Decidable (Complete turns) :=
  inferInstanceAs (Decidable (∀ i, 2 ≤ turns.count i))

/-- When a call writes, no other call has read and not written yet. -/
def Undisturbed (turns : List (Fin n)) : Prop :=
  ∀ before i, before ++ [i] <+: turns → before.count i = 1 → ∀ j, before.count j = 1 → j = i

theorem undisturbed_concat_iff {turns : List (Fin n)} {i : Fin n} :
    Undisturbed (turns ++ [i]) ↔
      Undisturbed turns ∧ (turns.count i = 1 → ∀ j, turns.count j = 1 → j = i) := by
  constructor
  · intro h
    refine ⟨fun before j hbefore => ?_, h turns i (List.prefix_refl _)⟩
    exact h before j (hbefore.trans (List.prefix_append _ _))
  · rintro ⟨hturns, hlast⟩ before j hbefore
    rcases List.prefix_concat_iff.mp hbefore with hsame | hshorter
    · obtain ⟨rfl, hj⟩ := List.append_inj' hsame rfl
      cases hj
      exact hlast
    · exact hturns before j hshorter

theorem stored_of_complete {turns : List (Fin n)} (hturns : Complete turns) (i : Fin n) :
    ((start value changes).run turns).updates i = .stored := by
  have hstands := stands_run value changes turns i
  obtain ⟨k, hk⟩ := Nat.exists_eq_add_of_le' (hturns i)
  rwa [hk] at hstands

theorem exists_loaded_iff {turns : List (Fin n)} {i : Fin n} :
    (∃ change seen, ((start value changes).run turns).updates i = .loaded change seen) ↔
      turns.count i = 1 :=
  (stands_run value changes turns i).exists_loaded_iff

/-- In the end everybody has written once. -/
theorem perm_writers (value : α) (changes : Fin n → α → α) {turns : List (Fin n)}
    (hturns : Complete turns) :
    ((start value changes).run turns).writers.Perm (List.finRange n) := by
  have hsound := sound_run value changes turns
  refine (List.perm_ext_iff_of_nodup hsound.nodup (List.nodup_finRange n)).mpr fun i => ?_
  simp [hsound.mem_writers, stored_of_complete hturns i]

/-! ## Undisturbed turns keep every update -/

/-- Nothing is lost: the value is what all writers have made of it, and nobody has read an older one. -/
structure Steady (value : α) (changes : Fin n → α → α) (c : Calls n α) : Prop where
  shared : c.shared.get = applyAll changes c.writers value
  loaded : ∀ i change seen, c.updates i = .loaded change seen → seen = c.shared.get

theorem Steady.turn (hc : c.Steady value changes) (hsound : c.Sound value changes) {i : Fin n}
    (halone : ∀ change seen, c.updates i = .loaded change seen →
      ∀ j change' seen', c.updates j = .loaded change' seen' → j = i) :
    (c.turn i).Steady value changes := by
  cases hi : c.updates i with
  | pending change =>
      obtain ⟨hshared, hwriters⟩ := turn_of_pending hi
      refine ⟨by rw [hshared, hwriters, hc.shared], fun j change' seen' hj => ?_⟩
      rw [hshared]
      rcases loaded_of_turn hj with ⟨hold, -⟩ | ⟨-, -, hseen⟩
      · exact hc.loaded j change' seen' hold
      · exact hseen
  | loaded change seen =>
      obtain ⟨hshared, hwriters⟩ := turn_of_loaded hi
      refine ⟨?_, fun j change' seen' hj => ?_⟩
      · rw [hshared, hwriters, applyAll_concat, ← hc.shared, ← hc.loaded i change seen hi,
          (hsound.loaded i change seen hi).1]
        rfl
      · rcases loaded_of_turn hj with ⟨hold, hne⟩ | ⟨-, hpending, -⟩
        · exact absurd (halone change seen hi j change' seen' hold) hne
        · rw [hi] at hpending
          cases hpending
  | stored => rwa [turn_of_stored hi]

theorem steady_run (value : α) (changes : Fin n → α → α) {turns : List (Fin n)}
    (hturns : Undisturbed turns) : ((start value changes).run turns).Steady value changes := by
  induction turns using List.reverseRecOn with
  | nil => exact ⟨rfl, fun i change seen h => by cases h⟩
  | append_singleton turns i ih =>
      obtain ⟨hearlier, halone⟩ := undisturbed_concat_iff.mp hturns
      rw [run_concat]
      refine (ih hearlier).turn (sound_run value changes turns) ?_
      intro change seen hi j change' seen' hj
      exact halone (exists_loaded_iff.mp ⟨change, seen, hi⟩) j
        (exists_loaded_iff.mp ⟨change', seen', hj⟩)

/-! ## Disturbed turns lose an update

A shared counter that every call increments falls behind its writers as soon as one of them has read a
value that is not the present one any more. -/

def increment (_ : Fin n) (count : Nat) : Nat := count + 1

theorem applyAll_increment (order : List (Fin n)) (count : Nat) :
    applyAll increment order count = count + order.length := by
  induction order using List.reverseRecOn with
  | nil => rfl
  | append_singleton order i ih =>
      rw [applyAll_concat, ih, List.length_append]
      rfl

/-- The counter counts less than the writers, and so do all the values that have been read. -/
structure Behind (c : Calls n Nat) : Prop where
  shared : c.shared.get < c.writers.length
  loaded : ∀ i change seen, c.updates i = .loaded change seen → seen < c.writers.length

/-- A call has read less than there are writers by now. -/
def Overtaken (c : Calls n Nat) : Prop :=
  ∃ i change seen, c.updates i = .loaded change seen ∧ seen < c.writers.length

def Lossy (c : Calls n Nat) : Prop := c.Behind ∨ c.Overtaken

section Counter

variable {c : Calls n Nat}

theorem Sound.seen_le (hc : c.Sound 0 increment) {i : Fin n} {change : Nat → Nat} {seen : Nat}
    (hi : c.updates i = .loaded change seen) : seen ≤ c.writers.length := by
  obtain ⟨-, kept, hkept, rfl⟩ := hc.loaded i change seen hi
  rw [applyAll_increment, Nat.zero_add]
  exact hkept.length_le

/-- A call that has read an old value writes another one that is too small. -/
theorem Sound.behind_of_writes (hc : c.Sound 0 increment) {i : Fin n} {change : Nat → Nat} {seen : Nat}
    (hi : c.updates i = .loaded change seen) (hseen : seen < c.writers.length) : (c.turn i).Behind := by
  have hlength := length_writers_of_loaded hi
  refine ⟨?_, fun j change' seen' hj => ?_⟩
  · rw [hlength, (turn_of_loaded hi).1, (hc.loaded i change seen hi).1]
    exact Nat.succ_lt_succ hseen
  · rw [hlength]
    rcases loaded_of_turn hj with ⟨hold, -⟩ | ⟨-, hpending, -⟩
    · exact Nat.lt_succ_of_le (hc.seen_le hold)
    · rw [hi] at hpending
      cases hpending

/-- Whoever has read before another call writes has read an old value then. -/
theorem Sound.overtaken_of_writes (hc : c.Sound 0 increment) {i j : Fin n}
    {change change' : Nat → Nat} {seen seen' : Nat} (hi : c.updates i = .loaded change seen)
    (hj : c.updates j = .loaded change' seen') (hne : j ≠ i) : (c.turn i).Overtaken := by
  refine ⟨j, change', seen', ?_, ?_⟩
  · rwa [updates_turn_of_ne hne]
  · rw [length_writers_of_loaded hi]
    exact Nat.lt_succ_of_le (hc.seen_le hj)

theorem Lossy.turn (hc : c.Lossy) (hsound : c.Sound 0 increment) (i : Fin n) : (c.turn i).Lossy := by
  cases hi : c.updates i with
  | pending change =>
      obtain ⟨hshared, hwriters⟩ := turn_of_pending hi
      rcases hc with ⟨hbehind, hloaded⟩ | ⟨j, change', seen, hj, hseen⟩
      · refine .inl ⟨by rwa [hshared, hwriters], fun j change' seen hj => ?_⟩
        rw [hwriters]
        rcases loaded_of_turn hj with ⟨hold, -⟩ | ⟨-, -, rfl⟩
        · exact hloaded j change' seen hold
        · exact hbehind
      · have hne : j ≠ i := by
          rintro rfl
          rw [hi] at hj
          cases hj
        refine .inr ⟨j, change', seen, ?_, ?_⟩
        · rwa [updates_turn_of_ne hne]
        · rwa [hwriters]
  | loaded change seen =>
      by_cases hseen : seen < c.writers.length
      · exact .inl (hsound.behind_of_writes hi hseen)
      · rcases hc with ⟨-, hloaded⟩ | ⟨j, change', seen', hj, hseen'⟩
        · exact absurd (hloaded i change seen hi) hseen
        · have hne : j ≠ i := by
            rintro rfl
            rw [hi] at hj
            cases hj
            exact hseen hseen'
          exact .inr (hsound.overtaken_of_writes hi hj hne)
  | stored => rwa [turn_of_stored hi]

theorem lossy_run {turns : List (Fin n)} (hturns : ¬ Undisturbed turns) :
    ((start 0 increment).run turns).Lossy := by
  induction turns using List.reverseRecOn with
  | nil =>
      refine absurd (fun before i hbefore => ?_) hturns
      simp at hbefore
  | append_singleton turns i ih =>
      have hsound := sound_run 0 increment turns
      rw [run_concat]
      by_cases hearlier : Undisturbed turns
      · -- The turn itself is the first that comes between those of another call.
        have hnow : ¬ (turns.count i = 1 → ∀ j, turns.count j = 1 → j = i) :=
          fun halone => hturns (undisturbed_concat_iff.mpr ⟨hearlier, halone⟩)
        push Not at hnow
        obtain ⟨hi, j, hj, hne⟩ := hnow
        obtain ⟨change, seen, hiloaded⟩ := exists_loaded_iff.mpr hi
        obtain ⟨change', seen', hjloaded⟩ := exists_loaded_iff.mpr hj
        exact .inr (hsound.overtaken_of_writes hiloaded hjloaded hne)
      · exact (ih hearlier).turn hsound i

end Counter

/-! ## Which updates are kept -/

/-- Whatever the turns are, the value is what some of the changes make of the first one, in the order in
which their calls have written. A change is applied whole or lost, and the last one is not lost. -/
theorem exists_kept_of_complete {turns : List (Fin n)} (hturns : Complete turns) (value : α)
    (changes : Fin n → α → α) :
    ∃ order kept : List (Fin n), order.Perm (List.finRange n) ∧ kept.Sublist order ∧
      kept.getLast? = order.getLast? ∧
      ((start value changes).run turns).shared.get = applyAll changes kept value := by
  obtain ⟨kept, hkept, hlast, hshared⟩ := (sound_run value changes turns).shared
  exact ⟨_, kept, perm_writers value changes hturns, hkept, hlast, hshared⟩

/-- No update is ever lost, whatever the changes are, just if no call writes between the two turns of
another one. -/
theorem kept_iff_undisturbed {turns : List (Fin n)} (hturns : Complete turns) :
    (∀ (α : Type) (value : α) (changes : Fin n → α → α), ∃ order : List (Fin n),
      order.Perm (List.finRange n) ∧
        ((start value changes).run turns).shared.get = applyAll changes order value) ↔
      Undisturbed turns := by
  constructor
  · intro hkept
    by_contra hdisturbed
    obtain ⟨order, hperm, hshared⟩ := hkept Nat 0 increment
    have hwriters := (perm_writers 0 increment hturns).length_eq
    rcases lossy_run hdisturbed with hbehind | ⟨i, change, seen, hi, -⟩
    · have hlt := hbehind.shared
      rw [hshared, applyAll_increment, hwriters, hperm.length_eq, Nat.zero_add] at hlt
      exact absurd hlt (Nat.lt_irrefl _)
    · rw [stored_of_complete hturns i] at hi
      cases hi
  · intro hundisturbed α value changes
    exact ⟨_, perm_writers value changes hturns, (steady_run value changes hundisturbed).shared⟩

/-- Both calls have read the value before either writes it. -/
def racingTurns : List (Fin 2) := [0, 1, 0, 1]

theorem kept_iff_undisturbed_racingTurns :
    Complete racingTurns ∧
      ¬ ∀ (α : Type) (value : α) (changes : Fin 2 → α → α), ∃ order : List (Fin 2),
        order.Perm (List.finRange 2) ∧
          ((start value changes).run racingTurns).shared.get = applyAll changes order value := by
  have hcomplete : Complete racingTurns := by decide
  have hdisturbed : ¬ Undisturbed racingTurns := fun h =>
    absurd (h [0, 1] 0 ⟨[1], rfl⟩ (by decide) 1 (by decide)) (by decide)
  exact ⟨hcomplete, (kept_iff_undisturbed hcomplete).not.mpr hdisturbed⟩

/-- One call switches the limits off, the other one sets a time limit. -/
def racingChanges : Fin 2 → Settings → Settings
  | 0 => World.changedSettings (some false) none false
  | 1 => World.changedSettings none (some 7) false

/-- The limits are on in the end, although one call has switched them off and none has switched them
on. -/
theorem lost_of_racingTurns :
    Complete racingTurns ∧ ∀ order : List (Fin 2), order.Perm (List.finRange 2) →
      ((start {} racingChanges).run racingTurns).shared.get ≠ applyAll racingChanges order {} := by
  refine ⟨by decide, fun order hperm => ?_⟩
  obtain ⟨i, j, rfl⟩ := List.length_eq_two.mp (hperm.length_eq.trans List.length_finRange)
  revert i j
  decide

end Calls

end Shared

end Admission
