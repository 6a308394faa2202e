import Mathlib.Data.Int.Cast.Basic
import Mathlib.Data.Int.Order.Basic
import Admission.Proofs.Bucket.Refill

/-! # Refilling in unbounded integers

A refill computes in words of three widths. It multiplies, adds and divides, narrows a count, and clamps
a time and the sum of two. Nothing of that is ever felt: the refill is the one of unbounded integers, in
which only a clock that stands behind the last refill counts as if it stood there. On clocks that
disagree, the time of the last refill therefore moves neither back nor past the latest of them. -/

namespace Admission.Bucket

/-! ## Checked steps -/

namespace Checked

def mul? (a b : Wide) : Option Wide := if a.umulOverflow b then none else some (a * b)

def add? (a b : Wide) : Option Wide := if a.uaddOverflow b then none else some (a + b)

def div? (a b : Wide) : Option Wide := if b = 0 then none else some (a / b)

/-- The count, unless it is too large for one. -/
def narrowCount? (w : Wide) : Option UInt32 :=
  if w.toNat < UInt32.size then some (narrowCount w) else none

/-- The time, unless it would have to be clamped. -/
def narrowTime? (w : Wide) : Option UInt64 :=
  if w.toNat < UInt64.size then some (narrowTime w) else none

/-- The sum, unless it would have to be clamped. -/
def later? (a b : UInt64) : Option UInt64 :=
  if a.toNat + b.toNat < UInt64.size then some (a + b) else none

variable {a b : Wide}

theorem mul?_of_lt (h : a.toNat * b.toNat < 2 ^ 128) : mul? a b = some (a * b) := by
  rw [mul?, BitVec.umulOverflow, decide_eq_false (Nat.not_le_of_lt h), if_neg Bool.false_ne_true]

theorem add?_of_lt (h : a.toNat + b.toNat < 2 ^ 128) : add? a b = some (a + b) := by
  rw [add?, BitVec.uaddOverflow, decide_eq_false (Nat.not_le_of_lt h), if_neg Bool.false_ne_true]

theorem div?_of_ne (h : b ≠ 0) : div? a b = some (a / b) := if_neg h

theorem narrowCount?_of_lt (h : a.toNat < 2 ^ 32) : narrowCount? a = some (narrowCount a) :=
  if_pos h

theorem narrowTime?_of_lt (h : a.toNat < 2 ^ 64) : narrowTime? a = some (narrowTime a) :=
  if_pos h

theorem later?_of_lt {t u : UInt64} (h : t.toNat + u.toNat < 2 ^ 64) :
    later? t u = some (Word.addClamped t u) := by
  have hsum : t + u = Word.addClamped t u := by
    rw [← UInt64.toNat_inj, Word.toNat_addClamped, UInt64.toNat_add, Nat.mod_eq_of_lt h]
    simp only [UInt64.size]
    omega
  rw [← hsum]
  exact if_pos h

end Checked

open Checked

/-- The refill with a check on every step: no result may leave the range of its words, nothing may be
divided by zero, no number may lose digits when it is narrowed, and no time may have to be clamped. -/
def refill? (prior : Option State) (capacity rate : UInt32) (nowMs : UInt64) : Option State :=
  match prior with
  | none => some (.full capacity nowMs)
  | some s => do
    let tokens := min s.tokens capacity
    let elapsed := wideTime (Word.subClamped nowMs s.lastRefillMs)
    let product ← mul? elapsed (wideCount rate)
    let credited ← div? product 60000
    if credited = 0 then some { s with tokens := tokens }
    else do
      let total ← add? (wideCount tokens) credited
      if wideCount capacity ≤ total then some (.full capacity nowMs)
      else do
        let product ← mul? credited 60000
        let creditedMs ← div? product (wideCount rate)
        let shift ← narrowTime? creditedMs
        let tokens ← narrowCount? total
        let lastRefillMs ← later? s.lastRefillMs shift
        some ⟨tokens, lastRefillMs⟩

/-! ### No check fails -/

section Checks

variable {s : State} {capacity rate : UInt32} {nowMs : UInt64}

theorem mul?_elapsed (s : State) (rate : UInt32) (nowMs : UInt64) :
    mul? (wideTime (Word.subClamped nowMs s.lastRefillMs)) (wideCount rate) =
      some (wideTime (Word.subClamped nowMs s.lastRefillMs) * wideCount rate) := by
  have hproduct := time_mul_count_lt (Word.subClamped nowMs s.lastRefillMs) rate
  apply mul?_of_lt
  rw [toNat_wideTime, toNat_wideCount]
  omega

theorem div?_minute (s : State) (rate : UInt32) (nowMs : UInt64) :
    div? (wideTime (Word.subClamped nowMs s.lastRefillMs) * wideCount rate) 60000 =
      some (credited s rate nowMs) := by
  apply div?_of_ne
  decide

theorem add?_credited (s : State) (capacity rate : UInt32) (nowMs : UInt64) :
    add? (wideCount (min s.tokens capacity)) (credited s rate nowMs) =
      some (total s capacity rate nowMs) := by
  have hcapacity := capacity.toNat_lt
  have hearned := earned_lt s rate nowMs
  apply add?_of_lt
  rw [toNat_credited, toNat_wideCount, toNat_min32]
  omega

theorem mul?_credited (s : State) (rate : UInt32) (nowMs : UInt64) :
    mul? (credited s rate nowMs) 60000 = some (credited s rate nowMs * 60000) := by
  have hearned := earned_lt s rate nowMs
  apply mul?_of_lt
  rw [toNat_credited]
  change _ * 60000 < _
  omega

/-- Only a rate of zero could not be divided by, and it earns nothing. -/
theorem div?_rate (hpos : 0 < earned (nowMs.toNat - s.lastRefillMs.toNat) rate.toNat) :
    div? (credited s rate nowMs * 60000) (wideCount rate) = some (creditedMs s rate nowMs) := by
  apply div?_of_ne
  intro hzero
  have hrate := congrArg BitVec.toNat hzero
  rw [toNat_wideCount] at hrate
  exact (rate_pos_of_earned hpos).ne' hrate

/-- The credited tokens stand for time that has passed. -/
theorem narrowTime?_creditedMs
    (hpos : 0 < earned (nowMs.toNat - s.lastRefillMs.toNat) rate.toNat) :
    narrowTime? (creditedMs s rate nowMs) = some (narrowTime (creditedMs s rate nowMs)) := by
  have hms := earned_mul_div_le (nowMs.toNat - s.lastRefillMs.toNat) (rate_pos_of_earned hpos)
  have hnow := nowMs.toNat_lt
  apply narrowTime?_of_lt
  rw [toNat_creditedMs]
  omega

theorem later?_creditedMs (hpos : 0 < earned (nowMs.toNat - s.lastRefillMs.toNat) rate.toNat) :
    later? s.lastRefillMs (narrowTime (creditedMs s rate nowMs)) =
      some (Word.addClamped s.lastRefillMs (narrowTime (creditedMs s rate nowMs))) := by
  have hms := earned_mul_div_le (nowMs.toNat - s.lastRefillMs.toNat) (rate_pos_of_earned hpos)
  have hnow := nowMs.toNat_lt
  have hlast := s.lastRefillMs.toNat_lt
  apply later?_of_lt
  rw [narrowTime, Word.toNat_ofNatClamp, toNat_creditedMs]
  omega

theorem narrowCount?_total (h : ¬ wideCount capacity ≤ total s capacity rate nowMs) :
    narrowCount? (total s capacity rate nowMs) =
      some (narrowCount (total s capacity rate nowMs)) := by
  have hcapacity := capacity.toNat_lt
  rw [BitVec.le_def, toNat_wideCount] at h
  apply narrowCount?_of_lt
  omega

end Checks

theorem refill?_eq (prior : Option State) (capacity rate : UInt32) (nowMs : UInt64) :
    refill? prior capacity rate nowMs = some (refill prior capacity rate nowMs) := by
  cases prior with
  | none => rfl
  | some s =>
      simp only [refill?, mul?_elapsed, div?_minute, add?_credited, mul?_credited,
        Option.bind_eq_bind, Option.bind_some]
      rw [refill_some]
      by_cases hzero : credited s rate nowMs = 0
      · rw [if_pos hzero, if_pos hzero]
      · have hpos := Nat.pos_of_ne_zero (credited_eq_zero_iff.not.mp hzero)
        rw [if_neg hzero, if_neg hzero]
        by_cases hfull : wideCount capacity ≤ total s capacity rate nowMs
        · rw [if_pos hfull, if_pos hfull]
        · rw [if_neg hfull, if_neg hfull, div?_rate hpos, Option.bind_some,
            narrowTime?_creditedMs hpos, Option.bind_some, narrowCount?_total hfull,
            Option.bind_some, later?_creditedMs hpos, Option.bind_some]

/-! ## Unbounded integers -/

/-- What a bucket holds, in integers of any size. -/
structure Ideal where
  tokens : ℤ
  lastRefillMs : ℤ
deriving DecidableEq

namespace Ideal

def full (capacity nowMs : ℤ) : Ideal := ⟨capacity, nowMs⟩

/-- The refill, where no number is too large. -/
def refill (prior : Option Ideal) (capacity rate nowMs : ℤ) : Ideal :=
  match prior with
  | none => full capacity nowMs
  | some s =>
    let tokens := min s.tokens capacity
    let credited := max 0 (nowMs - s.lastRefillMs) * rate / 60000
    if credited = 0 then { s with tokens := tokens }
    else if capacity ≤ tokens + credited then full capacity nowMs
    else ⟨tokens + credited, s.lastRefillMs + credited * 60000 / rate⟩

end Ideal

def State.ideal (s : State) : Ideal := ⟨s.tokens.toNat, s.lastRefillMs.toNat⟩

theorem intCast_earned (nowMs lastRefillMs rate : ℕ) :
    max 0 ((nowMs : ℤ) - lastRefillMs) * rate / 60000 = (earned (nowMs - lastRefillMs) rate : ℤ) := by
  have helapsed : max 0 ((nowMs : ℤ) - lastRefillMs) = ((nowMs - lastRefillMs : ℕ) : ℤ) := by omega
  rw [helapsed, earned]
  push_cast
  rfl

/-- The words of a bucket are never too narrow. -/
theorem ideal_refill (prior : Option State) (capacity rate : UInt32) (nowMs : UInt64) :
    (refill prior capacity rate nowMs).ideal =
      Ideal.refill (prior.map State.ideal) capacity.toNat rate.toNat nowMs.toNat := by
  cases prior with
  | none => rfl
  | some s =>
      simp only [Option.map_some, Ideal.refill, State.ideal, intCast_earned]
      obtain ⟨hzero, hnext⟩ | ⟨hpos, hfull, hnext⟩ | ⟨hpos, hlt, htokens, hlast⟩ :=
        refill_cases s capacity rate nowMs
      · rw [hnext, hzero, toNat_min32]
        simp only [Int.natCast_zero, if_true, Ideal.mk.injEq, and_true]
        omega
      · rw [hnext, if_neg (by omega), if_pos (by omega)]
        rfl
      · rw [htokens, hlast, if_neg (by omega), if_neg (by omega)]
        simp only [Ideal.mk.injEq]
        push_cast
        omega

/-! ## Clocks that disagree -/

section Clocks

variable (s : State) (capacity rate : UInt32) (nowMs : UInt64)

theorem le_lastRefillMs_refill :
    s.lastRefillMs ≤ (refill (some s) capacity rate nowMs).lastRefillMs := by
  rw [UInt64.le_iff_toNat_le]
  obtain ⟨-, hnext⟩ | ⟨hpos, -, hnext⟩ | ⟨-, -, -, hlast⟩ := refill_cases s capacity rate nowMs
  · rw [hnext]
  · -- Only a clock that stands past the last refill earns anything.
    have hlater := ms_pos_of_earned hpos
    rw [hnext]
    change s.lastRefillMs.toNat ≤ nowMs.toNat
    omega
  · rw [hlast]
    exact Nat.le_add_right _ _

/-- A clock that stands behind the last refill leaves its time alone, and any other one may pull it up
to itself. -/
theorem lastRefillMs_refill_le_max :
    (refill (some s) capacity rate nowMs).lastRefillMs ≤ max s.lastRefillMs nowMs := by
  rw [UInt64.le_iff_toNat_le, toNat_max64]
  rcases Nat.le_total s.lastRefillMs.toNat nowMs.toNat with hle | hle
  · have hclock : (refill (some s) capacity rate nowMs).lastRefillMs ≤ nowMs :=
      lastRefillMs_refill_le (UInt64.le_iff_toNat_le.mpr hle)
    rw [UInt64.le_iff_toNat_le] at hclock
    omega
  · have hzero : earned (nowMs.toNat - s.lastRefillMs.toNat) rate.toNat = 0 := by
      rw [Nat.sub_eq_zero_of_le hle, earned, Nat.zero_mul]
    rw [refill_of_earned_eq_zero hzero]
    exact Nat.le_max_left _ _

end Clocks

/-- What is done to a bucket, each time with the reading of another clock. -/
inductive Change
  | refill (capacity rate : UInt32) (nowMs : UInt64)
  | deduct (capacity cost : UInt32) (nowMs : UInt64)
deriving DecidableEq, Repr

namespace Change

def nowMs : Change → UInt64
  | refill _ _ nowMs => nowMs
  | deduct _ _ nowMs => nowMs

def on (s : State) : Change → State
  | refill capacity rate nowMs => Bucket.refill (some s) capacity rate nowMs
  | deduct capacity cost nowMs => Bucket.deduct (some s) capacity cost nowMs

theorem le_lastRefillMs_on (s : State) (c : Change) : s.lastRefillMs ≤ (c.on s).lastRefillMs := by
  cases c with
  | refill capacity rate nowMs => exact le_lastRefillMs_refill s capacity rate nowMs
  | deduct capacity cost nowMs => exact UInt64.le_refl _

theorem lastRefillMs_on_le (s : State) (c : Change) :
    (c.on s).lastRefillMs ≤ max s.lastRefillMs c.nowMs := by
  cases c with
  | refill capacity rate nowMs => exact lastRefillMs_refill_le_max s capacity rate nowMs
  | deduct capacity cost nowMs =>
      rw [UInt64.le_iff_toNat_le, toNat_max64]
      exact Nat.le_max_left _ _

end Change

/-- The bucket after one change after another. -/
def State.after (s : State) (changes : List Change) : State := changes.foldl Change.on s

/-- The latest of a time and the readings of the changes. -/
def latest (t : UInt64) (changes : List Change) : UInt64 :=
  changes.foldl (fun t c => max t c.nowMs) t

theorem le_lastRefillMs_after (s : State) (changes : List Change) :
    s.lastRefillMs ≤ (s.after changes).lastRefillMs := by
  induction changes generalizing s with
  | nil => exact UInt64.le_refl _
  | cons c changes ih => exact UInt64.le_trans (c.le_lastRefillMs_on s) (ih (c.on s))

theorem lastRefillMs_after_le {s : State} {t : UInt64} (h : s.lastRefillMs ≤ t)
    (changes : List Change) : (s.after changes).lastRefillMs ≤ latest t changes := by
  induction changes generalizing s t with
  | nil => exact h
  | cons c changes ih =>
      apply ih
      have hstep := c.lastRefillMs_on_le s
      rw [UInt64.le_iff_toNat_le, toNat_max64] at hstep ⊢
      rw [UInt64.le_iff_toNat_le] at h
      omega

/-- A refill of any bucket at any reading does what it would do with unbounded integers: no check on
its words ever fails, it adds what the time has earned up to the capacity, and the time of the last
refill moves neither back nor past the clock. So it never does under refills and charges by clocks that
disagree, and stays behind the latest reading of all. -/
theorem refill_exact (s : State) (capacity rate : UInt32) (nowMs : UInt64) :
    let next := refill (some s) capacity rate nowMs
    refill? (some s) capacity rate nowMs = some next ∧
      next.ideal = Ideal.refill (some s.ideal) capacity.toNat rate.toNat nowMs.toNat ∧
      next.tokens.toNat = min capacity.toNat (min s.tokens.toNat capacity.toNat +
        (nowMs.toNat - s.lastRefillMs.toNat) * rate.toNat / 60000) ∧
      s.lastRefillMs ≤ next.lastRefillMs ∧ next.lastRefillMs ≤ max s.lastRefillMs nowMs ∧
      ∀ changes : List Change, s.lastRefillMs ≤ (s.after changes).lastRefillMs ∧
        (s.after changes).lastRefillMs ≤ latest s.lastRefillMs changes := by
  refine ⟨refill?_eq _ _ _ _, ideal_refill _ _ _ _, toNat_tokens_refill s capacity rate nowMs,
    le_lastRefillMs_refill s capacity rate nowMs, lastRefillMs_refill_le_max s capacity rate nowMs,
    fun changes => ⟨le_lastRefillMs_after s changes, ?_⟩⟩
  exact lastRefillMs_after_le (UInt64.le_refl _) changes

end Admission.Bucket
