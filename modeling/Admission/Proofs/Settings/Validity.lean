import Admission.Settings.Basic
import Mathlib.Tactic.SplitIfs

/-! # Settings that are accepted

The check of the settings as a condition on their fields. -/

namespace Admission.Settings

/-- Whether nothing is zero that must not be. -/
structure IsValid (s : Settings) : Prop where
  storeTimeoutMs_ne : s.storeTimeoutMs ≠ 0
  idempotencyTtlSecs_ne : s.idempotencyTtlSecs ≠ 0
  processingLeaseSecs_ne : s.processingLeaseSecs ≠ 0
  interval_ne : ∀ maxWait interval, s.inFlight = .wait maxWait interval → interval ≠ 0

theorem validate_eq_ok_iff {s : Settings} : s.validate = .ok () ↔ s.IsValid := by
  constructor
  · intro h
    unfold validate at h
    split_ifs at h with htimeout httl hlease
    refine ⟨htimeout, httl, hlease, fun maxWait interval hwait hzero => ?_⟩
    rw [hwait] at h
    simp [hzero] at h
  · rintro ⟨htimeout, httl, hlease, hinterval⟩
    rw [validate, if_neg htimeout, if_neg httl, if_neg hlease]
    cases hwait : s.inFlight with
    | wait maxWait interval => exact if_neg (hinterval maxWait interval hwait)
    | proceed => rfl

end Admission.Settings
