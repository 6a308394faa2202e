import Admission.Proofs.Settings.Validity
import Admission.Proofs.Text.Numerals
import Admission.Settings.Environment

/-! # Settings from variables

The variables are read in two rounds, first each for itself and then the settings that result, and
the first offence in that order is reported. If there is none, the settings are those of the variables
that are set and the default ones besides. -/

namespace Admission.Settings

/-! ## Offences -/

/-- Something that may be wrong, and the field under which it is reported. -/
structure Offence where
  field : String
  Present : Prop

/-- The first offence that is there is reported under the field. -/
def IsFirst (offences : List Offence) (field : String) : Prop :=
  ∃ before o after, offences = before ++ o :: after ∧ (∀ b ∈ before, ¬ b.Present) ∧
    o.Present ∧ o.field = field

theorem IsFirst.append {offences : List Offence} {field : String} (h : IsFirst offences field)
    (more : List Offence) : IsFirst (offences ++ more) field := by
  obtain ⟨before, o, after, rfl, hbefore, hpresent, hfield⟩ := h
  exact ⟨before, o, after ++ more, by simp, hbefore, hpresent, hfield⟩

theorem IsFirst.of_absent {offences more : List Offence} {field : String}
    (h : IsFirst more field) (habsent : ∀ o ∈ offences, ¬ o.Present) :
    IsFirst (offences ++ more) field := by
  obtain ⟨before, o, after, rfl, hbefore, hpresent, hfield⟩ := h
  refine ⟨offences ++ before, o, after, by simp, fun b hb => ?_, hpresent, hfield⟩
  rcases List.mem_append.mp hb with hb | hb
  · exact habsent b hb
  · exact hbefore b hb

theorem isFirst_singleton {o : Offence} (h : o.Present) : IsFirst [o] o.field :=
  ⟨[], o, [], rfl, nofun, h, rfl⟩

theorem IsFirst.exists_present {offences : List Offence} {field : String}
    (h : IsFirst offences field) : ∃ o ∈ offences, o.Present := by
  obtain ⟨before, o, after, rfl, -, hpresent, -⟩ := h
  exact ⟨o, by simp, hpresent⟩

/-- A reading fails on the first of the offences, or without any of them comes to a result of which
`P` holds. -/
def Reports {α : Type} (offences : List Offence) (reading : Except SettingError α)
    (P : α → Prop) : Prop :=
  match reading with
  | .ok a => (∀ o ∈ offences, ¬ o.Present) ∧ P a
  | .error e => IsFirst offences e.field

/-- What is read later is looked at only if all is well before. -/
theorem Reports.bind {α β : Type} {offences more : List Offence} {P : α → Prop} {Q : β → Prop}
    {reading : Except SettingError α} {next : α → Except SettingError β}
    (h : Reports offences reading P) (hnext : ∀ a, P a → Reports more (next a) Q) :
    Reports (offences ++ more) (reading >>= next) Q := by
  cases reading with
  | error e => exact IsFirst.append h more
  | ok a =>
      obtain ⟨habsent, ha⟩ := h
      have hmore := hnext a ha
      change Reports (offences ++ more) (next a) Q
      cases hresult : next a with
      | error e =>
          rw [hresult] at hmore
          exact IsFirst.of_absent hmore habsent
      | ok b =>
          rw [hresult] at hmore
          refine ⟨fun o ho => ?_, hmore.2⟩
          rcases List.mem_append.mp ho with ho | ho
          · exact habsent o ho
          · exact hmore.1 o ho

theorem reports_pure {α : Type} {P : α → Prop} {a : α} (h : P a) : Reports [] (pure a) P :=
  ⟨nofun, h⟩

/-! ## Single variables -/

variable (vars : Variables)

/-- The variable is not set, or between blanks it is the numeral of a word. -/
def IsNumeric (name : String) : Prop :=
  ∀ raw, vars name = some raw →
    ∃ w : UInt64, Text.Numeral.Spells (Text.trimChars raw.toList) w.toNat

/-- The word that a variable comes to: the default, unless it is set. -/
def ComesTo (name : String) (default w : UInt64) : Prop :=
  match vars name with
  | none => w = default
  | some raw => Text.Numeral.Spells (Text.trimChars raw.toList) w.toNat

/-- The variable for the mode is not set, or between blanks it names one of the two. -/
def IsMode : Prop :=
  ∀ raw, vars "IDEMPOTENCY_IN_FLIGHT" = some raw →
    Text.trim raw = "wait" ∨ Text.trim raw = "proceed"

/-- It names the mode in which nobody waits. -/
def Proceeds : Prop := ∃ raw, vars "IDEMPOTENCY_IN_FLIGHT" = some raw ∧ Text.trim raw = "proceed"

/-- The mode that the variables come to. A wait is as long as they say and otherwise the default one. -/
def ComesToMode : InFlight → Prop
  | .proceed => Proceeds vars
  | .wait maxWait interval => ¬ Proceeds vars ∧
      ∃ longest, ({} : Settings).inFlight = .wait longest interval ∧
        ComesTo vars "IDEMPOTENCY_MAX_WAIT_MS" longest maxWait

variable {vars} {name raw : String}

theorem isNumeric_of_none (h : vars name = none) : IsNumeric vars name := by
  simp [IsNumeric, h]

theorem isNumeric_iff_of_some (h : vars name = some raw) :
    IsNumeric vars name ↔ ∃ w, Text.Numeral.read64 (Text.trimChars raw.toList) = .ok w := by
  simp only [IsNumeric, h, Option.some.injEq, forall_eq', Text.Numeral.read64_eq_ok_iff]

theorem comesTo_iff_of_none (h : vars name = none) {default w : UInt64} :
    ComesTo vars name default w ↔ w = default := by
  simp only [ComesTo, h]

theorem comesTo_iff_of_some (h : vars name = some raw) {default w : UInt64} :
    ComesTo vars name default w ↔ Text.Numeral.read64 (Text.trimChars raw.toList) = .ok w := by
  simp only [ComesTo, h, Text.Numeral.read64_eq_ok_iff]

/-- The variable comes to the word, if there is one, whatever the default. -/
def IsWord (vars : Variables) (name : String) (n : Option UInt64) : Prop :=
  ∀ default w, ComesTo vars name default w ↔ n.getD default = w

theorem reports_wordVariable (vars : Variables) (name : String) :
    Reports [⟨name, ¬ IsNumeric vars name⟩] (wordVariable vars name) (IsWord vars name) := by
  cases hvar : vars name with
  | none =>
      simp only [wordVariable, hvar]
      refine ⟨by simpa using isNumeric_of_none hvar, fun default w => ?_⟩
      rw [comesTo_iff_of_none hvar, Option.getD_none, eq_comm]
  | some raw =>
      cases hread : Text.Numeral.read64 (Text.trimChars raw.toList) with
      | ok n =>
          simp only [wordVariable, hvar, hread]
          refine ⟨by simpa using (isNumeric_iff_of_some hvar).mpr ⟨n, hread⟩, fun default w => ?_⟩
          rw [comesTo_iff_of_some hvar, hread, Except.ok.injEq, Option.getD_some]
      | error e =>
          simp only [wordVariable, hvar, hread]
          apply isFirst_singleton
          rw [isNumeric_iff_of_some hvar, hread]
          exact nofun

theorem reports_inFlightVariable {maxWait : Option UInt64}
    (hword : IsWord vars "IDEMPOTENCY_MAX_WAIT_MS" maxWait) :
    Reports [⟨"IDEMPOTENCY_IN_FLIGHT", ¬ IsMode vars⟩] (inFlightVariable vars maxWait)
      (ComesToMode vars) := by
  have hwait : ¬ Proceeds vars → ComesToMode vars (.wait (maxWait.getD 5000) 50) := fun hnot =>
    ⟨hnot, 5000, rfl, (hword 5000 _).mpr rfl⟩
  unfold inFlightVariable
  cases hvar : vars "IDEMPOTENCY_IN_FLIGHT" with
  | none =>
      have hnot : ¬ Proceeds vars := by simp [Proceeds, hvar]
      exact ⟨by simp [IsMode, hvar], hwait hnot⟩
  | some raw =>
      by_cases hw : Text.trim raw = "wait"
      · have hnot : ¬ Proceeds vars := by simp [Proceeds, hvar, hw]
        simp only [if_pos hw]
        exact ⟨by simp [IsMode, hvar, hw], hwait hnot⟩
      · by_cases hp : Text.trim raw = "proceed"
        · simp only [if_neg hw, if_pos hp]
          exact ⟨by simp [IsMode, hvar, hp], raw, hvar, hp⟩
        · simp only [if_neg hw, if_neg hp]
          apply isFirst_singleton
          simp [IsMode, hvar, hw, hp]

theorem enabledVariable_eq_false_iff : enabledVariable vars = false ↔
    ∃ raw, vars "RATE_LIMIT_ENABLED" = some raw ∧
      (Text.trim raw = "false" ∨ Text.trim raw = "0") := by
  cases hvar : vars "RATE_LIMIT_ENABLED" with
  | none => simp [enabledVariable, hvar]
  | some raw => simp [enabledVariable, hvar, Decidable.imp_iff_not_or]

theorem ComesToMode.interval_ne {inFlight : InFlight} (h : ComesToMode vars inFlight)
    (maxWait interval : UInt64) (hwait : inFlight = .wait maxWait interval) : interval ≠ 0 := by
  subst hwait
  obtain ⟨-, longest, hdefault, -⟩ := h
  obtain ⟨-, rfl⟩ := InFlight.wait.inj hdefault
  decide

/-! ## The settings that result -/

/-- What must not be zero and is. -/
def zeros (timeoutMs ttlSecs leaseSecs : UInt64) : List Offence :=
  [⟨"store_timeout_ms", timeoutMs = 0⟩, ⟨"idempotency_ttl_secs", ttlSecs = 0⟩,
    ⟨"processing_lease_secs", leaseSecs = 0⟩]

theorem reports_validate {s : Settings}
    (hinterval : ∀ maxWait interval, s.inFlight = .wait maxWait interval → interval ≠ 0) :
    Reports (zeros s.storeTimeoutMs s.idempotencyTtlSecs s.processingLeaseSecs) s.validate
      fun _ => s.validate = .ok () := by
  by_cases hvalid : s.validate = .ok ()
  · obtain ⟨htimeout, httl, hlease, -⟩ := validate_eq_ok_iff.mp hvalid
    rw [hvalid]
    exact ⟨by simp [zeros, htimeout, httl, hlease], rfl⟩
  · rw [validate_eq_ok_iff] at hvalid
    by_cases htimeout : s.storeTimeoutMs = 0
    · rw [validate, if_pos htimeout]
      exact ⟨[], _, _, rfl, by simp, htimeout, rfl⟩
    · by_cases httl : s.idempotencyTtlSecs = 0
      · rw [validate, if_neg htimeout, if_pos httl]
        exact ⟨[_], _, _, rfl, by simpa using htimeout, httl, rfl⟩
      · by_cases hlease : s.processingLeaseSecs = 0
        · rw [validate, if_neg htimeout, if_neg httl, if_pos hlease]
          exact ⟨[_, _], _, _, rfl, by simpa using ⟨htimeout, httl⟩, hlease, rfl⟩
        · exact absurd ⟨htimeout, httl, hlease, hinterval⟩ hvalid

/-- The settings are the default ones but for what the variables come to. -/
structure Follows (vars : Variables) (s : Settings) : Prop where
  rateLimitEnabled : s.rateLimitEnabled = false ↔
    ∃ raw, vars "RATE_LIMIT_ENABLED" = some raw ∧
      (Text.trim raw = "false" ∨ Text.trim raw = "0")
  storeTimeoutMs : ComesTo vars "COORDINATION_STORE_TIMEOUT_MS" ({} : Settings).storeTimeoutMs
    s.storeTimeoutMs
  idempotencyTtlSecs : ComesTo vars "IDEMPOTENCY_TTL_SECS" ({} : Settings).idempotencyTtlSecs
    s.idempotencyTtlSecs
  processingLeaseSecs : ComesTo vars "IDEMPOTENCY_PROCESSING_LEASE_SECS"
    ({} : Settings).processingLeaseSecs s.processingLeaseSecs
  inFlight : ComesToMode vars s.inFlight
  idempotencyHeader : s.idempotencyHeader = ({} : Settings).idempotencyHeader
  participantHeader : s.participantHeader = ({} : Settings).participantHeader
  userHeader : s.userHeader = ({} : Settings).userHeader
  anonymousIdentifier : s.anonymousIdentifier = ({} : Settings).anonymousIdentifier

/-- What may be wrong with the variables, each taken for itself. -/
def unreadable (vars : Variables) : List Offence :=
  [⟨"COORDINATION_STORE_TIMEOUT_MS", ¬ IsNumeric vars "COORDINATION_STORE_TIMEOUT_MS"⟩,
    ⟨"IDEMPOTENCY_TTL_SECS", ¬ IsNumeric vars "IDEMPOTENCY_TTL_SECS"⟩,
    ⟨"IDEMPOTENCY_PROCESSING_LEASE_SECS", ¬ IsNumeric vars "IDEMPOTENCY_PROCESSING_LEASE_SECS"⟩,
    ⟨"IDEMPOTENCY_MAX_WAIT_MS", ¬ IsNumeric vars "IDEMPOTENCY_MAX_WAIT_MS"⟩,
    ⟨"IDEMPOTENCY_IN_FLIGHT", ¬ IsMode vars⟩]

/-- What may be wrong with what they come to. -/
def useless (vars : Variables) : List Offence :=
  [⟨"store_timeout_ms",
      ComesTo vars "COORDINATION_STORE_TIMEOUT_MS" ({} : Settings).storeTimeoutMs 0⟩,
    ⟨"idempotency_ttl_secs",
      ComesTo vars "IDEMPOTENCY_TTL_SECS" ({} : Settings).idempotencyTtlSecs 0⟩,
    ⟨"processing_lease_secs",
      ComesTo vars "IDEMPOTENCY_PROCESSING_LEASE_SECS" ({} : Settings).processingLeaseSecs 0⟩]

/-- All of it, in the order in which it is looked for. -/
def offences (vars : Variables) : List Offence := unreadable vars ++ useless vars

theorem reports_ofVariables (vars : Variables) :
    Reports (offences vars) (ofVariables vars) fun s => s.validate = .ok () ∧ Follows vars s := by
  refine (reports_wordVariable vars "COORDINATION_STORE_TIMEOUT_MS").bind fun timeout htimeout => ?_
  refine (reports_wordVariable vars "IDEMPOTENCY_TTL_SECS").bind fun ttl httl => ?_
  refine (reports_wordVariable vars "IDEMPOTENCY_PROCESSING_LEASE_SECS").bind
    fun lease hlease => ?_
  refine (reports_wordVariable vars "IDEMPOTENCY_MAX_WAIT_MS").bind fun maxWait hmaxWait => ?_
  refine (reports_inFlightVariable hmaxWait).bind fun inFlight hinFlight => ?_
  let s : Settings := {
    rateLimitEnabled := enabledVariable vars
    storeTimeoutMs := timeout.getD 2000
    idempotencyTtlSecs := ttl.getD 86400
    processingLeaseSecs := lease.getD 60
    inFlight := inFlight }
  have hfollows : Follows vars s := {
    rateLimitEnabled := enabledVariable_eq_false_iff
    storeTimeoutMs := (htimeout _ _).mpr rfl
    idempotencyTtlSecs := (httl _ _).mpr rfl
    processingLeaseSecs := (hlease _ _).mpr rfl
    inFlight := hinFlight
    idempotencyHeader := rfl
    participantHeader := rfl
    userHeader := rfl
    anonymousIdentifier := rfl }
  have huseless : useless vars =
      zeros s.storeTimeoutMs s.idempotencyTtlSecs s.processingLeaseSecs := by
    simp only [useless, zeros, htimeout _ _, httl _ _, hlease _ _, s]
  change Reports (useless vars ++ []) _ _
  rw [huseless]
  exact (reports_validate hinFlight.interval_ne).bind fun _ hvalid =>
    reports_pure ⟨hvalid, hfollows⟩

/-! ## Usable variables -/

/-- Nothing is wrong with the variables. -/
structure IsUsable (vars : Variables) : Prop where
  storeTimeoutMs : IsNumeric vars "COORDINATION_STORE_TIMEOUT_MS"
  idempotencyTtlSecs : IsNumeric vars "IDEMPOTENCY_TTL_SECS"
  processingLeaseSecs : IsNumeric vars "IDEMPOTENCY_PROCESSING_LEASE_SECS"
  maxWaitMs : IsNumeric vars "IDEMPOTENCY_MAX_WAIT_MS"
  mode : IsMode vars
  storeTimeoutMs_ne :
    ¬ ComesTo vars "COORDINATION_STORE_TIMEOUT_MS" ({} : Settings).storeTimeoutMs 0
  idempotencyTtlSecs_ne :
    ¬ ComesTo vars "IDEMPOTENCY_TTL_SECS" ({} : Settings).idempotencyTtlSecs 0
  processingLeaseSecs_ne :
    ¬ ComesTo vars "IDEMPOTENCY_PROCESSING_LEASE_SECS" ({} : Settings).processingLeaseSecs 0

theorem isUsable_iff : IsUsable vars ↔ ∀ o ∈ offences vars, ¬ o.Present := by
  simp only [offences, unreadable, useless, List.cons_append, List.nil_append,
    List.forall_mem_cons, Classical.not_not, List.not_mem_nil, false_implies,
    implies_true, and_true]
  exact ⟨fun ⟨h1, h2, h3, h4, h5, h6, h7, h8⟩ => ⟨h1, h2, h3, h4, h5, h6, h7, h8⟩,
    fun ⟨h1, h2, h3, h4, h5, h6, h7, h8⟩ => ⟨h1, h2, h3, h4, h5, h6, h7, h8⟩⟩

/-- Settings are read just from usable variables. They are valid then and follow the variables, and
otherwise the first thing that is wrong is reported. -/
theorem isOk_ofVariables_iff_isUsable (vars : Variables) :
    ((ofVariables vars).isOk ↔ IsUsable vars) ∧
      match ofVariables vars with
      | .ok s => s.validate = .ok () ∧ Follows vars s
      | .error e => IsFirst (offences vars) e.field := by
  have hreports := reports_ofVariables vars
  rw [isUsable_iff]
  cases hread : ofVariables vars with
  | ok s =>
      rw [hread] at hreports
      exact ⟨⟨fun _ => hreports.1, fun _ => rfl⟩, hreports.2⟩
  | error e =>
      rw [hread] at hreports
      obtain ⟨o, ho, hpresent⟩ := IsFirst.exists_present hreports
      exact ⟨⟨nofun, fun habsent => absurd hpresent (habsent o ho)⟩, hreports⟩

/-- A mode that does not exist is reported before a timeout of zero. -/
example : ofVariables (fun name =>
    if name = "COORDINATION_STORE_TIMEOUT_MS" then some " +0 "
    else if name = "IDEMPOTENCY_IN_FLIGHT" then some "block"
    else none) = .error ⟨"IDEMPOTENCY_IN_FLIGHT", .notMode "block"⟩ := by cbv

end Admission.Settings
