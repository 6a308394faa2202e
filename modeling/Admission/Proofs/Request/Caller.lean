import Admission.Identity

/-! # Who counts as the caller

Headers are under the control of clients. What authentication has found out about a caller decides
its bucket without them, except where it knows the user by an empty name: an empty name is no
identifier, and then the headers decide although the participant is known. Where nothing names a
caller, the settings do, unless their own name for it is empty. -/

namespace Admission

/-! ## Fields that are there and fields that cannot be -/

namespace Headers

/-- Whether all fields have names that fields may have. Which those are is left open. -/
def NamedBy (legal : String → Prop) (h : Headers) : Prop := ∀ field ∈ h.fields, legal field.1

variable {legal : String → Prop} {name : String} {b : Bytes}

theorem text?_eq_none_of_get? {h : Headers} (hget : h.get? name = none) : h.text? name = none := by
  rw [text?, hget]

/-- No field is found under a name that none can have. -/
theorem text?_eq_none_of_not_legal {h : Headers} (hnamed : h.NamedBy legal)
    (hillegal : ¬ legal (lowerName name)) : h.text? name = none := by
  apply text?_eq_none_of_get?
  rw [get?, List.lookup_eq_none_iff]
  intro field hfield
  rw [bne_iff_ne]
  rintro hname
  exact hillegal (hname ▸ hnamed field hfield)

theorem namedBy_set_empty (hlegal : legal (lowerName name)) : (empty.set name b).NamedBy legal := by
  intro field hfield
  obtain rfl := List.mem_singleton.mp hfield
  exact hlegal

theorem get?_set_empty (name name' : String) (b : Bytes) :
    (empty.set name b).get? name' = if lowerName name' = lowerName name then some b else none := by
  by_cases hname : lowerName name' = lowerName name <;> simp [get?, set, empty, hname]

/-- A single field is read under its own name and no other one. -/
theorem text?_set_empty (name name' : String) (b : Bytes) :
    (empty.set name b).text? name' =
      if lowerName name' = lowerName name then (empty.set name b).text? name else none := by
  by_cases hname : lowerName name' = lowerName name
  · rw [if_pos hname, text?, text?, get?_set_empty, get?_set_empty, if_pos hname, if_pos rfl]
  · rw [if_neg hname]
    exact text?_eq_none_of_get? ((get?_set_empty name name' b).trans (if_neg hname))

theorem text?_set_self (name : String) (htext : isText b = true)
    (hne : Text.trimChars b.chars ≠ []) :
    (empty.set name b).text? name = some (String.ofList (Text.trimChars b.chars)) := by
  rw [text?, get?_set_empty, if_pos rfl]
  simp only [htext, if_true]

end Headers

/-! ## What the headers say -/

/-- The names under which the headers are asked for the caller in a scope. -/
def Scope.fieldNames (s : Settings) : Scope → List String
  | participant => [s.participantHeader]
  | user => [s.userHeader, s.participantHeader]

section

variable {legal : String → Prop} {s : Settings} {scope : Scope}

theorem Headers.identifier?_eq_none {h : Headers} (hnamed : h.NamedBy legal)
    (hillegal : ∀ name ∈ scope.fieldNames s, ¬ legal (lowerName name)) :
    h.identifier? scope s = none := by
  have hnone : ∀ name ∈ scope.fieldNames s, h.text? name = none := fun name hname =>
    text?_eq_none_of_not_legal hnamed (hillegal name hname)
  cases scope with
  | participant => exact hnone _ List.mem_cons_self
  | user =>
      rw [identifier?, hnone s.userHeader List.mem_cons_self,
        hnone s.participantHeader (List.mem_cons_of_mem _ List.mem_cons_self), Option.none_or]

/-- A client that sets a field which is asked for chooses the identifier. -/
theorem Headers.identifier?_set_empty {name : String} (hname : name ∈ scope.fieldNames s)
    {b : Bytes} {text : String} (htext : (empty.set name b).text? name = some text) :
    (empty.set name b).identifier? scope s = some text := by
  cases scope with
  | participant =>
      obtain rfl := List.mem_singleton.mp hname
      exact htext
  | user =>
      rw [identifier?, text?_set_empty name s.userHeader, text?_set_empty name s.participantHeader,
        htext]
      have hname : name = s.userHeader ∨ name = s.participantHeader := by
        simpa [Scope.fieldNames] using hname
      rcases hname with rfl | rfl
      · rw [if_pos rfl, Option.some_or]
      · rw [if_pos rfl]
        split <;> rfl

/-! ## What authentication says -/

/-- Of a known participant, there is an identifier in every scope unless its user has an empty name.
-/
theorem Caller.identifier?_eq_none_iff {c : Caller} {p : String} (hp : c.participant = some p)
    (hne : p ≠ "") : c.identifier? scope = none ↔ scope = .user ∧ c.user = some "" := by
  cases scope with
  | participant => simp [identifier?, hp, hne]
  | user =>
      cases huser : c.user with
      | none => simp [identifier?, hp, hne, huser]
      | some u => simp [identifier?, huser]

theorem Resolver.standard_of_identifier? {c : Caller} {id : String}
    (hid : c.identifier? scope = some id) (h : Headers) : standard h (some c) scope s = id := by
  simp [standard, hid]

theorem Resolver.standard_of_none {c : Caller} (hnone : c.identifier? scope = none) (h : Headers) :
    standard h (some c) scope s = (h.identifier? scope s).getD s.anonymousIdentifier := by
  simp [standard, hnone]

end

/-- The headers have no say in the identifier of a known participant if and only if the user, where
users are told apart, has no empty name, or the fields that would be asked for cannot exist. -/
theorem Resolver.headers_ignored_iff (legal : String → Prop) {c : Caller} {p : String}
    (hp : c.participant = some p) (hne : p ≠ "") (scope : Scope) (s : Settings) :
    (∀ h h' : Headers, h.NamedBy legal → h'.NamedBy legal →
        standard h (some c) scope s = standard h' (some c) scope s) ↔
      (scope = .user → c.user = some "" →
        ∀ name ∈ scope.fieldNames s, ¬ legal (lowerName name)) := by
  cases hid : c.identifier? scope with
  | some id =>
      have hknown : ¬ (scope = .user ∧ c.user = some "") := by
        rw [← Caller.identifier?_eq_none_iff hp hne, hid]
        nofun
      refine iff_of_true (fun h h' _ _ => ?_) fun hscope huser => absurd ⟨hscope, huser⟩ hknown
      rw [standard_of_identifier? hid, standard_of_identifier? hid]
  | none =>
      obtain ⟨hscope, huser⟩ := (Caller.identifier?_eq_none_iff hp hne).mp hid
      constructor
      · intro hsame _ _ name hname hlegal
        -- Two clients that set the field to different letters get different buckets.
        have hletters := hsame (.set .empty name [97]) (.set .empty name [98])
          (Headers.namedBy_set_empty hlegal) (Headers.namedBy_set_empty hlegal)
        rw [standard_of_none hid, standard_of_none hid,
          Headers.identifier?_set_empty hname (Headers.text?_set_self name rfl (by decide)),
          Headers.identifier?_set_empty hname (Headers.text?_set_self name rfl (by decide)),
          Option.getD_some, Option.getD_some] at hletters
        revert hletters
        decide
      · intro hillegal h h' hnamed hnamed'
        rw [standard_of_none hid, standard_of_none hid,
          Headers.identifier?_eq_none hnamed (hillegal hscope huser),
          Headers.identifier?_eq_none hnamed' (hillegal hscope huser)]

/-- A caller whose user has a name keeps its bucket whatever the headers are. -/
theorem Resolver.headers_ignored_knownUser :
    let c : Caller := ⟨some "bank-1", some "u-1"⟩
    c.participant = some "bank-1" ∧ "bank-1" ≠ "" ∧
      ∀ h h' : Headers, standard h (some c) .user {} = standard h' (some c) .user {} := by
  intro c
  have hp : c.participant = some "bank-1" := rfl
  have hne : "bank-1" ≠ "" := by decide
  have huser : c.user ≠ some "" := by decide
  have hsame := (headers_ignored_iff (fun _ => True) hp hne .user {}).mpr
    fun _ hblank => absurd hblank huser
  exact ⟨hp, hne, fun h h' => hsame h h' (fun _ _ => trivial) fun _ _ => trivial⟩

/-- An authenticated participant whose user has an empty name takes the bucket of any user whom its
headers name. -/
theorem Resolver.headers_heeded_blankUser :
    let c : Caller := ⟨some "bank-1", some ""⟩
    standard (.set .empty "PI-PayerId" (.ofString "victim")) (some c) .user {} = "victim" ∧
      standard .empty (some c) .user {} = "anonymous" ∧
      ¬ ∀ (c : Caller) (p : String), c.participant = some p → p ≠ "" →
        ∀ (scope : Scope) (s : Settings) (h h' : Headers),
          standard h (some c) scope s = standard h' (some c) scope s := by
  intro c
  have hvictim : standard (.set .empty "PI-PayerId" (.ofString "victim")) (some c) .user {} =
      "victim" := by decide +kernel
  have hnobody : standard .empty (some c) .user {} = "anonymous" := by decide +kernel
  refine ⟨hvictim, hnobody, fun hall => ?_⟩
  have hsame := hall c "bank-1" rfl (by decide) .user {}
    (.set .empty "PI-PayerId" (.ofString "victim")) .empty
  rw [hvictim, hnobody] at hsame
  revert hsame
  decide

/-! ## Callers without a name -/

section Nameless

variable {s : Settings} {scope : Scope}

/-- Whether authentication gives nothing to tell a caller by in a scope. -/
def Caller.IsNameless (c : Caller) : Scope → Prop
  | .participant => c.participant.getD "" = ""
  | .user => (c.user.or c.participant).getD "" = ""

/-- Whether neither authentication nor the headers name the caller of a request. -/
def Nameless (h : Headers) (caller : Option Caller) (scope : Scope) (s : Settings) : Prop :=
  (∀ c ∈ caller, c.IsNameless scope) ∧ ∀ name ∈ scope.fieldNames s, h.text? name = none

theorem filter_ne_empty_eq_none_iff {name : Option String} :
    name.filter (· ≠ "") = none ↔ name.getD "" = "" := by
  cases name <;> simp

theorem Caller.identifier?_eq_none_iff_isNameless {c : Caller} :
    c.identifier? scope = none ↔ c.IsNameless scope := by
  cases scope <;> exact filter_ne_empty_eq_none_iff

theorem Caller.ne_empty_of_identifier? {c : Caller} {id : String}
    (h : c.identifier? scope = some id) : id ≠ "" :=
  of_decide_eq_true (Option.filter_eq_some_iff.mp h).2

theorem Headers.ne_empty_of_text? {h : Headers} {name t : String} (htext : h.text? name = some t) :
    t ≠ "" := by
  rintro rfl
  unfold text? at htext
  split at htext
  · cases htext
  · split at htext
    · split at htext
      · cases htext
      · next hne => exact hne (String.ofList_eq_empty_iff.mp (Option.some.inj htext))
    · cases htext

theorem Headers.identifier?_eq_none_iff {h : Headers} :
    h.identifier? scope s = none ↔ ∀ name ∈ scope.fieldNames s, h.text? name = none := by
  cases scope <;> simp [identifier?, Scope.fieldNames]

theorem Headers.ne_empty_of_identifier? {h : Headers} {id : String}
    (hid : h.identifier? scope s = some id) : id ≠ "" := by
  cases scope with
  | participant => exact ne_empty_of_text? hid
  | user =>
      rcases Option.or_eq_some_iff.mp hid with huser | ⟨-, hparticipant⟩
      · exact ne_empty_of_text? huser
      · exact ne_empty_of_text? hparticipant

/-- A request is left without an identifier if and only if nothing names its caller and the settings
do not either. -/
theorem Resolver.standard_eq_empty_iff {h : Headers} {caller : Option Caller} :
    standard h caller scope s = "" ↔ Nameless h caller scope s ∧ s.anonymousIdentifier = "" := by
  rw [Nameless, ← Headers.identifier?_eq_none_iff]
  cases hid : caller.bind (·.identifier? scope) with
  | some id =>
      obtain ⟨c, hc, hcid⟩ := Option.bind_eq_some_iff.mp hid
      have hanswer : standard h caller scope s = id := by simp [standard, hid]
      refine iff_of_false (hanswer ▸ Caller.ne_empty_of_identifier? hcid) fun hnameless => ?_
      have hnone := Caller.identifier?_eq_none_iff_isNameless.mpr (hnameless.1.1 c hc)
      cases hcid.symm.trans hnone
  | none =>
      have hunknown : ∀ c ∈ caller, c.IsNameless scope := fun c hc =>
        Caller.identifier?_eq_none_iff_isNameless.mp (Option.bind_eq_none_iff.mp hid c hc)
      have hanswer : standard h caller scope s =
          (h.identifier? scope s).getD s.anonymousIdentifier := by simp [standard, hid]
      rw [hanswer]
      cases hheaders : h.identifier? scope s with
      | some id =>
          exact iff_of_false (Headers.ne_empty_of_identifier? hheaders) fun hnameless =>
            Option.some_ne_none id hnameless.1.2
      | none => exact ⟨fun hempty => ⟨⟨hunknown, rfl⟩, hempty⟩, fun hempty => hempty.2⟩

end Nameless

/-- Every caller has an identifier if and only if the settings have a name for those that nothing
names; otherwise just these are left without one. -/
theorem Resolver.identifies_all_iff (s : Settings) :
    (∀ (h : Headers) (caller : Option Caller) (scope : Scope),
        standard h caller scope s = "" ↔
          Nameless h caller scope s ∧ s.anonymousIdentifier = "") ∧
      ((∀ (h : Headers) (caller : Option Caller) (scope : Scope),
          standard h caller scope s ≠ "") ↔ s.anonymousIdentifier ≠ "") := by
  refine ⟨fun _ _ _ => standard_eq_empty_iff, fun hall hempty => ?_, fun hne h caller scope => ?_⟩
  · have hnameless : Nameless .empty none .participant s := ⟨nofun, fun _ _ => rfl⟩
    exact hall .empty none .participant (standard_eq_empty_iff.mpr ⟨hnameless, hempty⟩)
  · exact fun hanswer => hne (standard_eq_empty_iff.mp hanswer).2

/-- Settings whose name for unknown callers is empty are accepted, and then these callers share a
bucket without an identifier. -/
theorem Resolver.identifier_empty_anonymousRequest :
    let s : Settings := { anonymousIdentifier := "" }
    s.validate = .ok () ∧ standard .empty none .participant s = "" ∧
      ¬ ∀ s : Settings, s.validate = .ok () →
        ∀ (h : Headers) (caller : Option Caller) (scope : Scope),
          standard h caller scope s ≠ "" := by
  intro s
  have hvalid : s.validate = .ok () := rfl
  have hempty : standard .empty none .participant s = "" := by decide +kernel
  exact ⟨hvalid, hempty, fun hall => hall s hvalid .empty none .participant hempty⟩

end Admission
