import Admission.Policy.Catalogue
import Admission.Proofs.Policy.Arithmetic

/-! # Catalogues from texts

A text that lists drafts gives a catalogue of all of them or none: it is refused as a whole if it
cannot be read, and otherwise for the first draft that cannot be built. Of several drafts of one name
the last one counts. -/

namespace Admission

/-! ## Drafts that cannot be built -/

namespace PolicyDraft

/-- What keeps a draft from being built. The capacity comes before the rate. -/
def fault? (draft : PolicyDraft) : Option PolicyError :=
  if draft.capacity = 0 then some (.zeroCapacity draft.name)
  else if draft.refillPerMinute = 0 then some (.zeroRefill draft.name)
  else none

variable {draft : PolicyDraft}

/-- A policy is built from the draft that it extends, and from no other one. -/
theorem build_eq_ok_iff {policy : Policy} : draft.build = .ok policy ↔ policy.toPolicyDraft = draft := by
  constructor
  · intro h
    unfold build at h
    split_ifs at h
    obtain rfl := Except.ok.inj h
    rfl
  · rintro rfl
    rw [build, dif_pos policy.capacity_pos, dif_pos policy.refillPerMinute_pos]

theorem build_of_fault? {e : PolicyError} (h : draft.fault? = some e) : draft.build = .error e := by
  unfold fault? at h
  split_ifs at h with hcapacity hrate
  · obtain rfl := Option.some.inj h
    exact dif_neg (by simp [hcapacity])
  · obtain rfl := Option.some.inj h
    have hpos : 0 < draft.capacity := UInt32.pos_iff_ne_zero.mpr hcapacity
    rw [build, dif_pos hpos, dif_neg (by simp [hrate])]

theorem exists_build_of_fault? (h : draft.fault? = none) : ∃ policy, draft.build = .ok policy := by
  unfold fault? at h
  split_ifs at h with hcapacity hrate
  have hpos : 0 < draft.capacity := UInt32.pos_iff_ne_zero.mpr hcapacity
  have hrpos : 0 < draft.refillPerMinute := UInt32.pos_iff_ne_zero.mpr hrate
  exact ⟨_, by rw [build, dif_pos hpos, dif_pos hrpos]⟩

theorem fault?_of_build {e : PolicyError} (h : draft.build = .error e) : draft.fault? = some e := by
  cases hfault : draft.fault? with
  | none =>
      obtain ⟨policy, hbuild⟩ := exists_build_of_fault? hfault
      cases h.symm.trans hbuild
  | some e' =>
      rw [Except.error.inj (h.symm.trans (build_of_fault? hfault))]

/-- That a draft cannot be built is another matter than that a text cannot be read. -/
theorem fault?_ne_unreadable (draft : PolicyDraft) (detail : String) :
    draft.fault? ≠ some (.unreadable detail) := by
  unfold fault?
  split_ifs <;> simp

end PolicyDraft

namespace Catalogue

variable {c c' : Catalogue} {policy : Policy} {draft : PolicyDraft} {drafts : List PolicyDraft}
  {name : String}

/-! ## Adding -/

@[simp] theorem lookup_empty (name : String) : empty.lookup name = none := rfl

@[simp] theorem lookup_add_self (c : Catalogue) (policy : Policy) :
    (c.add policy).lookup policy.name = some policy :=
  c.policies.get?_insert_self policy.name policy

theorem lookup_add_of_ne (c : Catalogue) (h : name ≠ policy.name) :
    (c.add policy).lookup name = c.lookup name :=
  c.policies.get?_insert_of_ne policy h

theorem addDrafts_cons_of_build (c : Catalogue) (h : draft.build = .ok policy)
    (drafts : List PolicyDraft) :
    c.addDrafts (draft :: drafts) = (c.add policy).addDrafts drafts := by
  rw [addDrafts, h]

theorem addDrafts_cons_of_fault? (c : Catalogue) {e : PolicyError} (h : draft.fault? = some e)
    (drafts : List PolicyDraft) : c.addDrafts (draft :: drafts) = .error e := by
  rw [addDrafts, PolicyDraft.build_of_fault? h]

/-- Drafts are added one after another as long as all goes well. -/
theorem addDrafts_append (c : Catalogue) (drafts more : List PolicyDraft) :
    c.addDrafts (drafts ++ more) = (c.addDrafts drafts).bind (·.addDrafts more) := by
  induction drafts generalizing c with
  | nil => rfl
  | cons draft drafts ih =>
      rw [List.cons_append, addDrafts, addDrafts]
      cases draft.build with
      | ok policy => exact ih (c.add policy)
      | error e => rfl

theorem exists_addDrafts (c : Catalogue) (h : ∀ d ∈ drafts, d.fault? = none) :
    ∃ c', c.addDrafts drafts = .ok c' := by
  induction drafts generalizing c with
  | nil => exact ⟨c, rfl⟩
  | cons draft drafts ih =>
      obtain ⟨policy, hbuild⟩ := PolicyDraft.exists_build_of_fault? (h draft List.mem_cons_self)
      rw [addDrafts_cons_of_build c hbuild]
      exact ih _ fun d hd => h d (List.mem_cons_of_mem draft hd)

/-- The first draft that cannot be built decides the error. -/
theorem addDrafts_of_first_fault (c : Catalogue) {before after : List PolicyDraft} {e : PolicyError}
    (hbefore : ∀ d ∈ before, d.fault? = none) (h : draft.fault? = some e) :
    c.addDrafts (before ++ draft :: after) = .error e := by
  obtain ⟨c', hc'⟩ := c.exists_addDrafts hbefore
  rw [addDrafts_append, hc']
  exact c'.addDrafts_cons_of_fault? h after

theorem exists_of_addDrafts_cons (h : c.addDrafts (draft :: drafts) = .ok c') :
    ∃ policy : Policy, policy.toPolicyDraft = draft ∧ (c.add policy).addDrafts drafts = .ok c' := by
  cases hbuild : draft.build with
  | error e =>
      rw [addDrafts, hbuild] at h
      cases h
  | ok policy =>
      rw [addDrafts_cons_of_build c hbuild] at h
      exact ⟨policy, PolicyDraft.build_eq_ok_iff.mp hbuild, h⟩

/-- Drafts of other names leave a name alone. -/
theorem lookup_addDrafts_of_ne (h : c.addDrafts drafts = .ok c')
    (hne : ∀ d ∈ drafts, d.name ≠ name) : c'.lookup name = c.lookup name := by
  induction drafts generalizing c with
  | nil =>
      obtain rfl : c = c' := Except.ok.inj h
      rfl
  | cons draft drafts ih =>
      obtain ⟨policy, rfl, hrest⟩ := exists_of_addDrafts_cons h
      calc
        c'.lookup name = (c.add policy).lookup name :=
          ih hrest fun d hd => hne d (List.mem_cons_of_mem policy.toPolicyDraft hd)
        _ = c.lookup name := lookup_add_of_ne c (hne policy.toPolicyDraft List.mem_cons_self).symm

/-! ## The catalogue of a list -/

/-- Under each name stands, under this name, what the last draft of that name is built to. -/
structure Lists (c : Catalogue) (drafts : List PolicyDraft) : Prop where
  lookup_of_last : ∀ before draft after, drafts = before ++ draft :: after →
    (∀ d ∈ after, d.name ≠ draft.name) →
      ∃ policy, draft.build = .ok policy ∧ c.lookup draft.name = some policy ∧
        policy.name = draft.name
  lookup_of_absent : ∀ name, (∀ d ∈ drafts, d.name ≠ name) → c.lookup name = none

theorem lists_of_addDrafts (h : empty.addDrafts drafts = .ok c) : c.Lists drafts where
  lookup_of_last := by
    rintro before draft after rfl hlast
    rw [addDrafts_append] at h
    cases hbefore : empty.addDrafts before with
    | error e =>
        rw [hbefore] at h
        cases h
    | ok c₁ =>
        rw [hbefore] at h
        obtain ⟨policy, rfl, hrest⟩ := exists_of_addDrafts_cons h
        refine ⟨policy, PolicyDraft.build_eq_ok_iff.mpr rfl, ?_, rfl⟩
        rw [lookup_addDrafts_of_ne hrest hlast, lookup_add_self]
  lookup_of_absent name hne := by rw [lookup_addDrafts_of_ne h hne, lookup_empty]

/-! ## Catalogues that can be made -/

/-- Catalogues that are made of given ones and of texts by adding policies. -/
inductive Made : Catalogue → Prop
  | empty : Made empty
  | standard : Made standard
  | ofText {text : String} {c : Catalogue} (h : ofText text = .ok c) : Made c
  | add {c : Catalogue} (h : Made c) (policy : Policy) : Made (c.add policy)

/-- Every policy stands under its own name. -/
def NamesOwn (c : Catalogue) : Prop := ∀ name policy, c.lookup name = some policy → policy.name = name

theorem namesOwn_empty : empty.NamesOwn := nofun

theorem NamesOwn.add (h : c.NamesOwn) (policy : Policy) : (c.add policy).NamesOwn := by
  intro name found hfound
  by_cases hname : name = policy.name
  · subst hname
    rw [lookup_add_self] at hfound
    rw [← Option.some.inj hfound]
  · rw [lookup_add_of_ne c hname] at hfound
    exact h name found hfound

theorem NamesOwn.addDrafts (h : c.NamesOwn) (hadd : c.addDrafts drafts = .ok c') :
    c'.NamesOwn := by
  induction drafts generalizing c with
  | nil =>
      obtain rfl : c = c' := Except.ok.inj hadd
      exact h
  | cons draft drafts ih =>
      obtain ⟨policy, -, hadd⟩ := exists_of_addDrafts_cons hadd
      exact ih (h.add policy) hadd

theorem exists_of_ofText {text : String} (h : ofText text = .ok c) :
    ∃ drafts, PolicyDraft.listOfText? text = some drafts ∧ empty.addDrafts drafts = .ok c := by
  cases hlist : PolicyDraft.listOfText? text with
  | none =>
      rw [ofText, hlist] at h
      cases h
  | some drafts =>
      rw [ofText, hlist] at h
      exact ⟨drafts, rfl, h⟩

theorem Made.namesOwn (h : Made c) : c.NamesOwn := by
  induction h with
  | empty => exact namesOwn_empty
  | standard => exact ((namesOwn_empty.add entriesWrite).add entriesUpdate).add entriesRead
  | ofText h =>
      obtain ⟨drafts, -, hadd⟩ := exists_of_ofText h
      exact namesOwn_empty.addDrafts hadd
  | add _ policy ih => exact ih.add policy

/-! ## All or nothing -/

theorem ofText_of_list {text : String} (h : PolicyDraft.listOfText? text = some drafts) :
    ofText text = empty.addDrafts drafts := by
  rw [ofText, h]

theorem addDrafts_ne_unreadable (c : Catalogue) (drafts : List PolicyDraft) (detail : String) :
    c.addDrafts drafts ≠ .error (.unreadable detail) := by
  induction drafts generalizing c with
  | nil => exact nofun
  | cons draft drafts ih =>
      cases hbuild : draft.build with
      | ok policy =>
          rw [addDrafts_cons_of_build c hbuild]
          exact ih (c.add policy)
      | error e =>
          have hfault := PolicyDraft.fault?_of_build hbuild
          rw [addDrafts_cons_of_fault? c hfault]
          intro hunreadable
          rw [Except.error.inj hunreadable] at hfault
          exact draft.fault?_ne_unreadable detail hfault

theorem ofText_unreadable_iff {text : String} :
    (∃ detail, ofText text = .error (.unreadable detail)) ↔
      PolicyDraft.listOfText? text = none := by
  constructor
  · rintro ⟨detail, h⟩
    cases hlist : PolicyDraft.listOfText? text with
    | none => rfl
    | some drafts =>
        rw [ofText_of_list hlist] at h
        exact absurd h (empty.addDrafts_ne_unreadable drafts detail)
  · intro h
    exact ⟨_, by rw [ofText, h]⟩

/-- A text that is no list of drafts is refused as such, and the first draft that cannot be built
refuses the rest. Otherwise the catalogue holds the last draft of each name under this name. Whatever
catalogues are made of, nothing that is computed from their policies goes wrong. -/
theorem ofText_allOrNothing :
    (∀ text,
      ((∃ detail, ofText text = .error (.unreadable detail)) ↔
        PolicyDraft.listOfText? text = none) ∧
      ∀ drafts, PolicyDraft.listOfText? text = some drafts →
        (∀ before draft after e, drafts = before ++ draft :: after →
          (∀ d ∈ before, d.fault? = none) → draft.fault? = some e → ofText text = .error e) ∧
        ((∀ d ∈ drafts, d.fault? = none) → ∃ c, ofText text = .ok c ∧ c.Lists drafts)) ∧
    ∀ c, Made c → ∀ name policy, c.lookup name = some policy →
      policy.name = name ∧ policy.IsSafe := by
  refine ⟨fun text => ⟨ofText_unreadable_iff, fun drafts hlist => ?_⟩, ?_⟩
  · rw [ofText_of_list hlist]
    constructor
    · rintro before draft after e rfl hbefore hfault
      exact empty.addDrafts_of_first_fault hbefore hfault
    · intro hsound
      obtain ⟨c, hadd⟩ := empty.exists_addDrafts hsound
      exact ⟨c, hadd, lists_of_addDrafts hadd⟩
  · intro c hmade name policy hfound
    exact ⟨hmade.namesOwn name policy hfound, policy.isSafe⟩

/-- A draft without a capacity, and a second one that breaks off. -/
def brokenText : String := "[[\"A\",\"user\",7,0],[\"B\","

/-- The second of three drafts has neither a capacity nor a rate, the third one no capacity. -/
def faultyText : String := "[[\"A\",\"user\",7,9],[\"B\",\"user\",0,0],[\"C\",\"user\",1,0]]"

/-- Two drafts of one name, with another one in between. -/
def repeatedText : String := "[[\"A\",\"user\",7,9],[\"B\",\"user\",5,6],[\"A\",\"user\",3,4]]"

theorem ofText_allOrNothing_repeatedText :
    (∃ detail, ofText brokenText = .error (.unreadable detail)) ∧
      ofText faultyText = .error (.zeroCapacity "B") ∧
      ∃ c, ofText repeatedText = .ok c ∧ c.lookup "C" = none ∧
        ∃ policy, c.lookup "A" = some policy ∧ policy.capacity = 4 ∧ policy.IsSafe := by
  have hbroken : PolicyDraft.listOfText? brokenText = none := by decide +kernel
  have hfaulty : PolicyDraft.listOfText? faultyText =
      some [⟨"A", .user, 7, 9, .uniform 1, true⟩, ⟨"B", .user, 0, 0, .uniform 1, true⟩,
        ⟨"C", .user, 1, 0, .uniform 1, true⟩] := by decide +kernel
  have hrepeated : PolicyDraft.listOfText? repeatedText =
      some [⟨"A", .user, 7, 9, .uniform 1, true⟩, ⟨"B", .user, 5, 6, .uniform 1, true⟩,
        ⟨"A", .user, 3, 4, .uniform 1, true⟩] := by decide +kernel
  obtain ⟨htexts, hmade⟩ := ofText_allOrNothing
  refine ⟨(htexts brokenText).1.mpr hbroken, ?_, ?_⟩
  · exact ((htexts faultyText).2 _ hfaulty).1 [_] _ [_] _ rfl (by decide) (by decide)
  · obtain ⟨c, hread, hlists⟩ := ((htexts repeatedText).2 _ hrepeated).2 (by decide)
    obtain ⟨policy, hbuild, hfound, -⟩ := hlists.lookup_of_last [_, _] _ [] rfl nofun
    have hdraft := PolicyDraft.build_eq_ok_iff.mp hbuild
    have hsafe := (hmade c (.ofText hread) "A" policy hfound).2
    exact ⟨c, hread, hlists.lookup_of_absent "C" (by decide), policy, hfound, by rw [hdraft], hsafe⟩

end Catalogue

end Admission
