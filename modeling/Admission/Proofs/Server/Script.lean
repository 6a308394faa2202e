import Admission.Proofs.Server.Numerals

/-! # What scripts come to

What commands give on a server that is not failing, where they fail, and how scripts are put
together from them. -/

namespace Admission

/-- A script ends with a result and leaves a server behind. -/
def Script.Gives {α : Type} (script : Script α) (s : Server) (a : α) (s' : Server) : Prop :=
  script s = (.ok a, s')

namespace Script

variable {α β : Type} {s s' s'' : Server}

theorem Gives.bind_apply {script : Script α} {a : α} (h : script.Gives s a s')
    (next : α → Script β) : (script >>= next) s = next a s' := by
  have hbind : (script >>= next) s = StateT.bind script (ExceptT.bindCont next) s := rfl
  have hscript : script s = (.ok a, s') := h
  rw [hbind, StateT.bind, hscript]
  rfl

theorem Gives.bind {script : Script α} {next : α → Script β} {a : α} {b : β}
    (h : script.Gives s a s') (hnext : (next a).Gives s' b s'') :
    Gives (script >>= next) s b s'' :=
  (h.bind_apply next).trans hnext

theorem gives_pure (a : α) (s : Server) : Gives (pure a) s a s := rfl

theorem gives_get (s : Server) : Gives (getThe Server) s s s := rfl

theorem gives_set (s s' : Server) : Gives (set s') s () s' := rfl

theorem Gives.run_eq {script : Script α} {a : α} (h : script.Gives s a s') :
    s.run script = (.ok a, s') := by
  rw [Server.run, h]

/-- A script ends with an error and leaves a server behind. -/
def Fails (script : Script α) (s : Server) (e : ServerError) (s' : Server) : Prop :=
  script s = (.error e, s')

/-- Nothing runs after a failure. -/
theorem Fails.bind {script : Script α} {e : ServerError} (h : script.Fails s e s')
    (next : α → Script β) : Fails (script >>= next) s e s' := by
  have hbind : (script >>= next) s = StateT.bind script (ExceptT.bindCont next) s := rfl
  have hscript : script s = (.error e, s') := h
  rw [Fails, hbind, StateT.bind, hscript]
  rfl

theorem Gives.bind_fails {script : Script α} {next : α → Script β} {a : α} {e : ServerError}
    (h : script.Gives s a s') (hnext : (next a).Fails s' e s'') :
    Fails (script >>= next) s e s'' :=
  (h.bind_apply next).trans hnext

theorem fails_throw (e : ServerError) (s : Server) : Fails (throw e : Script α) s e s := rfl

theorem Fails.run_eq {script : Script α} {e : ServerError} (h : script.Fails s e s') :
    s.run script = (.error e.toStoreError, s') := by
  rw [Server.run, h]

/-- What a script leaves behind, also when it fails. -/
theorem run_snd (script : Script α) (s : Server) : (s.run script).2 = (script s).2 := by
  rw [Server.run]
  split
  · next hscript => rw [hscript]
  · next hscript => rw [hscript]

end Script

/-! ## Lifetimes -/

namespace Overflow

variable {o : Overflow} {clockMs unitMs n expires : Nat}

theorem expiry_of_fits (hfits : n * unitMs + clockMs ≤ Word.maxSigned) :
    o.expiry clockMs unitMs n = .ok (n * unitMs + clockMs) :=
  if_pos hfits

theorem expiry_of_far (hfar : Word.maxSigned < n * unitMs + clockMs) :
    o.expiry clockMs unitMs n = o.deadline clockMs unitMs n :=
  if_neg (Nat.not_le.mpr hfar)

theorem lt_of_expiry (hunit : 0 < unitMs) (hpos : 0 < n)
    (h : o.expiry clockMs unitMs n = .ok expires) : clockMs < expires := by
  rcases Nat.lt_or_ge Word.maxSigned (n * unitMs + clockMs) with hfar | hfits
  · exact o.lt_of_deadline hunit hpos ((expiry_of_far hfar).symm.trans h)
  · have hlifetime := Nat.mul_pos hpos hunit
    cases (expiry_of_fits hfits).symm.trans h
    omega

end Overflow

namespace Server

open Script Binary64

/-! ## Slots -/

@[simp] theorem failing_put (s : Server) (name : String) (slot : Slot) :
    (s.put name slot).failing = s.failing := rfl

theorem get?_put_self (s : Server) (name : String) (slot : Slot) :
    (s.put name slot).slots.get? name = some slot :=
  s.slots.get?_insert_self name slot

theorem get?_put_of_ne (s : Server) {name name' : String} (slot : Slot) (h : name' ≠ name) :
    (s.put name slot).slots.get? name' = s.slots.get? name' :=
  s.slots.get?_insert_of_ne slot h

theorem live?_put_self (s : Server) (name : String) {slot : Slot}
    (hlive : slot.expiresMs.all (s.clockMs < ·) = true) :
    (s.put name slot).live? name = some slot := by
  rw [live?, get?_put_self]
  simp only [Option.filter_some]
  exact if_pos hlive

/-- Between two servers a name has got a slot, and nothing else has changed under any name. -/
structure Puts (s : Server) (name : String) (slot : Slot) (s' : Server) : Prop where
  overflow : s'.overflow = s.overflow
  failing : s'.failing = s.failing
  self : s'.slots.get? name = some slot
  other : ∀ name', name' ≠ name → s'.slots.get? name' = s.slots.get? name'

theorem puts_put (s : Server) (name : String) (slot : Slot) : Puts s name slot (s.put name slot) :=
  ⟨rfl, rfl, s.get?_put_self name slot, fun _ => s.get?_put_of_ne slot⟩

/-- A later slot replaces an earlier one. -/
theorem Puts.put {s s' : Server} {name : String} {slot : Slot} (h : Puts s name slot s')
    (slot' : Slot) : Puts s name slot' (s'.put name slot') where
  overflow := h.overflow
  failing := h.failing
  self := s'.get?_put_self name slot'
  other name' hne := (s'.get?_put_of_ne slot' hne).trans (h.other name' hne)

/-! ## Commands -/

theorem guard_fails {s : Server} {reply : String} (hfailing : s.failing = some reply) :
    guard.Fails s (.refused reply) s := by
  refine (gives_get s).bind_fails ?_
  simp only [hfailing]
  exact fails_throw _ s

/-! ### Deadlines -/

section Deadlines

variable {s : Server} {unitMs n expires : Nat}

/-- A deadline lies ahead. -/
theorem clockMs_lt_of_deadline {arg : Bytes} (hunit : 0 < unitMs)
    (h : s.deadline unitMs arg = .ok expires) : s.clockMs < expires := by
  unfold deadline at h
  split at h
  · cases h
  · split at h
    · next hpos => exact Overflow.lt_of_expiry hunit (by omega) h
    · cases h

theorem deadline_digits (hpos : 0 < n) :
    s.deadline unitMs (.ofChars (digits n)) = s.overflow.expiry s.clockMs unitMs n := by
  have hpos' : 0 < (n : Int) := mod_cast hpos
  rw [deadline, integer?_digits]
  simp only [Int.toNat_natCast, if_pos hpos']

end Deadlines

/-! ### Strings -/

section Commands

variable {s : Server} (hrunning : s.failing = none) {name : String}

include hrunning

theorem guard_gives : guard.Gives s () s := by
  refine (gives_get s).bind ?_
  simp only [hrunning]
  exact gives_pure () s

theorem get_gives_none (hlive : s.live? name = none) : (get name).Gives s none s := by
  refine (guard_gives hrunning).bind ((gives_get s).bind ?_)
  simp only [hlive]
  exact gives_pure _ s

theorem get_gives_some {value : Bytes} {expires : Option Nat}
    (hlive : s.live? name = some ⟨.string value, expires⟩) :
    (get name).Gives s (some value) s := by
  refine (guard_gives hrunning).bind ((gives_get s).bind ?_)
  simp only [hlive]
  exact gives_pure _ s

theorem get_fails_hash {fs : Table String Bytes} {expires : Option Nat}
    (hlive : s.live? name = some ⟨.hash fs, expires⟩) : (get name).Fails s .wrongType s := by
  refine (guard_gives hrunning).bind_fails ((gives_get s).bind_fails ?_)
  simp only [hlive]
  exact fails_throw _ s

theorem setFor_gives_of_deadline {lifetime : Bytes} {expires : Nat}
    (hdeadline : s.deadline 1 lifetime = .ok expires) (value : Bytes) :
    (setFor name value lifetime).Gives s () (s.put name ⟨.string value, some expires⟩) := by
  refine (guard_gives hrunning).bind ((gives_get s).bind ?_)
  simp only [hdeadline]
  exact gives_set s _

theorem setFor_fails {lifetime : Bytes} {e : ServerError}
    (hdeadline : s.deadline 1 lifetime = .error e) (value : Bytes) :
    (setFor name value lifetime).Fails s e s := by
  refine (guard_gives hrunning).bind_fails ((gives_get s).bind_fails ?_)
  simp only [hdeadline]
  exact fails_throw e s

theorem setFor_gives {n : Nat} (hpos : 0 < n) (hfits : n + s.clockMs ≤ Word.maxSigned)
    (value : Bytes) : (setFor name value (.ofChars (digits n))).Gives s ()
      (s.put name ⟨.string value, some (n + s.clockMs)⟩) := by
  apply setFor_gives_of_deadline hrunning
  rw [deadline_digits hpos, Overflow.expiry_of_fits (by rwa [Nat.mul_one]), Nat.mul_one]

/-! ### Hashes -/

theorem fields_gives_none (hlive : s.live? name = none) :
    (fields name).Gives s (.empty, none) s := by
  refine (guard_gives hrunning).bind ((gives_get s).bind ?_)
  simp only [hlive]
  exact gives_pure _ s

theorem fields_gives_some {fs : Table String Bytes} {expires : Option Nat}
    (hlive : s.live? name = some ⟨.hash fs, expires⟩) :
    (fields name).Gives s (fs, expires) s := by
  refine (guard_gives hrunning).bind ((gives_get s).bind ?_)
  simp only [hlive]
  exact gives_pure _ s

theorem fields_fails_string {value : Bytes} {expires : Option Nat}
    (hlive : s.live? name = some ⟨.string value, expires⟩) :
    (fields name).Fails s .wrongType s := by
  refine (guard_gives hrunning).bind_fails ((gives_get s).bind_fails ?_)
  simp only [hlive]
  exact fails_throw _ s

theorem contains_gives : (contains name).Gives s (s.live? name).isSome s :=
  (guard_gives hrunning).bind rfl

theorem delete_gives : (delete name).Gives s (s.live? name).isSome
    { s with slots := s.slots.erase name } :=
  (guard_gives hrunning).bind rfl

/-- A value that is there is given its deadline. -/
theorem expire_gives {slot : Slot} (hlive : s.live? name = some slot) {n expires : Nat}
    (hpos : 0 < n) (hexpiry : s.overflow.expiry s.clockMs 1000 n = .ok expires) :
    (expire name (.ofChars (digits n))).Gives s ()
      (s.put name { slot with expiresMs := some expires }) := by
  refine (guard_gives hrunning).bind ((gives_get s).bind ?_)
  simp only [deadline_digits hpos, hexpiry, hlive]
  exact gives_set s _

theorem expire_fails {n : Nat} {e : ServerError} (hpos : 0 < n)
    (hexpiry : s.overflow.expiry s.clockMs 1000 n = .error e) :
    (expire name (.ofChars (digits n))).Fails s e s := by
  refine (guard_gives hrunning).bind_fails ((gives_get s).bind_fails ?_)
  simp only [deadline_digits hpos, hexpiry]
  exact fails_throw e s

end Commands

/-! ## Fields of hashes -/

/-- Fields with others written over them. -/
def overwrite (fields : Table String Bytes) (pairs : List (String × Bytes)) :
    Table String Bytes := pairs.foldl (fun t p => t.insert p.1 p.2) fields

section Fields

variable {s : Server} {name : String} {fs : Table String Bytes} {expires : Option Nat}
  (hfields : (fields name).Gives s (fs, expires) s)

include hfields

theorem hashGet_gives (names : List String) :
    (hashGet name names).Gives s (names.map fs.get?) s :=
  hfields.bind (gives_pure _ _)

/-- Writing fields keeps the others and the deadline. -/
theorem hashSet_gives (pairs : List (String × Bytes)) :
    (hashSet name pairs).Gives s ()
      (s.put name ⟨.hash (overwrite fs pairs), expires⟩) :=
  hfields.bind rfl

end Fields

/-! ## Making hashes -/

section Make

variable {s : Server} {name : String} {fs : Table String Bytes} {expires : Option Nat}
  (hrunning : s.failing = none) (hfields : (fields name).Gives s (fs, expires) s)

include hrunning hfields

/-- Fields are written, and the hash is given a deadline that the server takes. -/
theorem exists_make_gives (hlive : expires.all (s.clockMs < ·) = true) {n deadline : Nat}
    (hpos : 0 < n) (hexpiry : s.overflow.expiry s.clockMs 1000 n = .ok deadline)
    (pairs : List (String × Bytes)) :
    ∃ s₁ s₂, (hashSet name pairs).Gives s () s₁ ∧ (expire name (.ofNat n)).Gives s₁ () s₂ ∧
      Puts s name ⟨.hash (overwrite fs pairs), some deadline⟩ s₂ := by
  have hset := hashSet_gives hfields pairs
  have hput : (s.put name ⟨.hash (overwrite fs pairs), expires⟩).live? name =
      some ⟨.hash (overwrite fs pairs), expires⟩ := live?_put_self s _ hlive
  have hexpire := expire_gives ((failing_put s _ _).trans hrunning) hput hpos hexpiry
  exact ⟨_, _, hset, hexpire, (puts_put s _ _).put _⟩

/-- Fields are written, and the hash keeps the deadline that it had, if it had one. -/
theorem exists_make_fails {n : Nat} {e : ServerError} (hpos : 0 < n)
    (hexpiry : s.overflow.expiry s.clockMs 1000 n = .error e) (pairs : List (String × Bytes)) :
    ∃ s₁, (hashSet name pairs).Gives s () s₁ ∧ (expire name (.ofNat n)).Fails s₁ e s₁ ∧
      Puts s name ⟨.hash (overwrite fs pairs), expires⟩ s₁ := by
  refine ⟨_, hashSet_gives hfields pairs, ?_, puts_put s _ _⟩
  exact expire_fails ((failing_put s _ _).trans hrunning) hpos hexpiry

end Make

end Server

end Admission
