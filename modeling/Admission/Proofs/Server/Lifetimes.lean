import Admission.Proofs.Server.Script
import Admission.Proofs.Settings.Validity
import Admission.Server.Records

/-! # Lifetimes of records

A script makes a record first and gives it its lifetime then. A server that refuses the lifetime does
so when the record is already there, so the record stays for good and its maker is told of a failure.
A server that takes it in some other way keeps nothing for good. -/

namespace Admission

open Binary64 (ofNat)

namespace Server

open Record (lifetimeSecs)
open Script

/-- The fields of a hash can be read, or a script that reads them fails at once. -/
theorem fields_gives_or_fails (s : Server) (name : String) :
    (∃ fs expires, s.failing = none ∧ (fields name).Gives s (fs, expires) s ∧
      expires.all (s.clockMs < ·) = true ∧
      (s.live? name = none ∨ s.live? name = some ⟨.hash fs, expires⟩)) ∨
    ∃ e, (fields name).Fails s e s := by
  cases hrunning : s.failing with
  | some reply => exact .inr ⟨_, (guard_fails hrunning).bind _⟩
  | none =>
    cases hlive : s.live? name with
    | none => exact .inl ⟨_, _, rfl, fields_gives_none hrunning hlive, rfl, .inl rfl⟩
    | some slot =>
      obtain ⟨stored, expires⟩ := slot
      cases stored with
      | string value => exact .inr ⟨_, fields_fails_string hrunning hlive⟩
      | hash fs =>
        have hthere := (Option.filter_eq_some_iff.mp hlive).2
        exact .inl ⟨_, _, rfl, fields_gives_some hrunning hlive, hthere, .inr rfl⟩

/-! ## What a claim does -/

/-- The fields that a claim writes. -/
def claimPairs (now leaseSecs : UInt64) : List (String × Bytes) :=
  [("status", .ofChars (ofNat 0).generalText), ("body", []),
    ("created_at", .ofChars (ofNat now.toNat).generalText),
    ("lease_until", .ofChars ((ofNat now.toNat).add (ofNat leaseSecs.toNat)).generalText)]

section Claim

variable {s : Server} {name : String} {fs : Table String Bytes} {expires : Option Nat}

/-- A claim on a hash without a status, or on none, makes a record. -/
theorem claimScript_apply_of_free (hfields : (fields name).Gives s (fs, expires) s)
    (hfree : fs.get? "status" = none) (now ttlSecs leaseSecs : UInt64) :
    claimScript name now ttlSecs leaseSecs s = (do
      hashSet name (claimPairs now leaseSecs)
      expire name (.ofNat ttlSecs.toNat)
      return none : Script (Option RawRecord)) s := by
  have hget := hashGet_gives hfields ["status", "body", "created_at", "lease_until"]
  rw [claimScript, hget.bind_apply]
  simp only [List.map_cons, List.map_nil, hfree]
  rfl

/-- A claim comes to the same whatever the lifetime is and changes nothing, or it makes a record. -/
theorem claimScript_apply_cases (s : Server) (name : String) (now leaseSecs : UInt64) :
    (∃ r, ∀ ttlSecs, claimScript name now ttlSecs leaseSecs s = (r, s)) ∨
    ∃ fs expires, s.failing = none ∧ (fields name).Gives s (fs, expires) s ∧
      expires.all (s.clockMs < ·) = true ∧
      ∀ ttlSecs, claimScript name now ttlSecs leaseSecs s = (do
        hashSet name (claimPairs now leaseSecs)
        expire name (.ofNat ttlSecs.toNat)
        return none : Script (Option RawRecord)) s := by
  rcases fields_gives_or_fails s name with ⟨fs, expires, hrunning, hfields, hlive, -⟩ | ⟨e, hfails⟩
  · have hget := hashGet_gives hfields ["status", "body", "created_at", "lease_until"]
    cases hstatus : fs.get? "status" with
    | none =>
      exact .inr ⟨fs, expires, hrunning, hfields, hlive, fun ttlSecs =>
        claimScript_apply_of_free hfields hstatus now ttlSecs leaseSecs⟩
    | some status =>
      by_cases hheld : status ≠ .ofNat 0 ∨ (ofNat now.toNat).lt ((Binary64.ofChars?
          ((fs.get? "lease_until").getD (.ofNat 0)).chars).getD (ofNat 0)) = true
      · refine .inl ⟨.ok (some ⟨some status, fs.get? "body", fs.get? "created_at"⟩),
          fun ttlSecs => ?_⟩
        rw [claimScript, hget.bind_apply]
        simp only [List.map_cons, List.map_nil, hstatus, if_pos hheld]
        rfl
      · refine .inr ⟨fs, expires, hrunning, hfields, hlive, fun ttlSecs => ?_⟩
        rw [claimScript, hget.bind_apply]
        simp only [List.map_cons, List.map_nil, hstatus, if_neg hheld]
        rfl
  · have hget : (hashGet name ["status", "body", "created_at", "lease_until"]).Fails s e s :=
      hfails.bind _
    exact .inl ⟨.error e, fun ttlSecs => hget.bind _⟩

end Claim

/-- A response that finds something else than a hash is not written. -/
theorem exists_completeScript_fails {s : Server} {name : String} {e : ServerError}
    (hfails : (fields name).Fails s e s) (status : UInt16) (body : Bytes) (now ttlSecs : UInt64) :
    ∃ e', (completeScript name status body now ttlSecs).Fails s e' s := by
  cases hrunning : s.failing with
  | some reply =>
    have hcontains : (contains name).Fails s (.refused reply) s := (guard_fails hrunning).bind _
    exact ⟨_, hcontains.bind _⟩
  | none =>
    have hcontains : (contains name).Gives s _ s := contains_gives hrunning
    have hset (pairs : List (String × Bytes)) : (hashSet name pairs).Fails s e s := hfails.bind _
    refine ⟨e, hcontains.bind_fails ?_⟩
    split
    · exact hset _
    · exact (hset _).bind _

/-! ## Hashes with deadlines -/

/-- Every hash has a deadline. -/
def Lasting (s : Server) : Prop :=
  ∀ name fields expires, s.slots.get? name = some ⟨.hash fields, expires⟩ → expires.isSome = true

/-- Every hash has a deadline, and the server has the ways that it had. -/
structure Dated (s : Server) (overflow : Overflow) : Prop where
  overflow : s.overflow = overflow
  lasting : s.Lasting

theorem dated_empty (overflow : Overflow) : (empty overflow).Dated overflow := by
  refine ⟨rfl, fun name fields expires hslot => ?_⟩
  cases hslot

namespace Dated

variable {s s' : Server} {overflow : Overflow} (h : s.Dated overflow) {name : String}
  {now ttlSecs : UInt64}

include h

theorem puts {slot : Slot} (hputs : Puts s name slot s') (hslot : slot.expiresMs.isSome = true) :
    s'.Dated overflow := by
  refine ⟨hputs.overflow.trans h.overflow, fun name' fields expires hget => ?_⟩
  by_cases hsame : name' = name
  · rw [hsame, hputs.self] at hget
    cases hget
    exact hslot
  · rw [hputs.other _ hsame] at hget
    exact h.lasting name' fields expires hget

theorem erase (name : String) : Dated { s with slots := s.slots.erase name } overflow := by
  refine ⟨h.overflow, fun name' fields expires hget => ?_⟩
  by_cases hsame : name' = name
  · rw [hsame] at hget
    cases (Table.get?_erase_self _ _).symm.trans hget
  · exact h.lasting name' fields expires ((Table.get?_erase_of_ne _ hsame).symm.trans hget)

section Taken

variable {deadline : Nat} (hpos : 0 < ttlSecs.toNat)
  (htaken : overflow.expiry s.clockMs 1000 ttlSecs.toNat = .ok deadline)

include hpos htaken

theorem claimScript (name : String) (now leaseSecs : UInt64) :
    (Server.claimScript name now ttlSecs leaseSecs s).2.Dated overflow := by
  rcases claimScript_apply_cases s name now leaseSecs with
    ⟨r, hsettled⟩ | ⟨fs, expires, hrunning, hfields, hlive, hmakes⟩
  · rw [hsettled]
    exact h
  · rw [← h.overflow] at htaken
    obtain ⟨s₁, s₂, hset, hexpire, hputs⟩ :=
      exists_make_gives hrunning hfields hlive hpos htaken (claimPairs now leaseSecs)
    rw [hmakes, hset.bind_apply, hexpire.bind_apply]
    exact h.puts hputs rfl

theorem completeScript (name : String) (status : UInt16) (body : Bytes) (now : UInt64) :
    (Server.completeScript name status body now ttlSecs s).2.Dated overflow := by
  rcases fields_gives_or_fails s name with
    ⟨fs, expires, hrunning, hfields, hlive, hslot⟩ | ⟨e, hfails⟩
  · have hcontains : (contains name).Gives s _ s := contains_gives hrunning
    unfold Server.completeScript
    rw [hcontains.bind_apply]
    rcases hslot with hnone | hsome
    · rw [← h.overflow] at htaken
      obtain ⟨s₁, s₂, hset, hexpire, hputs⟩ := exists_make_gives hrunning hfields hlive hpos htaken
        ([("status", .ofNat status.toNat), ("body", body)] ++ [("created_at", .ofNat now.toNat)])
      rw [hnone]
      simp only [Option.isSome_none, Bool.false_eq_true, if_false]
      rw [hset.bind_apply, hexpire]
      exact h.puts hputs rfl
    · have hset := hashSet_gives hfields [("status", .ofNat status.toNat), ("body", body)]
      have hkept := h.lasting name fs expires (Option.filter_eq_some_iff.mp hsome).1
      rw [hsome]
      simp only [Option.isSome_some, if_true]
      rw [hset]
      exact h.puts (puts_put s _ _) hkept
  · obtain ⟨e', hscript⟩ := exists_completeScript_fails hfails status body now ttlSecs
    rw [hscript]
    exact h

end Taken

theorem releaseScript (name : String) : (Server.releaseScript name s).2.Dated overflow := by
  rcases fields_gives_or_fails s name with ⟨fs, expires, hrunning, hfields, -, -⟩ | ⟨e, hfails⟩
  · rw [Server.releaseScript, (hashGet_gives hfields ["status"]).bind_apply]
    have hdelete : (delete name).Gives s _ _ := delete_gives hrunning
    simp only [List.map_cons, List.map_nil]
    cases fs.get? "status" with
    | none => exact h
    | some status =>
      dsimp only
      split
      · rw [hdelete]
        exact h.erase name
      · exact h
  · have hget : (hashGet name ["status"]).Fails s e s := hfails.bind _
    have hscript : (Server.releaseScript name).Fails s e s := hget.bind _
    rw [hscript]
    exact h

theorem fetchScript (name : String) : (Server.fetchScript name s).2.Dated overflow := by
  rcases fields_gives_or_fails s name with ⟨fs, expires, -, hfields, -, -⟩ | ⟨e, hfails⟩
  · rw [Server.fetchScript, (hashGet_gives hfields ["status", "body", "created_at"]).bind_apply]
    exact h
  · have hget : (hashGet name ["status", "body", "created_at"]).Fails s e s := hfails.bind _
    have hscript : (Server.fetchScript name).Fails s e s := hget.bind _
    rw [hscript]
    exact h

end Dated

/-! ## Lifetimes of claims -/

section Lifetime

variable {s : Server} {key : String} {now : UInt64} {ttl lease : Span}

/-- A claim fails that would be answered if the record were to live for some other time. -/
def FailsByLifetime (s : Server) (key : String) (now : UInt64) (ttl lease : Span) : Prop :=
  (∃ e, (s.answerRecord (.claim key now ttl lease)).1 = .error e) ∧
    ∃ (ttl' : Span) (answer : Option Record),
      (s.answerRecord (.claim key now ttl' lease)).1 = .ok answer

theorem not_failsByLifetime {deadline : Nat} (hpos : 0 < (lifetimeSecs ttl).toNat)
    (htaken : s.overflow.expiry s.clockMs 1000 (lifetimeSecs ttl).toNat = .ok deadline) :
    ¬ s.FailsByLifetime key now ttl lease := by
  rintro ⟨⟨e, hfailed⟩, ttl', answer, hanswered⟩
  rcases claimScript_apply_cases s (recordName key) now (lifetimeSecs lease) with
    ⟨r, hsettled⟩ | ⟨fs, expires, hrunning, hfields, hlive, hmakes⟩
  · simp only [answerRecord, run, hsettled] at hfailed hanswered
    cases hfailed.symm.trans hanswered
  · obtain ⟨s₁, s₂, hset, hexpire, -⟩ :=
      exists_make_gives hrunning hfields hlive hpos htaken (claimPairs now (lifetimeSecs lease))
    have hclaim : (claimScript (recordName key) now (lifetimeSecs ttl) (lifetimeSecs lease)).Gives s
        none s₂ := by
      rw [Gives, hmakes, hset.bind_apply, hexpire.bind_apply]
      rfl
    rw [answerRecord, hclaim.run_eq] at hfailed
    cases hfailed

/-- A record that is made although its lifetime is refused has no deadline. -/
theorem not_lasting_of_refused {e : ServerError} (hrunning : s.failing = none)
    (hlive : s.live? (recordName key) = none) (hpos : 0 < (lifetimeSecs ttl).toNat)
    (hrefused : s.overflow.expiry s.clockMs 1000 (lifetimeSecs ttl).toNat = .error e) :
    ¬ (s.answerRecord (.claim key now ttl lease)).2.Lasting := by
  have hfields := fields_gives_none hrunning hlive
  obtain ⟨s₁, hset, hexpire, hputs⟩ :=
    exists_make_fails hrunning hfields hpos hrefused (claimPairs now (lifetimeSecs lease))
  have hclaim : (claimScript (recordName key) now (lifetimeSecs ttl) (lifetimeSecs lease)).Fails s
      e s₁ := by
    rw [Fails, claimScript_apply_of_free hfields rfl, hset.bind_apply]
    exact hexpire.bind _
  rw [answerRecord, hclaim.run_eq]
  intro hlasting
  cases hlasting _ _ _ hputs.self

end Lifetime

end Server

/-! ## Histories -/

/-- A lifetime in seconds is refused if it, or its end in milliseconds, is no signed word. -/
def Overflow.RefusesFar (o : Overflow) : Prop :=
  ∀ clockMs n, Word.maxSigned < n * 1000 + clockMs → ∃ e, o.deadline clockMs 1000 n = .error e

theorem Word.toNat_pos_of_ne_zero {n : UInt64} (h : n ≠ 0) : 0 < n.toNat :=
  Nat.pos_of_ne_zero fun hzero => h (UInt64.toNat_inj.mp hzero)

/-- Whole seconds are a lifetime as they are, if there is one of them. -/
theorem Record.lifetimeSecs_ofSecs {n : UInt64} (h : n ≠ 0) :
    lifetimeSecs (.ofSecs n.toNat) = n := by
  have hpos := Word.toNat_pos_of_ne_zero h
  have hlt := n.toNat_lt
  have hsecs : (Span.ofSecs n.toNat).secs = n.toNat := Nat.mul_div_cancel _ (by decide)
  have hword : (Span.ofSecs n.toNat).secsWord = n := by
    rw [← UInt64.toNat_inj, Span.secsWord, Word.toNat_ofNatClamp, hsecs]
    simp only [UInt64.size]
    omega
  change (if (Span.ofSecs n.toNat).secsWord ≤ 1 then 1 else (Span.ofSecs n.toNat).secsWord) = n
  rw [hword]
  split
  · next hone =>
    rw [UInt64.le_iff_toNat_le, UInt64.toNat_one] at hone
    rw [← UInt64.toNat_inj, UInt64.toNat_one]
    omega
  · rfl

namespace Settings

open Record (Call lifetimeSecs)

/-- Whether a call is made with the lifetime and the lease that are set. -/
def Makes (settings : Settings) : Call → Prop
  | .claim _ _ ttl lease => ttl = settings.idempotencyTtl ∧ lease = settings.processingLease
  | .complete _ _ _ _ ttl => ttl = settings.idempotencyTtl
  | .fetch .. => True
  | .release .. => True

/-- What an empty server comes to by calls, as time passes and the server fails and recovers, if no
call comes when its clock is past the horizon. -/
inductive Reached (settings : Settings) (overflow : Overflow) (horizonMs : Nat) : Server → Prop
  | empty : Reached settings overflow horizonMs (.empty overflow)
  | call {s : Server} (call : Call) : Reached settings overflow horizonMs s → settings.Makes call →
      s.clockMs ≤ horizonMs → Reached settings overflow horizonMs (s.answerRecord call).2
  | advance {s : Server} (ms : Nat) : Reached settings overflow horizonMs s →
      Reached settings overflow horizonMs { s with clockMs := s.clockMs + ms }
  | fail {s : Server} (reply : Option String) : Reached settings overflow horizonMs s →
      Reached settings overflow horizonMs { s with failing := reply }

/-- Up to a horizon the server takes the lifetime that is set. -/
def Taken (settings : Settings) (overflow : Overflow) (horizonMs : Nat) : Prop :=
  ∀ clockMs ≤ horizonMs,
    ∃ deadline, overflow.expiry clockMs 1000 settings.idempotencyTtlSecs.toNat = .ok deadline

variable {settings : Settings} {overflow : Overflow} {horizonMs : Nat}

theorem lifetimeSecs_idempotencyTtl (hvalid : settings.validate = .ok ()) :
    lifetimeSecs settings.idempotencyTtl = settings.idempotencyTtlSecs :=
  Record.lifetimeSecs_ofSecs (validate_eq_ok_iff.mp hvalid).idempotencyTtlSecs_ne

theorem toNat_lifetimeSecs_pos (hvalid : settings.validate = .ok ()) :
    0 < (lifetimeSecs settings.idempotencyTtl).toNat := by
  rw [lifetimeSecs_idempotencyTtl hvalid]
  exact Word.toNat_pos_of_ne_zero (validate_eq_ok_iff.mp hvalid).idempotencyTtlSecs_ne

section Taken

variable (hvalid : settings.validate = .ok ()) (htaken : settings.Taken overflow horizonMs)

include hvalid htaken

theorem dated_call {s : Server} (h : s.Dated overflow) {call : Call} (hmakes : settings.Makes call)
    (hclock : s.clockMs ≤ horizonMs) : (s.answerRecord call).2.Dated overflow := by
  have hpos := toNat_lifetimeSecs_pos hvalid
  obtain ⟨deadline, hdeadline⟩ := htaken s.clockMs hclock
  rw [← lifetimeSecs_idempotencyTtl hvalid] at hdeadline
  cases call with
  | claim key now ttl lease =>
      obtain ⟨rfl, rfl⟩ := hmakes
      have hclaim := h.claimScript hpos hdeadline (Server.recordName key) now
        (lifetimeSecs settings.processingLease)
      rw [← Script.run_snd] at hclaim
      exact hclaim
  | complete key status body now ttl =>
      obtain rfl := hmakes
      have hcomplete := h.completeScript hpos hdeadline (Server.recordName key) status body now
      rw [← Script.run_snd] at hcomplete
      exact hcomplete
  | fetch key now =>
      have hfetch := h.fetchScript (Server.recordName key)
      rw [← Script.run_snd] at hfetch
      exact hfetch
  | release key now =>
      have hrelease := h.releaseScript (Server.recordName key)
      rw [← Script.run_snd] at hrelease
      exact hrelease

theorem Reached.dated {s : Server} (h : settings.Reached overflow horizonMs s) :
    s.Dated overflow := by
  induction h with
  | empty => exact Server.dated_empty overflow
  | call call _ hmakes hclock ih => exact dated_call hvalid htaken ih hmakes hclock
  | advance ms _ ih => exact ⟨ih.overflow, ih.lasting⟩
  | fail reply _ ih => exact ⟨ih.overflow, ih.lasting⟩

end Taken

/-- Under settings that are accepted, every record has a deadline and no claim fails by its
lifetime, as far as the horizon of the clock, just if the server takes the lifetime that far. -/
theorem lasting_iff_taken (settings : Settings) (hvalid : settings.validate = .ok ())
    (overflow : Overflow) (horizonMs : Nat) :
    (∀ s, settings.Reached overflow horizonMs s → s.Lasting ∧
      (s.clockMs ≤ horizonMs → ∀ key now, ¬ s.FailsByLifetime key now settings.idempotencyTtl
        settings.processingLease)) ↔
      settings.Taken overflow horizonMs := by
  have hpos := toNat_lifetimeSecs_pos hvalid
  constructor
  · intro h clockMs hclock
    cases hexpiry : overflow.expiry clockMs 1000 settings.idempotencyTtlSecs.toNat with
    | ok deadline => exact ⟨deadline, rfl⟩
    | error e =>
        let s : Server := { Server.empty overflow with clockMs := 0 + clockMs }
        have hnow : s.clockMs = clockMs := Nat.zero_add clockMs
        have hreached : settings.Reached overflow horizonMs s := .advance clockMs .empty
        have hclaimed := hreached.call
          (.claim "k" 0 settings.idempotencyTtl settings.processingLease) ⟨rfl, rfl⟩
          (hnow.trans_le hclock)
        rw [← lifetimeSecs_idempotencyTtl hvalid, ← hnow] at hexpiry
        exact absurd (h _ hclaimed).1 (Server.not_lasting_of_refused rfl rfl hpos hexpiry)
  · intro htaken s hreached
    have hdated := hreached.dated hvalid htaken
    refine ⟨hdated.lasting, fun hclock key now => ?_⟩
    obtain ⟨deadline, hdeadline⟩ := htaken s.clockMs hclock
    rw [← lifetimeSecs_idempotencyTtl hvalid, ← hdated.overflow] at hdeadline
    exact Server.not_failsByLifetime hpos hdeadline

/-- A server that cuts lifetimes off keeps no record for good. -/
theorem lasting_of_capping (hvalid : settings.validate = .ok ()) {s : Server}
    (h : settings.Reached .capping horizonMs s) : s.Lasting := by
  refine ((lasting_iff_taken settings hvalid .capping horizonMs).mpr ?_ s h).1
  intro clockMs hclock
  rcases Nat.lt_or_ge Word.maxSigned (settings.idempotencyTtlSecs.toNat * 1000 + clockMs) with
    hfar | hfits
  · have hword := settings.idempotencyTtlSecs.toNat_lt
    exact ⟨_, (Overflow.expiry_of_far hfar).trans (if_pos hword)⟩
  · exact ⟨_, Overflow.expiry_of_fits hfits⟩

/-- On a server that refuses them, this comes to a bound on the settings. -/
theorem lasting_iff_fits (settings : Settings) (hvalid : settings.validate = .ok ())
    (overflow : Overflow) (hrefuses : overflow.RefusesFar) (horizonMs : Nat) :
    (∀ s, settings.Reached overflow horizonMs s → s.Lasting ∧
      (s.clockMs ≤ horizonMs → ∀ key now, ¬ s.FailsByLifetime key now settings.idempotencyTtl
        settings.processingLease)) ↔
      settings.idempotencyTtlSecs.toNat * 1000 + horizonMs ≤ Word.maxSigned := by
  rw [lasting_iff_taken settings hvalid overflow horizonMs]
  constructor
  · intro htaken
    obtain ⟨deadline, hdeadline⟩ := htaken horizonMs (Nat.le_refl horizonMs)
    by_contra hfar
    obtain ⟨e, hrefused⟩ := hrefuses horizonMs _ (Nat.lt_of_not_le hfar)
    rw [Overflow.expiry_of_far (Nat.lt_of_not_le hfar), hrefused] at hdeadline
    cases hdeadline
  · intro hfits clockMs hclock
    exact ⟨_, Overflow.expiry_of_fits (by omega)⟩

/-- A day fits up to a day before the last millisecond that the server counts, and no further. -/
theorem lasting_iff_fits_standard :
    ({} : Settings).validate = .ok () ∧ Overflow.refusing.RefusesFar ∧
      (∀ s, ({} : Settings).Reached .refusing 9223372036768375807 s → s.Lasting ∧
        (s.clockMs ≤ 9223372036768375807 → ∀ key now,
          ¬ s.FailsByLifetime key now (.ofSecs 86400) (.ofSecs 60))) ∧
      ¬ ∀ s, ({} : Settings).Reached .refusing 9223372036768375808 s → s.Lasting ∧
        (s.clockMs ≤ 9223372036768375808 → ∀ key now,
          ¬ s.FailsByLifetime key now (.ofSecs 86400) (.ofSecs 60)) := by
  have hvalid : ({} : Settings).validate = .ok () := rfl
  have hrefuses : Overflow.refusing.RefusesFar := fun _ _ _ => ⟨_, rfl⟩
  refine ⟨hvalid, hrefuses, (lasting_iff_fits {} hvalid _ hrefuses _).mpr (by decide), fun h => ?_⟩
  exact absurd ((lasting_iff_fits {} hvalid _ hrefuses _).mp h) (by decide)

/-- Settings with the longest lifetime that can be written. -/
def endless : Settings := { idempotencyTtlSecs := 18446744073709551615 }

abbrev endlessClaim : Record.Call :=
  .claim "k" 0 endless.idempotencyTtl endless.processingLease

/-- They are accepted, and on a server that refuses such lifetimes the very first claim fails and
leaves a record that never expires. -/
theorem immortal_endless :
    endless.validate = .ok () ∧ Overflow.refusing.RefusesFar ∧
      ((Server.empty .refusing).answerRecord endlessClaim).1 =
        .error (.unavailable "ERR value is not an integer or out of range") ∧
      (((Server.empty .refusing).answerRecord endlessClaim).2.live? (Server.recordName "k")).map
        Slot.expiresMs = some none ∧
      ¬ ((Server.empty .refusing).answerRecord endlessClaim).2.Lasting ∧
      (Server.empty .refusing).FailsByLifetime "k" 0 endless.idempotencyTtl
        endless.processingLease := by
  have hfailed : ((Server.empty .refusing).answerRecord endlessClaim).1 =
      .error (.unavailable "ERR value is not an integer or out of range") := by decide +kernel
  have hkept : (((Server.empty .refusing).answerRecord endlessClaim).2.live?
      (Server.recordName "k")).map Slot.expiresMs = some none := by decide +kernel
  have hanswered : ((Server.empty .refusing).answerRecord
      (.claim "k" 0 (.ofSecs 1) endless.processingLease)).1 = .ok none := by decide +kernel
  have hrefused : Overflow.refusing.expiry 0 1000
      (Record.lifetimeSecs endless.idempotencyTtl).toNat = .error .notInteger := by decide +kernel
  refine ⟨rfl, fun _ _ _ => ⟨_, rfl⟩, hfailed, hkept, ?_, ⟨_, hfailed⟩, .ofSecs 1, none, hanswered⟩
  exact Server.not_lasting_of_refused rfl rfl (by decide +kernel) hrefused

end Settings

end Admission
