import Admission.Record.Store

/-! # What each call does to the records

Every call is described by what it answers and by what the store holds afterwards under its key. -/

namespace Admission.Record

/-! ## Readings and lifetimes -/

/-- A lifetime that does not reach the end of the range ends at the plain sum. -/
theorem lt_addClamped_iff {now since length : UInt64} (h : now.toNat < UInt64.size - 1) :
    now < Word.addClamped since length ↔ now.toNat < since.toNat + length.toNat := by
  rw [UInt64.lt_iff_toNat_lt, Word.toNat_addClamped]
  omega

/-- Whether a call gives a key up. -/
def Call.releases (key : String) : Call → Bool
  | release k _ => k == key
  | _ => false

/-- Whether a call ends a claim on a key. -/
def Call.settles (key : String) : Call → Bool
  | complete k .. => k == key
  | release k _ => k == key
  | _ => false

theorem Call.settles_of_releases {key : String} {call : Call} (h : call.releases key = true) :
    call.settles key = true := by
  cases call with
  | release => exact h
  | _ => cases h

namespace Entry

/-- What a claim puts in. -/
def ofClaim (key : String) (now : UInt64) (ttl lease : Span) : Entry where
  record := .processing key now
  expiresAt := Word.addClamped now (lifetimeSecs ttl)
  leaseUntil := Word.addClamped now (lifetimeSecs lease)

/-- The entry with a response written into its record. -/
def complete (e : Entry) (status : UInt16) (body : Bytes) : Entry :=
  { e with record := { e.record with status, body } }

theorem isLive_of_le {e : Entry} {now t : UInt64} (h : e.isLive t) (hle : now ≤ t) :
    e.isLive now := by
  simp only [isLive, decide_eq_true_eq] at h ⊢
  exact UInt64.lt_of_le_of_lt hle h

theorem isHeld_of_le {e : Entry} {now t : UInt64} (h : e.isHeld t) (hle : now ≤ t) :
    e.isHeld now := by
  simp only [isHeld, Bool.and_eq_true, Bool.or_eq_true, decide_eq_true_eq] at h ⊢
  exact ⟨isLive_of_le h.1 hle, h.2.imp_right fun hlt => UInt64.lt_of_le_of_lt hle hlt⟩

theorem isLive_of_isHeld {e : Entry} {now : UInt64} (h : e.isHeld now) : e.isLive now :=
  ((Bool.and_eq_true _ _).mp h).1

theorem isHeld_of_isProcessing_eq_false {e : Entry} {now : UInt64}
    (h : e.record.isProcessing = false) (hlive : e.isLive now) : e.isHeld now := by
  simp [isHeld, h, hlive]

theorem isHeld_of_lt_leaseUntil {e : Entry} {now : UInt64} (hlive : e.isLive now)
    (h : now < e.leaseUntil) : e.isHeld now := by
  simp [isHeld, hlive, h]

theorem isProcessing_complete (e : Entry) {status : UInt16} (body : Bytes)
    (h : status ≠ processingStatus) : (e.complete status body).record.isProcessing = false := by
  simp [complete, isProcessing, h]

/-- An entry that is over when the one is that a claim has put in. -/
structure Descends (e origin : Entry) : Prop where
  expiresAt : e.expiresAt = origin.expiresAt
  leaseUntil : e.leaseUntil = origin.leaseUntil

theorem Descends.refl (e : Entry) : Descends e e := ⟨rfl, rfl⟩

theorem Descends.complete {e origin : Entry} (h : Descends e origin) (status : UInt16)
    (body : Bytes) : Descends (e.complete status body) origin :=
  ⟨h.expiresAt, h.leaseUntil⟩

end Entry

namespace Store

variable {s : Store} {key : String} {now : UInt64} {e : Entry}

/-! ## Claims -/

theorem answer_claim_of_held (h : s.entries.get? key = some e) (hheld : e.isHeld now)
    (ttl lease : Span) : s.answer (.claim key now ttl lease) = (some e.record, s) := by
  simp [answer, held?, h, hheld, Option.filter]

theorem answer_claim_of_free (h : ∀ e, s.entries.get? key = some e → e.isHeld now = false)
    (ttl lease : Span) :
    s.answer (.claim key now ttl lease) = (none, s.put (.ofClaim key now ttl lease)) := by
  have hfree : s.held? key now = none := by
    rw [held?, Option.filter_eq_none_iff]
    intro e he
    simp [h e he]
  simp only [answer, hfree]
  rfl

/-- A claim is refused by an entry that holds the key, and puts one in otherwise. -/
theorem answer_claim_cases (s : Store) (key : String) (now : UInt64) (ttl lease : Span) :
    (∃ e, s.entries.get? key = some e ∧ e.isHeld now = true ∧
        s.answer (.claim key now ttl lease) = (some e.record, s)) ∨
      (∀ e, s.entries.get? key = some e → e.isHeld now = false) ∧
        s.answer (.claim key now ttl lease) = (none, s.put (.ofClaim key now ttl lease)) := by
  by_cases h : ∃ e, s.entries.get? key = some e ∧ e.isHeld now = true
  · obtain ⟨e, he, hheld⟩ := h
    exact .inl ⟨e, he, hheld, answer_claim_of_held he hheld ttl lease⟩
  · have hfree : ∀ e, s.entries.get? key = some e → e.isHeld now = false := by
      intro e he
      exact Bool.eq_false_iff.mpr fun hheld => h ⟨e, he, hheld⟩
    exact .inr ⟨hfree, answer_claim_of_free hfree ttl lease⟩

theorem get?_put_self (s : Store) (e : Entry) : (s.put e).entries.get? e.record.key = some e :=
  s.entries.get?_insert_self e.record.key e

/-! ## Saving -/

theorem get?_answer_complete_of_live (h : s.entries.get? key = some e) (hlive : e.isLive now)
    (status : UInt16) (body : Bytes) (ttl : Span) :
    (s.answer (.complete key status body now ttl)).2.entries.get? key =
      some (e.complete status body) := by
  simp [answer, live?, h, hlive, Option.filter, Entry.complete]

/-- A save writes into a live entry, and puts a new one in otherwise. -/
theorem get?_answer_complete_cases (s : Store) (key : String) (status : UInt16) (body : Bytes)
    (now : UInt64) (ttl : Span) :
    (∃ e, s.entries.get? key = some e ∧
        (s.answer (.complete key status body now ttl)).2.entries.get? key =
          some (e.complete status body)) ∨
      (s.answer (.complete key status body now ttl)).2.entries.get? key =
        some ⟨⟨key, status, body, now⟩, Word.addClamped now (lifetimeSecs ttl), now⟩ := by
  cases h : s.live? key now with
  | some e =>
      have he := Option.filter_eq_some_iff.mp h
      exact .inl ⟨e, he.1, get?_answer_complete_of_live he.1 he.2 status body ttl⟩
  | none =>
      right
      simp only [answer, h]
      exact get?_put_self s _

/-! ## Fetching -/

theorem answer_fetch_of_live (h : s.entries.get? key = some e) (hlive : e.isLive now) :
    s.answer (.fetch key now) = (some e.record, s) := by
  simp [answer, live?, h, hlive, Option.filter]

theorem exists_get?_of_answer_fetch {record : Record}
    (h : (s.answer (.fetch key now)).1 = some record) :
    ∃ e, s.entries.get? key = some e ∧ e.record = record := by
  simp only [answer, live?, Option.map_eq_some_iff, Option.filter_eq_some_iff] at h
  obtain ⟨e, ⟨he, -⟩, hrecord⟩ := h
  exact ⟨e, he, hrecord⟩

/-! ## Releases -/

/-- A release deletes a live processing record, and does nothing otherwise. -/
theorem answer_release_cases (s : Store) (key : String) (now : UInt64) :
    (∃ e, s.entries.get? key = some e ∧ e.record.isProcessing = true ∧
        s.answer (.release key now) = (true, ⟨s.entries.erase key⟩)) ∨
      s.answer (.release key now) = (false, s) := by
  cases h : (s.live? key now).filter (·.record.isProcessing) with
  | none => exact .inr (by simp [answer, h])
  | some e =>
      refine .inl ⟨e, ?_, ?_, by simp [answer, h]⟩
      · exact (Option.filter_eq_some_iff.mp (Option.filter_eq_some_iff.mp h).1).1
      · exact (Option.filter_eq_some_iff.mp h).2

/-- No processing record is live after a release. -/
theorem isLive_eq_false_of_answer_release
    (h : (s.answer (.release key now)).2.entries.get? key = some e)
    (hprocessing : e.record.isProcessing = true) : e.isLive now = false := by
  cases hfound : (s.live? key now).filter (·.record.isProcessing) with
  | some e' =>
      simp only [answer, hfound, Table.get?_erase_self] at h
      cases h
  | none =>
      simp only [answer, hfound] at h
      rw [← Bool.not_eq_true]
      intro hlive
      have hthere : s.live? key now = some e := Option.filter_eq_some_iff.mpr ⟨h, hlive⟩
      exact Option.filter_eq_none_iff.mp hfound e hthere hprocessing

/-! ## Other keys and purges -/

theorem get?_answer_of_ne {call : Call} (h : key ≠ call.key) :
    (s.answer call).2.entries.get? key = s.entries.get? key := by
  cases call with
  | claim k now ttl lease =>
      rcases s.answer_claim_cases k now ttl lease with ⟨e, -, -, ha⟩ | ⟨-, ha⟩
      · rw [ha]
      · rw [ha]
        exact Table.get?_insert_of_ne _ _ h
  | complete k status body now ttl =>
      cases hlive : s.live? k now with
      | some e =>
          simp only [answer, hlive]
          exact Table.get?_insert_of_ne _ _ h
      | none =>
          simp only [answer, hlive]
          exact Table.get?_insert_of_ne _ _ h
  | fetch k now => rfl
  | release k now =>
      rcases s.answer_release_cases k now with ⟨e, -, -, ha⟩ | ha
      · rw [ha]
        exact Table.get?_erase_of_ne _ h
      · rw [ha]

theorem get?_purgeExpired (s : Store) (now : UInt64) (key : String) :
    (s.purgeExpired now).entries.get? key = (s.entries.get? key).filter (·.isLive now) :=
  Table.get?_filter _ _ _

theorem get?_purgeExpired_of_live (h : s.entries.get? key = some e) (hlive : e.isLive now) :
    (s.purgeExpired now).entries.get? key = some e := by
  simp [get?_purgeExpired, h, Option.filter, hlive]

theorem get?_of_get?_purgeExpired (h : (s.purgeExpired now).entries.get? key = some e) :
    s.entries.get? key = some e := by
  rw [get?_purgeExpired, Option.filter_eq_some_iff] at h
  exact h.1

end Store

end Admission.Record
