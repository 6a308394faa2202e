import Admission.Proofs.Record.History
import Admission.Proofs.Server.Script
import Admission.Server.Records

/-! # Records on a server and in memory

The server spreads a record over the fields of a hash that expires by itself, the store in memory
keeps it in one entry with two deadlines. When calls come at whole seconds that floating point holds
exactly, nobody can tell the two apart. -/

namespace Admission

open Binary64 (whole digits ofNat)

/-! ## Calls whose numbers are exact -/

namespace Record

/-- Whether a call meets no numbers that floating point would round. -/
def Call.Fits : Call → Prop
  | claim _ now ttl lease => now.toNat + ttl.secs < 2 ^ 53 ∧ now.toNat + lease.secs < 2 ^ 53
  | complete _ _ _ now ttl => now.toNat + ttl.secs < 2 ^ 53
  | fetch .. => True
  | release .. => True

instance : DecidablePred Call.Fits
  | .claim _ now ttl lease =>
    inferInstanceAs (Decidable (now.toNat + ttl.secs < 2 ^ 53 ∧ now.toNat + lease.secs < 2 ^ 53))
  | .complete _ _ _ now ttl => inferInstanceAs (Decidable (now.toNat + ttl.secs < 2 ^ 53))
  | .fetch .. => isTrue trivial
  | .release .. => isTrue trivial

theorem toNat_lifetimeSecs {span : Span} (h : span.secs < 2 ^ 53) :
    (lifetimeSecs span).toNat = max span.secs 1 := by
  have hword : span.secsWord.toNat = span.secs := by
    rw [Span.secsWord, Word.toNat_ofNatClamp]
    simp only [UInt64.size]
    omega
  change (if span.secsWord ≤ 1 then 1 else span.secsWord).toNat = _
  split
  · next hone =>
    rw [UInt64.le_iff_toNat_le, hword] at hone
    exact (Nat.max_eq_right hone).symm
  · next hlarge =>
    rw [UInt64.le_iff_toNat_le, hword] at hlarge
    rw [hword]
    exact (Nat.max_eq_left (Nat.le_of_not_le hlarge)).symm

theorem lifetimeSecs_pos {span : Span} (h : span.secs < 2 ^ 53) :
    0 < (lifetimeSecs span).toNat := by
  rw [toNat_lifetimeSecs h]
  omega

theorem add_lifetimeSecs_le {now : UInt64} {span : Span} (h : now.toNat + span.secs < 2 ^ 53) :
    now.toNat + (lifetimeSecs span).toNat ≤ 2 ^ 53 := by
  rw [toNat_lifetimeSecs (by omega)]
  omega

theorem toNat_addClamped_lifetimeSecs {now : UInt64} {span : Span}
    (h : now.toNat + span.secs < 2 ^ 53) :
    (Word.addClamped now (lifetimeSecs span)).toNat = now.toNat + (lifetimeSecs span).toNat := by
  have hle := add_lifetimeSecs_le h
  rw [Word.toNat_addClamped]
  simp only [UInt64.size]
  omega

end Record

/-! ## The same record in both places -/

/-- What saving a response puts in where no record is live. -/
def Record.Entry.ofResponse (key : String) (status : UInt16) (body : Bytes) (now : UInt64)
    (ttl : Span) : Entry where
  record := ⟨key, status, body, now⟩
  expiresAt := Word.addClamped now (lifetimeSecs ttl)
  leaseUntil := now

/-- The fields of a hash keep an entry. The lease of a record that no claim has put in is left out;
it was over when the record was made. -/
structure Record.Entry.KeptIn (e : Entry) (fields : Table String Bytes) (t : UInt64) : Prop where
  status : fields.get? "status" = some (.ofNat e.record.status.toNat)
  body : fields.get? "body" = some e.record.body
  createdAt : fields.get? "created_at" = some (.ofNat e.record.createdAt.toNat)
  lease :
    fields.get? "lease_until" = some (.ofNat e.leaseUntil.toNat) ∧ e.leaseUntil.toNat ≤ 2 ^ 53 ∨
      fields.get? "lease_until" = none ∧ e.leaseUntil ≤ t

theorem Record.Entry.KeptIn.later {e : Entry} {fields : Table String Bytes} {t now : UInt64}
    (h : e.KeptIn fields t) (hle : t ≤ now) : e.KeptIn fields now where
  status := h.status
  body := h.body
  createdAt := h.createdAt
  lease := h.lease.imp_right fun hnone => ⟨hnone.1, UInt64.le_trans hnone.2 hle⟩

namespace Server

open Record (Call Entry Store lifetimeSecs)
open Script

theorem recordName_inj {key key' : String} : recordName key = recordName key' ↔ key = key' := by
  simp [recordName]

/-- A server that is not failing holds the same records as a store in memory, all of them made up to
some time. -/
structure HoldsRecords (s : Server) (store : Store) (t : UInt64) : Prop where
  running : s.failing = none
  absent : ∀ key, store.entries.get? key = none → s.slots.get? (recordName key) = none
  present : ∀ key e, store.entries.get? key = some e → e.record.key = key ∧
    ∃ fields, s.slots.get? (recordName key) =
      some ⟨.hash fields, some (e.expiresAt.toNat * 1000)⟩ ∧ e.KeptIn fields t

theorem holdsRecords_empty (overflow : Overflow) : HoldsRecords (.empty overflow) .empty 0 :=
  ⟨rfl, fun _ _ => rfl, fun _ _ h => by cases h⟩

namespace HoldsRecords

variable {s s' : Server} {store : Store} {t now : UInt64} {key : String} {e : Entry}

theorem at_clock (h : s.HoldsRecords store t) (clockMs : Nat) :
    HoldsRecords { s with clockMs := clockMs } store t :=
  ⟨h.running, h.absent, h.present⟩

theorem live?_of_none (h : s.HoldsRecords store t) (hclock : s.clockMs = now.toNat * 1000)
    (hnone : store.live? key now = none) : s.live? (recordName key) = none := by
  cases he : store.entries.get? key with
  | none => rw [live?, h.absent key he, Option.filter_none]
  | some e =>
      obtain ⟨-, fs, hslot, -⟩ := h.present key e he
      have hover : ¬ now < e.expiresAt := by
        simpa [Store.live?, he, Entry.isLive, Option.filter] using hnone
      rw [UInt64.lt_iff_toNat_lt] at hover
      have hgone : ¬ s.clockMs < e.expiresAt.toNat * 1000 := by
        rw [hclock]
        omega
      rw [live?, hslot]
      simp [Option.filter, hgone]

theorem live?_of_some (h : s.HoldsRecords store t) (hclock : s.clockMs = now.toNat * 1000)
    (hsome : store.live? key now = some e) :
    e.record.key = key ∧ ∃ fs, s.live? (recordName key) =
      some ⟨.hash fs, some (e.expiresAt.toNat * 1000)⟩ ∧ e.KeptIn fs t := by
  obtain ⟨he, hlive⟩ := Option.filter_eq_some_iff.mp hsome
  obtain ⟨hkey, fs, hslot, hkept⟩ := h.present key e he
  refine ⟨hkey, fs, ?_, hkept⟩
  have hlive : now.toNat < e.expiresAt.toNat := by
    simpa [Entry.isLive, UInt64.lt_iff_toNat_lt] using hlive
  have hthere : s.clockMs < e.expiresAt.toNat * 1000 := by
    rw [hclock]
    omega
  rw [live?, hslot]
  simp [Option.filter, hthere]

/-- Both places put in the same entry. -/
theorem insert (h : s.HoldsRecords store t) (hpast : t ≤ now) {fs : Table String Bytes}
    (hputs : Puts s (recordName key) ⟨.hash fs, some (e.expiresAt.toNat * 1000)⟩ s')
    (hkey : e.record.key = key) (hkept : e.KeptIn fs now) :
    s'.HoldsRecords ⟨store.entries.insert key e⟩ now where
  running := hputs.failing.trans h.running
  absent key' hnone := by
    by_cases hsame : key' = key
    · subst hsame
      cases (Table.get?_insert_self _ _ _).symm.trans hnone
    · rw [hputs.other _ (mt recordName_inj.mp hsame)]
      exact h.absent key' ((Table.get?_insert_of_ne _ _ hsame).symm.trans hnone)
  present key' e' he' := by
    by_cases hsame : key' = key
    · subst hsame
      obtain rfl := Option.some_inj.mp ((Table.get?_insert_self _ _ _).symm.trans he')
      exact ⟨hkey, fs, hputs.self, hkept⟩
    · rw [hputs.other _ (mt recordName_inj.mp hsame)]
      obtain ⟨hkey', fs', hslot, hkept'⟩ :=
        h.present key' e' ((Table.get?_insert_of_ne _ _ hsame).symm.trans he')
      exact ⟨hkey', fs', hslot, hkept'.later hpast⟩

/-- Both places delete the entry. -/
theorem erase (h : s.HoldsRecords store t) (hpast : t ≤ now) (key : String) :
    HoldsRecords { s with slots := s.slots.erase (recordName key) } ⟨store.entries.erase key⟩
      now where
  running := h.running
  absent key' hnone := by
    by_cases hsame : key' = key
    · subst hsame
      exact Table.get?_erase_self _ _
    · refine (Table.get?_erase_of_ne _ (mt recordName_inj.mp hsame)).trans (h.absent key' ?_)
      exact (Table.get?_erase_of_ne _ hsame).symm.trans hnone
  present key' e' he' := by
    by_cases hsame : key' = key
    · subst hsame
      cases (Table.get?_erase_self _ _).symm.trans he'
    · obtain ⟨hkey, fs, hslot, hkept⟩ :=
        h.present key' e' ((Table.get?_erase_of_ne _ hsame).symm.trans he')
      refine ⟨hkey, fs, ?_, hkept.later hpast⟩
      exact (Table.get?_erase_of_ne _ (mt recordName_inj.mp hsame)).trans hslot

theorem later (h : s.HoldsRecords store t) (hpast : t ≤ now) : s.HoldsRecords store now where
  running := h.running
  absent := h.absent
  present key e he := by
    obtain ⟨hkey, fs, hslot, hkept⟩ := h.present key e he
    exact ⟨hkey, fs, hslot, hkept.later hpast⟩

end HoldsRecords

/-! ## Fields of hashes -/

/-- The fields of a record. -/
def RawRecord.ofRecord (r : Record) : RawRecord :=
  ⟨some (.ofNat r.status.toNat), some r.body, some (.ofNat r.createdAt.toNat)⟩

/-- A record that has been stored is read back, whatever its status and its body. -/
theorem recordOf_ofRecord (r : Record) : recordOf r.key (.ofRecord r) = .ok (some r) := by
  have hread : ∀ bound n, n ≤ bound → numeralOf bound (some (.ofNat n)) = .ok (some n) := by
    intro bound n hn
    simp only [numeralOf, Bytes.chars_ofNat, Text.Numeral.read_digits hn]
  have hstatus := hread (UInt16.size - 1) r.status.toNat (Nat.le_sub_one_of_lt r.status.toNat_lt)
  have hcreated := hread (UInt64.size - 1) r.createdAt.toNat
    (Nat.le_sub_one_of_lt r.createdAt.toNat_lt)
  unfold recordOf RawRecord.ofRecord
  rw [hstatus, hcreated]
  change Except.ok (some (Record.mk r.key _ r.body _)) = _
  rw [UInt16.ofNat_toNat, UInt64.ofNat_toNat]

section Fields

variable {fs : Table String Bytes} {e : Entry} {key : String} {t now : UInt64} {ttl lease : Span}

theorem raw_of_keptIn (h : e.KeptIn fs t) :
    ⟨fs.get? "status", fs.get? "body", fs.get? "created_at"⟩ = RawRecord.ofRecord e.record := by
  rw [h.status, h.body, h.createdAt]
  rfl

theorem ofNat_status_eq_iff (r : Record) :
    Bytes.ofNat r.status.toNat = .ofNat 0 ↔ r.isProcessing = true := by
  rw [Bytes.ofNat_inj, Record.isProcessing, beq_iff_eq, ← UInt16.toNat_inj]
  rfl

/-- A lease is read off the fields as it is in memory, or it is over. -/
theorem lt_lease_iff (hkept : e.KeptIn fs t) (hpast : t ≤ now) (hnow : now.toNat < 2 ^ 53) :
    (ofNat now.toNat).lt ((Binary64.ofChars?
      ((fs.get? "lease_until").getD (.ofNat 0)).chars).getD (ofNat 0)) = true ↔
        now < e.leaseUntil := by
  have hread : ∀ n, n ≤ 2 ^ 53 → (Binary64.ofChars? (Bytes.ofNat n).chars).getD (ofNat 0) =
      whole n := by
    intro n hn
    rw [Bytes.chars_ofNat, Binary64.ofChars?_digits hn, Option.getD_some]
  rw [Binary64.ofNat_eq_whole hnow, UInt64.lt_iff_toNat_lt]
  rcases hkept.lease with ⟨hlease, hsmall⟩ | ⟨hnone, hover⟩
  · rw [hlease, Option.getD_some, hread _ hsmall, Binary64.whole_lt_whole, decide_eq_true_iff]
  · rw [UInt64.le_iff_toNat_le] at hover hpast
    rw [hnone, Option.getD_none, hread 0 (Nat.zero_le _), Binary64.whole_lt_whole,
      decide_eq_true_iff]
    omega

/-- The fields tell whether a live entry holds its key. -/
theorem held_iff (hkept : e.KeptIn fs t) (hpast : t ≤ now) (hnow : now.toNat < 2 ^ 53)
    (hlive : e.isLive now = true) :
    (Bytes.ofNat e.record.status.toNat ≠ .ofNat 0 ∨ (ofNat now.toNat).lt ((Binary64.ofChars?
      ((fs.get? "lease_until").getD (.ofNat 0)).chars).getD (ofNat 0)) = true) ↔
        e.isHeld now = true := by
  rw [Ne, ofNat_status_eq_iff, lt_lease_iff hkept hpast hnow, Entry.isHeld, hlive, Bool.true_and,
    Bool.or_eq_true, decide_eq_true_iff, Bool.not_eq_true, Bool.not_eq_true']

/-- The fields that a claim writes. -/
def claimFields (now : UInt64) (lease : Span) : List (String × Bytes) :=
  [("status", .ofNat 0), ("body", []), ("created_at", .ofNat now.toNat),
    ("lease_until", .ofNat (now.toNat + (lifetimeSecs lease).toNat))]

/-- What a claim writes as floating-point numbers is exact. -/
theorem claimFields_eq (hfits : now.toNat + lease.secs < 2 ^ 53) :
    claimFields now lease =
      [("status", Bytes.ofChars (ofNat 0).generalText), ("body", []),
        ("created_at", Bytes.ofChars (ofNat now.toNat).generalText),
        ("lease_until", Bytes.ofChars
          ((ofNat now.toNat).add (ofNat (lifetimeSecs lease).toNat)).generalText)] := by
  have hlease : (lifetimeSecs lease).toNat = max lease.secs 1 :=
    Record.toNat_lifetimeSecs (by omega)
  have hsum := Record.add_lifetimeSecs_le hfits
  rw [Binary64.ofNat_zero, Binary64.ofNat_eq_whole (by omega : now.toNat < 2 ^ 53),
    Binary64.ofNat_eq_whole (by omega), Binary64.whole_add hsum,
    Binary64.generalText_whole (by omega), Binary64.generalText_whole (by omega),
    Binary64.generalText_whole hsum]
  rfl

theorem keptIn_claimFields (hfits : now.toNat + lease.secs < 2 ^ 53) (key : String) (ttl : Span)
    (fs : Table String Bytes) :
    (Entry.ofClaim key now ttl lease).KeptIn
      (overwrite fs (claimFields now lease)) now where
  status := by
    simp [overwrite, claimFields, Table.get?_insert_of_ne, Entry.ofClaim, Record.processing,
      Record.processingStatus]
  body := by
    simp [overwrite, claimFields, Table.get?_insert_of_ne, Entry.ofClaim, Record.processing]
  createdAt := by
    simp [overwrite, claimFields, Table.get?_insert_of_ne, Entry.ofClaim, Record.processing]
  lease := by
    left
    rw [Entry.ofClaim, Record.toNat_addClamped_lifetimeSecs hfits]
    exact ⟨by simp [overwrite, claimFields], Record.add_lifetimeSecs_le hfits⟩

/-- The fields that a response writes into a record that is there. -/
def responseFields (status : UInt16) (body : Bytes) : List (String × Bytes) :=
  [("status", .ofNat status.toNat), ("body", body)]

theorem keptIn_responseFields (hkept : e.KeptIn fs t) (status : UInt16) (body : Bytes) :
    (e.complete status body).KeptIn
      (overwrite fs (responseFields status body)) t where
  status := by simp [overwrite, responseFields, Table.get?_insert_of_ne, Entry.complete]
  body := by simp [overwrite, responseFields, Entry.complete]
  createdAt := by
    simp [overwrite, responseFields, Table.get?_insert_of_ne, Entry.complete, hkept.createdAt]
  lease := by
    simpa [overwrite, responseFields, Table.get?_insert_of_ne, Entry.complete] using hkept.lease

/-- The fields that a response makes a record of. -/
def newResponseFields (status : UInt16) (body : Bytes) (now : UInt64) : List (String × Bytes) :=
  responseFields status body ++ [("created_at", .ofNat now.toNat)]

theorem keptIn_newResponseFields (key : String) (status : UInt16) (body : Bytes) (now : UInt64)
    (ttl : Span) :
    (Entry.ofResponse key status body now ttl).KeptIn
      (overwrite .empty (newResponseFields status body now)) now where
  status := by
    simp [overwrite, newResponseFields, responseFields, Table.get?_insert_of_ne, Entry.ofResponse]
  body := by
    simp [overwrite, newResponseFields, responseFields, Table.get?_insert_of_ne, Entry.ofResponse]
  createdAt := by simp [overwrite, newResponseFields, responseFields, Entry.ofResponse]
  lease := by
    refine .inr ⟨?_, UInt64.le_refl _⟩
    simp [overwrite, newResponseFields, responseFields, Table.get?_insert_of_ne]

end Fields

/-! ## Scripts -/

section Scripts

variable {s : Server} {fs : Table String Bytes} {expires : Option Nat} {key : String}
  {e : Entry} {t now : UInt64} {ttl lease : Span}

/-- Fields are written, and then the hash is given a lifetime. -/
theorem exists_hashSet_expire (hrunning : s.failing = none)
    (hfields : (fields (recordName key)).Gives s (fs, expires) s)
    (hlive : expires.all (s.clockMs < ·) = true) (hclock : s.clockMs = now.toNat * 1000)
    (httl : now.toNat + ttl.secs < 2 ^ 53) (pairs : List (String × Bytes)) :
    ∃ s₁ s₂, (hashSet (recordName key) pairs).Gives s () s₁ ∧
      (expire (recordName key) (.ofNat (lifetimeSecs ttl).toNat)).Gives s₁ () s₂ ∧
      Puts s (recordName key) ⟨.hash (overwrite fs pairs),
        some ((Word.addClamped now (lifetimeSecs ttl)).toNat * 1000)⟩ s₂ := by
  have hsum := Record.add_lifetimeSecs_le httl
  have hpos : 0 < (lifetimeSecs ttl).toNat := Record.lifetimeSecs_pos (by omega)
  have hfits : (lifetimeSecs ttl).toNat * 1000 + s.clockMs ≤ Word.maxSigned := by
    simp only [hclock, Word.maxSigned]
    omega
  have hdeadline : (lifetimeSecs ttl).toNat * 1000 + s.clockMs =
      (Word.addClamped now (lifetimeSecs ttl)).toNat * 1000 := by
    rw [Record.toNat_addClamped_lifetimeSecs httl, hclock]
    omega
  rw [← hdeadline]
  exact exists_make_gives hrunning hfields hlive hpos (Overflow.expiry_of_fits hfits) pairs

/-- A claim on a key that an entry holds is answered with its record. -/
theorem claimScript_gives_held (hfields : (fields (recordName key)).Gives s (fs, expires) s)
    (hkept : e.KeptIn fs t) (hpast : t ≤ now) (hnow : now.toNat < 2 ^ 53)
    (hheld : e.isHeld now = true) (ttlSecs leaseSecs : UInt64) :
    (claimScript (recordName key) now ttlSecs leaseSecs).Gives s
      (some (.ofRecord e.record)) s := by
  unfold claimScript
  apply (hashGet_gives hfields _).bind
  have hholds := (held_iff hkept hpast hnow (Entry.isLive_of_isHeld hheld)).mpr hheld
  simp only [List.map_cons, List.map_nil, ← raw_of_keptIn hkept, hkept.status, if_pos hholds]
  exact gives_pure _ s

/-- A claim on a key that no entry holds writes over the fields that are there. -/
theorem exists_claimScript_gives_free (hrunning : s.failing = none)
    (hfields : (fields (recordName key)).Gives s (fs, expires) s)
    (hlive : expires.all (s.clockMs < ·) = true) (hclock : s.clockMs = now.toNat * 1000)
    (httl : now.toNat + ttl.secs < 2 ^ 53) (hlease : now.toNat + lease.secs < 2 ^ 53)
    (hfree : fs = .empty ∨ ∃ (e : Entry) (t : UInt64),
      e.KeptIn fs t ∧ t ≤ now ∧ e.isLive now = true ∧ e.isHeld now = false) :
    ∃ s', (claimScript (recordName key) now (lifetimeSecs ttl) (lifetimeSecs lease)).Gives s
        none s' ∧
      Puts s (recordName key) ⟨.hash (overwrite fs (claimFields now lease)),
        some ((Word.addClamped now (lifetimeSecs ttl)).toNat * 1000)⟩ s' := by
  obtain ⟨s₁, s₂, hset, hexpire, hputs⟩ := exists_hashSet_expire hrunning hfields hlive hclock httl
    (claimFields now lease)
  refine ⟨s₂, ?_, hputs⟩
  rw [claimFields_eq hlease] at hset
  unfold claimScript
  apply (hashGet_gives hfields _).bind
  rcases hfree with rfl | ⟨e, t, hkept, hpast, hlive, hover⟩
  · exact hset.bind (hexpire.bind (gives_pure _ _))
  · have hholds := mt (held_iff hkept hpast (by omega) hlive).mp (Bool.eq_false_iff.mp hover)
    simp only [List.map_cons, List.map_nil, hkept.status, if_neg hholds]
    exact hset.bind (hexpire.bind (gives_pure _ _))

end Scripts

/-! ## Calls -/

/-- A call is answered alike in both places, and they hold the same records afterwards. -/
def AnswersAs (s : Server) (store : Store) (call : Call) : Prop :=
  ∃ s', s.answerRecord call = (.ok (store.answer call).1, s') ∧
    s'.HoldsRecords (store.answer call).2 call.nowSecs

namespace HoldsRecords

variable {s : Server} {store : Store} {t now : UInt64} {key : String} {ttl lease : Span}

theorem answersAs_claim_free (h : s.HoldsRecords store t) (hpast : t ≤ now)
    (hclock : s.clockMs = now.toNat * 1000) (hfits : Call.Fits (.claim key now ttl lease))
    (hstore : ∀ e, store.entries.get? key = some e → e.isHeld now = false)
    {fs : Table String Bytes} {expires : Option Nat}
    (hfields : (fields (recordName key)).Gives s (fs, expires) s)
    (hlive : expires.all (s.clockMs < ·) = true)
    (hfree : fs = .empty ∨ ∃ (e : Entry) (t : UInt64),
      e.KeptIn fs t ∧ t ≤ now ∧ e.isLive now = true ∧ e.isHeld now = false) :
    s.AnswersAs store (.claim key now ttl lease) := by
  obtain ⟨s', hgives, hputs⟩ := exists_claimScript_gives_free h.running hfields hlive hclock
    hfits.1 hfits.2 hfree
  rw [AnswersAs, Store.answer_claim_of_free hstore]
  refine ⟨s', ?_, h.insert hpast hputs rfl (keptIn_claimFields hfits.2 key ttl fs)⟩
  rw [answerRecord, hgives.run_eq]
  rfl

theorem answersAs_claim (h : s.HoldsRecords store t) (hpast : t ≤ now)
    (hclock : s.clockMs = now.toNat * 1000) (hfits : Call.Fits (.claim key now ttl lease)) :
    s.AnswersAs store (.claim key now ttl lease) := by
  cases hlive : store.live? key now with
  | none =>
      have hfields := fields_gives_none h.running (h.live?_of_none hclock hlive)
      refine h.answersAs_claim_free hpast hclock hfits ?_ hfields rfl (.inl rfl)
      intro e he
      have hover := (Option.filter_eq_none_iff.mp hlive) e he
      exact Bool.eq_false_iff.mpr (mt Entry.isLive_of_isHeld hover)
  | some e =>
      obtain ⟨he, hlives⟩ := Option.filter_eq_some_iff.mp hlive
      obtain ⟨hkey, fs, hslot, hkept⟩ := h.live?_of_some hclock hlive
      have hfields := fields_gives_some h.running hslot
      cases hheld : e.isHeld now with
      | false =>
          refine h.answersAs_claim_free hpast hclock hfits ?_ hfields ?_
            (.inr ⟨e, t, hkept, hpast, hlives, hheld⟩)
          · rintro e' he'
            obtain rfl := Option.some_inj.mp (he.symm.trans he')
            exact hheld
          · exact (Option.filter_eq_some_iff.mp hslot).2
      | true =>
          have hnow : now.toNat < 2 ^ 53 := by have := hfits.1; omega
          have hgives := claimScript_gives_held hfields hkept hpast hnow hheld (lifetimeSecs ttl)
            (lifetimeSecs lease)
          rw [AnswersAs, Store.answer_claim_of_held he hheld]
          refine ⟨s, ?_, h.later hpast⟩
          rw [answerRecord, hgives.run_eq, ← hkey]
          exact congrArg (·, s) (recordOf_ofRecord e.record)

theorem answersAs_complete (h : s.HoldsRecords store t) (hpast : t ≤ now)
    (hclock : s.clockMs = now.toNat * 1000) {status : UInt16} {body : Bytes}
    (hfits : Call.Fits (.complete key status body now ttl)) :
    s.AnswersAs store (.complete key status body now ttl) := by
  have hgiven : ∀ {s' : Server},
      (completeScript (recordName key) status body now (lifetimeSecs ttl)).Gives s () s' →
        s.answerRecord (.complete key status body now ttl) = (.ok (), s') :=
    fun hgives => hgives.run_eq
  have hcontains : (contains (recordName key)).Gives s _ s := contains_gives h.running
  cases hlive : store.live? key now with
  | none =>
      have habsent := h.live?_of_none hclock hlive
      obtain ⟨s₁, s₂, hset, hexpire, hputs⟩ := exists_hashSet_expire h.running
        (fields_gives_none h.running habsent) rfl hclock hfits (newResponseFields status body now)
      rw [habsent] at hcontains
      refine ⟨s₂, hgiven (hcontains.bind (hset.bind hexpire)), ?_⟩
      simp only [Store.answer, hlive]
      exact h.insert hpast hputs rfl (keptIn_newResponseFields key status body now ttl)
  | some e =>
      obtain ⟨hkey, fs, hslot, hkept⟩ := h.live?_of_some hclock hlive
      have hset := hashSet_gives (fields_gives_some h.running hslot) (responseFields status body)
      rw [hslot] at hcontains
      refine ⟨_, hgiven (hcontains.bind hset), ?_⟩
      simp only [Store.answer, hlive]
      exact h.insert hpast (puts_put s _ _) hkey
        (keptIn_responseFields (hkept.later hpast) status body)

theorem answersAs_fetch (h : s.HoldsRecords store t) (hpast : t ≤ now)
    (hclock : s.clockMs = now.toNat * 1000) : s.AnswersAs store (.fetch key now) := by
  refine ⟨s, ?_, h.later hpast⟩
  cases hlive : store.live? key now with
  | none =>
      have hget := hashGet_gives (fields_gives_none h.running (h.live?_of_none hclock hlive))
        ["status", "body", "created_at"]
      have hgives : (fetchScript (recordName key)).Gives s ⟨none, none, none⟩ s :=
        hget.bind (gives_pure _ s)
      rw [answerRecord, hgives.run_eq]
      simp only [Store.answer, hlive]
      rfl
  | some e =>
      obtain ⟨hkey, fs, hslot, hkept⟩ := h.live?_of_some hclock hlive
      have hget := hashGet_gives (fields_gives_some h.running hslot)
        ["status", "body", "created_at"]
      have hgives : (fetchScript (recordName key)).Gives s (.ofRecord e.record) s := by
        apply hget.bind
        rw [← raw_of_keptIn hkept]
        exact gives_pure _ s
      rw [answerRecord, hgives.run_eq, ← hkey]
      simp only [Store.answer, ← hkey] at hlive ⊢
      rw [hlive]
      exact congrArg (·, s) (recordOf_ofRecord e.record)

theorem answersAs_release (h : s.HoldsRecords store t) (hpast : t ≤ now)
    (hclock : s.clockMs = now.toNat * 1000) : s.AnswersAs store (.release key now) := by
  have hgiven : ∀ {s' : Server} {deleted : Bool},
      (releaseScript (recordName key)).Gives s deleted s' →
        s.answerRecord (.release key now) = (.ok deleted, s') := fun hgives => hgives.run_eq
  cases hlive : store.live? key now with
  | none =>
      have hget := hashGet_gives (fields_gives_none h.running (h.live?_of_none hclock hlive))
        ["status"]
      simp only [AnswersAs, Store.answer, hlive, Option.filter_none]
      exact ⟨s, hgiven (hget.bind (gives_pure false s)), h.later hpast⟩
  | some e =>
      obtain ⟨hkey, fs, hslot, hkept⟩ := h.live?_of_some hclock hlive
      have hget := hashGet_gives (fields_gives_some h.running hslot) ["status"]
      simp only [List.map_cons, List.map_nil, hkept.status] at hget
      cases hprocessing : e.record.isProcessing with
      | true =>
          have hdelete : (delete (recordName key)).Gives s _ _ := delete_gives h.running
          rw [hslot] at hdelete
          simp only [AnswersAs, Store.answer, hlive, Option.filter_some, hprocessing, if_true]
          refine ⟨_, hgiven (hget.bind ?_), h.erase hpast key⟩
          simp only [if_pos ((ofNat_status_eq_iff e.record).mpr hprocessing)]
          exact hdelete
      | false =>
          have hstatus := mt (ofNat_status_eq_iff e.record).mp (Bool.eq_false_iff.mp hprocessing)
          simp only [AnswersAs, Store.answer, hlive, Option.filter_some, hprocessing,
            Bool.false_eq_true, if_false]
          refine ⟨s, hgiven (hget.bind ?_), h.later hpast⟩
          simp only [if_neg hstatus]
          exact gives_pure false s

/-- Whatever is called at a time that is not before, both places answer it alike. -/
theorem answersAs (h : s.HoldsRecords store t) (call : Call) (hpast : t ≤ call.nowSecs)
    (hclock : s.clockMs = call.nowSecs.toNat * 1000) (hfits : call.Fits) :
    s.AnswersAs store call := by
  cases call with
  | claim => exact h.answersAs_claim hpast hclock hfits
  | complete => exact h.answersAs_complete hpast hclock hfits
  | fetch => exact h.answersAs_fetch hpast hclock
  | release => exact h.answersAs_release hpast hclock

end HoldsRecords

/-! ## Histories -/

/-- Answers a call when the clock of the server shows the second that the call carries. -/
def answerRecordAt (s : Server) (call : Call) : Except StoreError call.Answer × Server :=
  { s with clockMs := call.nowSecs.toNat * 1000 }.answerRecord call

/-- What calls on records are answered one after another. -/
def recordAnswers (s : Server) : List Call → List ((call : Call) × Except StoreError call.Answer)
  | [] => []
  | call :: calls =>
    ⟨call, (s.answerRecordAt call).1⟩ :: (s.answerRecordAt call).2.recordAnswers calls

variable {s : Server} {store : Store} {t : UInt64}

theorem HoldsRecords.recordAnswers_eq (h : s.HoldsRecords store t) {calls : List Call}
    (hpast : ∀ call ∈ calls, t ≤ call.nowSecs)
    (hordered : calls.Pairwise fun call later => call.nowSecs ≤ later.nowSecs)
    (hfits : ∀ call ∈ calls, call.Fits) :
    s.recordAnswers calls =
      (store.answers (calls.map .call)).map fun a => ⟨a.call, .ok a.answer⟩ := by
  induction calls generalizing s store t with
  | nil => rfl
  | cons call calls ih =>
      rw [List.forall_mem_cons] at hpast hfits
      rw [List.pairwise_cons] at hordered
      obtain ⟨s', hanswer, hholds⟩ :=
        (h.at_clock (call.nowSecs.toNat * 1000)).answersAs call hpast.1 rfl hfits.1
      have hstep : s.answerRecordAt call = (.ok (store.answer call).1, s') := hanswer
      have hrest := ih hholds hordered.1 hordered.2 hfits.2
      rw [recordAnswers, hstep]
      exact congrArg (_ :: ·) hrest

/-- Calls that come in order of time, at whole seconds that floating point holds exactly, are all
answered by a server as they are by a store in memory. -/
theorem recordAnswers_empty_eq (overflow : Overflow) (calls : List Call)
    (hordered : calls.Pairwise fun call later => call.nowSecs ≤ later.nowSecs)
    (hfits : ∀ call ∈ calls, call.Fits) :
    (empty overflow).recordAnswers calls =
      (Store.empty.answers (calls.map .call)).map fun a => ⟨a.call, .ok a.answer⟩ :=
  (holdsRecords_empty overflow).recordAnswers_eq (fun _ _ => UInt64.zero_le) hordered hfits

/-- A lease of no length, a record that is taken over and released, one that a late response makes
without a lease, and deadlines in the last second that is exact. -/
def lateCalls : List Call :=
  [.claim "k" 0 (.ofSecs 10) (.ofSecs 0), .claim "k" 0 (.ofSecs 10) (.ofSecs 9),
    .claim "k" 1 (.ofSecs 10) (.ofSecs 9), .release "k" 2,
    .complete "k" 0 [255] 3 (.ofSecs 9), .claim "k" 3 (.ofSecs 5) (.ofSecs 5),
    .complete "k" 65535 [255, 0] 4 (.ofSecs 1), .claim "k" 7 (.ofSecs 1) (.ofSecs 1),
    .release "k" 7, .fetch "k" 8,
    .claim "j" 9007199254740991 (.ofSecs 0) (.ofSecs 0), .fetch "j" 9007199254740991,
    .fetch "j" 9007199254740992]

theorem recordAnswers_lateCalls_eq :
    (lateCalls.Pairwise fun call later => call.nowSecs ≤ later.nowSecs) ∧
      (∀ call ∈ lateCalls, call.Fits) ∧
      (empty .refusing).recordAnswers lateCalls =
        [⟨.claim "k" 0 (.ofSecs 10) (.ofSecs 0), .ok none⟩,
          ⟨.claim "k" 0 (.ofSecs 10) (.ofSecs 9), .ok (some (.processing "k" 0))⟩,
          ⟨.claim "k" 1 (.ofSecs 10) (.ofSecs 9), .ok none⟩,
          ⟨.release "k" 2, .ok true⟩,
          ⟨.complete "k" 0 [255] 3 (.ofSecs 9), .ok ()⟩,
          ⟨.claim "k" 3 (.ofSecs 5) (.ofSecs 5), .ok none⟩,
          ⟨.complete "k" 65535 [255, 0] 4 (.ofSecs 1), .ok ()⟩,
          ⟨.claim "k" 7 (.ofSecs 1) (.ofSecs 1), .ok (some ⟨"k", 65535, [255, 0], 3⟩)⟩,
          ⟨.release "k" 7, .ok false⟩,
          ⟨.fetch "k" 8, .ok none⟩,
          ⟨.claim "j" 9007199254740991 (.ofSecs 0) (.ofSecs 0), .ok none⟩,
          ⟨.fetch "j" 9007199254740991, .ok (some (.processing "j" 9007199254740991))⟩,
          ⟨.fetch "j" 9007199254740992, .ok none⟩] := by
  have hordered : lateCalls.Pairwise fun call later => call.nowSecs ≤ later.nowSecs := by
    decide +kernel
  have hfits : ∀ call ∈ lateCalls, call.Fits := by decide +kernel
  exact ⟨hordered, hfits, (recordAnswers_empty_eq .refusing lateCalls hordered hfits).trans rfl⟩

end Server

end Admission
