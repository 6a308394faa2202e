import Admission.Proofs.Bucket.Expiry
import Admission.Proofs.Record.History
import Admission.Proofs.Server.Buckets

/-! # Purges go unnoticed

Every call of a store goes by what is alive under its key and writes nowhere else. Hence a store that
is purged now and then answers like one that never is, and holds what is alive of the other one. -/

namespace Admission

/-! ## Records -/

namespace Record

/-- What a call comes to, going by the entry that is alive under its key. -/
def Call.outcome : (call : Call) → Option Entry → call.Answer × Table.Edit Entry
  | claim key now ttl lease, found =>
    match found.filter (·.isHeld now) with
    | some e => (some e.record, .leave)
    | none => (none, .put (.ofClaim key now ttl lease))
  | complete _ status body _ _, some e => ((), .put (e.complete status body))
  | complete key status body now ttl, none =>
    ((), .put ⟨⟨key, status, body, now⟩, Word.addClamped now (lifetimeSecs ttl), now⟩)
  | fetch _ _, found => (found.map Entry.record, .leave)
  | release _ _, found =>
    match found.filter (·.record.isProcessing) with
    | some _ => (true, .drop)
    | none => (false, .leave)

def Use.isCall : Use → Bool
  | .call _ => true
  | .purge _ => false

namespace Store

/-- An entry that holds its key is alive. -/
theorem held?_eq (s : Store) (key : String) (now : UInt64) :
    s.held? key now = (s.live? key now).filter (·.isHeld now) := by
  rw [held?, live?, Option.filter_filter]
  congr 1
  funext e
  rw [Bool.eq_iff_iff, Bool.and_eq_true]
  exact ⟨fun h => ⟨Entry.isLive_of_isHeld h, h⟩, And.right⟩

theorem answer_eq_outcome (s : Store) (call : Call) :
    s.answer call =
      ((call.outcome (s.live? call.key call.nowSecs)).1,
        ⟨s.entries.edit call.key (call.outcome (s.live? call.key call.nowSecs)).2⟩) := by
  cases call with
  | claim key now ttl lease =>
      simp only [answer, held?_eq, Call.key, Call.nowSecs, Call.outcome]
      cases (s.live? key now).filter (·.isHeld now) with
      | some e => rfl
      | none => rfl
  | complete key status body now ttl =>
      simp only [answer, Call.key, Call.nowSecs]
      cases s.live? key now with
      | some e => rfl
      | none => rfl
  | fetch key now => rfl
  | release key now =>
      simp only [answer, Call.key, Call.nowSecs, Call.outcome]
      cases (s.live? key now).filter (·.record.isProcessing) with
      | some e => rfl
      | none => rfl

/-- The stores differ in no record that is alive at a reading. -/
def AgreeAt (now : UInt64) (s t : Store) : Prop :=
  s.entries.AgreeAt Entry.expiresAt now t.entries

theorem AgreeAt.live?_eq {now : UInt64} {s t : Store} (h : s.AgreeAt now t) (key : String) :
    s.live? key now = t.live? key now := h key

/-- A call keeps what the stores agree on, and both answer it alike. -/
theorem AgreeAt.answer {s t : Store} {call : Call} (h : s.AgreeAt call.nowSecs t) :
    (s.answer call).1 = (t.answer call).1 ∧
      (s.answer call).2.AgreeAt call.nowSecs (t.answer call).2 := by
  rw [s.answer_eq_outcome, t.answer_eq_outcome, h.live?_eq call.key]
  exact ⟨rfl, h.edit call.key _⟩

theorem unnoticed : Unnoticed use answers Use.nowSecs Use.isCall AgreeAt where
  answers_nil _ := rfl
  later h hle := h.later hle
  purge {s t u} hcall h := by
    cases u with
    | call call => cases hcall
    | purge now => exact ⟨h.purge, fun _ => rfl⟩
  call {s t u} hcall h := by
    cases u with
    | call call =>
        obtain ⟨hanswer, hsame⟩ := AgreeAt.answer h
        refine ⟨hsame, ⟨call, (s.answer call).1⟩, fun rest => ⟨rfl, ?_⟩⟩
        rw [answers, hanswer]
    | purge now => cases hcall

end Store

end Record

/-! ## Buckets -/

namespace Bucket

/-- What a call answers and what it leaves of the bucket, going by the one that is alive under its
key. -/
def Call.outcome : (call : Call) → Option State → call.Answer × State
  | refill _ capacity rate now _, prior =>
    let next := Bucket.refill prior capacity rate now
    (next, next)
  | deduct _ capacity cost now _, prior =>
    let next := Bucket.deduct prior capacity cost now
    (next.tokens, next)
  | reset _ capacity now _, _ => ((), .full capacity now)

/-- A call of the store, or a purge that drops all buckets that have expired. -/
inductive Turn
  | call (call : Call)
  | purge (nowMs : UInt64)
deriving DecidableEq

namespace Turn

def nowMs : Turn → UInt64
  | call c => c.nowMs
  | purge now => now

def isCall : Turn → Bool
  | call _ => true
  | purge _ => false

end Turn

namespace Store

def turn (s : Store) : Turn → Store
  | .call call => (s.answer call).2
  | .purge now => s.purgeExpired now

def run (s : Store) (history : List Turn) : Store := history.foldl turn s

/-- What the calls of a history are answered. -/
def answers (s : Store) : List Turn → List ((call : Call) × call.Answer)
  | [] => []
  | .call call :: history => ⟨call, (s.answer call).1⟩ :: (s.turn (.call call)).answers history
  | .purge now :: history => (s.turn (.purge now)).answers history

theorem answer_eq_outcome (s : Store) (call : Call) :
    s.answer call =
      ((call.outcome (s.live? call.key call.nowMs)).1,
        ⟨s.entries.insert call.key.text ⟨(call.outcome (s.live? call.key call.nowMs)).2,
          Word.addClamped call.nowMs call.ttl.millisWord⟩⟩) := by
  cases call with
  | refill => rfl
  | deduct => rfl
  | reset => rfl

/-- A call keeps what the stores agree on, and both answer it alike. -/
theorem AgreeAt.answer {s t : Store} {call : Call} (h : s.AgreeAt call.nowMs t) :
    (s.answer call).1 = (t.answer call).1 ∧
      (s.answer call).2.AgreeAt call.nowMs (t.answer call).2 := by
  rw [s.answer_eq_outcome, t.answer_eq_outcome, h.live?_eq call.key]
  exact ⟨rfl, h.edit call.key.text (.put _)⟩

theorem unnoticed : Unnoticed turn answers Turn.nowMs Turn.isCall AgreeAt where
  answers_nil _ := rfl
  later h hle := h.later hle
  purge {s t u} hcall h := by
    cases u with
    | call call => cases hcall
    | purge now => exact ⟨h.purge, fun _ => rfl⟩
  call {s t u} hcall h := by
    cases u with
    | call call =>
        obtain ⟨hanswer, hsame⟩ := AgreeAt.answer h
        refine ⟨hsame, ⟨call, (s.answer call).1⟩, fun rest => ⟨rfl, ?_⟩⟩
        rw [answers, hanswer]
    | purge now => cases hcall

end Store

end Bucket

/-! ## Both stores -/

/-- On a clock that never goes back, calls are answered as if nothing were ever purged, wherever purges
come in between. Right after a purge a store holds exactly what is alive of all that it held, which is
what would be alive in it if it had never been purged, and of records the purge counts those that it
drops. -/
theorem purges_unnoticed :
    (∀ (s : Record.Store) (history : List Record.Use),
      (history.Pairwise fun u v => u.nowSecs ≤ v.nowSecs) →
        s.answers history = s.answers (history.filter Record.Use.isCall) ∧
          ∀ now, (∀ u ∈ history, u.nowSecs ≤ now) →
            let kept := s.follow history
            let full := s.follow (history.filter Record.Use.isCall)
            (kept.countExpired now = kept.entries.entries.countP fun e => !e.2.isLive now) ∧
              ∀ key, (kept.purgeExpired now).entries.get? key =
                  kept.entries.alive? Record.Entry.expiresAt now key ∧
                (kept.purgeExpired now).entries.get? key =
                  full.entries.alive? Record.Entry.expiresAt now key) ∧
    ∀ (s : Bucket.Store) (history : List Bucket.Turn),
      (history.Pairwise fun u v => u.nowMs ≤ v.nowMs) →
        s.answers history = s.answers (history.filter Bucket.Turn.isCall) ∧
          ∀ now, (∀ u ∈ history, u.nowMs ≤ now) →
            let kept := s.run history
            let full := s.run (history.filter Bucket.Turn.isCall)
            ∀ name, (kept.purgeExpired now).entries.get? name =
                kept.entries.alive? Bucket.Entry.expiresMs now name ∧
              (kept.purgeExpired now).entries.get? name =
                full.entries.alive? Bucket.Entry.expiresMs now name := by
  constructor
  · intro s history hordered
    have hfirst : ∀ u ∈ history, 0 ≤ u.nowSecs := fun u _ => UInt64.zero_le
    have hsame : s.AgreeAt 0 s := .refl s.entries 0
    refine ⟨Record.Store.unnoticed.answers_eq hsame hordered hfirst, fun now hupTo => ?_⟩
    refine ⟨Table.size_sub_size_filter _ _, fun key => ?_⟩
    have hend := Record.Store.unnoticed.follow hsame hordered hfirst UInt64.zero_le hupTo
    have hheld := (s.follow history).entries.get?_filter (fun _ e => e.isLive now) key
    exact ⟨hheld, hheld.trans (hend key)⟩
  · intro s history hordered
    have hfirst : ∀ u ∈ history, 0 ≤ u.nowMs := fun u _ => UInt64.zero_le
    have hsame : s.AgreeAt 0 s := .refl s.entries 0
    refine ⟨Bucket.Store.unnoticed.answers_eq hsame hordered hfirst, fun now hupTo name => ?_⟩
    have hend := Bucket.Store.unnoticed.follow hsame hordered hfirst UInt64.zero_le hupTo
    have hheld := (s.run history).entries.get?_filter (fun _ e => now < e.expiresMs) name
    exact ⟨hheld, hheld.trans (hend name)⟩

/-- A record that is purged in the second in which it expires, and saved anew in that second. -/
def purgedRecords : List Record.Use :=
  [.call (.claim "k" 0 (.ofSecs 1) (.ofSecs 60)), .purge 0, .purge 1,
    .call (.complete "k" 200 [] 1 (.ofSecs 5)), .call (.claim "j" 3 (.ofSecs 9) (.ofSecs 60))]

/-- A bucket that is purged in the millisecond in which it expires, and drawn on in that
millisecond. -/
def purgedBuckets : List Bucket.Turn :=
  [.call (.deduct ⟨"P", "a"⟩ 10 9 0 (.ofMillis 40)), .purge 40,
    .call (.deduct ⟨"P", "a"⟩ 10 2 40 (.ofMillis 40)),
    .call (.refill ⟨"P", "b"⟩ 10 60 50 (.ofMillis 40))]

theorem purges_unnoticed_onExpiry :
    (purgedRecords.Pairwise fun u v => u.nowSecs ≤ v.nowSecs) ∧
      (∀ u ∈ purgedRecords, u.nowSecs ≤ 6) ∧
      Record.Store.empty.answers purgedRecords =
        Record.Store.empty.answers (purgedRecords.filter Record.Use.isCall) ∧
      (Record.Store.empty.follow purgedRecords).countExpired 6 = 1 ∧
      ((Record.Store.empty.follow purgedRecords).purgeExpired 6).entries.get? "k" = none ∧
      (purgedBuckets.Pairwise fun u v => u.nowMs ≤ v.nowMs) ∧
      (∀ u ∈ purgedBuckets, u.nowMs ≤ 79) ∧
      Bucket.Store.empty.answers purgedBuckets =
        Bucket.Store.empty.answers (purgedBuckets.filter Bucket.Turn.isCall) ∧
      ((Bucket.Store.empty.run purgedBuckets).purgeExpired 79).peek ⟨"P", "a"⟩ = some ⟨8, 40⟩ := by
  have hrecords : purgedRecords.Pairwise fun u v => u.nowSecs ≤ v.nowSecs := by decide
  have hrecordsEnd : ∀ u ∈ purgedRecords, u.nowSecs ≤ 6 := by decide
  have hbuckets : purgedBuckets.Pairwise fun u v => u.nowMs ≤ v.nowMs := by decide
  have hbucketsEnd : ∀ u ∈ purgedBuckets, u.nowMs ≤ 79 := by decide
  obtain ⟨hanswers, hpurge⟩ := purges_unnoticed.1 .empty purgedRecords hrecords
  obtain ⟨hcount, hheld⟩ := hpurge 6 hrecordsEnd
  obtain ⟨hshown, hleft⟩ := purges_unnoticed.2 .empty purgedBuckets hbuckets
  refine ⟨hrecords, hrecordsEnd, hanswers, hcount.trans ?_, (hheld "k").2.trans ?_, hbuckets,
    hbucketsEnd, hshown, ?_⟩
  · decide +kernel
  · decide +kernel
  · rw [Bucket.Store.peek, (hleft 79 hbucketsEnd _).2]
    decide +kernel

end Admission
