import Admission.Bucket.Limiter
import Admission.Bucket.Store
import Admission.Proofs.Bucket.Refill
import Admission.Request.Plan

/-! # Histories of one bucket

What is done with a caller's bucket one after another, each at a reading of the clock, and what each
use finds and leaves. -/

namespace Admission

def Account.key (account : Account) : Bucket.Key := ⟨account.policy.name, account.identifier⟩

namespace Bucket

inductive Use
  | check
  | consume (status : UInt16)
  | reset
  /-- Drops all buckets of the store that have expired. -/
  | purge
deriving DecidableEq, Repr

/-- A use and the reading of the clock at which it happens. -/
abbrev Visit := UInt64 × Use

/-- Whether a use calls the store. A response that costs nothing makes no call, and a purge makes no
bucket. -/
def Use.touches (policy : Policy) : Use → Bool
  | .check => true
  | .consume status => policy.cost status != 0
  | .reset => true
  | .purge => false

/-- The reading at which a history first calls the store. -/
def firstTouch? (policy : Policy) (history : List Visit) : Option UInt64 :=
  (history.find? fun v => v.2.touches policy).map Prod.fst

/-- The clock never goes back, and the time to live of the bucket always fits into a word. -/
structure Timely (policy : Policy) (history : List Visit) : Prop where
  ordered : history.Pairwise fun v w => v.1 ≤ w.1
  fits : ∀ v ∈ history, v.1.toNat + policy.bucketTtl.millis < UInt64.size

theorem Timely.tail {policy : Policy} {v : Visit} {history : List Visit}
    (h : Timely policy (v :: history)) : Timely policy history :=
  ⟨h.ordered.tail, fun w hw => h.fits w (List.mem_cons_of_mem v hw)⟩

/-- No use before the first touch calls the store. -/
theorem firstTouch?_le {policy : Policy} {history : List Visit} {t0 : UInt64}
    (h : Timely policy history) (h0 : firstTouch? policy history = some t0) :
    ∀ v ∈ history, v.2.touches policy = true → t0 ≤ v.1 := by
  induction history with
  | nil => simp
  | cons w history ih =>
      intro v hv htouches
      by_cases hw : w.2.touches policy = true
      · have ht : w.1 = t0 := by simpa [firstTouch?, hw] using h0
        rcases List.mem_cons.mp hv with rfl | hv
        · exact UInt64.le_of_eq ht.symm
        · exact ht ▸ List.rel_of_pairwise_cons h.ordered hv
      · have h0' : firstTouch? policy history = some t0 := by simpa [firstTouch?, hw] using h0
        rcases List.mem_cons.mp hv with rfl | hv
        · exact absurd htouches hw
        · exact ih h.tail h0' v hv htouches

/-- A history that begins no sooner than one reading and ends no later than another, on a clock that
never goes back. -/
structure Within (nowMs t : UInt64) (history : List Visit) : Prop where
  ordered : history.Pairwise fun v w => v.1 ≤ w.1
  since : ∀ v ∈ history, nowMs ≤ v.1
  upTo : ∀ v ∈ history, v.1 ≤ t
  le : nowMs ≤ t

instance (nowMs t : UInt64) (history : List Visit) : Decidable (Within nowMs t history) :=
  decidable_of_iff
    (history.Pairwise (fun v w => v.1 ≤ w.1) ∧ (∀ v ∈ history, nowMs ≤ v.1) ∧
      (∀ v ∈ history, v.1 ≤ t) ∧ nowMs ≤ t)
    ⟨fun ⟨hordered, hsince, hupTo, hle⟩ => ⟨hordered, hsince, hupTo, hle⟩,
      fun h => ⟨h.ordered, h.since, h.upTo, h.le⟩⟩

theorem Within.tail {nowMs t : UInt64} {v : Visit} {history : List Visit}
    (h : Within nowMs t (v :: history)) : Within v.1 t history where
  ordered := h.ordered.tail
  since _ hw := List.rel_of_pairwise_cons h.ordered hw
  upTo w hw := h.upTo w (List.mem_cons_of_mem v hw)
  le := h.upTo v List.mem_cons_self

namespace Store

variable (account : Account)

/-- The store after a visit to the bucket of an account. -/
def visit (s : Store) (v : Visit) : Store :=
  match v.2 with
  | .check => (s.answer (checkCall account.policy account.identifier v.1)).2
  | .consume status =>
    if account.policy.cost status = 0 then s
    else
      (s.answer
        (chargeCall account.policy account.identifier (account.policy.cost status) v.1)).2
  | .reset => (s.answer (resetCall account.policy account.identifier v.1)).2
  | .purge => s.purgeExpired v.1

def follow (s : Store) (history : List Visit) : Store := history.foldl (visit account) s

theorem follow_append (s : Store) (history rest : List Visit) :
    s.follow account (history ++ rest) = (s.follow account history).follow account rest :=
  List.foldl_append

/-- What waiting does not undo and no visit of a history either, holds at the end of the history. -/
theorem follow_induction {P : Store → UInt64 → Prop} {s : Store} {nowMs t : UInt64}
    {history : List Visit} (hstart : P s nowMs) (hwithin : Within nowMs t history)
    (hlater : ∀ s u w, u ≤ w → P s u → P s w)
    (hvisit : ∀ s, ∀ v ∈ history, P s v.1 → P (s.visit account v) v.1) :
    P (s.follow account history) t := by
  induction history generalizing s nowMs with
  | nil => exact hlater s nowMs t hwithin.le hstart
  | cons v history ih =>
      have hhead := hlater s nowMs v.1 (hwithin.since v List.mem_cons_self) hstart
      have hnext := hvisit s v List.mem_cons_self hhead
      exact ih hnext hwithin.tail fun s w hw => hvisit s w (List.mem_cons_of_mem v hw)

/-- The state in which a visit finds the bucket: one that is absent or has expired counts as full.
-/
def found (s : Store) (nowMs : UInt64) : State :=
  (s.live? account.key nowMs).getD (.full account.policy.capacity nowMs)

def balance (s : Store) (nowMs : UInt64) : Nat :=
  min (s.found account nowMs).tokens.toNat account.policy.capacity.toNat

/-- The state in which a check at a reading leaves the bucket. -/
def checked (s : Store) (nowMs : UInt64) : State :=
  (s.answer (checkCall account.policy account.identifier nowMs)).1

/-- What the check reports of it. -/
def status (s : Store) (nowMs : UInt64) : Status :=
  .ofState account.policy (s.checked account nowMs)

theorem checked_eq (s : Store) (nowMs : UInt64) :
    s.checked account nowMs = Bucket.refill (s.live? account.key nowMs) account.policy.capacity
      account.policy.refillPerMinute nowMs := rfl

theorem get?_visit_check (s : Store) (nowMs : UInt64) :
    (s.visit account (nowMs, .check)).entries.get? account.key.text =
      some ⟨s.checked account nowMs,
        Word.addClamped nowMs account.policy.bucketTtl.millisWord⟩ :=
  s.entries.get?_insert_self _ _

/-- The tokens that a visit takes out: those a charge finds less those it leaves. -/
def taken (s : Store) (v : Visit) : Nat :=
  match v.2 with
  | .consume status =>
    if account.policy.cost status = 0 then 0
    else
      s.balance account v.1 -
        (s.answer (chargeCall account.policy account.identifier
          (account.policy.cost status) v.1)).1.toNat
  | _ => 0

def spent (s : Store) : List Visit → Nat
  | [] => 0
  | v :: history => s.taken account v + (s.visit account v).spent history

end Store

end Bucket

end Admission
