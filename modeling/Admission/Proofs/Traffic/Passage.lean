import Admission.Request.Stage

/-! # A request and its history

A request keeps every answer it has been given. What has become of its claim is read off this
history, whatever stage it is at. -/

namespace Admission

/-! ## Histories -/

/-- The instant at which a wait is over that begins at an instant. -/
def InFlight.waitEnd (instant : Nat) : InFlight → Nat
  | wait maxWait _ => instant + (Span.ofMillis maxWait.toNat).nanos
  | proceed => instant

theorem InFlight.le_waitEnd (instant : Nat) (f : InFlight) : instant ≤ f.waitEnd instant := by
  cases f with
  | wait => exact Nat.le_add_right _ _
  | proceed => exact Nat.le_refl _

structure Exchange where
  time : Moment
  await : Await
  reply : await.Reply

namespace Exchange

/-- The key of a claim, its reading of the clock and what it came to. -/
def claim? : Exchange → Option (String × UInt64 × Record.Claim)
  | ⟨_, .record (.claim key now _ _), reply⟩ => some (key, now, .ofAnswer reply)
  | _ => none

def won? (x : Exchange) : Option String :=
  match x.claim? with
  | some (key, _, .claimed) => some key
  | _ => none

/-- Whether a response was saved or a claim given up. A release that has found nothing counts. -/
def settles : Exchange → Bool
  | ⟨_, .record (.complete ..), .ok _⟩ => true
  | ⟨_, .record (.release ..), .ok _⟩ => true
  | _ => false

def saved? : Exchange → Option (String × UInt16 × Bytes)
  | ⟨_, .record (.complete key status body _ _), .ok _⟩ => some (key, status, body)
  | _ => none

def returned? : Exchange → Option Response
  | ⟨_, .handler, .ok response⟩ => some response
  | _ => none

/-- The key of a record that was found, by a claim or by a fetch, and the record. -/
def found? : Exchange → Option (String × Record)
  | ⟨_, .record (.claim key ..), .ok (some record)⟩ => some (key, record)
  | ⟨_, .record (.fetch key _), .ok (some record)⟩ => some (key, record)
  | _ => none

theorem exists_of_claim? {x : Exchange} {key : String} {now : UInt64} {claim : Record.Claim}
    (h : x.claim? = some (key, now, claim)) :
    ∃ ttl lease, x.await = .record (.claim key now ttl lease) := by
  obtain ⟨t, a, reply⟩ := x
  cases a with
  | record call =>
      cases call with
      | claim k c ttl lease =>
          cases h
          exact ⟨ttl, lease, rfl⟩
      | _ => cases h
  | _ => cases h

theorem exists_of_won? {x : Exchange} {key : String} (h : x.won? = some key) :
    ∃ t now ttl lease, x = ⟨t, .record (.claim key now ttl lease), .ok none⟩ := by
  obtain ⟨t, a, reply⟩ := x
  cases a with
  | record call =>
      cases call with
      | claim k now ttl lease =>
          match reply with
          | .ok none =>
              cases h
              exact ⟨t, now, ttl, lease, rfl⟩
          | .ok (some record) => cases h
          | .error e => cases h
      | _ => cases h
  | _ => cases h

theorem won?_of_claim? {x : Exchange} {key : String} {now : UInt64}
    (h : x.claim? = some (key, now, .claimed)) : x.won? = some key := by
  rw [won?, h]

theorem exists_of_saved? {x : Exchange} {key : String} {status : UInt16} {body : Bytes}
    (h : x.saved? = some (key, status, body)) :
    ∃ t now ttl, x = ⟨t, .record (.complete key status body now ttl), .ok ()⟩ := by
  obtain ⟨t, a, reply⟩ := x
  cases a with
  | record call =>
      cases call with
      | complete k st b now ttl =>
          cases reply with
          | ok answer =>
              cases h
              exact ⟨t, now, ttl, rfl⟩
          | error e => cases h
      | _ => cases h
  | _ => cases h

theorem exists_of_found? {x : Exchange} {key : String} {record : Record}
    (h : x.found? = some (key, record)) :
    (∃ now ttl lease, x.await = .record (.claim key now ttl lease)) ∨
      ∃ now, x.await = .record (.fetch key now) := by
  obtain ⟨t, a, reply⟩ := x
  cases a with
  | record call =>
      cases call with
      | claim k now ttl lease =>
          match reply, h with
          | .ok (some _), rfl => exact .inl ⟨now, ttl, lease, rfl⟩
      | fetch k now =>
          match reply, h with
          | .ok (some _), rfl => exact .inr ⟨now, rfl⟩
      | _ => cases h
  | _ => cases h

theorem settles_of_saved? {x : Exchange} {key : String} {status : UInt16} {body : Bytes}
    (h : x.saved? = some (key, status, body)) : x.settles = true := by
  obtain ⟨t, now, ttl, rfl⟩ := exists_of_saved? h
  rfl

end Exchange

/-- What a request is to do and the answers it has had so far, the latest one last. -/
structure History where
  plan : Plan
  past : List Exchange := []

namespace History

def add (h : History) (x : Exchange) : History := { h with past := h.past ++ [x] }

def claim? (h : History) : Option (String × UInt64 × Record.Claim) :=
  h.past.findSome? Exchange.claim?

/-- Whether the request has saved its response or given its claim up. -/
def settled (h : History) : Bool := h.past.any Exchange.settles

def Won (h : History) (key : String) (now : UInt64) : Prop :=
  h.claim? = some (key, now, .claimed)

instance (h : History) (key : String) (now : UInt64) : Decidable (h.Won key now) :=
  inferInstanceAs (Decidable (_ = _))

/-- Another record was there when the request claimed its key. -/
def Lost (h : History) (key : String) : Prop :=
  ∃ now record, h.claim? = some (key, now, .alreadyClaimed record)

def Returned (h : History) (response : Response) : Prop :=
  ∃ x ∈ h.past, x.returned? = some response

def Saved (h : History) (key : String) (status : UInt16) (body : Bytes) : Prop :=
  ∃ x ∈ h.past, x.saved? = some (key, status, body)

/-- The instant at which the claim of a request was answered. -/
def claimedAt? (h : History) : Option Nat :=
  (h.past.find? fun x => x.claim?.isSome).map fun x => x.time.instant

/-- The instant at which the wait of a request is over that begins with its claim. -/
def waitEnd? (h : History) : Option Nat := h.claimedAt?.map h.plan.inFlight.waitEnd

theorem Saved.settled {h : History} {key : String} {status : UInt16} {body : Bytes}
    (hs : h.Saved key status body) : h.settled = true := by
  obtain ⟨x, hx, hs⟩ := hs
  exact List.any_eq_true.mpr ⟨x, hx, Exchange.settles_of_saved? hs⟩

/-! ### How a history grows -/

section Add

variable {h : History} {x : Exchange} {key : String} {now : UInt64}

@[simp] theorem plan_add : (h.add x).plan = h.plan := rfl

@[simp] theorem past_add : (h.add x).past = h.past ++ [x] := rfl

@[simp] theorem settled_add : (h.add x).settled = (h.settled || x.settles) := by
  simp [settled]

theorem claim?_add : (h.add x).claim? = h.claim?.or x.claim? := by
  simp [claim?, List.findSome?_append]

/-- A request makes one claim at most. -/
theorem claim?_add_of_some {c : String × UInt64 × Record.Claim} (hc : h.claim? = some c) :
    (h.add x).claim? = some c := by
  rw [claim?_add, hc, Option.some_or]

theorem claim?_add_of_none (hc : h.claim? = none) : (h.add x).claim? = x.claim? := by
  rw [claim?_add, hc, Option.none_or]

theorem Won.add (hwon : h.Won key now) : (h.add x).Won key now := claim?_add_of_some hwon

theorem Lost.add (hlost : h.Lost key) : (h.add x).Lost key := by
  obtain ⟨now, record, hc⟩ := hlost
  exact ⟨now, record, claim?_add_of_some hc⟩

theorem not_won_of_past_eq_nil (hnew : h.past = []) : ¬ h.Won key now := by
  intro hwon
  rw [Won, claim?, hnew] at hwon
  cases hwon

theorem won_of_won_add (hwon : (h.add x).Won key now) :
    h.Won key now ∨ h.claim? = none ∧ x.claim? = some (key, now, .claimed) := by
  rw [Won, claim?_add] at hwon
  cases hc : h.claim? with
  | none => exact .inr ⟨rfl, by simpa [hc] using hwon⟩
  | some c => exact .inl (by simpa [Won, hc] using hwon)

theorem saved_of_saved_add {status : UInt16} {body : Bytes}
    (hs : (h.add x).Saved key status body) :
    h.Saved key status body ∨ x.saved? = some (key, status, body) := by
  obtain ⟨y, hy, hs⟩ := hs
  rcases List.mem_append.mp hy with hy | hy
  · exact .inl ⟨y, hy, hs⟩
  · obtain rfl := List.mem_singleton.mp hy
    exact .inr hs

theorem claimedAt?_add_of_none (hclaim : h.claim? = none) (hx : x.claim?.isSome = true) :
    (h.add x).claimedAt? = some x.time.instant := by
  have hnone : h.past.find? (fun x => x.claim?.isSome) = none := by
    rw [List.find?_eq_none]
    intro y hy
    simp [List.findSome?_eq_none_iff.mp hclaim y hy]
  rw [claimedAt?, past_add, List.find?_append, hnone]
  simp [hx]

theorem waitEnd?_add_of_some {instant : Nat} (hend : h.waitEnd? = some instant) :
    (h.add x).waitEnd? = some instant := by
  obtain ⟨start, hstart, hend⟩ := Option.map_eq_some_iff.mp hend
  obtain ⟨y, hy, hstart⟩ := Option.map_eq_some_iff.mp hstart
  have hadd : (h.add x).claimedAt? = some start := by
    rw [claimedAt?, past_add, List.find?_append, hy, Option.some_or, Option.map_some, hstart]
  rw [waitEnd?, hadd, Option.map_some, plan_add, hend]

end Add

section Prefix

variable {h h' : History} {key : String} (hpre : h.past <+: h'.past)

include hpre

theorem claim?_of_prefix {c : String × UInt64 × Record.Claim} (hc : h.claim? = some c) :
    h'.claim? = some c := by
  obtain ⟨rest, hrest⟩ := hpre
  rw [claim?] at hc
  rw [claim?, ← hrest, List.findSome?_append, hc, Option.some_or]

theorem Won.of_prefix {now : UInt64} (hwon : h.Won key now) : h'.Won key now :=
  claim?_of_prefix hpre hwon

theorem Returned.of_prefix {response : Response} (hr : h.Returned response) :
    h'.Returned response := by
  obtain ⟨x, hx, hr⟩ := hr
  exact ⟨x, hpre.subset hx, hr⟩

theorem Saved.of_prefix {status : UInt16} {body : Bytes} (hs : h.Saved key status body) :
    h'.Saved key status body := by
  obtain ⟨x, hx, hs⟩ := hs
  exact ⟨x, hpre.subset hx, hs⟩

end Prefix

end History

/-! ## Requests -/

inductive Course
  | under (stage : Stage)
  /-- Dropped with a key that is yet to be given up in the background. -/
  | orphaned (key : String)
  /-- Waits in the background for its key to be given up. -/
  | retracting (key : String) (now : UInt64)
  | gone

namespace Course

def await (plan : Plan) : Course → Await
  | under stage => plan.await stage
  | retracting key now => .record (.release key now)
  | orphaned _ => .nothing
  | gone => .nothing

def resume (plan : Plan) (t : Moment) : (c : Course) → (c.await plan).Reply → Course
  | under stage, reply => under (plan.resume t stage reply)
  | retracting .., _ => gone
  | orphaned _, reply => reply.elim
  | gone, reply => reply.elim

/-- A request that has its result can no longer be dropped. Outside of the runtime nothing can be
done in the background. -/
def drop (inside : Bool) : Course → Course
  | under (.finished result) => under (.finished result)
  | under stage =>
    match stage.guarded? with
    | some key => if inside then orphaned key else gone
    | none => gone
  | c => c

/-- The task in the background begins and reads the clock. -/
def rouse (now : UInt64) : Course → Course
  | orphaned key => retracting key now
  | c => c

end Course

structure Passage extends History where
  course : Course

namespace Passage

def await (p : Passage) : Await := p.course.await p.plan

def turn (p : Passage) (t : Moment) (reply : p.await.Reply) : Passage where
  toHistory := p.toHistory.add ⟨t, p.await, reply⟩
  course := p.course.resume p.plan t reply

end Passage

end Admission
