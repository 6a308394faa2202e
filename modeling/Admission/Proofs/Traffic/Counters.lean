import Mathlib.Data.UInt
import Admission.Bucket.Store
import Admission.Metrics
import Admission.Request.Stage

/-! # Requests on one store of buckets

Any number of requests go on in any order, one answer at a time. The buckets are kept in memory, and
counters are kept of what is reported. Whatever else a request waits for may answer anything. The
counter of the tokens charged is compared with what the deductions have taken out of the buckets. -/

namespace Admission

/-- The tokens in a bucket. One that is absent is full. -/
def Bucket.Store.tokensOf (s : Store) (key : Key) (capacity : UInt32) (nowMs : UInt64) : UInt32 :=
  min ((s.live? key nowMs).getD (.full capacity nowMs)).tokens capacity

/-! ## Draws -/

/-- What a deduction has found in its bucket and what it has left there. -/
structure Draw where
  policy : String
  cost : UInt32
  found : UInt32
  left : UInt32
deriving DecidableEq, Repr

namespace Draw

/-- The draw of a call, if it is a deduction. -/
def ofCall (buckets : Bucket.Store) : Bucket.Call → List Draw
  | .deduct key capacity cost now ttl =>
    [⟨key.policy, cost, buckets.tokensOf key capacity now,
      (buckets.answer (.deduct key capacity cost now ttl)).1⟩]
  | _ => []

/-- By how much the balance has gone down. -/
def removed (d : Draw) : Nat := d.found.toNat - d.left.toNat

/-- By how much the balance fell short of the cost. -/
def missing (d : Draw) : Nat := d.cost.toNat - d.found.toNat

/-- A draw stops at zero. -/
def IsClamped (d : Draw) : Prop := d.left.toNat = d.found.toNat - d.cost.toNat

/-- The sum of a quantity over the draws under a policy. -/
def total (f : Draw → Nat) (policy : String) (draws : List Draw) : Nat :=
  ((draws.filter (·.policy = policy)).map f).sum

theorem total_append (f : Draw → Nat) (policy : String) (draws rest : List Draw) :
    total f policy (draws ++ rest) = total f policy draws + total f policy rest := by
  simp [total]

theorem isClamped_of_mem_ofCall {buckets : Bucket.Store} {call : Bucket.Call} {d : Draw}
    (hd : d ∈ ofCall buckets call) : d.IsClamped := by
  cases call with
  | deduct key capacity cost now ttl =>
      rw [List.mem_singleton.mp hd]
      exact Word.toNat_subClamped32 _ _
  | refill | reset => cases hd

theorem IsClamped.cost_eq {d : Draw} (h : d.IsClamped) : d.cost.toNat = d.removed + d.missing := by
  have hleft : d.left.toNat = d.found.toNat - d.cost.toNat := h
  simp only [removed, missing]
  omega

theorem total_cost {draws : List Draw} (h : ∀ d ∈ draws, d.IsClamped) (policy : String) :
    total (fun d => d.cost.toNat) policy draws =
      total removed policy draws + total missing policy draws := by
  induction draws with
  | nil => rfl
  | cons d draws ih =>
      have htail := ih fun d' hd' => h d' (List.mem_cons_of_mem d hd')
      have hhead := (h d List.mem_cons_self).cost_eq
      rw [← List.singleton_append, total_append, total_append, total_append, htail]
      by_cases hpolicy : d.policy = policy
      · simp only [total, hpolicy, List.filter_cons_of_pos, List.filter_nil, List.map_cons,
          List.map_nil, List.sum_cons, List.sum_nil, decide_true]
        omega
      · simp [total, hpolicy]

theorem total_missing_eq_zero_iff {policy : String} {draws : List Draw} :
    total missing policy draws = 0 ↔ ∀ d ∈ draws, d.policy = policy → d.cost ≤ d.found := by
  rw [total, List.sum_eq_zero_iff_forall_eq_nat, List.forall_mem_map]
  simp [missing, UInt32.le_iff_toNat_le, Nat.sub_eq_zero_iff_le]

end Draw

/-! ## The service -/

structure Visit where
  plan : Plan
  stage : Stage

def Visit.isOver (v : Visit) : Bool :=
  match v.stage with
  | .finished _ => true
  | _ => false

structure Service where
  now : Moment
  buckets : Bucket.Store
  metrics : Metrics := .empty
  visits : List Visit := []
  /-- All draws so far. -/
  draws : List Draw := []

namespace Service

inductive Turn
  | arrive (layer : Layer) (settings : Settings) (request : Request)
  | advance (t : Moment)
  /-- Drops the buckets that have expired at a reading. -/
  | purge (nowMs : UInt64)
  /-- A request is answered, from outside unless it calls the buckets or reports. -/
  | answer (i : Nat) (outside : (a : Await) → Option a.Reply)

/-- The answer to what a request waits for, if there is one, and the service after it. -/
def serve (s : Service) (outside : (a : Await) → Option a.Reply) :
    (a : Await) → Option (a.Reply × Service)
  | .bucket call =>
    some (.ok (s.buckets.answer call).1,
      { s with
        buckets := (s.buckets.answer call).2
        draws := s.draws ++ Draw.ofCall s.buckets call })
  | .tell event => some ((), { s with metrics := s.metrics.observe event })
  | a => (outside a).map fun reply => (reply, s)

/-- A turn that cannot be taken changes nothing. -/
def step (s : Service) : Turn → Service
  | .arrive layer settings request =>
    let plan := layer.plan settings request
    { s with visits := s.visits ++ [⟨plan, plan.start s.now⟩] }
  | .advance t => { s with now := t }
  | .purge now => { s with buckets := s.buckets.purgeExpired now }
  | .answer i outside =>
    match s.visits[i]? with
    | none => s
    | some v =>
      match s.serve outside (v.plan.await v.stage) with
      | none => s
      | some (reply, s') =>
        { s' with visits := s.visits.set i ⟨v.plan, v.plan.resume s.now v.stage reply⟩ }

def run (s : Service) (turns : List Turn) : Service := turns.foldl step s

/-- Nobody has come yet, and nothing has been counted. -/
def start (t : Moment) (buckets : Bucket.Store) : Service := { now := t, buckets := buckets }

/-- All requests are over. -/
def isIdle (s : Service) : Bool := s.visits.all Visit.isOver

/-- By how much deductions have lowered the balances of the buckets of a policy. -/
def removed (s : Service) (policy : String) : Nat := Draw.total Draw.removed policy s.draws

/-- By how much those balances fell short of the costs. -/
def missing (s : Service) (policy : String) : Nat := Draw.total Draw.missing policy s.draws

end Service

/-- The counter of the tokens charged under a policy. -/
def Metrics.charged (m : Metrics) (policy : String) : UInt64 := (m.tokens.get? policy).getD 0

/-! ## Charges that are yet to be reported -/

/-- The charge under a policy that a request reports at a stage. -/
def Stage.due (policy : String) : Stage → Nat
  | .telling (.charged name cost) _ _ => if name = policy then cost.toNat else 0
  | _ => 0

def Stage.isCharging : Stage → Bool
  | .charging .. => true
  | _ => false

section Due

variable {policy : String} {plan : Plan} {t : Moment}

theorem due_enter (goal : Goal) : (plan.enter t goal).due policy = 0 := by
  cases goal with
  | claim verdict =>
      simp only [Plan.enter]
      split <;> rfl
  | dispatch verdict owned => rfl
  | settle verdict response =>
      simp only [Plan.enter]
      split
      · rfl
      · split <;> rfl
  | finish result => rfl

theorem due_start : (plan.start t).due policy = 0 := by
  unfold Plan.start
  split
  · rfl
  · exact due_enter _

theorem due_replay (verdict : Verdict) (record : Record) :
    (Plan.replay verdict record).due policy = 0 := by
  unfold Plan.replay
  split <;> rfl

theorem due_keepWaiting (verdict : Verdict) (key : String) (poll : Poll) :
    (Plan.keepWaiting verdict key poll t).due policy = 0 := by
  unfold Plan.keepWaiting
  split <;> rfl

theorem due_claimed (verdict : Verdict) (key : String) (claim : Record.Claim) :
    (plan.claimed verdict key t claim).due policy = 0 := by
  cases claim with
  | claimed => rfl
  | degraded e => rfl
  | alreadyClaimed record =>
      simp only [Plan.claimed]
      split
      · split
        · rfl
        · exact due_keepWaiting _ _ _
      · exact due_replay _ _

/-- Only a charge leads to the report of one. -/
theorem due_resume {stage : Stage} (hstage : stage.isCharging = false)
    (reply : (plan.await stage).Reply) :
    (plan.resume t stage reply).due policy = 0 := by
  cases stage with
  | checking account now =>
      cases reply with
      | ok state =>
          simp only [Plan.resume, Plan.checked]
          split <;> rfl
      | error e => rfl
  | claiming verdict key now => exact due_claimed _ _ _
  | pausing verdict key poll left => rfl
  | fetching verdict key poll now =>
      match reply with
      | .ok (some record) =>
          simp only [Plan.resume, Plan.fetched]
          split
          · exact due_keepWaiting _ _ _
          · exact due_replay _ _
      | .ok none => rfl
      | .error e => rfl
  | handling verdict owned =>
      cases reply with
      | ok response =>
          cases owned with
          | some key => rfl
          | none =>
              change (plan.enter t (.settle verdict response)).due policy = 0
              exact due_enter _
      | error e => cases owned <;> rfl
  | saving verdict key response now =>
      cases reply with
      | ok done =>
          change (plan.enter t (.settle verdict response)).due policy = 0
          exact due_enter _
      | error e => rfl
  | releasing key now goal =>
      match reply with
      | .ok true => rfl
      | .ok false => exact due_enter _
      | .error e => exact due_enter _
  | charging account cost now response => cases hstage
  | telling event owned goal => exact due_enter _
  | finished result => exact reply.elim

end Due

/-! ## The account of the charges -/

namespace Metrics

variable {m : Metrics} {policy : String}

theorem charged_observe_charged (name : String) (cost : UInt32) :
    (m.observe (.charged name cost)).charged policy =
      if name = policy then m.charged policy + cost.toUInt64 else m.charged policy := by
  by_cases hname : name = policy
  · subst hname
    simp [observe, charged, bump]
  · simp [observe, charged, bump, hname, Table.get?_insert_of_ne _ _ (Ne.symm hname)]

/-- A report adds what was due to the counter, which wraps around. -/
theorem toNat_charged_observe (event : Event) (owned : Option String) (goal : Goal) :
    ((m.observe event).charged policy).toNat =
      ((m.charged policy).toNat + (Stage.telling event owned goal).due policy) % UInt64.size := by
  have hkept : (m.charged policy).toNat % UInt64.size = (m.charged policy).toNat :=
    Nat.mod_eq_of_lt (m.charged policy).toNat_lt
  cases event with
  | charged name cost =>
      rw [charged_observe_charged]
      by_cases hname : name = policy
      · simp [hname, Stage.due, UInt64.size]
      · simp [hname, Stage.due, hkept]
  | _ => exact hkept.symm

end Metrics

theorem sum_map_set {α : Type} (f : α → Nat) {l : List α} {i : Nat} {x : α} (hx : l[i]? = some x)
    (y : α) : ((l.set i y).map f).sum + f x = (l.map f).sum + f y := by
  induction l generalizing i with
  | nil => simp at hx
  | cons z l ih =>
      cases i with
      | zero =>
          cases hx
          simp only [List.set_cons_zero, List.map_cons, List.sum_cons]
          omega
      | succ i =>
          have htail := ih (i := i) (by simpa using hx)
          simp only [List.set_cons_succ, List.map_cons, List.sum_cons]
          omega

namespace Service

/-- The costs of all draws under a policy. -/
def costs (s : Service) (policy : String) : Nat :=
  Draw.total (fun d => d.cost.toNat) policy s.draws

/-- The charges under a policy that are yet to be reported. -/
def due (s : Service) (policy : String) : Nat := (s.visits.map fun v => v.stage.due policy).sum

/-- What every turn keeps. -/
structure Balanced (s : Service) : Prop where
  clamped : ∀ d ∈ s.draws, d.IsClamped
  /-- What is counted and what is yet to be reported make up the costs. -/
  counted : ∀ policy, ((s.metrics.charged policy).toNat + s.due policy) % UInt64.size =
    s.costs policy % UInt64.size

theorem balanced_start (t : Moment) (buckets : Bucket.Store) : (start t buckets).Balanced where
  clamped := nofun
  counted _ := rfl

/-- An answer from outside changes neither the draws nor the counters. -/
theorem eq_of_map_outside {s s' : Service} {a : Await} {answer : Option a.Reply} {reply : a.Reply}
    (h : answer.map (fun reply => (reply, s)) = some (reply, s')) : s' = s := by
  obtain ⟨_, -, heq⟩ := Option.map_eq_some_iff.mp h
  exact (Prod.mk.inj heq).2.symm

/-- An answer takes out of the buckets what is then due, and a report counts what was due. -/
theorem serve_balanced {s s' : Service} {outside : (a : Await) → Option a.Reply} {plan : Plan}
    {stage : Stage} {reply : (plan.await stage).Reply} {t : Moment}
    (hserve : s.serve outside (plan.await stage) = some (reply, s')) :
    ∃ draws, s'.draws = s.draws ++ draws ∧ (∀ d ∈ draws, d.IsClamped) ∧
      ∀ policy, ((s'.metrics.charged policy).toNat + (plan.resume t stage reply).due policy) %
          UInt64.size =
        ((s.metrics.charged policy).toNat + stage.due policy +
          Draw.total (fun d => d.cost.toNat) policy draws) % UInt64.size := by
  -- Stated before the stage is split up, while the reply still has its type.
  have hdue : stage.isCharging = false → ∀ policy, (plan.resume t stage reply).due policy = 0 :=
    fun hstage policy => due_resume hstage reply
  cases stage with
  | charging account cost now response =>
      cases hserve
      refine ⟨_, rfl, fun d hd => Draw.isClamped_of_mem_ofCall hd, fun policy => ?_⟩
      by_cases hpolicy : account.policy.name = policy <;>
        simp [Plan.resume, Plan.charged, Stage.due, Draw.total, Draw.ofCall, Bucket.chargeCall,
          hpolicy]
  | telling event owned goal =>
      replace hdue := hdue rfl
      cases hserve
      refine ⟨[], (List.append_nil _).symm, List.forall_mem_nil _, fun policy => ?_⟩
      rw [hdue, Metrics.toNat_charged_observe event owned goal, Nat.add_zero, Nat.mod_mod]
      rfl
  | checking account now =>
      replace hdue := hdue rfl
      cases hserve
      refine ⟨[], rfl, List.forall_mem_nil _, fun policy => ?_⟩
      rw [hdue]
      rfl
  | claiming | pausing | fetching | handling | saving | releasing =>
      replace hdue := hdue rfl
      cases eq_of_map_outside hserve
      refine ⟨[], (List.append_nil _).symm, List.forall_mem_nil _, fun policy => ?_⟩
      rw [hdue]
      rfl
  | finished result => exact reply.elim

theorem Balanced.answer {s : Service} (hs : s.Balanced) (i : Nat)
    (outside : (a : Await) → Option a.Reply) : (s.step (.answer i outside)).Balanced := by
  simp only [step]
  split
  · exact hs
  · next v hv =>
    split
    · exact hs
    · next reply s' hserve =>
      obtain ⟨draws, hdraws, hclamped, hcounted⟩ := serve_balanced (t := s.now) hserve
      constructor
      case clamped =>
        intro d hd
        rcases List.mem_append.mp (hdraws ▸ hd) with hd | hd
        · exact hs.clamped d hd
        · exact hclamped d hd
      case counted =>
        intro policy
        have hbefore := hs.counted policy
        have hafter := hcounted policy
        have hset := sum_map_set (fun v => v.stage.due policy) hv
          ⟨v.plan, v.plan.resume s.now v.stage reply⟩
        simp only [due, costs, hdraws, Draw.total_append, UInt64.size] at *
        omega

theorem Balanced.step {s : Service} (hs : s.Balanced) (turn : Turn) : (s.step turn).Balanced := by
  cases turn with
  | arrive layer settings request =>
      refine ⟨hs.clamped, fun policy => ?_⟩
      have harrived : (s.step (.arrive layer settings request)).due policy = s.due policy := by
        simp [due, Service.step, due_start]
      rw [harrived]
      exact hs.counted policy
  | advance t => exact ⟨hs.clamped, hs.counted⟩
  | purge now => exact ⟨hs.clamped, hs.counted⟩
  | answer i outside => exact hs.answer i outside

theorem Balanced.run {s : Service} (hs : s.Balanced) (turns : List Turn) :
    (s.run turns).Balanced := by
  induction turns generalizing s with
  | nil => exact hs
  | cons turn turns ih => exact ih (hs.step turn)

/-- A request that is over has nothing to report. -/
theorem due_eq_zero_of_isIdle {s : Service} (hidle : s.isIdle = true) (policy : String) :
    s.due policy = 0 := by
  rw [due, List.sum_eq_zero_iff_forall_eq_nat]
  intro n hn
  obtain ⟨v, hv, rfl⟩ := List.mem_map.mp hn
  have hover := List.all_eq_true.mp hidle v hv
  unfold Visit.isOver at hover
  split at hover
  · next result hstage => rw [hstage]; rfl
  · cases hover

/-- Once all requests are over, the counter of the tokens charged under a policy stands for what the
deductions have taken out of its buckets and for what they could not take out. As long as it has not
wrapped around, it is what they have taken out if and only if none has found less than its cost. -/
theorem charged_eq_removed_iff (t : Moment) (buckets : Bucket.Store) (turns : List Turn)
    (policy : String) (hidle : ((start t buckets).run turns).isIdle = true) :
    let s := (start t buckets).run turns
    (s.metrics.charged policy).toNat = (s.removed policy + s.missing policy) % UInt64.size ∧
      (s.removed policy + s.missing policy < UInt64.size →
        ((s.metrics.charged policy).toNat = s.removed policy ↔
          ∀ d ∈ s.draws, d.policy = policy → d.cost ≤ d.found)) := by
  intro s
  have hbalanced : s.Balanced := (balanced_start t buckets).run turns
  have hcharged : (s.metrics.charged policy).toNat =
      (s.removed policy + s.missing policy) % UInt64.size := by
    have hcounted := hbalanced.counted policy
    have hcosts : s.costs policy = s.removed policy + s.missing policy :=
      Draw.total_cost hbalanced.clamped policy
    rwa [due_eq_zero_of_isIdle hidle, Nat.add_zero, hcosts,
      Nat.mod_eq_of_lt (s.metrics.charged policy).toNat_lt] at hcounted
  refine ⟨hcharged, fun hfits => ?_⟩
  have hmissing : s.missing policy = 0 ↔ ∀ d ∈ s.draws, d.policy = policy → d.cost ≤ d.found :=
    Draw.total_missing_eq_zero_iff
  rw [hcharged, Nat.mod_eq_of_lt hfits, ← hmissing]
  omega

/-! ### A small charge and one that is larger than its bucket -/

def pricedPolicy (cost : UInt32) : Policy where
  name := "PRICED"
  refillPerMinute := 40
  capacity := 5
  costs := .uniform cost
  capacity_pos := by decide
  refillPerMinute_pos := by decide

def pricedLayer (cost : UInt32) : Layer :=
  { limit := some (pricedPolicy cost), keepsRecords := false }

/-- The answers of a handler that succeeds. -/
def successes : (a : Await) → Option a.Reply
  | .handler => some (.ok ⟨200, .empty, []⟩)
  | _ => none

/-- A request is checked, let through and charged. -/
def pricedTurns (cost : UInt32) : List Turn :=
  .arrive (pricedLayer cost) {} { headers := .empty } :: List.replicate 5 (.answer 0 successes)

def pricedService (cost : UInt32) : Service :=
  (start ⟨0, 0⟩ .empty).run (pricedTurns cost)

theorem charged_eq_removed_iff_pricedService :
    (pricedService 1).isIdle = true ∧
      ((pricedService 1).metrics.charged "PRICED").toNat = (pricedService 1).removed "PRICED" := by
  have hidle : (pricedService 1).isIdle = true := by decide +kernel
  have hfits : (pricedService 1).removed "PRICED" + (pricedService 1).missing "PRICED" <
      UInt64.size := by decide +kernel
  have hfound : ∀ d ∈ (pricedService 1).draws, d.policy = "PRICED" → d.cost ≤ d.found := by
    decide +kernel
  have hiff := (charged_eq_removed_iff ⟨0, 0⟩ .empty (pricedTurns 1) "PRICED" hidle).2 hfits
  exact ⟨hidle, hiff.mpr hfound⟩

/-- A response costs seven tokens and there are five. The counter says that seven were removed. -/
theorem charged_ne_removed_pricedService :
    (pricedService 7).isIdle = true ∧ ((pricedService 7).metrics.charged "PRICED").toNat = 7 ∧
      (pricedService 7).removed "PRICED" = 5 := by
  decide +kernel

end Service

end Admission
