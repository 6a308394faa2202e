import Admission.Proofs.Request.Outline

/-! # What a request is charged

A request consults its bucket once, before anything else, and charges it once at most. When it is
over, it has been charged just the cost of its response, if there is a response and it costs
anything. If it found the bucket empty, it has called neither store again. -/

namespace Admission

/-! ## The calls of each part -/

/-- The charges that are due for a response with a status, or for none. -/
def Account.charges (account : Account) (nowMs : UInt64) : Option UInt16 → List Bucket.Call
  | some status =>
    if account.policy.cost status = 0 then [] else [account.chargeCall status nowMs]
  | none => []

namespace Plan

variable {plan : Plan} {deeds : List Deed}

theorem Opens.bucketCalls {verdict : Verdict} (h : plan.Opens verdict deeds) {account : Account}
    (haccount : plan.account = some account) :
    ∃ now, deeds.filterMap Deed.bucketCall? = [account.checkCall now] := by
  cases h with
  | unlimited account_eq =>
      rw [haccount] at account_eq
      cases account_eq
  | unknown account_eq =>
      cases Option.some.inj (haccount.symm.trans account_eq)
      exact ⟨_, rfl⟩
  | granted account_eq =>
      cases Option.some.inj (haccount.symm.trans account_eq)
      exact ⟨_, rfl⟩

theorem Claims.bucketCalls {owned : Option String} (h : plan.Claims owned deeds) :
    deeds.filterMap Deed.bucketCall? = [] := by
  cases h <;> rfl

theorem Answers.bucketCalls {status? : Option UInt16} (h : plan.Answers status? deeds) :
    deeds.filterMap Deed.bucketCall? = [] := by
  cases h with
  | replayed | conflict => rfl
  | handled claims | freed claims => simp [claims.bucketCalls, Deed.bucketCall?]

theorem Charges.bucketCalls {status? : Option UInt16} (h : plan.Charges status? deeds)
    {account : Account} (haccount : plan.account = some account) :
    ∃ now, deeds.filterMap Deed.bucketCall? = account.charges now status? := by
  cases h with
  | failed => exact ⟨0, rfl⟩
  | unlimited account_eq =>
      rw [haccount] at account_eq
      cases account_eq
  | exempt account_eq cost_eq =>
      cases Option.some.inj (haccount.symm.trans account_eq)
      exact ⟨0, by simp [Account.charges, cost_eq]⟩
  | charged account_eq cost_ne | failedOpen account_eq cost_ne =>
      cases Option.some.inj (haccount.symm.trans account_eq)
      exact ⟨_, by simp [Account.charges, cost_ne, Deed.bucketCall?]; rfl⟩

end Plan

/-! ## Requests that are over -/

namespace History

def recordCalls (h : History) : List Record.Call :=
  h.past.filterMap fun
    | ⟨_, .record call, _⟩ => some call
    | _ => none

/-- What a request that is over has asked of its bucket. -/
structure Pays (h : History) (account : Account) (result : Except String Response) : Prop where
  /-- If the bucket is found empty, no store is called again and the handler is not run. -/
  denied : ∀ state, h.Checked state → state.tokens = 0 →
    (∃ now, h.bucketCalls = [account.checkCall now]) ∧ h.recordCalls = [] ∧ h.calls = 0
  /-- If it is not, or cannot be consulted, the cost of the response is taken out. -/
  admitted : (∀ state, h.Checked state → state.tokens ≠ 0) →
    ∃ now later, h.bucketCalls =
      account.checkCall now :: account.charges later (Response.status? result)

theorem Shows.pays {h : History} {result : Except String Response} (hs : h.Shows result)
    {account : Account} (haccount : h.plan.account = some account) : h.Pays account result := by
  cases hs with
  | denied account_eq empty past_eq =>
      cases Option.some.inj (haccount.symm.trans account_eq)
      constructor
      · intro _ _ _
        refine ⟨⟨_, by rw [bucketCalls, past_eq]; rfl⟩, ?_, ?_⟩
        · rw [recordCalls, past_eq]
          rfl
        · rw [calls, past_eq]
          rfl
      · intro hnonempty
        exact absurd empty (hnonempty _ ⟨_, past_eq ▸ List.mem_cons_self, rfl⟩)
  | admitted answers charges admits =>
      refine ⟨fun state hstate hempty => absurd hempty (admits.nonempty state hstate), fun _ => ?_⟩
      obtain ⟨opening, hopens, hdeeds⟩ := admits.opens
      obtain ⟨now, hcheck⟩ := hopens.bucketCalls haccount
      obtain ⟨later, hcharges⟩ := charges.bucketCalls haccount
      refine ⟨now, later, ?_⟩
      simp [bucketCalls_eq, hdeeds, List.filterMap_append, hcheck, answers.bucketCalls, hcharges]

end History

/-! ## Requests on their way -/

def Await.bucketCall? : Await → Option Bucket.Call
  | .bucket call => some call
  | _ => none

/-- The calls of the store of buckets that a request has made, and the one that it waits for. -/
def History.issued (h : History) (stage : Stage) : List Bucket.Call :=
  h.bucketCalls ++ (h.plan.await stage).bucketCall?.toList

/-- A check and perhaps a charge after it. -/
inductive Account.Billed (account : Account) : List Bucket.Call → Prop
  | checked (now : UInt64) : Billed account [account.checkCall now]
  | charged (now later : UInt64) {status : UInt16} (cost_ne : account.policy.cost status ≠ 0) :
      Billed account [account.checkCall now, account.chargeCall status later]

theorem Exchange.bucketCall?_of_await {x : Exchange} (hx : x.await.bucketCall? = none) :
    x.bucketCall? = none := by
  obtain ⟨t, await, reply⟩ := x
  cases await with
  | bucket call => cases hx
  | _ => rfl

section Billed

variable {h : History} {x : Exchange} {account : Account}

theorem bucketCalls_add (hx : x.await.bucketCall? = none) :
    (h.add x).bucketCalls = h.bucketCalls := by
  simp [History.bucketCalls, Exchange.bucketCall?_of_await hx]

theorem History.Pays.billed {result : Except String Response} (hp : h.Pays account result) :
    account.Billed h.bucketCalls := by
  by_cases hempty : ∃ state, h.Checked state ∧ state.tokens = 0
  · obtain ⟨state, hstate, htokens⟩ := hempty
    obtain ⟨⟨now, hcalls⟩, -, -⟩ := hp.denied state hstate htokens
    rw [hcalls]
    exact .checked now
  · obtain ⟨now, later, hcalls⟩ := hp.admitted fun state hstate htokens =>
      hempty ⟨state, hstate, htokens⟩
    rw [hcalls]
    unfold Account.charges
    split
    · split
      · exact .checked now
      · next hcost => exact .charged now later hcost
    · exact .checked now

/-- Before its response is settled, a request has only checked its bucket. -/
theorem History.Admits.bucketCalls {verdict : Verdict} {deeds : List Deed}
    (ha : h.Admits verdict deeds) (haccount : h.plan.account = some account)
    (hdeeds : deeds.filterMap Deed.bucketCall? = []) :
    ∃ now, h.bucketCalls = [account.checkCall now] := by
  obtain ⟨opening, hopens, heq⟩ := ha.opens
  obtain ⟨now, hcheck⟩ := hopens.bucketCalls haccount
  exact ⟨now, by rw [bucketCalls_eq, heq, List.filterMap_append, hcheck, hdeeds, List.append_nil]⟩

theorem Goal.Shows.billed {goal : Goal} (hg : goal.Shows h)
    (haccount : h.plan.account = some account) : account.Billed h.bucketCalls := by
  cases goal with
  | claim verdict =>
      obtain ⟨now, hcalls⟩ := History.Admits.bucketCalls hg haccount rfl
      exact hcalls ▸ .checked now
  | dispatch verdict owned =>
      obtain ⟨claiming, hclaims, hadmits⟩ := hg
      obtain ⟨now, hcalls⟩ := hadmits.bucketCalls haccount hclaims.bucketCalls
      exact hcalls ▸ .checked now
  | settle verdict response =>
      obtain ⟨answering, hanswers, hadmits⟩ := hg
      obtain ⟨now, hcalls⟩ := hadmits.bucketCalls haccount hanswers.bucketCalls
      exact hcalls ▸ .checked now
  | finish result => exact (History.Shows.pays hg haccount).billed

theorem History.issued_eq {stage : Stage} (hawait : (h.plan.await stage).bucketCall? = none) :
    h.issued stage = h.bucketCalls := by
  simp [issued, hawait]

/-- Waiting for anything but the bucket leaves a request with its check. -/
theorem History.Admits.billed {verdict : Verdict} {deeds : List Deed} {stage : Stage}
    (ha : h.Admits verdict deeds) (haccount : h.plan.account = some account)
    (hdeeds : deeds.filterMap Deed.bucketCall? = [])
    (hawait : (h.plan.await stage).bucketCall? = none) : account.Billed (h.issued stage) := by
  obtain ⟨now, hcalls⟩ := ha.bucketCalls haccount hdeeds
  rw [issued_eq hawait, hcalls]
  exact .checked now

/-- At every stage there has been, or is being made, one check and one charge at most. -/
theorem Stage.Shows.billed {stage : Stage} (hs : stage.Shows h)
    (haccount : h.plan.account = some account) : account.Billed (h.issued stage) := by
  cases stage with
  | checking account' now =>
      obtain ⟨haccount', hpast⟩ := hs
      cases Option.some.inj (haccount.symm.trans haccount')
      have hcalls : h.bucketCalls = [] := by rw [History.bucketCalls, hpast]; rfl
      rw [History.issued, hcalls]
      exact .checked now
  | claiming verdict key now => exact hs.2.billed haccount rfl rfl
  | pausing verdict key poll left => exact hs.2.billed haccount rfl rfl
  | fetching verdict key poll now => exact hs.2.billed haccount rfl rfl
  | handling verdict owned =>
      obtain ⟨claiming, hclaims, hadmits⟩ := hs
      exact hadmits.billed haccount hclaims.bucketCalls rfl
  | saving verdict key response now =>
      obtain ⟨claiming, hclaims, hadmits⟩ := hs
      have hcalls : (claiming ++ [Deed.handler]).filterMap Deed.bucketCall? = [] := by
        simp [hclaims.bucketCalls, Deed.bucketCall?]
      exact hadmits.billed haccount hcalls rfl
  | releasing key now goal =>
      have hkept := (hs.1 ⟨⟨0, 0⟩, .record (.release key now), .ok false⟩ rfl rfl).billed haccount
      have hcalls : h.issued (.releasing key now goal) = h.bucketCalls := History.issued_eq rfl
      rwa [bucketCalls_add rfl, ← hcalls] at hkept
  | charging account' cost now response =>
      obtain ⟨⟨verdict, answering, hanswers, hadmits⟩, haccount', rfl, hcost⟩ := hs
      cases Option.some.inj (haccount.symm.trans haccount')
      obtain ⟨checked, hcalls⟩ := hadmits.bucketCalls haccount hanswers.bucketCalls
      rw [History.issued, hcalls]
      exact .charged checked now hcost
  | telling event owned goal =>
      have htold := (hs ⟨0, 0⟩).billed haccount
      have hcalls : h.issued (.telling event owned goal) = h.bucketCalls := History.issued_eq rfl
      rwa [bucketCalls_add rfl, ← hcalls] at htold
  | finished result =>
      have hcalls : h.issued (.finished result) = h.bucketCalls := History.issued_eq rfl
      rw [hcalls]
      exact (History.Shows.pays hs haccount).billed

end Billed

namespace Plan.Run

variable {plan : Plan} {h : History} {t : Moment} {stage : Stage}

/-- Without an account no bucket is called. -/
theorem bucketCall?_await (run : plan.Run h t stage) (haccount : plan.account = none) :
    (plan.await stage).bucketCall? = none := by
  have hshows := run.shows
  have hnone : h.plan.account = none := by rw [run.plan_eq, haccount]
  cases stage with
  | checking account now => cases hnone.symm.trans hshows.1
  | charging account cost now response => cases hnone.symm.trans hshows.2.1
  | _ => rfl

theorem issued_eq_nil (run : plan.Run h t stage) (haccount : plan.account = none) :
    h.issued stage = [] := by
  have hcalls : h.bucketCalls = [] := by
    induction run with
    | start t => rfl
    | answer run t' reply takes ih => rw [bucketCalls_add (run.bucketCall?_await haccount), ih]
  rw [History.issued, hcalls, run.plan_eq, run.bucketCall?_await haccount]
  rfl

end Plan.Run

section Layer

variable {layer : Layer} {settings : Settings} {request : Request} {policy : Policy}

/-- The bucket of a request: that of its layer's policy for the caller whom the layer resolves. -/
def Layer.accountOf (layer : Layer) (settings : Settings) (request : Request) (policy : Policy) :
    Account :=
  ⟨policy, layer.resolver request.headers request.caller policy.scope settings⟩

theorem Layer.account_plan (hlimit : layer.limit = some policy)
    (henabled : settings.rateLimitEnabled = true) :
    (layer.plan settings request).account = some (layer.accountOf settings request policy) := by
  simp [plan, hlimit, henabled, accountOf]

theorem Layer.account_plan_of_disabled (hdisabled : settings.rateLimitEnabled = false) :
    (layer.plan settings request).account = none := by
  simp [plan, hdisabled]

/-- At every stage, a request has checked its bucket once and charged it once at most. When it is
over, its bucket has been charged the cost of the response that it gives, but an empty bucket has
ended it at once. When limits are switched off, no bucket is called at any stage. -/
theorem Layer.pays_of_run (hlimit : layer.limit = some policy) {h : History} {t : Moment}
    {stage : Stage} (run : (layer.plan settings request).Run h t stage) :
    (settings.rateLimitEnabled = true →
      (layer.accountOf settings request policy).Billed (h.issued stage) ∧
        ∀ result, stage = .finished result →
          h.Pays (layer.accountOf settings request policy) result) ∧
      (settings.rateLimitEnabled = false → h.issued stage = []) := by
  constructor
  · intro henabled
    have haccount : h.plan.account = some (layer.accountOf settings request policy) := by
      rw [run.plan_eq]
      exact account_plan hlimit henabled
    refine ⟨run.shows.billed haccount, ?_⟩
    rintro result rfl
    exact History.Shows.pays run.shows haccount
  · intro hdisabled
    exact run.issued_eq_nil (account_plan_of_disabled hdisabled)

end Layer

theorem accountOf_keyedRequest :
    guardedLayer.accountOf {} keyedRequest Catalogue.entriesUpdate = keyedAccount := by
  have haccount : (guardedLayer.plan {} keyedRequest).account = some keyedAccount := by
    rw [plan_keyedRequest]
    rfl
  exact Option.some.inj ((Layer.account_plan rfl rfl).symm.trans haccount)

/-- A check that fails does not keep the response from being charged. -/
theorem pays_of_run_failingPast :
    guardedLayer.limit = some Catalogue.entriesUpdate ∧
      (guardedLayer.plan {} keyedRequest).Run ⟨keyedPlan, failingPast⟩ ⟨60, 60000000⟩
        (.finished (.ok ⟨201, .empty, .ofString "b"⟩)) ∧
      History.Pays ⟨keyedPlan, failingPast⟩ keyedAccount (.ok ⟨201, .empty, .ofString "b"⟩) := by
  have run : (guardedLayer.plan {} keyedRequest).Run ⟨keyedPlan, failingPast⟩ ⟨60, 60000000⟩
      (.finished (.ok ⟨201, .empty, .ofString "b"⟩)) := by
    rw [plan_keyedRequest]
    exact run_failingPast
  refine ⟨rfl, run, ?_⟩
  rw [← accountOf_keyedRequest]
  exact ((Layer.pays_of_run rfl run).1 rfl).2 _ rfl

end Admission
