import Admission.Proofs.Request.Report

/-! # The fields that report the limit

Whichever way a request goes to its response, what its check has found is put on the response once,
in place of what the handler may have put there, and nothing else of it is touched. Without a check
that succeeded nothing is put on it. -/

namespace Admission

/-! ## Setting fields -/

namespace Headers

variable (h : Headers) {name : String} (value : Bytes)

theorem values_set_self : (h.set name value).values name = [value] := by
  simp [values, set, List.filter_filter]

theorem values_set_of_ne {other : String} (hne : lowerName other ≠ lowerName name) :
    (h.set name value).values other = h.values other := by
  have hother : ∀ field : String × Bytes,
      (field.1 == lowerName other && field.1 != lowerName name) = (field.1 == lowerName other) := by
    intro field
    by_cases hfield : field.1 = lowerName other <;> simp [hfield, hne]
  simp [values, set, List.filter_filter, hother, hne.symm]

/-- The fields with other names than these, in order. -/
def beside (names : List String) : List (String × Bytes) := h.fields.filter (·.1 ∉ names)

theorem beside_set {names : List String} (hname : lowerName name ∈ names) :
    (h.set name value).beside names = h.beside names := by
  have hkept : ∀ field : String × Bytes,
      (decide (field.1 ∉ names) && field.1 != lowerName name) = decide (field.1 ∉ names) := by
    intro field
    by_cases hfield : field.1 = lowerName name <;> simp [hfield, hname]
  simp only [beside, set, List.filter_append, List.filter_filter, hkept]
  simp [hname]

/-- Sets fields one after another. -/
def setAll (fields : List (String × Bytes)) : Headers :=
  fields.foldl (fun h field => h.set field.1 field.2) h

theorem values_setAll_of_ne {fields : List (String × Bytes)}
    (hne : ∀ field ∈ fields, lowerName name ≠ lowerName field.1) :
    (h.setAll fields).values name = h.values name := by
  induction fields generalizing h with
  | nil => rfl
  | cons field fields ih =>
      calc (h.setAll (field :: fields)).values name
          = (h.set field.1 field.2).values name :=
            ih _ fun field' hmem => hne field' (List.mem_cons_of_mem field hmem)
        _ = h.values name := h.values_set_of_ne _ (hne field List.mem_cons_self)

variable {value}

/-- Of fields with different names each is there once in the end. -/
theorem values_setAll_of_mem {fields : List (String × Bytes)}
    (hdistinct : (fields.map fun field => lowerName field.1).Nodup)
    (hmem : (name, value) ∈ fields) : (h.setAll fields).values name = [value] := by
  induction fields generalizing h with
  | nil => cases hmem
  | cons field fields ih =>
      rw [List.map_cons, List.nodup_cons, List.mem_map] at hdistinct
      rcases List.mem_cons.mp hmem with rfl | hmem
      · have hlater : ∀ field ∈ fields, lowerName name ≠ lowerName field.1 :=
          fun field hfield heq => hdistinct.1 ⟨field, hfield, heq.symm⟩
        calc (h.setAll ((name, value) :: fields)).values name
            = (h.set name value).values name := values_setAll_of_ne _ hlater
          _ = [value] := h.values_set_self value
      · exact ih _ hdistinct.2 hmem

theorem beside_setAll {fields : List (String × Bytes)} {names : List String}
    (hnames : ∀ field ∈ fields, lowerName field.1 ∈ names) :
    (h.setAll fields).beside names = h.beside names := by
  induction fields generalizing h with
  | nil => rfl
  | cons field fields ih =>
      calc (h.setAll (field :: fields)).beside names
          = (h.set field.1 field.2).beside names :=
            ih _ fun field' hmem => hnames field' (List.mem_cons_of_mem field hmem)
        _ = h.beside names := h.beside_set _ (hnames field List.mem_cons_self)

end Headers

/-! ## What is put on a response -/

namespace Response

/-- The names of the fields that report a limit. -/
def limitFields : List String := [limitField, remainingField, resetField, policyField]

/-- Those of them that are set under a policy. -/
def fieldsUnder (policy : Policy) : List String :=
  [limitField, remainingField, resetField] ++
    if Headers.isValue (.ofString policy.name) then [policyField] else []

/-- What is set under a limit. -/
def limitValues (status : Bucket.Status) (remaining : UInt32) : List (String × Bytes) :=
  [(limitField, .ofNat status.limit.toNat), (remainingField, .ofNat remaining.toNat),
    (resetField, .ofNat status.resetAt.toNat)] ++
    if Headers.isValue (.ofString status.policy) then [(policyField, .ofString status.policy)]
    else []

theorem headers_withLimit (r : Response) (status : Bucket.Status) (remaining : UInt32) :
    (r.withLimit status remaining).headers = r.headers.setAll (limitValues status remaining) := by
  simp only [withLimit, limitValues]
  split <;> rfl

theorem lowerName_of_mem_limitFields {name : String} (h : name ∈ limitFields) :
    lowerName name = name := by
  have hall : ∀ name ∈ limitFields, lowerName name = name := by decide +kernel
  exact hall name h

theorem fieldsUnder_sublist (policy : Policy) : (fieldsUnder policy).Sublist limitFields := by
  unfold fieldsUnder limitFields
  split <;> simp

variable {policy : Policy} {state : Bucket.State} (remaining : UInt32)

theorem map_fst_limitValues :
    (limitValues (.ofState policy state) remaining).map Prod.fst = fieldsUnder policy := by
  have hpolicy : (Bucket.Status.ofState policy state).policy = policy.name := rfl
  simp only [limitValues, fieldsUnder, hpolicy]
  split <;> rfl

theorem map_lowerName_limitValues :
    (limitValues (.ofState policy state) remaining).map (fun field => lowerName field.1) =
      fieldsUnder policy := by
  have hlower : ∀ name ∈ fieldsUnder policy, lowerName name = id name := fun name hname =>
    lowerName_of_mem_limitFields ((fieldsUnder_sublist policy).subset hname)
  calc (limitValues (.ofState policy state) remaining).map (fun field => lowerName field.1)
      = (fieldsUnder policy).map lowerName := by
        rw [← map_fst_limitValues remaining, List.map_map]
        rfl
    _ = fieldsUnder policy := by rw [List.map_congr_left hlower, List.map_id]

theorem nodup_map_lowerName_limitValues :
    ((limitValues (.ofState policy state) remaining).map fun field => lowerName field.1).Nodup := by
  rw [map_lowerName_limitValues]
  exact (fieldsUnder_sublist policy).nodup (by decide)

end Response

/-- The fields that report a limit, as a check has found it: each is there once. -/
structure Headers.Reports (h : Headers) (policy : Policy) (state : Bucket.State) : Prop where
  limit : h.values Response.limitField = [.ofNat policy.capacity.toNat]
  /-- A bucket is not read as holding more than its capacity. -/
  remaining : h.values Response.remainingField = [.ofNat (min state.tokens policy.capacity).toNat]
  reset : h.values Response.resetField =
    [.ofNat (Bucket.Status.ofState policy state).resetAt.toNat]
  policy : Headers.isValue (.ofString policy.name) = true →
    h.values Response.policyField = [.ofString policy.name]

/-- Setting another field does not change them. -/
theorem Headers.Reports.set {h : Headers} {policy : Policy} {state : Bucket.State}
    (hr : h.Reports policy state) {name : String} (value : Bytes)
    (hname : ∀ field ∈ Response.limitFields, lowerName field ≠ lowerName name) :
    (h.set name value).Reports policy state := by
  have hkept : ∀ field ∈ Response.limitFields, (h.set name value).values field = h.values field :=
    fun field hfield => h.values_set_of_ne value (hname field hfield)
  constructor
  case limit => exact (hkept _ (by simp [Response.limitFields])).trans hr.limit
  case remaining => exact (hkept _ (by simp [Response.limitFields])).trans hr.remaining
  case reset => exact (hkept _ (by simp [Response.limitFields])).trans hr.reset
  case policy => exact fun hvalue =>
    (hkept _ (by simp [Response.limitFields])).trans (hr.policy hvalue)

namespace Response

variable {policy : Policy} {state : Bucket.State}

theorem reports_withLimit (r : Response) {remaining : UInt32}
    (hremaining : remaining = min state.tokens policy.capacity) :
    (r.withLimit (.ofState policy state) remaining).headers.Reports policy state := by
  have hvalues : ∀ {name : String} {value : Bytes},
      (name, value) ∈ limitValues (.ofState policy state) remaining →
        (r.withLimit (.ofState policy state) remaining).headers.values name = [value] := by
    intro name value hmem
    rw [headers_withLimit]
    exact r.headers.values_setAll_of_mem (nodup_map_lowerName_limitValues remaining) hmem
  constructor
  case limit => exact hvalues (by simp [limitValues, Bucket.Status.ofState])
  case remaining => exact hvalues (by simp [limitValues, hremaining])
  case reset => exact hvalues (by simp [limitValues])
  case policy =>
    intro hname
    exact hvalues (by simp [limitValues, Bucket.Status.ofState, hname])

/-- Nothing else of a response is touched. -/
theorem beside_withLimit (r : Response) (remaining : UInt32) :
    (r.withLimit (.ofState policy state) remaining).headers.beside (fieldsUnder policy) =
      r.headers.beside (fieldsUnder policy) := by
  rw [headers_withLimit]
  refine r.headers.beside_setAll fun field hfield => ?_
  have hmem : lowerName field.1 ∈
      (limitValues (.ofState policy state) remaining).map fun field => lowerName field.1 :=
    List.mem_map_of_mem hfield
  rwa [map_lowerName_limitValues] at hmem

/-- A denial reports the limit as well. -/
theorem reports_tooManyRequests (hempty : state.tokens = 0) (retryAfterSecs : UInt64) :
    (tooManyRequests (.ofState policy state) retryAfterSecs).headers.Reports policy state := by
  have hnone : (0 : UInt32) = min state.tokens policy.capacity := by
    rw [hempty]
    exact (if_pos UInt32.zero_le).symm
  exact (reports_withLimit _ hnone).set _ (by decide +kernel)

/-- A replay or a conflict has none of the fields of its own. -/
theorem values_ofRecord {record : Record} {response : Response} (h : ofRecord record = .ok response)
    {name : String} (hname : name ∈ limitFields) : response.headers.values name = [] := by
  have hall : ∀ name ∈ limitFields, ((Headers.empty.set contentTypeField json).set replayedField
      (.ofString "true")).values name = [] := by decide +kernel
  unfold ofRecord at h
  split at h
  · cases h
    exact hall name hname
  · cases h

theorem values_inProgress {name : String} (hname : name ∈ limitFields) :
    inProgress.headers.values name = [] := by
  have hall : ∀ name ∈ limitFields, inProgress.headers.values name = [] := by decide +kernel
  exact hall name hname

end Response

/-! ## Where a response comes from -/

namespace History

variable {h : History} {x : Exchange}

/-- The buckets that checks have found. -/
def checks (h : History) : List Bucket.State := h.past.filterMap Exchange.checked?

/-- What the handler has answered. -/
def replies (h : History) : List (Except String Response) := h.past.filterMap Exchange.handled?

theorem mem_checks {state : Bucket.State} : state ∈ h.checks ↔ h.Checked state := List.mem_filterMap

theorem mem_replies {reply : Except String Response} : reply ∈ h.replies ↔ h.Handled reply :=
  List.mem_filterMap

theorem checks_add (h : History) (x : Exchange) :
    (h.add x).checks = h.checks ++ x.checked?.toList := by
  cases hx : x.checked? <;> simp [checks, List.filterMap_append, hx]

theorem replies_add (h : History) (x : Exchange) :
    (h.add x).replies = h.replies ++ x.handled?.toList := by
  cases hx : x.handled? <;> simp [replies, List.filterMap_append, hx]

/-- The verdict on a request is what its check has found: nothing, if it was not made or has failed,
or the one bucket that it was answered with. -/
inductive Warrants (h : History) : Verdict → Prop
  | unlimited (checks : h.checks = []) : Warrants h .unlimited
  | unknown (account : Account) (checks : h.checks = []) : Warrants h (.unknown account)
  | granted {account : Account} (account_eq : h.plan.account = some account)
      {state : Bucket.State} (checks : h.checks = [state]) :
      Warrants h (.granted account (.ofState account.policy state))

/-- Where a response comes from before the limit is put on it. -/
inductive Yields (h : History) : Response → Prop
  | fresh {reply : Response} (replies : h.replies = [.ok reply]) : Yields h reply
  | replayed {record : Record} {response : Response} (replies : h.replies = [])
      (replay : Response.ofRecord record = .ok response) : Yields h response
  | conflict (replies : h.replies = []) : Yields h .inProgress

/-- How a request comes to the response that it gives. -/
inductive Gives (h : History) : Response → Prop
  | denied {account : Account} (account_eq : h.plan.account = some account) {state : Bucket.State}
      (checks : h.checks = [state]) (empty : state.tokens = 0) (replies : h.replies = [])
      (retryAfterSecs : UInt64) :
      Gives h (.tooManyRequests (.ofState account.policy state) retryAfterSecs)
  | admitted {verdict : Verdict} (warrants : h.Warrants verdict) {response : Response}
      (yields : h.Yields response) : Gives h (verdict.decorate response)

theorem checks_add_of_none (hx : x.checked? = none) : (h.add x).checks = h.checks := by
  simp [checks_add, hx]

theorem replies_add_of_none (hx : x.handled? = none) : (h.add x).replies = h.replies := by
  simp [replies_add, hx]

theorem Warrants.add {verdict : Verdict} (hw : h.Warrants verdict) (hx : x.checked? = none) :
    (h.add x).Warrants verdict := by
  cases hw with
  | unlimited checks => exact .unlimited ((checks_add_of_none hx).trans checks)
  | unknown account checks => exact .unknown account ((checks_add_of_none hx).trans checks)
  | granted account_eq checks =>
      exact .granted (h := h.add x) account_eq ((checks_add_of_none hx).trans checks)

theorem Yields.add {response : Response} (hy : h.Yields response) (hx : x.handled? = none) :
    (h.add x).Yields response := by
  cases hy with
  | fresh replies => exact .fresh ((replies_add_of_none hx).trans replies)
  | replayed replies replay => exact .replayed ((replies_add_of_none hx).trans replies) replay
  | conflict replies => exact .conflict ((replies_add_of_none hx).trans replies)

theorem Gives.add {response : Response} (hg : h.Gives response) (hcheck : x.checked? = none)
    (hhandler : x.handled? = none) : (h.add x).Gives response := by
  cases hg with
  | denied account_eq checks empty replies retryAfterSecs =>
      exact .denied (h := h.add x) account_eq ((checks_add_of_none hcheck).trans checks) empty
        ((replies_add_of_none hhandler).trans replies) retryAfterSecs
  | admitted warrants yields => exact .admitted (warrants.add hcheck) (yields.add hhandler)

/-- A request has been let through and its handler has not answered yet. -/
structure Admitted (h : History) (verdict : Verdict) : Prop where
  warrants : h.Warrants verdict
  replies : h.replies = []

theorem Admitted.add {verdict : Verdict} (ha : h.Admitted verdict) (hcheck : x.checked? = none)
    (hhandler : x.handled? = none) : (h.add x).Admitted verdict :=
  ⟨ha.warrants.add hcheck, (replies_add_of_none hhandler).trans ha.replies⟩

end History

/-- What the history of a request must be when it is on the way to a goal. -/
def Goal.Gives (h : History) : Goal → Prop
  | .claim verdict => h.Admitted verdict
  | .dispatch verdict _ => h.Admitted verdict
  | .settle verdict response => h.Warrants verdict ∧ h.Yields response
  | .finish result => ∀ response, result = .ok response → h.Gives response

/-- What the history of a request must be when it is at a stage. -/
def Stage.Gives (h : History) : Stage → Prop
  | .checking account _ => h.plan.account = some account ∧ h.checks = [] ∧ h.replies = []
  | .claiming verdict _ _ => h.Admitted verdict
  | .pausing verdict _ _ _ => h.Admitted verdict
  | .fetching verdict _ _ _ => h.Admitted verdict
  | .handling verdict _ => h.Admitted verdict
  | .saving verdict _ response _ => h.Warrants verdict ∧ h.Yields response
  | .releasing _ _ goal => goal.Gives h
  | .charging _ _ _ response => h.Gives response
  | .telling _ _ goal => goal.Gives h
  | .finished result => ∀ response, result = .ok response → h.Gives response

section Gives

variable {plan : Plan} {h : History} {x : Exchange} {t : Moment} {verdict : Verdict}

theorem Goal.Gives.add {goal : Goal} (hg : goal.Gives h) (hcheck : x.checked? = none)
    (hhandler : x.handled? = none) : goal.Gives (h.add x) := by
  cases goal with
  | claim verdict => exact History.Admitted.add hg hcheck hhandler
  | dispatch verdict owned => exact History.Admitted.add hg hcheck hhandler
  | settle verdict response => exact ⟨hg.1.add hcheck, hg.2.add hhandler⟩
  | finish result => exact fun response heq => (hg response heq).add hcheck hhandler

/-- The limit is put on a response when it is settled, and only then. -/
theorem gives_settle (plan : Plan) (hwarrants : h.Warrants verdict) {response : Response}
    (hyields : h.Yields response) : (plan.enter t (.settle verdict response)).Gives h := by
  have hgives : h.Gives (verdict.decorate response) := .admitted hwarrants hyields
  have hfinal : (Stage.finished (.ok (verdict.decorate response))).Gives h := by
    rintro _ ⟨⟩
    exact hgives
  simp only [Plan.enter]
  split
  · exact hfinal
  · split
    · exact hfinal
    · exact hgives

theorem Goal.Gives.enter {goal : Goal} (hg : goal.Gives h) : (plan.enter t goal).Gives h := by
  cases goal with
  | claim verdict =>
      simp only [Plan.enter]
      split <;> exact hg
  | dispatch verdict owned => exact hg
  | settle verdict response => exact gives_settle plan hg.1 hg.2
  | finish result => exact hg

theorem gives_conflict (ha : h.Admitted verdict) : (Plan.conflict verdict).Gives h :=
  ⟨ha.warrants, .conflict ha.replies⟩

theorem gives_keepWaiting (ha : h.Admitted verdict) (key : String) (poll : Poll) :
    (Plan.keepWaiting verdict key poll t).Gives h := by
  unfold Plan.keepWaiting
  split
  · exact gives_conflict ha
  · exact ha

theorem gives_replay (ha : h.Admitted verdict) (record : Record) :
    (Plan.replay verdict record).Gives h := by
  unfold Plan.replay
  split
  · next response hreplay => exact ⟨ha.warrants, .replayed ha.replies hreplay⟩
  · exact ha

theorem gives_checked {account : Account} {state : Bucket.State}
    (haccount : h.plan.account = some account) (hchecks : h.checks = [state])
    (hreplies : h.replies = []) : (Plan.checked account t (.ok state)).Gives h := by
  simp only [Plan.checked]
  split
  · exact ⟨.granted haccount hchecks, hreplies⟩
  · next hallowed =>
    have hempty : state.tokens = 0 :=
      Bucket.Status.tokens_eq_zero_of_allowed_eq_false (eq_false_of_ne_true hallowed)
    rintro _ ⟨⟩
    exact .denied haccount hchecks hempty hreplies _

theorem gives_claimed (ha : h.Admitted verdict) (key : String) (claim : Record.Claim) :
    (plan.claimed verdict key t claim).Gives h := by
  cases claim with
  | claimed => exact ha
  | degraded e => exact ha
  | alreadyClaimed record =>
      simp only [Plan.claimed]
      split
      · split
        · exact ha
        · exact gives_keepWaiting ha key _
      · exact gives_replay ha record

theorem gives_fetched (ha : h.Admitted verdict) (key : String) (poll : Poll)
    (reply : Except StoreError (Option Record)) :
    (Plan.fetched verdict key poll t reply).Gives h := by
  match reply with
  | .error e => exact ha
  | .ok none => exact gives_conflict ha
  | .ok (some record) =>
      simp only [Plan.fetched]
      split
      · exact gives_keepWaiting ha key poll
      · exact gives_replay ha record

theorem Stage.Gives.resume {stage : Stage} (hs : stage.Gives h)
    (reply : (plan.await stage).Reply) :
    (plan.resume t stage reply).Gives (h.add ⟨t, plan.await stage, reply⟩) := by
  cases stage with
  | checking account now =>
      obtain ⟨haccount, hchecks, hreplies⟩ := hs
      have hreplies' : (h.add ⟨t, plan.await (.checking account now), reply⟩).replies = [] :=
        (History.replies_add_of_none rfl).trans hreplies
      cases reply with
      | ok state =>
          refine gives_checked haccount ?_ hreplies'
          rw [History.checks_add, hchecks]
          rfl
      | error e =>
          exact ⟨.unknown account ((History.checks_add_of_none rfl).trans hchecks), hreplies'⟩
  | claiming verdict key now => exact gives_claimed (History.Admitted.add hs rfl rfl) key _
  | pausing verdict key poll left => exact History.Admitted.add hs rfl rfl
  | fetching verdict key poll now =>
      exact gives_fetched (History.Admitted.add hs rfl rfl) key poll reply
  | handling verdict owned =>
      have hwarrants : (h.add ⟨t, .handler, reply⟩).Warrants verdict := hs.warrants.add rfl
      cases reply with
      | ok response =>
          have hyields : (h.add ⟨t, .handler, .ok response⟩).Yields response := by
            refine .fresh ?_
            rw [History.replies_add, hs.replies]
            rfl
          cases owned with
          | some key => exact ⟨hwarrants, hyields⟩
          | none => exact gives_settle plan hwarrants hyields
      | error e => cases owned <;> exact nofun
  | saving verdict key response now =>
      have hgoal : (Goal.settle verdict response).Gives
          (h.add ⟨t, plan.await (.saving verdict key response now), reply⟩) :=
        ⟨hs.1.add rfl, hs.2.add rfl⟩
      cases reply with
      | ok done => exact gives_settle plan hgoal.1 hgoal.2
      | error e => exact hgoal
  | releasing key now goal =>
      have hgoal : goal.Gives (h.add ⟨t, plan.await (.releasing key now goal), reply⟩) :=
        Goal.Gives.add hs rfl rfl
      match reply with
      | .ok true => exact hgoal
      | .ok false => exact hgoal.enter
      | .error e => exact hgoal.enter
  | charging account cost now response =>
      have hgives : (h.add ⟨t, plan.await (.charging account cost now response), reply⟩).Gives
          response := History.Gives.add hs rfl rfl
      cases reply with
      | ok left =>
          rintro _ ⟨⟩
          exact hgives
      | error e =>
          rintro _ ⟨⟩
          exact hgives
  | telling event owned goal => exact (Goal.Gives.add hs rfl rfl).enter
  | finished result => exact reply.elim

theorem gives_start (t : Moment) : (plan.start t).Gives ⟨plan, []⟩ := by
  unfold Plan.start
  split
  · next account haccount => exact ⟨haccount, rfl, rfl⟩
  · have hgoal : (Goal.claim .unlimited).Gives ⟨plan, []⟩ := ⟨.unlimited rfl, rfl⟩
    exact hgoal.enter

theorem Plan.Run.gives {stage : Stage} (run : plan.Run h t stage) : stage.Gives h := by
  induction run with
  | start t => exact gives_start t
  | answer run t' reply takes ih => exact ih.resume reply

end Gives

/-! ## All responses -/

namespace History

variable {h : History} {response : Response}

theorem Yields.eq_of_handled (hy : h.Yields response) {reply : Response}
    (hreply : h.Handled (.ok reply)) : response = reply := by
  have hmem : .ok reply ∈ h.replies := mem_replies.mpr hreply
  cases hy with
  | fresh replies =>
      rw [replies, List.mem_singleton] at hmem
      exact (Except.ok.inj hmem).symm
  | replayed replies replay => simp [replies] at hmem
  | conflict replies => simp [replies] at hmem

/-- A response that is not the handler's has no field that reports a limit. -/
theorem Yields.values_eq_nil (hy : h.Yields response) (hnone : ∀ reply, ¬ h.Handled (.ok reply))
    {name : String} (hname : name ∈ Response.limitFields) : response.headers.values name = [] := by
  cases hy with
  | fresh replies => exact absurd (mem_replies.mp (by simp [replies])) (hnone response)
  | replayed replies replay => exact Response.values_ofRecord replay hname
  | conflict replies => exact Response.values_inProgress hname

theorem eq_of_checked {state found : Bucket.State} (hchecks : h.checks = [found])
    (hchecked : h.Checked state) : state = found := by
  rw [← mem_checks, hchecks, List.mem_singleton] at hchecked
  exact hchecked

theorem not_checked_of_checks_eq_nil (hchecks : h.checks = []) (state : Bucket.State) :
    ¬ h.Checked state := by
  rw [← mem_checks, hchecks]
  exact List.not_mem_nil

theorem Gives.reports (hg : h.Gives response) {state : Bucket.State} (hchecked : h.Checked state) :
    ∃ account, h.plan.account = some account ∧ response.headers.Reports account.policy state ∧
      ∀ reply, h.Handled (.ok reply) →
        response.headers.beside (Response.fieldsUnder account.policy) =
          reply.headers.beside (Response.fieldsUnder account.policy) := by
  cases hg with
  | @denied account account_eq found checks empty replies retryAfterSecs =>
      cases eq_of_checked checks hchecked
      refine ⟨account, account_eq, Response.reports_tooManyRequests empty _, fun reply hreply => ?_⟩
      rw [← mem_replies, replies] at hreply
      cases hreply
  | admitted warrants yields =>
      cases warrants with
      | unlimited checks => exact absurd hchecked (not_checked_of_checks_eq_nil checks state)
      | unknown account checks => exact absurd hchecked (not_checked_of_checks_eq_nil checks state)
      | @granted account account_eq found checks =>
          cases eq_of_checked checks hchecked
          refine ⟨account, account_eq, Response.reports_withLimit _ rfl, fun reply hreply => ?_⟩
          cases yields.eq_of_handled hreply
          exact Response.beside_withLimit _ _

theorem Gives.bare (hg : h.Gives response) (hnone : ∀ state, ¬ h.Checked state) :
    (∀ reply, h.Handled (.ok reply) → response.headers = reply.headers) ∧
      ((∀ reply, ¬ h.Handled (.ok reply)) →
        ∀ name ∈ Response.limitFields, response.headers.values name = []) := by
  have hyields : h.Yields response := by
    cases hg with
    | @denied account account_eq found checks empty replies retryAfterSecs =>
        exact absurd (mem_checks.mp (by simp [checks])) (hnone found)
    | admitted warrants yields =>
        cases warrants with
        | unlimited checks => exact yields
        | unknown account checks => exact yields
        | @granted account account_eq found checks =>
            exact absurd (mem_checks.mp (by simp [checks])) (hnone found)
  refine ⟨fun reply hreply => ?_, fun hfresh name hname => hyields.values_eq_nil hfresh hname⟩
  rw [hyields.eq_of_handled hreply]

end History

/-- Whatever the stores and the handler answer, a response reports what its check has found, whether
it is a denial, a replay, a conflict or the handler's, and keeps all other fields of the handler's.
When no check has found anything or there is no limit, the handler's response has just the fields
that it came with and another response has none of those that report a limit. -/
theorem Layer.fields_of_run (layer : Layer) (settings : Settings) (request : Request) {h : History}
    {t : Moment} {response : Response}
    (run : (layer.plan settings request).Run h t (.finished (.ok response))) :
    (∀ state, h.Checked state → ∃ policy, layer.limit = some policy ∧
      settings.rateLimitEnabled = true ∧ response.headers.Reports policy state ∧
      ∀ reply, h.Handled (.ok reply) →
        response.headers.beside (Response.fieldsUnder policy) =
          reply.headers.beside (Response.fieldsUnder policy)) ∧
      ((∀ state, ¬ h.Checked state) ∨ layer.limit = none ∨ settings.rateLimitEnabled = false →
        (∀ reply, h.Handled (.ok reply) → response.headers = reply.headers) ∧
          ((∀ reply, ¬ h.Handled (.ok reply)) →
            ∀ name ∈ Response.limitFields, response.headers.values name = [])) := by
  have hgives : h.Gives response := run.gives response rfl
  have hreports : ∀ state, h.Checked state → ∃ policy, layer.limit = some policy ∧
      settings.rateLimitEnabled = true ∧ response.headers.Reports policy state ∧
      ∀ reply, h.Handled (.ok reply) →
        response.headers.beside (Response.fieldsUnder policy) =
          reply.headers.beside (Response.fieldsUnder policy) := by
    intro state hchecked
    obtain ⟨account, haccount, hreported, hkept⟩ := hgives.reports hchecked
    have hlimit : layer.limit.filter (fun _ => settings.rateLimitEnabled) =
        some account.policy := by
      rw [← limit_plan layer settings request, ← run.plan_eq, haccount]
      rfl
    obtain ⟨hlimit, henabled⟩ := Option.filter_eq_some_iff.mp hlimit
    exact ⟨account.policy, hlimit, henabled, hreported, hkept⟩
  refine ⟨hreports, fun hbare => hgives.bare fun state hchecked => ?_⟩
  obtain ⟨policy, hlimit, henabled, -⟩ := hreports state hchecked
  rcases hbare with hnone | hnone | hdisabled
  · exact hnone state hchecked
  · simp [hnone] at hlimit
  · simp [hdisabled] at henabled

/-! ### A handler that sets the fields itself -/

def limitedLayer : Layer := { guardedLayer with keepsRecords := false }

def limitedPlan : Plan := { keyedPlan with key := none }

theorem plan_limitedLayer : limitedLayer.plan {} keyedRequest = limitedPlan := by decide +kernel

/-- The handler claims two limits of its own. -/
def boastingReply : Response where
  status := 200
  headers := ⟨[("x-ratelimit-limit", .ofNat 1), ("x-trace", .ofString "t"),
    ("x-ratelimit-limit", .ofNat 2)]⟩
  body := .ofString "b"

/-- There are seven tokens left when it is checked. -/
def boastingVerdict : Verdict := .granted keyedAccount (.ofState Catalogue.entriesUpdate ⟨7, 0⟩)

def boastingPast : List Exchange :=
  [⟨⟨0, 0⟩, limitedPlan.await (.checking keyedAccount 0), .ok ⟨7, 0⟩⟩,
   ⟨⟨0, 0⟩, .tell (.allowed "ENTRIES_UPDATE" 7), ()⟩,
   ⟨⟨5, 5000000⟩, .handler, .ok boastingReply⟩,
   ⟨⟨5, 5000000⟩, .bucket (Bucket.chargeCall Catalogue.entriesUpdate "anonymous" 1 5),
    .ok (6 : UInt32)⟩,
   ⟨⟨5, 5000000⟩, .tell (.charged "ENTRIES_UPDATE" 1), ()⟩]

theorem run_boastingPast : limitedPlan.Run ⟨limitedPlan, boastingPast⟩ ⟨5, 5000000⟩
    (.finished (.ok (boastingVerdict.decorate boastingReply))) := by
  have hchecking : limitedPlan.Run ⟨limitedPlan, boastingPast.take 0⟩ ⟨0, 0⟩
      (.checking keyedAccount 0) := .start ⟨0, 0⟩
  have hgranted := hchecking.answer ⟨0, 0⟩ (.ok ⟨7, 0⟩) (Await.takes_of_le (by decide) nofun)
  have hhandling := hgranted.answer ⟨0, 0⟩ () (Await.takes_of_le (by decide) nofun)
  have hcharging := hhandling.answer ⟨5, 5000000⟩ (.ok boastingReply)
    (Await.takes_of_le (by decide) nofun)
  have htelling := hcharging.answer ⟨5, 5000000⟩ (.ok (6 : UInt32))
    (Await.takes_of_le (by decide) nofun)
  exact htelling.answer ⟨5, 5000000⟩ () (Await.takes_of_le (by decide) nofun)

theorem fields_of_run_boastingPast :
    (limitedLayer.plan {} keyedRequest).Run ⟨limitedPlan, boastingPast⟩ ⟨5, 5000000⟩
        (.finished (.ok (boastingVerdict.decorate boastingReply))) ∧
      History.Checked ⟨limitedPlan, boastingPast⟩ ⟨7, 0⟩ ∧
      (boastingVerdict.decorate boastingReply).headers.Reports Catalogue.entriesUpdate ⟨7, 0⟩ ∧
      (boastingVerdict.decorate boastingReply).headers.beside
          (Response.fieldsUnder Catalogue.entriesUpdate) =
        boastingReply.headers.beside (Response.fieldsUnder Catalogue.entriesUpdate) := by
  have run : (limitedLayer.plan {} keyedRequest).Run ⟨limitedPlan, boastingPast⟩ ⟨5, 5000000⟩
      (.finished (.ok (boastingVerdict.decorate boastingReply))) := by
    rw [plan_limitedLayer]
    exact run_boastingPast
  have hchecked : History.Checked ⟨limitedPlan, boastingPast⟩ ⟨7, 0⟩ :=
    ⟨_, List.mem_cons_self, rfl⟩
  have hhandled : History.Handled ⟨limitedPlan, boastingPast⟩ (.ok boastingReply) :=
    ⟨⟨⟨5, 5000000⟩, .handler, .ok boastingReply⟩, by simp [boastingPast], rfl⟩
  obtain ⟨policy, hpolicy, -, hreports, hkept⟩ :=
    (limitedLayer.fields_of_run {} keyedRequest run).1 ⟨7, 0⟩ hchecked
  cases Option.some.inj hpolicy
  exact ⟨run, hchecked, hreports, hkept boastingReply hhandled⟩

end Admission
