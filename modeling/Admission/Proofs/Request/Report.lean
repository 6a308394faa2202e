import Admission.Proofs.Request.Outline
import Admission.Proofs.Sink.Readiness

/-! # What a request reports

A request reports its check, then how its key was dealt with, then that its claim was given up, then
its charge. Each part is one event or none, and what has been done decides which. -/

namespace Admission

/-! ## Parts of a report -/

namespace Event

inductive IsCheck (policy : String) : Event → Prop
  | allowed (remaining : UInt32) : IsCheck policy (.allowed policy remaining)
  | denied (retryAfterSecs : UInt64) : IsCheck policy (.denied policy retryAfterSecs)
  | failedOpen (e : StoreError) : IsCheck policy (.limiterFailedOpen policy e)

/-- Whether an event tells how a key was dealt with. -/
inductive IsDealing : Event → Prop
  | claimed : IsDealing .claimed
  | replayed (status : UInt16) : IsDealing (.replayed status)
  | conflict : IsDealing .inFlightConflict
  | proceeded : IsDealing .inFlightProceeded
  | failedOpen (e : StoreError) : IsDealing (.recordsFailedOpen e)

inductive IsCharge (policy : String) (cost : UInt32) : Event → Prop
  | charged : IsCharge policy cost (.charged policy cost)
  | failedOpen (e : StoreError) : IsCharge policy cost (.limiterFailedOpen policy e)

end Event

/-- What a request reports, part by part. -/
structure Parts where
  check : Option Event := none
  dealing : Option Event := none
  release : Option Event := none
  charge : Option Event := none

namespace Parts

def events (r : Parts) : List Event :=
  r.check.toList ++ r.dealing.toList ++ r.release.toList ++ r.charge.toList

def Denies (r : Parts) : Prop := ∃ policy secs, r.check = some (.denied policy secs)

/-- What decides about the parts of a report: the policy that limits the request, the key that it
claims, its history and its result. -/
structure Fits (r : Parts) (limit : Option Policy) (key : Option String) (h : History)
    (result : Except String Response) : Prop where
  check_isSome : r.check.isSome = limit.isSome
  isCheck : ∀ event, r.check = some event →
    ∃ policy, limit = some policy ∧ event.IsCheck policy.name
  /-- A denial is all that is reported. -/
  alone : r.Denies → r.dealing = none ∧ r.release = none ∧ r.charge = none
  dealing_isSome : r.dealing.isSome = true ↔ key.isSome = true ∧ ¬ r.Denies
  isDealing : ∀ event, r.dealing = some event → event.IsDealing
  release_isSome : r.release.isSome = true ↔ ∃ x ∈ h.past, x.frees = true
  isRelease : ∀ event, r.release = some event → event = .released ∧ r.dealing = some .claimed
  charge_isSome : r.charge.isSome = true ↔ ¬ r.Denies ∧ ∃ policy response, limit = some policy ∧
    result = .ok response ∧ policy.cost response.status ≠ 0
  isCharge : ∀ event, r.charge = some event → ∃ policy response, limit = some policy ∧
    result = .ok response ∧ event.IsCharge policy.name (policy.cost response.status)
  claimed : r.dealing = some .claimed → h.calls = 1
  replayed : ∀ status, r.dealing = some (.replayed status) →
    h.calls = 0 ∧ ∃ response, result = .ok response ∧ response.status = status
  conflict : r.dealing = some .inFlightConflict → h.calls = 0

end Parts

/-! ## The events of each part -/

namespace Plan

variable {plan : Plan} {deeds : List Deed}

theorem Opens.check {verdict : Verdict} (h : plan.Opens verdict deeds) :
    ∃ check : Option Event, deeds.filterMap Deed.event? = check.toList ∧
      check.isSome = plan.account.isSome ∧ ∀ event, check = some event →
        (∃ account, plan.account = some account ∧ event.IsCheck account.policy.name) ∧
          ∀ policy secs, event ≠ .denied policy secs := by
  cases h with
  | unlimited account_eq => exact ⟨none, rfl, by rw [account_eq]; rfl, nofun⟩
  | @unknown account now e account_eq =>
      refine ⟨some (.limiterFailedOpen account.policy.name e), rfl, by rw [account_eq]; rfl, ?_⟩
      rintro _ ⟨⟩
      exact ⟨⟨account, account_eq, .failedOpen e⟩, nofun⟩
  | @granted account now status account_eq =>
      refine ⟨some (.allowed account.policy.name status.remaining), rfl, ?_, ?_⟩
      · rw [account_eq]
        rfl
      rintro _ ⟨⟩
      exact ⟨⟨account, account_eq, .allowed _⟩, nofun⟩

theorem Opens.silent {verdict : Verdict} (h : plan.Opens verdict deeds) :
    .handler ∉ deeds ∧ .free ∉ deeds := by
  cases h <;> simp

theorem Charges.silent {status? : Option UInt16} (h : plan.Charges status? deeds) :
    .handler ∉ deeds ∧ .free ∉ deeds := by
  cases h <;> simp

theorem Charges.charge {status? : Option UInt16} (h : plan.Charges status? deeds) :
    ∃ charge : Option Event, deeds.filterMap Deed.event? = charge.toList ∧
      (charge.isSome = true ↔ ∃ account status, plan.account = some account ∧
        status? = some status ∧ account.policy.cost status ≠ 0) ∧
      ∀ event, charge = some event → ∃ account status, plan.account = some account ∧
        status? = some status ∧
          event.IsCharge account.policy.name (account.policy.cost status) := by
  cases h with
  | failed => exact ⟨none, rfl, by simp, nofun⟩
  | unlimited account_eq => exact ⟨none, rfl, by simp [account_eq], nofun⟩
  | exempt account_eq cost_eq => exact ⟨none, rfl, by simp [account_eq, cost_eq], nofun⟩
  | @charged account status now account_eq cost_ne =>
      refine ⟨some (.charged account.policy.name (account.policy.cost status)), rfl, ?_, ?_⟩
      · simp [account_eq, cost_ne]
      · rintro _ ⟨⟩
        exact ⟨account, status, account_eq, rfl, .charged⟩
  | @failedOpen account status now e account_eq cost_ne =>
      refine ⟨some (.limiterFailedOpen account.policy.name e), rfl, ?_, ?_⟩
      · simp [account_eq, cost_ne]
      · rintro _ ⟨⟩
        exact ⟨account, status, account_eq, rfl, .failedOpen e⟩

/-- What is reported of a claim after which the handler runs. -/
theorem Claims.dealing {owned : Option String} (h : plan.Claims owned deeds) :
    ∃ dealing : Option Event, deeds = dealing.toList.map .tell ∧
      dealing.isSome = plan.key.isSome ∧ (owned.isSome = true → dealing = some .claimed) ∧
      ∀ event, dealing = some event → event.IsDealing ∧ event ≠ .inFlightConflict ∧
        ∀ status, event ≠ .replayed status := by
  cases h with
  | keyless key_eq => exact ⟨none, rfl, by rw [key_eq]; rfl, nofun, nofun⟩
  | won key_eq =>
      refine ⟨some .claimed, rfl, by rw [key_eq]; rfl, fun _ => rfl, ?_⟩
      rintro _ ⟨⟩
      exact ⟨.claimed, nofun, nofun⟩
  | proceeded key_eq =>
      refine ⟨some .inFlightProceeded, rfl, by rw [key_eq]; rfl, nofun, ?_⟩
      rintro _ ⟨⟩
      exact ⟨.proceeded, nofun, nofun⟩
  | @degraded key e key_eq =>
      refine ⟨some (.recordsFailedOpen e), rfl, by rw [key_eq]; rfl, nofun, ?_⟩
      rintro _ ⟨⟩
      exact ⟨.failedOpen e, nofun, nofun⟩

/-- What is reported of the way to a response. -/
structure Reports (plan : Plan) (status? : Option UInt16) (deeds : List Deed)
    (dealing release : Option Event) : Prop where
  events_eq : deeds.filterMap Deed.event? = dealing.toList ++ release.toList
  dealing_isSome : dealing.isSome = plan.key.isSome
  isDealing : ∀ event, dealing = some event → event.IsDealing
  release_isSome : release.isSome = true ↔ .free ∈ deeds
  isRelease : ∀ event, release = some event → event = .released ∧ dealing = some .claimed
  claimed : dealing = some .claimed → deeds.count .handler = 1
  replayed : ∀ status, dealing = some (.replayed status) →
    deeds.count .handler = 0 ∧ status? = some status
  conflict : dealing = some .inFlightConflict → deeds.count .handler = 0

theorem Answers.reports {status? : Option UInt16} (h : plan.Answers status? deeds) :
    ∃ dealing release, plan.Reports status? deeds dealing release := by
  cases h with
  | @replayed key status key_eq =>
      refine ⟨some (.replayed status), none, ?_⟩
      constructor
      case events_eq => rfl
      case dealing_isSome => rw [key_eq]; rfl
      case isDealing =>
        rintro _ ⟨⟩
        exact .replayed status
      all_goals simp
  | @conflict key status key_eq =>
      refine ⟨some .inFlightConflict, none, ?_⟩
      constructor
      case events_eq => rfl
      case dealing_isSome => rw [key_eq]; rfl
      case isDealing =>
        rintro _ ⟨⟩
        exact .conflict
      all_goals simp
  | handled claims =>
      obtain ⟨dealing, rfl, hsome, howned, hdealing⟩ := claims.dealing
      refine ⟨dealing, none, ?_⟩
      constructor
      case events_eq => cases dealing <;> rfl
      case dealing_isSome => exact hsome
      case isDealing => exact fun event h => (hdealing event h).1
      case release_isSome => cases dealing <;> simp
      case isRelease => simp
      case claimed => cases dealing <;> simp
      case replayed => exact fun status h => absurd rfl ((hdealing _ h).2.2 status)
      case conflict => exact fun h => absurd rfl (hdealing _ h).2.1
  | freed claims =>
      obtain ⟨dealing, rfl, hsome, howned, hdealing⟩ := claims.dealing
      cases howned rfl
      refine ⟨some .claimed, some .released, ?_⟩
      constructor
      case events_eq => rfl
      case dealing_isSome => exact hsome
      case isDealing => exact fun event h => (hdealing event h).1
      case claimed => exact fun _ => rfl
      all_goals simp

end Plan

/-! ## Requests that are over -/

namespace History

variable {h : History} {result : Except String Response}

theorem fits_denied {account : Account} {state : Bucket.State} {now retryAfter : UInt64}
    {t t' : Moment} (account_eq : h.plan.account = some account)
    (past_eq : h.past = [⟨t, .bucket (account.checkCall now), .ok state⟩,
      ⟨t', .tell (.denied account.policy.name retryAfter), ()⟩]) :
    Parts.Fits { check := some (.denied account.policy.name retryAfter) }
      (h.plan.account.map Account.policy) h.plan.key h result := by
  have hdenies : Parts.Denies { check := some (.denied account.policy.name retryAfter) } :=
    ⟨_, _, rfl⟩
  constructor
  case check_isSome => rw [account_eq]; rfl
  case isCheck =>
    rintro _ ⟨⟩
    exact ⟨account.policy, by rw [account_eq]; rfl, .denied retryAfter⟩
  case alone => exact fun _ => ⟨rfl, rfl, rfl⟩
  case dealing_isSome => simp [hdenies]
  case release_isSome => simp [past_eq, Exchange.frees]
  case charge_isSome => simp [hdenies]
  all_goals simp

theorem Admits.calls_eq {verdict : Verdict} {answering charging : List Deed}
    {status? : Option UInt16} (ha : h.Admits verdict (answering ++ charging))
    (hcharges : h.plan.Charges status? charging) : h.calls = answering.count .handler := by
  obtain ⟨opening, hopens, hdeeds⟩ := ha.opens
  rw [History.calls_eq, hdeeds, List.count_append, List.count_append,
    List.count_eq_zero.mpr hopens.silent.1, List.count_eq_zero.mpr hcharges.silent.1, Nat.zero_add,
    Nat.add_zero]

theorem Admits.exists_frees_iff {verdict : Verdict} {answering charging : List Deed}
    {status? : Option UInt16} (ha : h.Admits verdict (answering ++ charging))
    (hcharges : h.plan.Charges status? charging) :
    (∃ x ∈ h.past, x.frees = true) ↔ .free ∈ answering := by
  obtain ⟨opening, hopens, hdeeds⟩ := ha.opens
  simp [History.exists_frees_iff, hdeeds, hopens.silent.2, hcharges.silent.2]

theorem Shows.report (hs : h.Shows result) :
    ∃ r : Parts, h.events = r.events ∧
      r.Fits (h.plan.account.map Account.policy) h.plan.key h result := by
  cases hs with
  | denied account_eq empty past_eq =>
      refine ⟨_, ?_, fits_denied account_eq past_eq⟩
      rw [events, past_eq]
      rfl
  | admitted answers charges admits =>
      obtain ⟨opening, hopens, hdeeds⟩ := admits.opens
      obtain ⟨check, hcheck, hcheckSome, hisCheck⟩ := hopens.check
      obtain ⟨dealing, release, hreports⟩ := answers.reports
      obtain ⟨charge, hcharge, hchargeSome, hisCharge⟩ := charges.charge
      have hcalls := admits.calls_eq charges
      have hadmitted : ¬ Parts.Denies ⟨check, dealing, release, charge⟩ := by
        rintro ⟨policy, secs, hdenied⟩
        exact (hisCheck _ hdenied).2 policy secs rfl
      refine ⟨⟨check, dealing, release, charge⟩, ?_, ?_⟩
      · simp [events_eq, hdeeds, hcheck, hreports.events_eq, hcharge, Parts.events]
      constructor
      case check_isSome => simpa using hcheckSome
      case isCheck =>
        intro event hevent
        obtain ⟨account, haccount, hkind⟩ := (hisCheck event hevent).1
        exact ⟨account.policy, by rw [haccount]; rfl, hkind⟩
      case alone => exact fun hdenies => absurd hdenies hadmitted
      case dealing_isSome => simp [hadmitted, hreports.dealing_isSome]
      case isDealing => exact hreports.isDealing
      case release_isSome =>
        exact hreports.release_isSome.trans (admits.exists_frees_iff charges).symm
      case isRelease => exact hreports.isRelease
      case charge_isSome =>
        rw [hchargeSome, and_iff_right hadmitted]
        constructor
        · rintro ⟨account, status, haccount, hstatus, hcost⟩
          obtain ⟨response, rfl, rfl⟩ := Response.status?_eq_some.mp hstatus
          exact ⟨account.policy, response, by rw [haccount]; rfl, rfl, hcost⟩
        · rintro ⟨policy, response, hpolicy, rfl, hcost⟩
          obtain ⟨account, haccount, rfl⟩ := Option.map_eq_some_iff.mp hpolicy
          exact ⟨account, response.status, haccount, rfl, hcost⟩
      case isCharge =>
        intro event hevent
        obtain ⟨account, status, haccount, hstatus, hkind⟩ := hisCharge event hevent
        obtain ⟨response, rfl, rfl⟩ := Response.status?_eq_some.mp hstatus
        exact ⟨account.policy, response, by rw [haccount]; rfl, rfl, hkind⟩
      case claimed => exact fun hclaimed => hcalls.trans (hreports.claimed hclaimed)
      case replayed =>
        intro status hreplayed
        obtain ⟨hcount, hstatus⟩ := hreports.replayed status hreplayed
        exact ⟨hcalls.trans hcount, Response.status?_eq_some.mp hstatus⟩
      case conflict => exact fun hconflict => hcalls.trans (hreports.conflict hconflict)

end History

/-! ## Runs through a layer -/

/-- A log is always ready and keeps every event in order. -/
theorem Sink.lines_emitAll_log (events lines : List Event) :
    ((Sink.leaf (.log lines)).emitAll Leaf.conduct events).lines = lines ++ events := by
  induction events generalizing lines with
  | nil => simp [Sink.lines, leaves, Leaf.lines]
  | cons event events ih =>
      have hemit : (Sink.leaf (.log lines)).emit Leaf.conduct event =
          .leaf (.log (lines ++ [event])) := rfl
      rw [emitAll_cons, hemit, ih, List.append_assoc, List.singleton_append]

theorem Layer.limit_plan (layer : Layer) (settings : Settings) (request : Request) :
    (layer.plan settings request).account.map Account.policy =
      layer.limit.filter fun _ => settings.rateLimitEnabled := by
  simp [plan, Function.comp_def]

/-- Whatever the stores and the handler answer, a request that is over has reported its check if it
was to be limited, then how its key was dealt with if it has one, then its release if that has
deleted the record and then its charge if one was due, and nothing else. A log that was told has all
of it in order. -/
theorem Layer.report_of_run (layer : Layer) (settings : Settings) (request : Request) {h : History}
    {t : Moment} {result : Except String Response}
    (run : (layer.plan settings request).Run h t (.finished result)) :
    ∃ r : Parts, h.events = r.events ∧
      ((Sink.leaf (.log [])).emitAll Leaf.conduct h.events).lines = r.events ∧
      r.Fits (layer.limit.filter fun _ => settings.rateLimitEnabled)
        (if layer.keepsRecords then request.headers.idempotencyKey? settings else none)
        h result := by
  have hshows : h.Shows result := run.shows
  obtain ⟨r, hevents, hfits⟩ := hshows.report
  refine ⟨r, hevents, ?_, ?_⟩
  · rw [Sink.lines_emitAll_log, List.nil_append, hevents]
  · rw [run.plan_eq, limit_plan] at hfits
    exact hfits

theorem report_of_run_failingPast :
    (guardedLayer.plan {} keyedRequest).Run ⟨keyedPlan, failingPast⟩ ⟨60, 60000000⟩
        (.finished (.ok ⟨201, .empty, .ofString "b"⟩)) ∧
      ∃ r : Parts, History.events ⟨keyedPlan, failingPast⟩ = r.events ∧
        r.Fits (some Catalogue.entriesUpdate) (some "k") ⟨keyedPlan, failingPast⟩
          (.ok ⟨201, .empty, .ofString "b"⟩) := by
  have run : (guardedLayer.plan {} keyedRequest).Run ⟨keyedPlan, failingPast⟩ ⟨60, 60000000⟩
      (.finished (.ok ⟨201, .empty, .ofString "b"⟩)) := by
    rw [plan_keyedRequest]
    exact run_failingPast
  refine ⟨run, ?_⟩
  obtain ⟨r, hevents, -, hfits⟩ := guardedLayer.report_of_run {} keyedRequest run
  have hkey : (guardedLayer.plan {} keyedRequest).key = some "k" := by rw [plan_keyedRequest]; rfl
  exact ⟨r, hevents, hkey ▸ hfits⟩

end Admission
