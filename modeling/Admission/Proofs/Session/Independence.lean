import Admission.Proofs.Request.Run
import Admission.Proofs.Session.Veil
import Mathlib.Data.List.TakeWhile

/-! # Components of a layer do not depend on each other

A layer whose limits are switched off does what a layer without limits does, and to requests without a
key a layer does what one does that keeps no records. Sessions on the two layers give the same answers
and events and leave the same world behind. -/

namespace Admission

/-! ## Steps behind a veil -/

/-- Whether a step leaves the records and their faults alone. -/
def Step.sparesRecords : Step → Bool
  | claim _ | save .. | fetch _ | release _ | record _ | records | purgeRecords _
  | setRecordFaults _ => false
  | _ => true

/-- A step leaves the settings within a range. -/
def Step.Keeps (range : Settings → Prop) : Step → Prop
  | setSettings settings => range settings
  | updateSettings enabled timeoutMs proceed =>
    ∀ settings, range settings → range (World.changedSettings enabled timeoutMs proceed settings)
  | _ => True

/-- A step that leaves the settings within a range and the records alone, if they are veiled. -/
structure Step.Fits (v : Veil) (range : Settings → Prop) (step : Step) : Prop where
  keeps : step.Keeps range
  spares : v.IsClear ∨ step.sparesRecords = true

theorem Step.Fits.isClear {v : Veil} {range : Settings → Prop} {step : Step}
    (h : step.Fits v range) (hstep : step.sparesRecords = false) : v.IsClear :=
  h.spares.resolve_right (by simp [hstep])

namespace Veil

variable {v : Veil} {range : Settings → Prop} {w : World} {step : Step}

theorem buckets_cover : (v.cover w).backing.buckets = w.backing.buckets := by
  simp only [cover]
  cases w.backing <;> rfl

theorem server_cover : (v.cover w).backing.server = w.backing.server := by
  simp only [cover]
  cases w.backing <;> rfl

theorem records_cover (hv : v.IsClear) : (v.cover w).backing.records = w.backing.records := by
  simp only [cover, hv.mapRecords]

theorem mapBuckets_cover (f : Bucket.Store → Bucket.Store) :
    (v.cover w).mapBuckets f = v.cover (w.mapBuckets f) := by
  obtain ⟨_, _, backing⟩ := w
  cases backing <;> rfl

theorem mapServer_cover (f : Server → Server) :
    (v.cover w).mapServer f = v.cover (w.mapServer f) := by
  obtain ⟨_, _, backing⟩ := w
  cases backing <;> rfl

theorem mapRecords_cover (hv : v.IsClear) (f : Record.Store → Record.Store) :
    (v.cover w).mapRecords f = v.cover (w.mapRecords f) := by
  obtain ⟨_, _, backing⟩ := w
  cases backing <;> simp [cover, World.mapRecords, Backing.mapRecords, hv.2]

theorem begin_cover (hstep : step.Fits v range) :
    (v.cover w).begin step = ((w.begin step).1, v.cover (w.begin step).2) := by
  cases step with
  | peek key => simp only [World.begin, buckets_cover]
  | buckets => simp only [World.begin, buckets_cover]
  | purgeBuckets now => simp only [World.begin, mapBuckets_cover, buckets_cover]
  | records => simp only [World.begin, records_cover (hstep.isClear rfl)]
  | purgeRecords now =>
      simp only [World.begin, records_cover (hstep.isClear rfl), mapRecords_cover (hstep.isClear rfl)]
  | setRecordFaults faults =>
      simp only [World.begin, cover, (hstep.isClear rfl).1]
      rfl
  | serverAdvance ms => simp only [World.begin, mapServer_cover, server_cover]
  | serverFail reply => simp only [World.begin, mapServer_cover]
  | serverPut name value => simp only [World.begin, mapServer_cover]
  | serverDelete name => simp only [World.begin, mapServer_cover, server_cover]
  | serverDump => simp only [World.begin, server_cover]
  | _ => rfl

end Veil

namespace World

variable {w : World}

theorem keeps_begin (step : Step) : w.Keeps (w.begin step).2 := by
  obtain ⟨_, _, backing⟩ := w
  cases step with
  | purgeBuckets | purgeRecords | serverAdvance | serverFail | serverPut | serverDelete =>
      cases backing <;> exact ⟨rfl, rfl⟩
  | _ => exact ⟨rfl, rfl⟩

theorem instant_begin (step : Step) : (w.begin step).2.instant = w.instant := by
  obtain ⟨_, _, backing⟩ := w
  cases step with
  | purgeBuckets | purgeRecords | serverAdvance | serverFail | serverPut | serverDelete =>
      cases backing <;> rfl
  | _ => rfl

theorem settings_begin {range : Settings → Prop} {step : Step} (hstep : step.Keeps range)
    (hw : range w.settings.get) : range (w.begin step).2.settings.get := by
  obtain ⟨_, _, backing⟩ := w
  cases step with
  | setSettings settings => exact hstep
  | updateSettings enabled timeoutMs proceed => exact hstep _ hw
  | purgeBuckets | purgeRecords | serverAdvance | serverFail | serverPut | serverDelete =>
      cases backing <;> exact hw
  | _ => exact hw

theorem exists_of_withPolicy_eq {name : String} {f : Policy → Answer ⊕ Errand} {e : Errand}
    (h : w.withPolicy name f = .inr e) : ∃ policy, f policy = .inr e := by
  unfold withPolicy at h
  split at h
  · next policy hpolicy => exact ⟨policy, h⟩
  · cases h

end World

theorem Step.Fits.errand {v : Veil} {range : Settings → Prop} {step : Step} (hstep : step.Fits v range)
    {w : World} {e : Errand} (he : (w.begin step).1 = .inr e) : e.Fits v := by
  cases step with
  | check policy id =>
      obtain ⟨p, hp⟩ := World.exists_of_withPolicy_eq he
      cases hp
      exact ⟨.inr nofun, fun _ _ => rfl⟩
  | consume policy id status =>
      obtain ⟨p, hp⟩ := World.exists_of_withPolicy_eq he
      simp only at hp
      split at hp
      · cases hp
      · cases hp
        exact ⟨.inr nofun, fun _ _ => rfl⟩
  | reset policy id =>
      obtain ⟨p, hp⟩ := World.exists_of_withPolicy_eq he
      cases hp
      exact ⟨.inr nofun, fun _ _ => rfl⟩
  | bucket call =>
      cases he
      exact ⟨.inr nofun, fun _ _ => rfl⟩
  | claim | save | fetch | release | record =>
      cases he
      exact ⟨.inl (hstep.isClear rfl), fun _ _ => rfl⟩
  | _ => cases he

theorem Step.Fits.begins {v : Veil} {range : Settings → Prop} {step : Step}
    (hstep : step.Fits v range) : v.Begins range (·.begin step) where
  cover_eq _ := Veil.begin_cover hstep
  keeps _ := World.keeps_begin step
  range _ := World.settings_begin hstep.keeps
  errand _ _ := hstep.errand

theorem Schedule.Fits.spawnStep {v : Veil} {base : World} {range : Settings → Prop} {s : Schedule}
    (hs : s.Fits v base range) (afterMs : Nat) {step : Step} (hstep : step.Fits v range) :
    (s.spawnStep afterMs step).Fits v base range := by
  have hstart : (Body.start (·.begin step)).Fits v base.layer range := hstep.begins
  have hspawned := hs.spawn afterMs hstart
  exact ⟨hspawned.keeps, hspawned.settings, hspawned.tasks⟩

/-! ## Actions behind a veil -/

/-- The steps that are taken while a job runs. -/
def Job.steps (job : Job) : List Step := job.during.map Prod.snd

namespace Action

/-- The steps of an action. -/
def steps : Action → List Step
  | .step only => [only]
  | .request job | .abandon job _ _ => job.steps
  | .concurrent jobs => jobs.flatMap Job.steps

/-- The requests of an action. -/
def requests : Action → List Request
  | .step _ => []
  | .request job | .abandon job _ _ => [job.request]
  | .concurrent jobs => jobs.map Job.request

/-- An action whose steps and requests do not notice the veil. -/
structure Fits (v : Veil) (layer : Layer) (range : Settings → Prop) (action : Action) : Prop where
  steps : ∀ step ∈ action.steps, step.Fits v range
  requests : ∀ request ∈ action.requests, request.Fits v layer range

end Action

namespace Job

variable {v : Veil} {base : World} {range : Settings → Prop} {s : Schedule}

theorem spawn_cover (job : Job) : spawn (v.coverAll s) job = v.coverAll (spawn s job) := by
  have harrival : (v.coverAll s).spawn 0 (.arrival job.request job.handler) =
      v.coverAll (s.spawn 0 (.arrival job.request job.handler)) := rfl
  rw [spawn, harrival]
  exact List.foldl_hom v.coverAll fun _ _ => rfl

theorem spawnAll_cover (jobs : List Job) :
    jobs.foldl spawn (v.coverAll s) = v.coverAll (jobs.foldl spawn s) :=
  List.foldl_hom v.coverAll fun _ job => spawn_cover job

theorem fits_spawn {job : Job} (hs : s.Fits v base range)
    (hsteps : ∀ step ∈ job.steps, step.Fits v range) (hrequest : job.request.Fits v base.layer range) :
    (spawn s job).Fits v base range := by
  have harrival : (Body.arrival job.request job.handler).Fits v base.layer range := hrequest
  exact List.foldlRecOn _ _ (hs.spawn 0 harrival) fun s hs (afterMs, step) hmem =>
    hs.spawnStep afterMs (hsteps step (List.mem_map_of_mem hmem))

theorem fits_spawnAll {jobs : List Job} (hs : s.Fits v base range)
    (hfits : (Action.concurrent jobs).Fits v base.layer range) :
    (jobs.foldl spawn s).Fits v base range :=
  List.foldlRecOn _ _ hs fun _ hs _ hmem => fits_spawn hs
    (fun step hstep => hfits.steps step (List.mem_flatMap_of_mem hmem hstep))
    (hfits.requests _ (List.mem_map_of_mem hmem))

theorem reports_cover (s : Schedule) (i : Nat) (jobs : List Job) :
    reports (v.coverAll s) i jobs = reports s i jobs := by
  induction jobs generalizing i with
  | nil => rfl
  | cons job jobs ih =>
      simp only [reports, ih]
      rfl

end Job

/-! An action adds its tasks to an idle schedule, runs it and reads off what has come of them. -/

namespace Action

variable {v : Veil} {range : Settings → Prop} {w : World} {action : Action}

def spawn (w : World) : Action → Schedule
  | .step only => Schedule.spawnStep { world := w } 0 only
  | .request job => Job.spawn { world := w } job
  | .concurrent jobs => jobs.foldl Job.spawn { world := w }
  | .abandon job afterMs inside =>
    (Job.spawn { world := w } job).spawn afterMs (.drop 0 inside)

def report (s : Schedule) : Action → Report × World
  | .step _ => (.answer ((s.answer? 0).getD (.outcome .unfinished)), s.world)
  | .request job => (.request (job.report s 0) s.world.takeTrace.1, s.world.takeTrace.2)
  | .concurrent jobs =>
    (.concurrent (Job.reports s 0 jobs) s.world.takeTrace.1, s.world.takeTrace.2)
  | .abandon _ _ _ =>
    let finished :=
      match s.outcome 0 with
      | .unfinished => false
      | _ => true
    (.abandon finished s.world.takeTrace.1, s.world.takeTrace.2)

theorem report_run (w : World) (action : Action) :
    w.act action = action.report (action.spawn w).run := by
  cases action <;> rfl

theorem spawn_cover : action.spawn (v.cover w) = v.coverAll (action.spawn w) := by
  have hidle : ({ world := v.cover w } : Schedule) = v.coverAll { world := w } := rfl
  cases action with
  | step only => rfl
  | request job => simp only [spawn, hidle, Job.spawn_cover]
  | concurrent jobs => simp only [spawn, hidle, Job.spawnAll_cover]
  | abandon job afterMs inside =>
      simp only [spawn, hidle, Job.spawn_cover]
      rfl

theorem report_cover (s : Schedule) :
    action.report (v.coverAll s) = ((action.report s).1, v.cover (action.report s).2) := by
  cases action with
  | concurrent jobs =>
      simp only [report, Job.reports_cover]
      rfl
  | _ => rfl

theorem keeps_report (action : Action) (s : Schedule) :
    s.world.Keeps (action.report s).2 ∧ (action.report s).2.settings = s.world.settings := by
  cases action <;> exact ⟨⟨rfl, rfl⟩, rfl⟩

theorem Fits.spawn (ha : action.Fits v w.layer range) (hrange : range w.settings.get) :
    (action.spawn w).Fits v w range := by
  have hidle : ({ world := w } : Schedule).Fits v w range := ⟨.refl w, hrange, by simp⟩
  cases action with
  | step only => exact hidle.spawnStep 0 (ha.steps only List.mem_cons_self)
  | request job => exact Job.fits_spawn hidle ha.steps (ha.requests _ List.mem_cons_self)
  | concurrent jobs => exact Job.fits_spawnAll hidle ha
  | abandon job afterMs inside =>
      have hdrop : (Body.drop 0 inside).Fits v w.layer range := trivial
      exact (Job.fits_spawn hidle ha.steps (ha.requests _ List.mem_cons_self)).spawn afterMs hdrop

/-- An action comes to the same behind the veil. -/
theorem Fits.act_cover (ha : action.Fits v w.layer range) (hrange : range w.settings.get) :
    (v.cover w).act action = ((w.act action).1, v.cover (w.act action).2) ∧
      w.Keeps (w.act action).2 ∧ range (w.act action).2.settings.get := by
  obtain ⟨hover, hfits⟩ := (ha.spawn hrange).run_cover
  obtain ⟨hkeeps, hsettings⟩ := keeps_report action (action.spawn w).run
  refine ⟨?_, ?_, ?_⟩
  · rw [report_run, report_run, spawn_cover, hover, report_cover]
  · rw [report_run]
    exact hfits.keeps.trans hkeeps
  · rw [report_run, hsettings]
    exact hfits.settings

end Action

namespace World

variable {v : Veil} {range : Settings → Prop} {w : World}

/-- What is left of a world after some actions. -/
def after (w : World) (actions : List Action) : World :=
  actions.foldl (fun w action => (w.act action).2) w

theorem actAll_cover {actions : List Action} (hrange : range w.settings.get)
    (hactions : ∀ action ∈ actions, action.Fits v w.layer range) :
    (v.cover w).actAll actions = w.actAll actions ∧
      (v.cover w).after actions = v.cover (w.after actions) ∧ w.Keeps (w.after actions) := by
  induction actions generalizing w with
  | nil => exact ⟨rfl, rfl, .refl w⟩
  | cons action rest ih =>
      obtain ⟨hact, hkeeps, hrange'⟩ := (hactions action List.mem_cons_self).act_cover hrange
      have hrest : ∀ a ∈ rest, a.Fits v (w.act action).2.layer range := by
        rw [hkeeps.layer]
        exact fun a ha => hactions a (List.mem_cons_of_mem action ha)
      obtain ⟨hreports, hafter, hkept⟩ := ih hrange' hrest
      refine ⟨?_, ?_, ?_⟩
      · simp only [actAll, hact, hreports]
      · simpa only [after, List.foldl_cons, hact] using hafter
      · exact hkeeps.trans hkept

end World

/-! ## Requests without a key -/

/-- Nothing that could be a key stands under a name: no value, or the first one is not text or is
blank. -/
def Headers.Keyless (headers : Headers) (name : String) : Prop :=
  ∀ value ∈ headers.get? name,
    Headers.isText value = false ∨ value.chars.all Text.isBlank = true

instance (headers : Headers) (name : String) : Decidable (headers.Keyless name) :=
  inferInstanceAs (Decidable (∀ value ∈ headers.get? name, _))

theorem Text.trimChars_of_all_isBlank {cs : List Char} (h : cs.all isBlank = true) :
    trimChars cs = [] := by
  have hdropped : cs.dropWhile isBlank = [] :=
    List.dropWhile_eq_nil_iff.mpr (List.all_eq_true.mp h)
  simp [trimChars, hdropped]

theorem Headers.Keyless.text?_eq {headers : Headers} {name : String} (h : headers.Keyless name) :
    headers.text? name = none := by
  cases hvalue : headers.get? name with
  | none => simp only [text?, hvalue]
  | some value =>
      rcases h value hvalue with hraw | hblank
      · simp [text?, hvalue, hraw]
      · simp [text?, hvalue, Text.trimChars_of_all_isBlank hblank]

section Plans

variable {layer : Layer} {settings : Settings} {request : Request}

theorem Layer.plan_without_limit (h : settings.rateLimitEnabled = false) :
    { layer with limit := none }.plan settings request = layer.plan settings request := by
  have hlimit : (layer.limit.filter fun _ => settings.rateLimitEnabled) = none := by simp [h]
  simp only [plan, hlimit, Option.filter_none]

theorem Layer.key_of_keyless (h : request.headers.Keyless settings.idempotencyHeader) :
    (layer.plan settings request).key = none := by
  simp only [plan, Headers.idempotencyKey?, h.text?_eq, ite_self]

theorem Layer.plan_without_records (h : request.headers.Keyless settings.idempotencyHeader) :
    { layer with keepsRecords := false }.plan settings request = layer.plan settings request := by
  simp [plan, Headers.idempotencyKey?, h.text?_eq]

/-- However it is answered, a request never asks the records and has no claim to give up when it is
dropped. -/
def Plan.SparesRecords (plan : Plan) : Prop :=
  ∀ h t stage, plan.Run h t stage → (∀ call, plan.await stage ≠ .record call) ∧ stage.guarded? = none

theorem Plan.Run.recordless {plan : Plan} {h : History} {t : Moment} {stage : Stage}
    (run : plan.Run h t stage) (hkey : plan.key = none) : stage.Recordless := by
  induction run with
  | start t => exact recordless_start hkey
  | answer run t' reply takes ih => exact ih.resume hkey reply

theorem Plan.sparesRecords_of_key {plan : Plan} (hkey : plan.key = none) : plan.SparesRecords := by
  intro h t stage run
  have hstage := run.recordless hkey
  exact ⟨hstage.await_ne, hstage.guarded?_eq⟩

end Plans

/-! ## Sessions on two layers -/

theorem Backing.records_of_shown {b b' : Backing} (hshown : b' = b'.mapRecords fun _ => b.records)
    (hserved : b'.isServed = b.isServed) : b'.records = b.records := by
  cases b' with
  | memory buckets records => exact (memory.inj hshown).2
  | served server =>
      cases b with
      | memory buckets records => cases hserved
      | served server => rfl

namespace World

variable {w : World} {actions : List Action}

/-- The world with another layer in it. -/
def withLayer (w : World) (layer : Layer) : World := { w with layer := layer }

def withRecordFaults (w : World) (faults : RecordFaults) : World := { w with recordFaults := faults }

/-- Another layer gives the same reports and leaves the same world behind. -/
structure SameUnder (w : World) (layer : Layer) (actions : List Action) : Prop where
  reports : (w.withLayer layer).actAll actions = w.actAll actions
  after : (w.withLayer layer).after actions = (w.after actions).withLayer layer

theorem cover_eq_withLayer (w : World) (layer : Layer) :
    ({ layer := layer } : Veil).cover w = w.withLayer layer := by
  obtain ⟨_, _, backing⟩ := w
  cases backing <;> rfl

/-- A layer that plans the same for every request, whatever settings of a range are in force, comes to
the same. -/
theorem sameUnder_of_plan_eq {layer : Layer} {range : Settings → Prop}
    (hrange : range w.settings.get)
    (hkeep : ∀ action ∈ actions, ∀ step ∈ action.steps, step.Keeps range)
    (hplan : ∀ action ∈ actions, ∀ request ∈ action.requests, ∀ settings, range settings →
      layer.plan settings request = w.layer.plan settings request) :
    w.SameUnder layer actions := by
  have hclear : ({ layer := layer } : Veil).IsClear := ⟨rfl, rfl⟩
  have hactions : ∀ action ∈ actions, action.Fits { layer := layer } w.layer range := by
    intro action haction
    refine ⟨fun step hstep => ⟨hkeep action haction step hstep, .inl hclear⟩, ?_⟩
    exact fun request hrequest => ⟨hplan action haction request hrequest, fun _ _ => .inl hclear⟩
  obtain ⟨hreports, hafter, -⟩ := actAll_cover hrange hactions
  simp only [cover_eq_withLayer] at hreports hafter
  exact ⟨hreports, hafter⟩

/-- With the limits switched off a layer does what it does without them. -/
theorem sameUnder_without_limit (hoff : w.settings.get.rateLimitEnabled = false)
    (hkeep : ∀ action ∈ actions, ∀ step ∈ action.steps,
      step.Keeps fun settings => settings.rateLimitEnabled = false) :
    w.SameUnder { w.layer with limit := none } actions :=
  sameUnder_of_plan_eq hoff hkeep fun _ _ _ _ _ => Layer.plan_without_limit

/-! ### Sessions without keys -/

/-- No request has a key under a name, and no step changes the name. -/
structure KeylessUnder (actions : List Action) (name : String) : Prop where
  requests : ∀ action ∈ actions, ∀ request ∈ action.requests, request.headers.Keyless name
  steps : ∀ action ∈ actions, ∀ step ∈ action.steps,
    step.Keeps fun settings => settings.idempotencyHeader = name

theorem sameUnder_without_records {name : String} (hname : w.settings.get.idempotencyHeader = name)
    (hkeyless : KeylessUnder actions name) :
    w.SameUnder { w.layer with keepsRecords := false } actions := by
  refine sameUnder_of_plan_eq hname hkeyless.steps ?_
  rintro action haction request hrequest settings rfl
  exact Layer.plan_without_records (hkeyless.requests action haction request hrequest)

/-- Whatever a veil shows in place of the records, nobody notices in a session without keys whose steps
leave them alone. -/
theorem cover_of_keyless (v : Veil) {name : String} (hlayer : v.layer = w.layer)
    (hname : w.settings.get.idempotencyHeader = name) (hkeyless : KeylessUnder actions name)
    (hspares : ∀ action ∈ actions, ∀ step ∈ action.steps, step.sparesRecords = true) :
    (v.cover w).actAll actions = w.actAll actions ∧
      (v.cover w).after actions = v.cover (w.after actions) ∧ w.Keeps (w.after actions) := by
  have hactions : ∀ action ∈ actions, action.Fits v w.layer
      fun settings => settings.idempotencyHeader = name := by
    intro action haction
    refine ⟨fun step hstep => ⟨hkeyless.steps action haction step hstep, .inr ?_⟩, ?_⟩
    · exact hspares action haction step hstep
    · intro request hrequest
      have hheaders := hkeyless.requests action haction request hrequest
      refine ⟨fun settings _ => by rw [hlayer], fun settings hsettings => .inr ?_⟩
      exact Layer.key_of_keyless (hsettings ▸ hheaders)
  exact actAll_cover hname hactions

/-- The records are neither asked nor changed: they stay as they are, and faults of their store make no
difference. -/
structure SparesRecords (w : World) (actions : List Action) : Prop where
  records : (w.after actions).backing.records = w.backing.records
  reports : ∀ faults, (w.withRecordFaults faults).actAll actions = w.actAll actions
  after : ∀ faults,
    (w.withRecordFaults faults).after actions = (w.after actions).withRecordFaults faults

theorem cover_eq_withRecordFaults (w : World) (faults : RecordFaults) :
    ({ layer := w.layer, faults := fun _ => faults } : Veil).cover w = w.withRecordFaults faults := by
  obtain ⟨_, _, backing⟩ := w
  cases backing <;> rfl

/-- A veil that always shows the same records shows them as they are if they are these. -/
theorem cover_own_records (w : World) :
    ({ layer := w.layer, records := fun _ => w.backing.records } : Veil).cover w = w := by
  obtain ⟨_, _, backing⟩ := w
  cases backing <;> rfl

theorem sparesRecords_of_keyless {name : String} (hname : w.settings.get.idempotencyHeader = name)
    (hkeyless : KeylessUnder actions name)
    (hspares : ∀ action ∈ actions, ∀ step ∈ action.steps, step.sparesRecords = true) :
    w.SparesRecords actions where
  records := by
    obtain ⟨-, hafter, hkeeps⟩ := cover_of_keyless
      { layer := w.layer, records := fun _ => w.backing.records } rfl hname hkeyless hspares
    rw [cover_own_records] at hafter
    exact Backing.records_of_shown (congrArg World.backing hafter) hkeeps.served
  reports faults := by
    rw [← cover_eq_withRecordFaults]
    exact (cover_of_keyless _ rfl hname hkeyless hspares).1
  after faults := by
    rw [← cover_eq_withRecordFaults, (cover_of_keyless _ rfl hname hkeyless hspares).2.1]
    have hkeeps := (cover_of_keyless { layer := w.layer } rfl hname hkeyless hspares).2.2
    rw [← cover_eq_withRecordFaults, hkeeps.layer]

/-- The two components of a layer do not depend on each other. In a session with the limits switched off
the layer does what it does without limits, and in one without keys what it does without records, which
are then left alone. The same goes for each request by itself, whatever the others are. -/
theorem components_independent (w : World) (actions : List Action) :
    (w.settings.get.rateLimitEnabled = false →
      (∀ action ∈ actions, ∀ step ∈ action.steps,
        step.Keeps fun settings => settings.rateLimitEnabled = false) →
      w.SameUnder { w.layer with limit := none } actions) ∧
    (KeylessUnder actions w.settings.get.idempotencyHeader →
      w.SameUnder { w.layer with keepsRecords := false } actions ∧
        ((∀ action ∈ actions, ∀ step ∈ action.steps, step.sparesRecords = true) →
          w.SparesRecords actions)) ∧
    ∀ settings request,
      (settings.rateLimitEnabled = false →
        { w.layer with limit := none }.plan settings request = w.layer.plan settings request) ∧
      (request.headers.Keyless settings.idempotencyHeader →
        { w.layer with keepsRecords := false }.plan settings request =
            w.layer.plan settings request ∧
          (w.layer.plan settings request).SparesRecords) := by
  refine ⟨sameUnder_without_limit, fun hkeyless => ⟨?_, ?_⟩, fun settings request => ⟨?_, ?_⟩⟩
  · exact sameUnder_without_records rfl hkeyless
  · exact sparesRecords_of_keyless rfl hkeyless
  · exact Layer.plan_without_limit
  · intro hkeyless
    exact ⟨Layer.plan_without_records hkeyless,
      Plan.sparesRecords_of_key (Layer.key_of_keyless hkeyless)⟩

/-- A layer with both components, its limits switched off. -/
def idleLimits : World where
  clockMs := 0
  backing := .memory .empty .empty
  layer :=
    { limit := some ⟨{ name := "P", capacity := 1 }, by decide, by decide⟩, keepsRecords := true }
  settings := ⟨{ rateLimitEnabled := false }⟩
  sink := .leaf (.window (.ofCapacity 10))

/-- A request with a blank key and two that run together, one of them with a key that is not text. -/
def blankActions : List Action :=
  [.request ⟨⟨⟨[("x-idempotency-key", [32, 9])]⟩, none⟩, ⟨none, 0, .respond ⟨200, .empty, [1]⟩⟩, []⟩,
    .concurrent
      [⟨⟨⟨[("x-idempotency-key", [107, 195])]⟩, none⟩, ⟨none, 5, .respond ⟨500, .empty, []⟩⟩,
        [(1, .updateSettings (some false) (some 7) true)]⟩,
      ⟨⟨.empty, none⟩, ⟨none, 3, .fail "boom"⟩, [(2, .peek ⟨"P", "anonymous"⟩)]⟩]]

theorem components_independent_blankActions :
    idleLimits.SameUnder { idleLimits.layer with limit := none } blankActions ∧
      idleLimits.SameUnder { idleLimits.layer with keepsRecords := false } blankActions ∧
        idleLimits.SparesRecords blankActions := by
  have hoff : ∀ action ∈ blankActions, ∀ step ∈ action.steps,
      step.Keeps fun settings => settings.rateLimitEnabled = false := by
    simp [blankActions, Action.steps, Job.steps, Step.Keeps, changedSettings]
  have hheaders : ∀ action ∈ blankActions, ∀ request ∈ action.requests,
      request.headers.Keyless "X-Idempotency-Key" := by
    decide +kernel
  have hname : ∀ action ∈ blankActions, ∀ step ∈ action.steps,
      step.Keeps fun settings => settings.idempotencyHeader = "X-Idempotency-Key" := by
    simp [blankActions, Action.steps, Job.steps, Step.Keeps, changedSettings]
  have hspares : ∀ action ∈ blankActions, ∀ step ∈ action.steps, step.sparesRecords = true := by
    simp [blankActions, Action.steps, Job.steps, Step.sparesRecords]
  obtain ⟨hlimit, hrecords, -⟩ := components_independent idleLimits blankActions
  obtain ⟨hsame, huntouched⟩ := hrecords ⟨hheaders, hname⟩
  exact ⟨hlimit rfl hoff, hsame, huntouched hspares⟩

end World

end Admission
