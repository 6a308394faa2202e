import Admission.Session.Basic

/-! # Sessions behind a veil

A veil over a world shows another layer in place of its own, and other records and faults of their
store. Nothing that goes on in a session notices a veil, as long as the two layers make the same plans
for its requests and the records are left alone, or shown as they are. -/

namespace Admission

/-! ## Requests that leave the records alone -/

/-- No record is claimed or given up on the way to a goal. -/
def Goal.Recordless : Goal → Prop
  | claim _ => True
  | dispatch _ owned => owned = none
  | settle .. => True
  | finish _ => True

/-- A request without a key is at such a stage. -/
def Stage.Recordless : Stage → Prop
  | checking .. => True
  | handling _ owned => owned = none
  | charging .. => True
  | telling _ owned goal => owned = none ∧ goal.Recordless
  | finished _ => True
  | _ => False

section Recordless

variable {plan : Plan} {t : Moment} {stage : Stage}

theorem Goal.Recordless.enter (hkey : plan.key = none) {goal : Goal} (h : goal.Recordless) :
    (plan.enter t goal).Recordless := by
  cases goal with
  | claim verdict => simp [Plan.enter, hkey, Stage.Recordless]
  | dispatch verdict owned => exact h
  | settle verdict response =>
      simp only [Plan.enter]
      split
      · trivial
      · split <;> trivial
  | finish result => trivial

theorem recordless_start (hkey : plan.key = none) : (plan.start t).Recordless := by
  unfold Plan.start
  split
  · trivial
  · exact Goal.Recordless.enter hkey trivial

theorem recordless_checked (account : Account) (reply : Except StoreError Bucket.State) :
    (Plan.checked account t reply).Recordless := by
  cases reply with
  | ok state =>
      simp only [Plan.checked]
      split <;> exact ⟨rfl, trivial⟩
  | error e => exact ⟨rfl, trivial⟩

theorem Stage.Recordless.resume (hkey : plan.key = none) (h : stage.Recordless)
    (reply : (plan.await stage).Reply) : (plan.resume t stage reply).Recordless := by
  cases stage with
  | checking account now => exact recordless_checked account reply
  | handling verdict owned =>
      cases h
      cases reply with
      | ok response =>
          change (plan.enter t (.settle verdict response)).Recordless
          exact Goal.Recordless.enter hkey trivial
      | error e => trivial
  | charging account cost now response => cases reply <;> exact ⟨rfl, trivial⟩
  | telling event owned goal => exact h.2.enter hkey
  | finished result => exact reply.elim
  | _ => exact h.elim

theorem Stage.Recordless.await_ne (h : stage.Recordless) (call : Record.Call) :
    plan.await stage ≠ .record call := by
  cases stage with
  | checking | handling | charging | telling | finished => nofun
  | _ => exact h.elim

theorem Stage.Recordless.guarded?_eq (h : stage.Recordless) : stage.guarded? = none := by
  cases stage with
  | handling verdict owned => exact h
  | telling event owned goal => exact h.1
  | checking | charging | finished => rfl
  | _ => exact h.elim

end Recordless

/-! ## Veils -/

def Backing.mapRecords (f : Record.Store → Record.Store) : Backing → Backing
  | memory buckets records => memory buckets (f records)
  | served server => served server

def Backing.isServed : Backing → Bool
  | memory .. => false
  | served _ => true

/-- What no session changes: the layer, and the kind of the stores. -/
structure World.Keeps (w w' : World) : Prop where
  layer : w'.layer = w.layer
  served : w'.backing.isServed = w.backing.isServed

theorem World.Keeps.refl (w : World) : w.Keeps w := ⟨rfl, rfl⟩

theorem World.Keeps.trans {w w' w'' : World} (h : w.Keeps w') (h' : w'.Keeps w'') : w.Keeps w'' :=
  ⟨h'.layer.trans h.layer, h'.served.trans h.served⟩

structure Veil where
  layer : Layer
  faults : RecordFaults → RecordFaults := id
  records : Record.Store → Record.Store := id

namespace Veil

variable (v : Veil)

/-- The world as it looks behind the veil. -/
def cover (w : World) : World :=
  { w with
    layer := v.layer
    recordFaults := v.faults w.recordFaults
    backing := w.backing.mapRecords v.records }

/-- The records are shown as they are. -/
def IsClear : Prop := v.faults = id ∧ v.records = id

/-- Whether something may be waited for behind the veil. -/
def Passes (a : Await) : Prop := v.IsClear ∨ ∀ call, a ≠ .record call

/-- Whether a request may be at a stage behind the veil. -/
def Lets (plan : Plan) (stage : Stage) : Prop :=
  v.IsClear ∨ plan.key = none ∧ stage.Recordless

variable {v}

theorem IsClear.mapRecords (hv : v.IsClear) (b : Backing) : b.mapRecords v.records = b := by
  rw [hv.2]
  cases b <;> rfl

theorem Lets.passes {plan : Plan} {stage : Stage} (h : v.Lets plan stage) :
    v.Passes (plan.await stage) :=
  h.imp_right fun ⟨_, hstage⟩ => hstage.await_ne

theorem Lets.resume {plan : Plan} {stage : Stage} (h : v.Lets plan stage) (t : Moment)
    (reply : (plan.await stage).Reply) : v.Lets plan (plan.resume t stage reply) :=
  h.imp_right fun ⟨hkey, hstage⟩ => ⟨hkey, hstage.resume hkey reply⟩

/-- A request that gives up a key when it is dropped sees the records as they are. -/
theorem Lets.isClear_of_guarded {plan : Plan} {stage : Stage} {key : String}
    (h : v.Lets plan stage) (hguarded : stage.guarded? = some key) : v.IsClear := by
  rcases h with hclear | ⟨-, hstage⟩
  · exact hclear
  · rw [hstage.guarded?_eq] at hguarded
    cases hguarded

/-! ### Answers -/

variable {w w' : World} {h : Handler} {a : Await}

theorem pause_cover (ha : v.Passes a) (limit : Option Deadline) :
    (v.cover w).pause limit h a = w.pause limit h a := by
  cases a with
  | record call =>
      obtain hclear | hne := ha
      · simp only [World.pause, cover, hclear.1, id]
      · exact absurd rfl (hne call)
  | _ => rfl

theorem bucket_mapRecords (call : Bucket.Call) (f : Record.Store → Record.Store) (b : Backing) :
    (b.mapRecords f).bucket call = ((b.bucket call).1, (b.bucket call).2.mapRecords f) := by
  cases b <;> rfl

theorem answer_cover (ha : v.Passes a) (late : Bool) :
    (v.cover w).answer h late a = (w.answer h late a).map fun r => (r.1, v.cover r.2) := by
  cases a with
  | bucket call =>
      simp only [World.answer, cover, bucket_mapRecords]
      split <;> rfl
  | record call =>
      obtain hclear | hne := ha
      · simp only [World.answer, cover, hclear.1, hclear.mapRecords, id]
        split <;> rfl
      · exact absurd rfl (hne call)
  | tell event =>
      simp only [World.answer, cover]
      split <;> rfl
  | handler =>
      simp only [World.answer]
      split <;> rfl
  | sleep interval left => rfl
  | nothing => rfl

theorem answerAfter_cover (ha : v.Passes a) (limit : Option Deadline) (pause : World.Pause) :
    (v.cover w).answerAfter limit h a pause =
      (w.answerAfter limit h a pause).map fun r => (r.1, v.cover r.2) := by
  cases pause with
  | now => exact answer_cover ha false
  | after ms => exact answer_cover ha true
  | cut ms =>
      simp only [World.answerAfter, Option.map_map]
      rfl
  | forever => rfl

end Veil

theorem World.keeps_bucket (w : World) (call : Bucket.Call) :
    w.Keeps { w with backing := (w.backing.bucket call).2 } := by
  obtain ⟨_, _, backing⟩ := w
  cases backing <;> exact ⟨rfl, rfl⟩

theorem World.keeps_record (w : World) (call : Record.Call) :
    w.Keeps { w with backing := (w.backing.record call).2 } := by
  obtain ⟨_, _, backing⟩ := w
  cases backing <;> exact ⟨rfl, rfl⟩

/-- No answer changes them either, nor the settings, and time does not move on by it. -/
theorem World.keeps_of_answerAfter {w w' : World} {h : Handler} {limit : Option Deadline} {a : Await}
    {pause : Pause} {reply : a.Reply} (hanswer : w.answerAfter limit h a pause = some (reply, w')) :
    w.Keeps w' ∧ w'.settings = w.settings ∧ w'.instant = w.instant := by
  have hanswered : ∀ late, w.answer h late a = some (reply, w') →
      w.Keeps w' ∧ w'.settings = w.settings ∧ w'.instant = w.instant := by
    intro late hanswer
    cases a with
    | bucket call =>
        simp only [answer] at hanswer
        split at hanswer <;> cases hanswer
        · exact ⟨.refl w, rfl, rfl⟩
        · exact ⟨w.keeps_bucket call, rfl, rfl⟩
    | record call =>
        simp only [answer] at hanswer
        split at hanswer <;> cases hanswer
        · exact ⟨.refl w, rfl, rfl⟩
        · exact ⟨w.keeps_record call, rfl, rfl⟩
    | tell event =>
        simp only [answer] at hanswer
        split at hanswer <;> cases hanswer
        exact ⟨⟨rfl, rfl⟩, rfl, rfl⟩
    | handler =>
        simp only [answer] at hanswer
        split at hanswer <;> cases hanswer <;> exact ⟨.refl w, rfl, rfl⟩
    | sleep interval left =>
        cases hanswer
        exact ⟨.refl w, rfl, rfl⟩
    | nothing => cases hanswer
  cases pause with
  | now => exact hanswered false hanswer
  | after ms => exact hanswered true hanswer
  | cut ms =>
      obtain ⟨_, -, hsame⟩ := Option.map_eq_some_iff.mp hanswer
      cases hsame
      exact ⟨.refl w, rfl, rfl⟩
  | forever => cases hanswer

/-! ## Tasks that do not notice a veil -/

/-- An errand that may be run behind the veil and whose answer does not depend on it. -/
structure Errand.Fits (v : Veil) (e : Errand) : Prop where
  passes : v.Passes e.await
  finish_cover : ∀ w reply, e.finish (v.cover w) reply = e.finish w reply

/-- A beginning that is the same behind the veil and leaves the settings within a range. -/
structure Veil.Begins (v : Veil) (range : Settings → Prop)
    (begin : World → (Answer ⊕ Errand) × World) : Prop where
  cover_eq : ∀ w, begin (v.cover w) = ((begin w).1, v.cover (begin w).2)
  keeps : ∀ w : World, w.Keeps (begin w).2
  range : ∀ w, range w.settings.get → range (begin w).2.settings.get
  errand : ∀ w e, (begin w).1 = .inr e → e.Fits v

/-- Behind the veil the same is to be done for a request, whatever the settings of a range are. -/
structure Request.Fits (v : Veil) (layer : Layer) (range : Settings → Prop) (request : Request) :
    Prop where
  plan_eq : ∀ settings, range settings →
    v.layer.plan settings request = layer.plan settings request
  key : ∀ settings, range settings → v.IsClear ∨ (layer.plan settings request).key = none

theorem Request.Fits.lets_start {v : Veil} {layer : Layer} {range : Settings → Prop}
    {request : Request} (h : request.Fits v layer range) {settings : Settings}
    (hsettings : range settings) (t : Moment) :
    v.Lets (layer.plan settings request) ((layer.plan settings request).start t) :=
  (h.key settings hsettings).imp_right fun hkey => ⟨hkey, recordless_start hkey⟩

def Body.Fits (v : Veil) (layer : Layer) (range : Settings → Prop) : Body → Prop
  | start begin => v.Begins range begin
  | errand e _ => e.Fits v
  | arrival r _ => r.Fits v layer range
  | .request plan _ stage _ => v.Lets plan stage
  | drop .. => True
  | finished _ => True

/-- A schedule that has grown out of a world, with settings within a range, in which no task notices the
veil. -/
structure Schedule.Fits (v : Veil) (base : World) (range : Settings → Prop) (s : Schedule) : Prop
    where
  keeps : base.Keeps s.world
  settings : range s.world.settings.get
  tasks : ∀ t ∈ s.tasks, t.body.Fits v base.layer range

namespace Schedule

theorem mem_spawn {s : Schedule} {afterMs : Nat} {body : Body} {t : Task}
    (h : t ∈ (s.spawn afterMs body).tasks) :
    t ∈ s.tasks ∨ t = ⟨body, some (s.world.instant + afterMs), s.places⟩ :=
  (List.mem_append.mp h).imp_right List.mem_singleton.mp

/-- Counts a call of the handler that begins. -/
def counting (s : Schedule) (a : Await) : Schedule :=
  let calls :=
    match a with
    | .handler => s.world.handlerCalls + 1
    | _ => s.world.handlerCalls
  { s with world := { s.world with handlerCalls := calls } }

theorem waitStage_eq (s : Schedule) (i place : Nat) (plan : Plan) (h : Handler) {stage : Stage}
    (hstage : ∀ result, stage ≠ .finished result) :
    s.waitStage i place plan h stage =
      let s := s.counting (plan.await stage)
      let pause := s.world.pause (some plan.deadline) h (plan.await stage)
      s.wait i place (.request plan h stage pause) pause := by
  cases stage with
  | finished result => exact absurd rfl (hstage result)
  | _ => rfl

end Schedule

namespace Veil

/-- The schedule as it looks behind the veil. -/
def coverAll (v : Veil) (s : Schedule) : Schedule := { s with world := v.cover s.world }

variable {v : Veil} {base : World} {range : Settings → Prop} {s : Schedule}

theorem wait_cover (i place : Nat) (body : Body) (pause : World.Pause) :
    (v.coverAll s).wait i place body pause = v.coverAll (s.wait i place body pause) := by
  cases pause <;> rfl

theorem waitErrand_cover {e : Errand} (he : e.Fits v) (i place : Nat) :
    (v.coverAll s).waitErrand i place e = v.coverAll (s.waitErrand i place e) := by
  have hpause : (v.coverAll s).world.pause e.limit Schedule.noHandler e.await =
      s.world.pause e.limit Schedule.noHandler e.await := pause_cover he.passes e.limit
  simp only [Schedule.waitErrand, hpause, wait_cover]

theorem waitStage_cover {plan : Plan} {stage : Stage} (hstage : v.Lets plan stage) (h : Handler)
    (i place : Nat) :
    (v.coverAll s).waitStage i place plan h stage = v.coverAll (s.waitStage i place plan h stage) := by
  by_cases hfinished : ∃ result, stage = .finished result
  · obtain ⟨result, rfl⟩ := hfinished
    rfl
  · have hne : ∀ result, stage ≠ .finished result := not_exists.mp hfinished
    have hcount : (v.coverAll s).counting (plan.await stage) =
        v.coverAll (s.counting (plan.await stage)) := rfl
    have hpause : ∀ s : Schedule, (v.coverAll s).world.pause (some plan.deadline) h
        (plan.await stage) = s.world.pause (some plan.deadline) h (plan.await stage) :=
      fun s => pause_cover hstage.passes _
    rw [Schedule.waitStage_eq _ _ _ _ _ hne, Schedule.waitStage_eq _ _ _ _ _ hne]
    simp only [hcount, hpause, wait_cover]

end Veil

/-! ## Schedules behind a veil -/

/-- What gives up the claim of a dropped request in the background. -/
theorem Veil.begins_release {v : Veil} {range : Settings → Prop} (hv : v.IsClear) (limit : Deadline)
    (key : String) : v.Begins range fun w => (.inr (.release w limit key), w) where
  cover_eq _ := rfl
  keeps w := .refl w
  range _ hw := hw
  errand w e he := by
    cases he
    exact ⟨.inl hv, fun _ _ => rfl⟩

namespace Schedule.Fits

variable {v : Veil} {base : World} {range : Settings → Prop} {s : Schedule}

/-- Another world does no harm that keeps the layer and the kind of the stores. -/
theorem withWorld (hs : s.Fits v base range) {w : World} (hkeeps : s.world.Keeps w)
    (hsettings : range w.settings.get) : { s with world := w }.Fits v base range :=
  ⟨hs.keeps.trans hkeeps, hsettings, hs.tasks⟩

theorem setTask (hs : s.Fits v base range) (i : Nat) {body : Body}
    (hbody : body.Fits v base.layer range) (wake : Option Nat) (place : Nat) :
    (s.setTask i ⟨body, wake, place⟩).Fits v base range where
  keeps := hs.keeps
  settings := hs.settings
  tasks t ht := by
    rcases List.mem_or_eq_of_mem_set ht with hmem | rfl
    · exact hs.tasks t hmem
    · exact hbody

theorem finish (hs : s.Fits v base range) (i : Nat) (answer : Answer) :
    (s.finish i answer).Fits v base range :=
  hs.setTask i (show (Body.finished answer).Fits v base.layer range from trivial) none 0

theorem spawn (hs : s.Fits v base range) (afterMs : Nat) {body : Body}
    (hbody : body.Fits v base.layer range) : (s.spawn afterMs body).Fits v base range where
  keeps := hs.keeps
  settings := hs.settings
  tasks t ht := by
    rcases mem_spawn ht with hmem | rfl
    · exact hs.tasks t hmem
    · exact hbody

theorem wait (hs : s.Fits v base range) (i place : Nat) {body : Body}
    (hbody : body.Fits v base.layer range) (pause : World.Pause) :
    (s.wait i place body pause).Fits v base range := by
  have hplaced : { s with places := s.places + 1 }.Fits v base range :=
    ⟨hs.keeps, hs.settings, hs.tasks⟩
  cases pause with
  | now => exact hs.setTask i hbody _ _
  | after ms | cut ms => exact hplaced.setTask i hbody _ _
  | forever => exact hs.setTask i hbody _ _

theorem waitErrand (hs : s.Fits v base range) {e : Errand} (he : e.Fits v) (i place : Nat) :
    (s.waitErrand i place e).Fits v base range := by
  have hbody : ∀ pause, (Body.errand e pause).Fits v base.layer range := fun _ => he
  exact hs.wait i place (hbody _) _

theorem waitStage (hs : s.Fits v base range) {plan : Plan} {stage : Stage}
    (hstage : v.Lets plan stage) (h : Handler) (i place : Nat) :
    (s.waitStage i place plan h stage).Fits v base range := by
  by_cases hfinished : ∃ result, stage = .finished result
  · obtain ⟨result, rfl⟩ := hfinished
    exact hs.finish i _
  · rw [waitStage_eq _ _ _ _ _ (not_exists.mp hfinished)]
    have hcounting : (s.counting (plan.await stage)).Fits v base range :=
      ⟨⟨hs.keeps.layer, hs.keeps.served⟩, hs.settings, hs.tasks⟩
    have hbody : ∀ pause, (Body.request plan h stage pause).Fits v base.layer range := fun _ => hstage
    exact hcounting.wait i place (hbody _) _

theorem abandon (hs : s.Fits v base range) {plan : Plan} {stage : Stage}
    (hstage : v.Lets plan stage) : (s.abandon plan stage).Fits v base range := by
  unfold Schedule.abandon
  split
  · next key hguarded =>
    have hbody : (Body.start fun w => (.inr (.release w plan.deadline key), w)).Fits
        v base.layer range :=
      Veil.begins_release (hstage.isClear_of_guarded hguarded) _ _
    exact hs.spawn 0 hbody
  · exact hs

theorem drop (hs : s.Fits v base range) (target : Nat) (inside : Bool) :
    (s.drop target inside).Fits v base range := by
  unfold Schedule.drop
  split
  · next plan h stage pause wake place htask =>
    have hstage : v.Lets plan stage := hs.tasks _ (List.mem_of_getElem? htask)
    split
    · exact (hs.finish target _).abandon hstage
    · exact hs.finish target _
  · exact hs

end Schedule.Fits

namespace Veil

variable {v : Veil} {base : World} {range : Settings → Prop} {s : Schedule}

theorem abandon_cover (plan : Plan) (stage : Stage) :
    (v.coverAll s).abandon plan stage = v.coverAll (s.abandon plan stage) := by
  unfold Schedule.abandon
  split <;> rfl

theorem drop_cover (target : Nat) (inside : Bool) :
    (v.coverAll s).drop target inside = v.coverAll (s.drop target inside) := by
  unfold Schedule.drop
  have htasks : (v.coverAll s).tasks = s.tasks := rfl
  rw [htasks]
  split
  · next plan h stage pause wake place htask =>
    split
    · exact abandon_cover (s := s.finish target (.outcome .unfinished)) plan stage
    · rfl
  · rfl

/-- A task that wakes behind the veil does what it does otherwise. -/
theorem wakeTask_cover (hs : s.Fits v base range) (i : Nat) {t : Task}
    (ht : t.body.Fits v base.layer range) :
    (v.coverAll s).wakeTask i t = v.coverAll (s.wakeTask i t) := by
  obtain ⟨body, wake, place⟩ := t
  cases body with
  | start begin =>
      have hbegins : v.Begins range begin := ht
      have hbegin : begin (v.coverAll s).world = ((begin s.world).1, v.cover (begin s.world).2) :=
        hbegins.cover_eq s.world
      simp only [Schedule.wakeTask, hbegin]
      cases hresult : (begin s.world).1 with
      | inl answer => rfl
      | inr e =>
          exact waitErrand_cover (s := { s with world := (begin s.world).2 })
            (hbegins.errand _ e hresult) i place
  | errand e pause =>
      have he : e.Fits v := ht
      have hanswer : (v.coverAll s).world.answerAfter e.limit Schedule.noHandler e.await pause =
          (s.world.answerAfter e.limit Schedule.noHandler e.await pause).map
            fun r => (r.1, v.cover r.2) := answerAfter_cover he.passes e.limit pause
      simp only [Schedule.wakeTask, hanswer]
      cases s.world.answerAfter e.limit Schedule.noHandler e.await pause with
      | none => rfl
      | some r =>
          simp only [Option.map_some, he.finish_cover]
          rfl
  | arrival r h =>
      have hr : r.Fits v base.layer range := ht
      simp only [Schedule.wakeTask]
      split
      · rfl
      · have hplan : (v.coverAll s).world.layer.plan (v.coverAll s).world.settings.get r =
            s.world.layer.plan s.world.settings.get r := by
          rw [hs.keeps.layer]
          exact hr.plan_eq _ hs.settings
        rw [hplan]
        have hstart := hr.lets_start hs.settings s.world.moment
        rw [← hs.keeps.layer] at hstart
        exact waitStage_cover hstart h i place
  | request plan h stage pause =>
      have hstage : v.Lets plan stage := ht
      have hanswer : (v.coverAll s).world.answerAfter (some plan.deadline) h (plan.await stage)
          pause = (s.world.answerAfter (some plan.deadline) h (plan.await stage) pause).map
            fun r => (r.1, v.cover r.2) := answerAfter_cover hstage.passes _ pause
      simp only [Schedule.wakeTask, hanswer]
      cases s.world.answerAfter (some plan.deadline) h (plan.await stage) pause with
      | none =>
          simp only [Option.map_none]
          split
          · exact abandon_cover (s := s.finish i _) plan stage
          · rfl
      | some r =>
          exact waitStage_cover (s := { s with world := r.2 }) (hstage.resume r.2.moment r.1) h i place
  | drop target inside => exact drop_cover (s := s.finish i .ok) target inside
  | finished answer => rfl

end Veil

namespace Schedule.Fits

variable {v : Veil} {base : World} {range : Settings → Prop} {s : Schedule}

theorem wakeTask (hs : s.Fits v base range) (i : Nat) {t : Task}
    (ht : t.body.Fits v base.layer range) : (s.wakeTask i t).Fits v base range := by
  obtain ⟨body, wake, place⟩ := t
  cases body with
  | start begin =>
      have hbegins : v.Begins range begin := ht
      have hbegun : { s with world := (begin s.world).2 }.Fits v base range :=
        hs.withWorld (hbegins.keeps _) (hbegins.range _ hs.settings)
      simp only [Schedule.wakeTask]
      cases hresult : (begin s.world).1 with
      | inl answer => exact hbegun.finish i answer
      | inr e => exact hbegun.waitErrand (hbegins.errand _ e hresult) i place
  | errand e pause =>
      simp only [Schedule.wakeTask]
      split
      · next reply w hanswer =>
        obtain ⟨hkeeps, hsettings, -⟩ := World.keeps_of_answerAfter hanswer
        have hanswered : { s with world := w }.Fits v base range :=
          hs.withWorld hkeeps (hsettings ▸ hs.settings)
        exact hanswered.finish i _
      · exact hs.finish i _
  | arrival r h =>
      have hr : r.Fits v base.layer range := ht
      simp only [Schedule.wakeTask]
      split
      · exact hs.finish i _
      · have hstart := hr.lets_start hs.settings s.world.moment
        rw [← hs.keeps.layer] at hstart
        exact hs.waitStage hstart h i place
  | request plan h stage pause =>
      have hstage : v.Lets plan stage := ht
      simp only [Schedule.wakeTask]
      split
      · next reply w hanswer =>
        obtain ⟨hkeeps, hsettings, -⟩ := World.keeps_of_answerAfter hanswer
        have hanswered : { s with world := w }.Fits v base range :=
          hs.withWorld hkeeps (hsettings ▸ hs.settings)
        exact hanswered.waitStage (hstage.resume w.moment reply) h i place
      · split
        · exact (hs.finish i _).abandon hstage
        · exact hs.finish i _
  | drop target inside => exact (hs.finish i .ok).drop target inside
  | finished answer => exact hs.finish i answer

/-- A schedule goes on behind the veil as it does otherwise. -/
theorem step_cover (hs : s.Fits v base range) :
    (v.coverAll s).step? = s.step?.map v.coverAll ∧ ∀ s', s.step? = some s' → s'.Fits v base range := by
  unfold Schedule.step?
  have hnext : (v.coverAll s).next? = s.next? := rfl
  have htasks : (v.coverAll s).tasks = s.tasks := rfl
  rw [hnext, htasks]
  cases s.next? with
  | none => simp
  | some next =>
      obtain ⟨i, instant⟩ := next
      cases htask : s.tasks[i]? with
      | none => simp [htask]
      | some t =>
          have ht : t.body.Fits v base.layer range := hs.tasks t (List.mem_of_getElem? htask)
          have hlater : { s with world := { s.world with instant := max s.world.instant instant } }.Fits
              v base range := hs.withWorld ⟨rfl, rfl⟩ hs.settings
          have hover := Veil.wakeTask_cover hlater i ht
          simp only [htask, Option.bind_some, Option.map_some, Option.some.injEq, forall_eq']
          exact ⟨hover, hlater.wakeTask i ht⟩

theorem steps_cover (hs : s.Fits v base range) (n : Nat) :
    (v.coverAll s).steps n = v.coverAll (s.steps n) ∧ (s.steps n).Fits v base range := by
  induction n generalizing s with
  | zero => exact ⟨rfl, hs⟩
  | succ n ih =>
      obtain ⟨hover, hfits⟩ := hs.step_cover
      simp only [Schedule.steps, hover]
      cases hstep : s.step? with
      | none => exact ⟨rfl, hs⟩
      | some s' => exact ih (hfits s' hstep)

theorem run_cover (hs : s.Fits v base range) :
    (v.coverAll s).run = v.coverAll s.run ∧ s.run.Fits v base range := by
  have hbound : (v.coverAll s).stepBound = s.stepBound := rfl
  simp only [Schedule.run, hbound]
  exact hs.steps_cover _

end Schedule.Fits

end Admission
