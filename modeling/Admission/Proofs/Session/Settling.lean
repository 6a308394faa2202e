import Admission.Proofs.Session.Independence
import Mathlib.Algebra.GroupWithZero.Nat
import Mathlib.Algebra.Order.BigOperators.Group.List
import Mathlib.Algebra.Order.Group.Nat

/-! # Actions come to rest

An action is run for as many steps as its tasks can take. Each task owes a number of steps, which time
and other tasks never raise and which falls when the task goes on; the settings in force, or those of a
step that is taken meanwhile, bound it from the start. So the steps are never used up too soon. -/

namespace Admission

/-! ## Waits under the settings -/

abbrev Settings.Pauses (settings : Settings) : Prop := settings.inFlight.Pauses

/-- Waits pause, and no more than so many times. -/
structure Settings.Waits (pauses : Nat) (settings : Settings) : Prop where
  pausing : settings.Pauses
  pauses_le : settings.inFlight.pauses ≤ pauses

theorem pausesWithin_le {interval : Nat} (hinterval : 0 < interval) (left : Nat) :
    pausesWithin interval left ≤ 5 * left / (4 * interval) + 1 := by
  have hpos : 0 < 4 * interval := by omega
  rw [pausesWithin, ← Nat.add_div_right _ hpos]
  exact Nat.div_le_div_right (by omega)

theorem Settings.pauses_le_polls {settings : Settings} (h : settings.Pauses) :
    settings.inFlight.pauses ≤ settings.polls := by
  unfold InFlight.pauses polls
  cases hflight : settings.inFlight with
  | proceed => exact Nat.le_refl 0
  | wait maxWait interval =>
      have hinterval : 0 < interval.toNat := h maxWait interval hflight
      have hnanos : 5 * (maxWait.toNat * 1000000) / (4 * (interval.toNat * 1000000)) =
          5 * maxWait.toNat / (4 * interval.toNat) := by
        rw [← Nat.mul_assoc, ← Nat.mul_assoc, Nat.mul_div_mul_right _ _ (by decide)]
      have hle := pausesWithin_le (Nat.mul_pos hinterval (by decide : 0 < 1000000))
        (maxWait.toNat * 1000000)
      rw [hnanos] at hle
      simpa only [Nat.max_eq_right hinterval, Span.ofMillis] using hle

theorem Step.Keeps.waits {step : Step} {pauses : Nat}
    (h : step.Keeps Settings.Pauses) (hpolls : step.polls ≤ pauses) :
    step.Keeps (Settings.Waits pauses) := by
  cases step with
  | setSettings settings => exact ⟨h, (Settings.pauses_le_polls h).trans hpolls⟩
  | updateSettings enabled timeoutMs proceed =>
      intro settings hsettings
      cases proceed with
      | false => exact ⟨hsettings.pausing, hsettings.pauses_le⟩
      | true => exact ⟨nofun, Nat.zero_le pauses⟩
  | _ => trivial

/-! ## When a pause is over -/

/-- The instant at which a pause is over that begins at another. -/
def World.Pause.ends? (instant : Nat) : World.Pause → Option Nat
  | now => some instant
  | after ms | cut ms => some (instant + ms)
  | forever => none

theorem World.Pause.le_of_ends? {pause : World.Pause} {instant later : Nat}
    (h : pause.ends? instant = some later) : instant ≤ later := by
  cases pause with
  | now => exact (Option.some_inj.mp h).le
  | after ms | cut ms => exact (Nat.le_add_right instant ms).trans (Option.some_inj.mp h).le
  | forever => cases h

theorem World.Pause.eq_forever_of_ends? {pause : World.Pause} {instant : Nat}
    (h : pause.ends? instant = none) : pause = .forever := by
  cases pause with
  | forever => rfl
  | _ => cases h

/-- After a pause the answer may come for which it was made. -/
theorem World.takes_pause {w : World} {limit : Option Deadline} {h : Handler} {a : Await}
    {instant : Nat} (hends : (w.pause limit h a).ends? w.instant = some instant) :
    a.Takes w.moment ⟨w.clockMs, instant * 1000000⟩ := by
  refine Await.takes_of_le (Nat.mul_le_mul_right 1000000 (Pause.le_of_ends? hends)) ?_
  rintro interval left rfl
  -- A pause between polls is rounded up to the next millisecond.
  cases hends
  simp only [moment, Span.millisUp]
  omega

theorem Schedule.exists_wait_eq (s : Schedule) (i place : Nat) (body : Body) (pause : World.Pause) :
    ∃ places place', s.wait i place body pause =
      { s with places := places }.setTask i ⟨body, pause.ends? s.world.instant, place'⟩ := by
  cases pause <;> exact ⟨_, _, rfl⟩

/-! ## What a request owes -/

/-- The moment on which it depends what is still to come of a request: a pause was cut to what was left
when it began. -/
def Stage.since (t : Moment) : Stage → Moment
  | pausing _ _ poll left => ⟨t.clockMs, poll.endsAt - left.nanos⟩
  | _ => t

section Since

variable {plan : Plan} {stage : Stage} {t t' : Moment}

theorem Stage.Paced.since (h : stage.Paced t) (t' : Moment) : stage.Paced (stage.since t') := by
  cases stage with
  | pausing verdict key poll left =>
      obtain ⟨hinterval, hleft, hrest⟩ := h
      refine ⟨hinterval, hleft, ?_⟩
      simp only [Stage.since]
      omega
  | _ => exact h

theorem ahead_congr (h : t.instant = t'.instant) : plan.ahead t stage = plan.ahead t' stage := by
  cases stage with
  | handling verdict owned => cases owned <;> rfl
  | pausing | fetching => simp only [Plan.ahead, h]
  | _ => rfl

/-- A request that has just come to a stage owes all that is still to come. -/
theorem ahead_since (plan : Plan) (h : stage.Paced t) :
    plan.ahead (stage.since t) stage = plan.ahead t stage := by
  cases stage with
  | pausing verdict key poll left =>
      obtain ⟨-, hleft, hrest⟩ := h
      apply ahead_congr
      simp only [Stage.since]
      omega
  | _ => rfl

/-- What a request owes does not grow while it waits. -/
theorem ahead_since_mono (h : t.instant ≤ t'.instant) :
    plan.ahead (stage.since t') stage ≤ plan.ahead (stage.since t) stage := by
  cases stage with
  | pausing verdict key poll left => exact (ahead_congr rfl).le
  | fetching verdict key poll now =>
      have hmono : pausesWithin poll.interval.nanos (poll.endsAt - t'.instant) ≤
          pausesWithin poll.interval.nanos (poll.endsAt - t.instant) :=
        pausesWithin_mono (Nat.sub_le_sub_left h _)
      simp only [Stage.since, Plan.ahead]
      omega
  | handling verdict owned => cases owned <;> exact Nat.le_refl _
  | _ => exact Nat.le_refl _

theorem takes_since {u : Moment} (hpaced : stage.Paced t)
    (htakes : (plan.await stage).Takes t u) (hle : u.instant ≤ t'.instant) :
    (plan.await stage).Takes (stage.since t') t' := by
  cases stage with
  | pausing verdict key poll left =>
      obtain ⟨-, hleft, hrest⟩ := hpaced
      have hsame : poll.endsAt - left.nanos = t.instant := by omega
      obtain ⟨hlate, hpause⟩ := htakes
      refine ⟨?_, fun interval left hsleep => ?_⟩
      · simp only [Stage.since, hsame]
        exact hlate.trans hle
      · obtain ⟨length, hlength, hover⟩ := hpause interval left hsleep
        simp only [Stage.since, hsame]
        exact ⟨length, hlength, hover.trans hle⟩
  | _ => exact Await.takes_of_le (Nat.le_refl _) nofun

end Since

/-! ## What a task owes -/

/-- How many steps may follow when a task has gone on once, under settings with so many pauses. A request
that is dropped may leave two behind. -/
def Body.owes (pauses : Nat) (t : Moment) : Body → Nat
  | start _ => 1
  | errand .. => 0
  | arrival .. => 13 + 2 * pauses
  | request plan _ stage _ => 2 + plan.ahead (stage.since t) stage
  | drop .. => 0
  | finished _ => 0

def Task.owes (pauses : Nat) (t : Moment) (task : Task) : Nat :=
  task.body.owes pauses t + if task.wake.isSome then 1 else 0

section Task

variable (pauses : Nat) (t : Moment) (body : Body) (place : Nat)

theorem Task.owes_asleep : Task.owes pauses t ⟨body, none, place⟩ = body.owes pauses t := rfl

theorem Task.owes_awake (instant : Nat) :
    Task.owes pauses t ⟨body, some instant, place⟩ = body.owes pauses t + 1 := rfl

end Task

/-- What is over, and what waits for something that never comes. -/
inductive Body.Rests : Body → Prop
  | errand (e : Errand) : Rests (errand e .forever)
  | request (plan : Plan) (h : Handler) (stage : Stage) : Rests (request plan h stage .forever)
  | finished (answer : Answer) : Rests (finished answer)

/-- What begins leaves the time and the settings as they should be, and what waits does not wake too
soon. -/
def Body.Sound (pauses : Nat) (wake : Option Nat) : Body → Prop
  | start begin => ∀ w, (begin w).2.instant = w.instant ∧
      (w.settings.get.Waits pauses → (begin w).2.settings.get.Waits pauses)
  | request plan _ stage _ => plan.inFlight.Pauses ∧ ∃ t, stage.Paced t ∧
      ∀ instant ∈ wake, (plan.await stage).Takes t ⟨t.clockMs, instant * 1000000⟩
  | _ => True

/-- A task sleeps on only if it has nothing more to do. -/
structure Task.Sound (pauses : Nat) (task : Task) : Prop where
  body : task.body.Sound pauses task.wake
  rests : task.wake = none → task.body.Rests

theorem Task.sound_finished (pauses : Nat) (answer : Answer) :
    Task.Sound pauses ⟨.finished answer, none, 0⟩ :=
  ⟨trivial, fun _ => .finished answer⟩

namespace Schedule

def owes (pauses : Nat) (s : Schedule) : Nat := (s.tasks.map (Task.owes pauses s.world.moment)).sum

/-- The tasks of a schedule owe at most `n` steps, and that stays so. -/
structure Owes (pauses : Nat) (s : Schedule) (n : Nat) : Prop where
  settings : s.world.settings.get.Waits pauses
  sound : ∀ task ∈ s.tasks, task.Sound pauses
  le : s.owes pauses ≤ n

variable {pauses n m i : Nat} {s : Schedule} {task task' : Task}

theorem owes_setTask (pauses : Nat) (hi : s.tasks[i]? = some task) (task' : Task) :
    (s.setTask i task').owes pauses + task.owes pauses s.world.moment =
      s.owes pauses + task'.owes pauses s.world.moment := by
  obtain ⟨hlt, rfl⟩ := List.getElem?_eq_some_iff.mp hi
  have hset (u : Task) : ((s.tasks.set i u).map (Task.owes pauses s.world.moment)).sum =
      ((s.tasks.map (Task.owes pauses s.world.moment)).take i).sum +
        u.owes pauses s.world.moment +
        ((s.tasks.map (Task.owes pauses s.world.moment)).drop (i + 1)).sum := by
    rw [List.map_set, List.sum_set, if_pos (by simpa using hlt)]
  have hnew := hset task'
  have hold := hset s.tasks[i]
  rw [List.set_getElem_self] at hold
  simp only [owes, setTask]
  omega

namespace Owes

variable (hs : s.Owes pauses n)

include hs

theorem mono (hle : n ≤ m) : s.Owes pauses m := ⟨hs.settings, hs.sound, hs.le.trans hle⟩

/-- Time that passes adds nothing. -/
theorem withWorld {w : World} (hinstant : s.world.instant ≤ w.instant)
    (hsettings : w.settings.get.Waits pauses) : { s with world := w }.Owes pauses n := by
  refine ⟨hsettings, hs.sound, Nat.le_trans (List.sum_le_sum fun task _ => ?_) hs.le⟩
  obtain ⟨body, wake, place⟩ := task
  have hmoment : s.world.moment.instant ≤ w.moment.instant := Nat.mul_le_mul_right 1000000 hinstant
  refine Nat.add_le_add_right ?_ _
  cases body with
  | request plan h stage pause => exact Nat.add_le_add_left (ahead_since_mono hmoment) 2
  | _ => exact Nat.le_refl _

theorem setTask (hi : s.tasks[i]? = some task) (hsound : task'.Sound pauses)
    (hle : n + task'.owes pauses s.world.moment ≤ m + task.owes pauses s.world.moment) :
    (s.setTask i task').Owes pauses m := by
  refine ⟨hs.settings, fun u hu => ?_, ?_⟩
  · rcases List.mem_or_eq_of_mem_set hu with hmem | rfl
    · exact hs.sound u hmem
    · exact hsound
  · have hsum := owes_setTask pauses hi task'
    have hsome := hs.le
    omega

theorem finish (hi : s.tasks[i]? = some task) (answer : Answer)
    (hle : n ≤ m + task.owes pauses s.world.moment) : (s.finish i answer).Owes pauses m :=
  hs.setTask hi (Task.sound_finished pauses answer) hle

/-- An answer leaves the time and the settings alone. -/
theorem answered {limit : Option Deadline} {h : Handler} {a : Await} {pause : World.Pause}
    {reply : a.Reply} {w : World} (hanswer : s.world.answerAfter limit h a pause = some (reply, w)) :
    { s with world := w }.Owes pauses n := by
  obtain ⟨-, hsettings, hinstant⟩ := World.keeps_of_answerAfter hanswer
  exact hs.withWorld hinstant.ge (hsettings ▸ hs.settings)

theorem task_le (hi : s.tasks[i]? = some task) : task.owes pauses s.world.moment ≤ n := by
  have hsum := owes_setTask pauses hi ⟨.finished .ok, none, 0⟩
  have hsome := hs.le
  rw [Task.owes_asleep, Body.owes] at hsum
  omega

theorem spawn (afterMs : Nat) {body : Body} (hsound : ∀ wake, body.Sound pauses wake)
    (hle : n + body.owes pauses s.world.moment + 1 ≤ m) : (s.spawn afterMs body).Owes pauses m := by
  refine ⟨hs.settings, fun u hu => ?_, ?_⟩
  · rcases mem_spawn hu with hmem | rfl
    · exact hs.sound u hmem
    · exact ⟨hsound _, nofun⟩
  · have hsome := hs.le
    simp only [Schedule.spawn, owes, List.map_append, List.sum_append, List.map_cons, List.map_nil,
      List.sum_singleton, Task.owes_awake] at hsome ⊢
    omega

theorem wait (hi : s.tasks[i]? = some task) (place : Nat) {body : Body} {pause : World.Pause}
    (hsound : body.Sound pauses (pause.ends? s.world.instant))
    (hrests : pause = .forever → body.Rests)
    (hle : n + body.owes pauses s.world.moment + 1 ≤ m + task.owes pauses s.world.moment) :
    (s.wait i place body pause).Owes pauses m := by
  obtain ⟨places, place', hwait⟩ := s.exists_wait_eq i place body pause
  have hplaced : { s with places := places }.Owes pauses n := ⟨hs.settings, hs.sound, hs.le⟩
  rw [hwait]
  refine hplaced.setTask hi ⟨hsound, fun hends => hrests (World.Pause.eq_forever_of_ends? hends)⟩ ?_
  simp only [Task.owes] at hle ⊢
  split <;> omega

theorem waitErrand (hi : s.tasks[i]? = some task) (place : Nat) (e : Errand)
    (hle : n + 1 ≤ m + task.owes pauses s.world.moment) :
    (s.waitErrand i place e).Owes pauses m :=
  hs.wait hi place trivial (fun hpause => hpause ▸ .errand e) hle

theorem waitStage (hi : s.tasks[i]? = some task) (place : Nat) {plan : Plan} {stage : Stage}
    (h : Handler) (hpauses : plan.inFlight.Pauses) (hpaced : stage.Paced s.world.moment)
    (hle : n + plan.ahead s.world.moment stage + 3 ≤ m + task.owes pauses s.world.moment) :
    (s.waitStage i place plan h stage).Owes pauses m := by
  by_cases hfinished : ∃ result, stage = .finished result
  · obtain ⟨result, rfl⟩ := hfinished
    exact hs.finish hi _ (by omega)
  · rw [waitStage_eq _ _ _ _ _ (not_exists.mp hfinished)]
    have hcounting : (s.counting (plan.await stage)).Owes pauses n :=
      hs.withWorld (Nat.le_refl _) hs.settings
    refine hcounting.wait hi place ⟨hpauses, s.world.moment, hpaced, ?_⟩ ?_ ?_
    · exact fun instant hends => World.takes_pause hends
    · exact fun hpause => hpause ▸ .request plan h stage
    · have hsince := ahead_since plan hpaced
      have hmoment : (s.counting (plan.await stage)).world.moment = s.world.moment := rfl
      simp only [Body.owes, hmoment]
      omega

theorem abandon (plan : Plan) (stage : Stage) : (s.abandon plan stage).Owes pauses (n + 2) := by
  unfold Schedule.abandon
  split
  · exact hs.spawn 0 (fun _ _ => ⟨rfl, id⟩) (Nat.le_refl _)
  · exact hs.mono (Nat.le_add_right n 2)

/-- A request that is dropped owes at least what it leaves behind. -/
theorem finish_abandon {plan : Plan} {h : Handler} {stage : Stage} {pause : World.Pause}
    {wake : Option Nat} {place : Nat}
    (hi : s.tasks[i]? = some ⟨.request plan h stage pause, wake, place⟩) (answer : Answer)
    (hle : n ≤ m + if wake.isSome then 1 else 0) :
    ((s.finish i answer).abandon plan stage).Owes pauses m := by
  have hsome := hs.task_le hi
  simp only [Task.owes, Body.owes] at hsome
  obtain ⟨k, rfl⟩ := Nat.exists_eq_add_of_le' (by omega : 2 ≤ m)
  -- What it leaves behind begins and waits for one answer.
  have hdropped : (s.finish i answer).Owes pauses k :=
    hs.finish hi answer (by simp only [Task.owes, Body.owes]; omega)
  exact hdropped.abandon plan stage

theorem drop (target : Nat) (inside : Bool) : (s.drop target inside).Owes pauses n := by
  unfold Schedule.drop
  split
  · next plan h stage pause wake place htask =>
    split
    · exact hs.finish_abandon htask _ (Nat.le_add_right n _)
    · exact hs.finish htask _ (Nat.le_add_right n _)
  · exact hs

end Owes

/-! ## Steps of a schedule -/

/-- A task that goes on takes one of the steps that are owed. -/
theorem Owes.wakeTask (hs : s.Owes pauses (n + 1)) (hi : s.tasks[i]? = some task) {instant : Nat}
    (hwake : task.wake = some instant) (hlate : instant ≤ s.world.instant) :
    (s.wakeTask i task).Owes pauses n := by
  have hsound := (hs.sound task (List.mem_of_getElem? hi)).body
  obtain ⟨body, wake, place⟩ := task
  cases hwake
  have howes := Task.owes_awake pauses s.world.moment body place instant
  have hover : ∀ answer, (s.finish i answer).Owes pauses n := fun answer =>
    hs.finish hi answer (by omega)
  cases body with
  | start begin =>
      obtain ⟨hinstant, hsettings⟩ := hsound s.world
      have hbegun : { s with world := (begin s.world).2 }.Owes pauses (n + 1) :=
        hs.withWorld hinstant.ge (hsettings hs.settings)
      simp only [Schedule.wakeTask]
      cases (begin s.world).1 with
      | inl answer => exact hbegun.finish hi answer (Nat.le_succ (n + 1))
      | inr e => exact hbegun.waitErrand hi place e (Nat.le_refl _)
  | errand e pause =>
      simp only [Schedule.wakeTask]
      split
      · next reply w hanswer => exact (hs.answered hanswer).finish hi _ (Nat.le_refl _)
      · exact hover _
  | arrival request h =>
      simp only [Schedule.wakeTask]
      split
      · exact hover _
      · generalize hplan : s.world.layer.plan s.world.settings.get request = plan
        have hpauses : plan.inFlight.Pauses := hplan ▸ hs.settings.pausing
        have hle : plan.inFlight.pauses ≤ pauses := hplan ▸ hs.settings.pauses_le
        have hrun : plan.Run ⟨plan, []⟩ s.world.moment (plan.start s.world.moment) := .start _
        have hahead := hrun.length_add_ahead_le hpauses
        refine hs.waitStage hi place h hpauses (hrun.paced hpauses) ?_
        rw [howes, Body.owes]
        simp only [List.length_nil] at hahead
        omega
  | request plan h stage pause =>
      obtain ⟨hpauses, t, hpaced, htakes⟩ := hsound
      simp only [Schedule.wakeTask]
      split
      · next reply w hanswer =>
        obtain ⟨-, -, hinstant⟩ := World.keeps_of_answerAfter hanswer
        have hthen : instant * 1000000 ≤ w.moment.instant :=
          Nat.mul_le_mul_right 1000000 (hlate.trans hinstant.ge)
        have hless := ahead_resume_lt (hpaced.since w.moment) reply
          (takes_since hpaced (htakes instant rfl) hthen)
        have hstage : (plan.resume w.moment stage reply).Paced w.moment :=
          paced_resume hpauses hpaced reply
        refine (hs.answered hanswer).waitStage hi place h hpauses hstage ?_
        simp only [Task.owes_awake, Body.owes]
        omega
      · split
        · exact hs.finish_abandon hi _ (Nat.le_refl _)
        · exact hover _
  | drop target inside => exact (hover .ok).drop target inside
  | finished answer => exact hover answer

theorem exists_of_next? {instant : Nat} (h : s.next? = some (i, instant)) :
    ∃ task, s.tasks[i]? = some task ∧ task.wake = some instant := by
  obtain ⟨⟨instant', place, i'⟩, hhead, hsame⟩ := Option.map_eq_some_iff.mp h
  cases hsame
  have hmem := List.mem_mergeSort.mp (List.mem_of_head? hhead)
  obtain ⟨⟨task, k⟩, htask, hwaking⟩ := List.mem_filterMap.mp hmem
  obtain ⟨_, hwake, hsame⟩ := Option.map_eq_some_iff.mp hwaking
  cases hsame
  exact ⟨task, List.mk_mem_zipIdx_iff_getElem?.mp htask, hwake⟩

/-- At rest no task would go on. -/
theorem wake_eq_none_of_step? (hrest : s.step? = none) (htask : task ∈ s.tasks) :
    task.wake = none := by
  cases hwake : task.wake with
  | none => rfl
  | some instant =>
      obtain ⟨i, hi⟩ := List.mem_iff_getElem?.mp htask
      have hmem : (instant, task.place, i) ∈ s.waking :=
        List.mem_mergeSort.mpr (List.mem_filterMap.mpr
          ⟨(task, i), List.mk_mem_zipIdx_iff_getElem?.mpr hi, by simp only [hwake, Option.map_some]⟩)
      obtain ⟨first, hfirst⟩ := Option.ne_none_iff_exists'.mp
        (mt List.head?_eq_none_iff.mp (List.ne_nil_of_mem hmem))
      have hnext : s.next? = some (first.2.2, first.1) := by
        rw [next?, hfirst]
        rfl
      obtain ⟨task', hi', -⟩ := exists_of_next? hnext
      simp [step?, hnext, hi'] at hrest

theorem exists_of_step? {s' : Schedule} (h : s.step? = some s') :
    ∃ i task instant, s.tasks[i]? = some task ∧ task.wake = some instant ∧
      s' = { s with world := { s.world with
        instant := max s.world.instant instant } }.wakeTask i task := by
  obtain ⟨⟨i, instant⟩, hnext, hgoes⟩ := Option.bind_eq_some_iff.mp h
  obtain ⟨task, hi, hwake⟩ := exists_of_next? hnext
  simp only [hi, Option.map_some, Option.some.injEq] at hgoes
  exact ⟨i, task, instant, hi, hwake, hgoes.symm⟩

/-- A step is one of those that are owed. -/
theorem Owes.of_step? (hs : s.Owes pauses n) {s' : Schedule} (hstep : s.step? = some s') :
    ∃ m, n = m + 1 ∧ s'.Owes pauses m := by
  obtain ⟨i, task, instant, hi, hwake, rfl⟩ := exists_of_step? hstep
  have howed : 1 ≤ task.owes pauses s.world.moment := by
    obtain ⟨body, wake, place⟩ := task
    cases hwake
    rw [Task.owes_awake]
    exact Nat.le_add_left 1 _
  obtain ⟨m, rfl⟩ := Nat.exists_eq_add_of_le' (howed.trans (hs.task_le hi))
  have hlater : { s with world := { s.world with instant := max s.world.instant instant } }.Owes pauses
      (m + 1) := hs.withWorld (Nat.le_max_left _ _) hs.settings
  exact ⟨m, rfl, hlater.wakeTask hi hwake (Nat.le_max_right _ _)⟩

theorem Owes.rests_of_step? (hs : s.Owes pauses n) (hrest : s.step? = none) :
    ∀ task ∈ s.tasks, task.body.Rests :=
  fun task htask => (hs.sound task htask).rests (wake_eq_none_of_step? hrest htask)

/-- As many steps as are owed are enough. -/
theorem Owes.rests_steps (hs : s.Owes pauses n) : ∀ task ∈ (s.steps n).tasks, task.body.Rests := by
  induction n generalizing s with
  | zero =>
      cases hstep : s.step? with
      | none => exact hs.rests_of_step? hstep
      | some s' =>
          obtain ⟨m, hm, -⟩ := hs.of_step? hstep
          omega
  | succ n ih =>
      simp only [steps]
      cases hstep : s.step? with
      | none => exact hs.rests_of_step? hstep
      | some s' =>
          obtain ⟨m, hm, hs'⟩ := hs.of_step? hstep
          obtain rfl : n = m := by omega
          exact ih hs'

end Schedule

/-! ## Actions -/

/-- What has not begun, and if it is a step, makes no longer waits than so many polls. -/
def Body.Fresh (polls : Nat) : Body → Prop
  | start begin => ∃ step : Step, begin = (·.begin step) ∧ step.polls ≤ polls ∧
      step.Keeps Settings.Pauses
  | arrival .. | drop .. => True
  | _ => False

structure Task.Fresh (polls : Nat) (task : Task) : Prop where
  body : task.body.Fresh polls
  wakes : task.wake ≠ none

theorem Body.Fresh.sound {body : Body} {polls pauses : Nat} (h : body.Fresh polls)
    (hle : polls ≤ pauses) (wake : Option Nat) : body.Sound pauses wake := by
  cases body with
  | start begin =>
      obtain ⟨step, rfl, hpolls, hkeeps⟩ := h
      exact fun w => ⟨World.instant_begin step, World.settings_begin (hkeeps.waits (hpolls.trans hle))⟩
  | arrival | drop => trivial
  | _ => exact h.elim

theorem Task.Fresh.owes_le {task : Task} {polls : Nat} (h : task.Fresh polls) (pauses : Nat)
    (t : Moment) : task.owes pauses t ≤ 14 + 2 * pauses := by
  have hbody := h.body
  obtain ⟨body, wake, place⟩ := task
  cases body with
  | start | arrival | drop =>
      simp only [Task.owes, Body.owes]
      split <;> omega
  | _ => exact hbody.elim

/-- A schedule for a world in which nothing has happened yet. -/
structure Schedule.Fresh (w : World) (s : Schedule) : Prop where
  world : s.world = w
  tasks : ∀ task ∈ s.tasks, task.Fresh s.polls

namespace Schedule.Fresh

variable {w : World} {s : Schedule} (hs : s.Fresh w)

include hs

theorem spawn (afterMs : Nat) {body : Body} (hbody : body.Fresh s.polls) :
    (s.spawn afterMs body).Fresh w := by
  refine ⟨hs.world, fun task htask => ?_⟩
  rcases mem_spawn htask with hmem | rfl
  · exact hs.tasks task hmem
  · exact ⟨hbody, nofun⟩

theorem mono {polls : Nat} (hle : s.polls ≤ polls) : { s with polls := polls }.Fresh w := by
  refine ⟨hs.world, fun task htask => ?_⟩
  obtain ⟨hbody, hwakes⟩ := hs.tasks task htask
  obtain ⟨body, wake, place⟩ := task
  refine ⟨?_, hwakes⟩
  cases body with
  | start begin =>
      obtain ⟨step, hbegin, hpolls, hkeeps⟩ := hbody
      exact ⟨step, hbegin, hpolls.trans hle, hkeeps⟩
  | _ => exact hbody

theorem spawnStep (afterMs : Nat) {step : Step}
    (hstep : step.Keeps Settings.Pauses) : (s.spawnStep afterMs step).Fresh w :=
  (hs.mono (Nat.le_max_left s.polls step.polls)).spawn afterMs
    ⟨step, rfl, Nat.le_max_right s.polls step.polls, hstep⟩

theorem spawnJob {job : Job}
    (hsteps : ∀ step ∈ job.steps, step.Keeps Settings.Pauses) :
    (job.spawn s).Fresh w :=
  List.foldlRecOn _ _ (hs.spawn 0 trivial) fun _ hs (afterMs, _) hmem =>
    hs.spawnStep afterMs (hsteps _ (List.mem_map_of_mem hmem))

/-- Before anything has happened no task owes more than a request does. -/
theorem owes (hpauses : w.settings.get.Pauses) :
    s.Owes (max s.polls s.world.settings.get.polls)
      (s.tasks.length * (14 + 2 * max s.polls s.world.settings.get.polls)) := by
  obtain ⟨rfl, htasks⟩ := hs
  refine ⟨⟨hpauses, ?_⟩, fun task htask => ?_, ?_⟩
  · exact (Settings.pauses_le_polls hpauses).trans (Nat.le_max_right _ _)
  · have hfresh := htasks task htask
    exact ⟨hfresh.body.sound (Nat.le_max_left _ _) _, fun hrests => absurd hrests hfresh.wakes⟩
  · rw [Schedule.owes, ← List.length_map (Task.owes _ s.world.moment)]
    refine List.sum_le_card_nsmul _ _ fun owed hmem => ?_
    obtain ⟨task, htask, rfl⟩ := List.mem_map.mp hmem
    exact (htasks task htask).owes_le _ _

end Schedule.Fresh

namespace Action

variable {w : World} {action : Action}

theorem fresh_spawn
    (hsteps : ∀ step ∈ action.steps, step.Keeps Settings.Pauses) :
    (action.spawn w).Fresh w := by
  have hidle : ({ world := w } : Schedule).Fresh w := ⟨rfl, by simp⟩
  cases action with
  | step only => exact hidle.spawnStep 0 (hsteps only List.mem_cons_self)
  | request job => exact hidle.spawnJob hsteps
  | concurrent jobs =>
      exact List.foldlRecOn _ _ hidle fun _ hs _ hmem =>
        hs.spawnJob fun step hstep => hsteps step (List.mem_flatMap_of_mem hmem hstep)
  | abandon job afterMs inside => exact (hidle.spawnJob hsteps).spawn afterMs trivial

/-- When an action has been run, each of its tasks is over or waits for something that never comes, if
waits pause under the settings in force and under those that its steps set. -/
theorem rests_of_run (hpauses : w.settings.get.Pauses)
    (hsteps : ∀ step ∈ action.steps, step.Keeps Settings.Pauses) :
    ∀ task ∈ (action.spawn w).run.tasks, task.body.Rests := by
  have howes := (fresh_spawn hsteps).owes hpauses
  refine (howes.mono (Nat.mul_le_mul ?_ ?_)).rests_steps
  · omega
  · rw [Schedule.stepBound]
    omega

end Action

end Admission
