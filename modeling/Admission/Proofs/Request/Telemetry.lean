import Admission.Proofs.Request.Outline
import Admission.Session.World
import Mathlib.Logic.Function.Iterate

/-! # What a request notices of its sink

A request waits until its sink has said whether it is ready, and for nothing else of it. Beside a sink
that always says so it goes its way as beside one that forgets every event. If a sink does not, the
request stays where it is, although it could do without. -/

namespace Admission

variable {σ : Type}

/-! ## Sinks that are told many events -/

namespace Sink

variable {c : Conduct σ} {s : Sink σ} {event : Event} {events : List Event}

/-- The sink after an event, unless it never says whether it is ready. -/
def hear? (c : Conduct σ) (event : Event) (s : Sink σ) : Option (Sink σ) :=
  match s.deliver c event with
  | (.stuck, _) => none
  | (_, s) => some s

/-- The sink after events that it is told one after another. -/
def hearAll? (c : Conduct σ) (events : List Event) (s : Sink σ) : Option (Sink σ) :=
  events.foldlM (fun s event => s.hear? c event) s

/-- The sink hears whatever it is told. -/
def Attentive (c : Conduct σ) (s : Sink σ) : Prop := ∀ events, (s.hearAll? c events).isSome

@[simp] theorem hearAll?_nil : s.hearAll? c [] = some s := rfl

@[simp] theorem hearAll?_cons :
    s.hearAll? c (event :: events) = (s.hear? c event).bind (·.hearAll? c events) := rfl

theorem hearAll?_append (events events' : List Event) :
    s.hearAll? c (events ++ events') = (s.hearAll? c events).bind (·.hearAll? c events') := by
  simp [hearAll?]

/-- A sink that is not ready does not get the event, and one that fails to take it is done with it. -/
theorem hear?_eq : s.hear? c event =
    match s.poll c with
    | (.pending, _) => none
    | (.failed _, s) => some s
    | (.ready, s) => some (s.take c event).2 := by
  unfold hear? deliver
  rcases s.poll c with ⟨_ | _ | _, s'⟩
  · simp only
    rcases s'.take c event with ⟨_ | _, _⟩ <;> rfl
  · rfl
  · rfl

theorem isSome_hear?_iff : (s.hear? c event).isSome ↔ (s.poll c).1 ≠ .pending := by
  rw [hear?_eq]
  rcases s.poll c with ⟨_ | _ | _, s'⟩ <;> simp

/-- Sinks of a kind are attentive if their polls are answered and hearing leaves them of that kind. -/
theorem attentive_of_closed (P : Sink σ → Prop) (hpoll : ∀ s, P s → (s.poll c).1 ≠ .pending)
    (hkeep : ∀ s s' event, P s → s.hear? c event = some s' → P s') (hs : P s) : s.Attentive c := by
  intro events
  induction events generalizing s with
  | nil => rfl
  | cons event events ih =>
      obtain ⟨s', hs'⟩ := Option.isSome_iff_exists.mp (isSome_hear?_iff.mpr (hpoll s hs))
      rw [hearAll?_cons, hs']
      exact ih (hkeep s s' event hs hs')

/-- A sink is attentive if all of its leaves answer their polls. -/
theorem attentive_of_poll (hpoll : ∀ state, (c.poll state).1 ≠ .pending) (s : Sink σ) :
    s.Attentive c := by
  refine attentive_of_closed (fun _ => True) (fun s _ => ?_) (fun _ _ _ _ _ => trivial) trivial
  cases s with
  | leaf state => exact hpoll state
  | both a b => exact nofun

/-- So is a pair, whatever its members do. -/
theorem attentive_both (a b : Sink σ) : (both a b).Attentive c := by
  refine attentive_of_closed (fun s => ∃ a b, s = both a b) ?_ ?_ ⟨a, b, rfl⟩
  · rintro _ ⟨a, b, rfl⟩
    exact nofun
  · rintro _ _ event ⟨a, b, rfl⟩ hs'
    rw [hear?_eq] at hs'
    cases hs'
    exact ⟨_, _, rfl⟩

theorem hearAll?_null : hearAll? Leaf.conduct events (.leaf .null) = some (.leaf .null) := by
  induction events with
  | nil => rfl
  | cons event events ih => exact ih

end Sink

/-! ## Requests and what answers them -/

/-- What answers a request beside its sink, with the moment of the answer. It knows what has happened so
far, and an answer may never come. -/
abbrev Env := History → (a : Await) → Option (Moment × a.Reply)

/-- The event that a request tells at a stage. -/
def Stage.event? : Stage → Option Event
  | .telling event _ _ => some event
  | _ => none

theorem Plan.event?_await (plan : Plan) (t : Moment) (stage : Stage)
    (reply : (plan.await stage).Reply) :
    Exchange.event? ⟨t, plan.await stage, reply⟩ = stage.event? := by
  cases stage <;> rfl

/-- How far a request has come, and the sink that it tells its events. -/
structure Progress (σ : Type) where
  history : History
  stage : Stage
  sink : Sink σ

namespace Progress

def start (plan : Plan) (t : Moment) (sink : Sink σ) : Progress σ := ⟨⟨plan, []⟩, plan.start t, sink⟩

def await (p : Progress σ) : Await := p.history.plan.await p.stage

/-- An answer takes a request on. -/
def turn (p : Progress σ) (sink : Sink σ) (t : Moment) (reply : p.await.Reply) : Progress σ where
  history := p.history.add ⟨t, p.await, reply⟩
  stage := p.history.plan.resume t p.stage reply
  sink := sink

/-- The next answer, once the sink has heard the event that is due. -/
def next? (env : Env) (c : Conduct σ) (p : Progress σ) : Option (Progress σ) :=
  (p.sink.hearAll? c p.stage.event?.toList).bind fun sink =>
    (env p.history p.await).map fun (t, reply) => p.turn sink t reply

/-- Goes on if there is an answer. -/
def go (env : Env) (c : Conduct σ) (p : Progress σ) : Progress σ := (p.next? env c).getD p

def run (env : Env) (c : Conduct σ) (n : Nat) (p : Progress σ) : Progress σ := (go env c)^[n] p

/-- The same with another sink. -/
def withSink {τ : Type} (p : Progress σ) (sink : Sink τ) : Progress τ := ⟨p.history, p.stage, sink⟩

/-- A request beside a sink that forgets every event. -/
def quiet (env : Env) (plan : Plan) (t : Moment) (n : Nat) : Progress Leaf :=
  (start plan t (.leaf .null)).run env Leaf.conduct n

variable {env : Env} {c : Conduct σ} {p p' : Progress σ}

theorem events_next (h : p.next? env c = some p') :
    p'.history.events = p.history.events ++ p.stage.event?.toList := by
  obtain ⟨sink, -, hnext⟩ := Option.bind_eq_some_iff.mp h
  obtain ⟨⟨t, reply⟩, -, rfl⟩ := Option.map_eq_some_iff.mp hnext
  have hevent : Exchange.event? ⟨t, p.await, reply⟩ = p.stage.event? := p.history.plan.event?_await ..
  simp only [turn, History.events, History.add, List.filterMap_append, List.filterMap_cons,
    List.filterMap_nil, hevent]
  cases p.stage.event? <;> rfl

theorem sink_next (h : p.next? env c = some p') :
    p.sink.hearAll? c p.stage.event?.toList = some p'.sink := by
  obtain ⟨sink, hsink, hnext⟩ := Option.bind_eq_some_iff.mp h
  obtain ⟨⟨t, reply⟩, -, rfl⟩ := Option.map_eq_some_iff.mp hnext
  exact hsink

/-- Once its sink has heard the event, a request goes on as beside one that forgets it. -/
theorem next?_withSink {q : Progress Leaf} (hq : q.sink = .leaf .null) (sink : Sink σ) :
    (q.withSink sink).next? env c = (sink.hearAll? c q.stage.event?.toList).bind fun sink =>
      (q.next? env Leaf.conduct).map (·.withSink sink) := by
  have hquiet : q.next? env Leaf.conduct =
      (env q.history q.await).map fun (t, reply) => q.turn (.leaf .null) t reply := by
    rw [next?, hq, Sink.hearAll?_null, Option.bind_some]
  simp only [hquiet, Option.map_map]
  rfl

/-! ### Runs -/

theorem run_succ (n : Nat) : p.run env c (n + 1) = (p.run env c n).go env c :=
  Function.iterate_succ_apply' ..

theorem go_of_next? (h : p.next? env c = some p') : p.go env c = p' := by simp [go, h]

theorem go_of_none (h : p.next? env c = none) : p.go env c = p := by simp [go, h]

variable {plan : Plan} {t : Moment} {sink : Sink σ} {n : Nat}

theorem quiet_succ (n : Nat) : quiet env plan t (n + 1) = (quiet env plan t n).go env Leaf.conduct :=
  run_succ n

theorem sink_quiet (n : Nat) : (quiet env plan t n).sink = .leaf .null := by
  induction n with
  | zero => rfl
  | succ n ih =>
      rw [quiet_succ]
      cases hnext : (quiet env plan t n).next? env Leaf.conduct with
      | none => rwa [go_of_none hnext]
      | some p =>
          have hsink := sink_next hnext
          rw [ih, Sink.hearAll?_null] at hsink
          rw [go_of_next? hnext, ← Option.some.inj hsink]

/-- A request gets beside a sink where it gets beside one that forgets every event, if the sink hears
what it has told on the way. -/
theorem run_of_hearAll? {s' : Sink σ}
    (h : sink.hearAll? c (quiet env plan t n).history.events = some s') :
    (start plan t sink).run env c n = (quiet env plan t n).withSink s' := by
  induction n generalizing s' with
  | zero =>
      cases h
      rfl
  | succ n ih =>
      rw [quiet_succ] at h ⊢
      cases hnext : (quiet env plan t n).next? env Leaf.conduct with
      | none =>
          rw [go_of_none hnext] at h ⊢
          rw [run_succ, ih h, go_of_none]
          simp [next?_withSink (sink_quiet n), hnext]
      | some p =>
          rw [go_of_next? hnext] at h ⊢
          rw [events_next hnext, Sink.hearAll?_append] at h
          obtain ⟨s, hs, hs'⟩ := Option.bind_eq_some_iff.mp h
          rw [run_succ, ih hs, go_of_next?]
          simp [next?_withSink (sink_quiet n), hnext, hs']

/-- Whatever its sink does, a request only gets where it gets beside one that forgets every event, and
the sink has heard all that it has told. -/
theorem exists_quiet_of_run (env : Env) (c : Conduct σ) (plan : Plan) (t : Moment) (sink : Sink σ)
    (n : Nat) : ∃ m ≤ n,
    (start plan t sink).run env c n =
        (quiet env plan t m).withSink ((start plan t sink).run env c n).sink ∧
      sink.hearAll? c (quiet env plan t m).history.events =
        some ((start plan t sink).run env c n).sink := by
  induction n with
  | zero => exact ⟨0, Nat.le_refl 0, rfl, rfl⟩
  | succ n ih =>
      obtain ⟨m, hm, hrun, hheard⟩ := ih
      rw [run_succ]
      cases hnext : ((start plan t sink).run env c n).next? env c with
      | none =>
          rw [go_of_none hnext]
          exact ⟨m, by omega, hrun, hheard⟩
      | some p =>
          have hsink := sink_next hnext
          rw [go_of_next? hnext]
          rw [hrun, next?_withSink (sink_quiet m)] at hnext
          obtain ⟨s, hs, hquiet⟩ := Option.bind_eq_some_iff.mp hnext
          obtain ⟨q, hq, rfl⟩ := Option.map_eq_some_iff.mp hquiet
          have hgo : quiet env plan t (m + 1) = q := (quiet_succ m).trans (go_of_next? hq)
          refine ⟨m + 1, by omega, by rw [hgo]; rfl, ?_⟩
          rw [hgo, events_next hq, Sink.hearAll?_append, hheard]
          exact hs

/-! ### Requests that are over -/

theorem next?_of_finished {result : Except String Response} (h : p.stage = .finished result) :
    p.next? env c = none := by
  have hsilent : p.await = .nothing := by rw [await, h, Plan.await]
  have hnever : env p.history p.await = none := by
    rw [hsilent]
    exact Option.eq_none_iff_forall_ne_some.mpr fun answer _ => answer.2.elim
  simp [next?, hnever]

theorem run_of_finished {result : Except String Response} (h : p.stage = .finished result) (n : Nat) :
    p.run env c n = p :=
  Function.iterate_fixed (go_of_none (next?_of_finished h)) n

theorem quiet_of_finished {m n : Nat} {result : Except String Response}
    (h : (quiet env plan t m).stage = .finished result) (hle : m ≤ n) :
    quiet env plan t n = quiet env plan t m := by
  obtain ⟨k, rfl⟩ := Nat.exists_eq_add_of_le' hle
  exact (Function.iterate_add_apply (go env Leaf.conduct) k m _).trans (run_of_finished h k)

theorem quiet_eq_of_finished {m n : Nat} {result result' : Except String Response}
    (hm : (quiet env plan t m).stage = .finished result)
    (hn : (quiet env plan t n).stage = .finished result') :
    quiet env plan t m = quiet env plan t n := by
  rcases Nat.le_total m n with hle | hle
  · exact (quiet_of_finished hm hle).symm
  · exact quiet_of_finished hn hle

/-- A request that is over beside a sink that forgets every event is over beside another one just if
that one hears all that is told, and then it has come to the same in the same way. -/
theorem finishes_iff_hears {result : Except String Response}
    (hquiet : (quiet env plan t n).stage = .finished result) :
    ((∃ m result', ((start plan t sink).run env c m).stage = .finished result') ↔
        (sink.hearAll? c (quiet env plan t n).history.events).isSome) ∧
      ∀ m result', ((start plan t sink).run env c m).stage = .finished result' →
        result' = result ∧
          ((start plan t sink).run env c m).history = (quiet env plan t n).history := by
  have hsame : ∀ m result', ((start plan t sink).run env c m).stage = .finished result' →
      ∃ s, (start plan t sink).run env c m = (quiet env plan t n).withSink s ∧
        sink.hearAll? c (quiet env plan t n).history.events = some s := by
    intro m result' hm
    obtain ⟨k, -, hrun, hheard⟩ := exists_quiet_of_run env c plan t sink m
    have hk : (quiet env plan t k).stage = .finished result' := by
      rw [hrun] at hm
      exact hm
    rw [quiet_eq_of_finished hk hquiet] at hrun hheard
    exact ⟨_, hrun, hheard⟩
  refine ⟨⟨?_, ?_⟩, ?_⟩
  · rintro ⟨m, result', hm⟩
    obtain ⟨s, -, hheard⟩ := hsame m result' hm
    exact Option.isSome_iff_exists.mpr ⟨s, hheard⟩
  · intro hhears
    obtain ⟨s, hs⟩ := Option.isSome_iff_exists.mp hhears
    exact ⟨n, result, by rw [run_of_hearAll? hs]; exact hquiet⟩
  · intro m result' hm
    obtain ⟨s, hrun, -⟩ := hsame m result' hm
    rw [hrun] at hm ⊢
    exact ⟨Stage.finished.inj (hm.symm.trans hquiet), rfl⟩

/-- An attentive sink changes nothing at all about a request. -/
theorem unnoticed_of_attentive (hsink : sink.Attentive c) (n : Nat) :
    ((start plan t sink).run env c n).history = (quiet env plan t n).history ∧
      ((start plan t sink).run env c n).stage = (quiet env plan t n).stage := by
  obtain ⟨s, hs⟩ := Option.isSome_iff_exists.mp (hsink (quiet env plan t n).history.events)
  rw [run_of_hearAll? hs]
  exact ⟨rfl, rfl⟩

/-- Stores that work, a handler that responds and a timer, all of them at once. -/
def promptEnv : Env := fun _ a =>
  match a with
  | .bucket (.refill ..) => some (⟨0, 0⟩, .ok ⟨30, 0⟩)
  | .bucket (.deduct ..) => some (⟨0, 0⟩, .ok 29)
  | .bucket (.reset ..) => none
  | .record (.claim ..) => some (⟨0, 0⟩, .ok none)
  | .record (.complete ..) => some (⟨0, 0⟩, .ok ())
  | .record (.fetch ..) => some (⟨0, 0⟩, .ok none)
  | .record (.release ..) => some (⟨0, 0⟩, .ok true)
  | .tell _ => some (⟨0, 0⟩, ())
  | .handler => some (⟨0, 0⟩, .ok ⟨200, .empty, []⟩)
  | .sleep .. => some (⟨0, 0⟩, ())
  | .nothing => none

/-- Beside a sink that never says whether it is ready, a request that would be over by now is not over
at any time, and its handler is not called. -/
theorem unfinished_of_silent :
    (∃ result, (quiet promptEnv keyedPlan ⟨0, 0⟩ 8).stage = .finished result) ∧
      (quiet promptEnv keyedPlan ⟨0, 0⟩ 8).history.calls = 1 ∧
      ∀ n, (∀ result, ((start keyedPlan ⟨0, 0⟩ (.leaf .silent)).run promptEnv Leaf.conduct n).stage ≠
          .finished result) ∧
        ((start keyedPlan ⟨0, 0⟩ (.leaf .silent)).run promptEnv Leaf.conduct n).history.calls = 0 := by
  refine ⟨⟨_, rfl⟩, rfl, fun n => ?_⟩
  cases n with
  | zero => exact ⟨nofun, rfl⟩
  | succ n =>
      -- The check has been answered and its report is never over.
      have hstuck : (start keyedPlan ⟨0, 0⟩ (.leaf .silent)).run promptEnv Leaf.conduct (n + 1) =
          (start keyedPlan ⟨0, 0⟩ (.leaf .silent)).run promptEnv Leaf.conduct 1 :=
        Function.iterate_fixed (f := go promptEnv Leaf.conduct) rfl n
      rw [hstuck]
      exact ⟨nofun, rfl⟩

end Progress

/-- So is the sink of a session heard. -/
theorem World.answer_tell (w : World) (h : Handler) (late : Bool) (event : Event) :
    w.answer h late (.tell event) =
      (w.sink.hear? Leaf.conduct event).map fun sink => ((), { w with sink := sink }) := by
  simp only [answer, Sink.hear?]
  split <;> simp_all

end Admission
