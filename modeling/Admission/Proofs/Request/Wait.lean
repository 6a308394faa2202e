import Mathlib.Data.Rat.Floor
import Mathlib.Tactic.Linarith
import Mathlib.Tactic.Positivity
import Admission.Proofs.Request.FailOpen

/-! # Waiting for the response of another request

A request that finds its key in flight looks at the record time and again. It pauses before each
look, so it does not look often, and its last pause ends with its wait, so it misses no response
that is there by then. It gives up early if it finds no record at all. -/

namespace Admission

/-! ## How many looks fit into a wait -/

theorem pausesWithin_le_iff {interval left k : Nat} (hinterval : 0 < interval) :
    pausesWithin interval left ≤ k ↔ 5 * left ≤ 4 * interval * k := by
  have hpos : 0 < 4 * interval := by omega
  have hsucc : (k + 1) * (4 * interval) = 4 * interval * k + 4 * interval := by
    rw [Nat.add_one_mul, Nat.mul_comm]
  rw [pausesWithin, ← Nat.lt_add_one_iff, Nat.div_lt_iff_lt_mul hpos, hsucc]
  omega

/-- The shortest pause takes four fifths of the interval. -/
theorem pausesWithin_eq_ceil {interval left : Nat} (hinterval : 0 < interval) :
    pausesWithin interval left = ⌈(left : ℚ) / (4 / 5 * interval)⌉₊ := by
  have hpos : (0 : ℚ) < 4 / 5 * interval := by positivity
  refine eq_of_forall_ge_iff fun k => ?_
  have hcast : 5 * left ≤ 4 * interval * k ↔
      ((5 * left : ℕ) : ℚ) ≤ ((4 * interval * k : ℕ) : ℚ) := Nat.cast_le.symm
  rw [pausesWithin_le_iff hinterval, Nat.ceil_le, div_le_iff₀ hpos, hcast]
  push_cast
  constructor <;> intro h <;> linarith

/-- How many looks a wait leaves time for if each pause before one is as short as can be. -/
def mostLooks (maxWait interval : UInt64) : Nat :=
  ⌈(maxWait.toNat : ℚ) / (4 / 5 * interval.toNat)⌉₊

/-- It does not matter in which unit the times are counted. -/
theorem pausesWithin_scale {interval left c : Nat} (hinterval : 0 < interval) (hc : 0 < c) :
    pausesWithin (interval * c) (left * c) = pausesWithin interval left := by
  refine eq_of_forall_ge_iff fun k => ?_
  rw [pausesWithin_le_iff (Nat.mul_pos hinterval hc), pausesWithin_le_iff hinterval,
    ← Nat.mul_assoc, ← Nat.mul_assoc, Nat.mul_right_comm _ c k, Nat.mul_le_mul_right_iff hc]

theorem pauses_wait {maxWait interval : UInt64} (hinterval : 0 < interval.toNat) :
    (InFlight.wait maxWait interval).pauses = mostLooks maxWait interval := by
  rw [mostLooks, ← pausesWithin_eq_ceil hinterval]
  exact pausesWithin_scale hinterval (by decide)

/-! ## Waits -/

/-- Whether a request waits for the response of another one. -/
def Stage.IsWaiting : Stage → Prop
  | .pausing .. => True
  | .fetching .. => True
  | _ => False

namespace Plan

/-- Where a request goes with what its wait has come to: to the recorded response, to the answer
that its key is in flight or, without records, to the handler. -/
def awaited (verdict : Verdict) : Except StoreError (Option Record) → Stage
  | .ok (some record) => replay verdict record
  | .ok none => conflict verdict
  | .error e => degraded verdict e

/-- A wait from the claim on that has found a record in flight: the answers that it has been given,
each of which may come when it does, the moment of the last one and the stage it has led to. -/
inductive Wait (plan : Plan) (MayCome : Moment → Exchange → Prop) (verdict : Verdict) (key : String)
    (start : Moment) : List Exchange → Moment → Stage → Prop
  | found {record : Record} (processing : record.isProcessing = true) :
      Wait plan MayCome verdict key start [] start
        (plan.claimed verdict key start (.alreadyClaimed record))
  | answer {past : List Exchange} {t : Moment} {stage : Stage}
      (wait : Wait plan MayCome verdict key start past t stage) (waiting : stage.IsWaiting)
      (t' : Moment) (reply : (plan.await stage).Reply)
      (comes : MayCome t ⟨t', plan.await stage, reply⟩) :
      Wait plan MayCome verdict key start (past ++ [⟨t', plan.await stage, reply⟩]) t'
        (plan.resume t' stage reply)

theorem Wait.mono {plan : Plan} {MayCome MayCome' : Moment → Exchange → Prop} {verdict : Verdict}
    {key : String} {start t : Moment} {past : List Exchange} {stage : Stage}
    (wait : plan.Wait MayCome verdict key start past t stage)
    (h : ∀ t x, MayCome t x → MayCome' t x) :
    plan.Wait MayCome' verdict key start past t stage := by
  induction wait with
  | found processing => exact .found processing
  | answer wait waiting t' reply comes ih => exact ih.answer waiting t' reply (h _ _ comes)

end Plan

namespace Exchange

/-- Whether an answer may come after a moment: pauses take their lengths, and looks any time. -/
def Timely (t : Moment) (x : Exchange) : Prop := x.await.Takes t x.time

/-- Whether an answer may come after a moment if pauses end on time and looks are answered at once,
each with the record that is there at that instant. -/
def Prompt (records : Nat → Option Record) (t : Moment) : Exchange → Prop
  | ⟨t', .sleep interval left, _⟩ =>
    ∃ length, Await.PauseLength interval left length ∧ t'.instant = t.instant + length.nanos
  | ⟨t', .record (.fetch _ _), reply⟩ =>
    t'.instant = t.instant ∧ reply = .ok (records t.instant)
  | _ => False

theorem Prompt.timely {records : Nat → Option Record} {t : Moment} {x : Exchange}
    (h : x.Prompt records t) : x.Timely t := by
  obtain ⟨t', a, reply⟩ := x
  cases a with
  | sleep interval left =>
      obtain ⟨length, hlength, htime⟩ := h
      refine ⟨by simp [htime], ?_⟩
      rintro _ _ ⟨⟩
      exact ⟨length, hlength, by simp [htime]⟩
  | record call =>
      cases call with
      | fetch key now => exact Await.takes_of_le (Nat.le_of_eq h.1.symm) nofun
      | _ => exact h.elim
  | _ => exact h.elim

end Exchange

/-- How many looks at the record have been answered. -/
def looks (past : List Exchange) : Nat := past.countP fun x => x.fetched?.isSome

theorem looks_append_singleton (past : List Exchange) (x : Exchange) :
    looks (past ++ [x]) = looks past + if x.fetched?.isSome then 1 else 0 := by
  simp [looks, List.countP_singleton]

/-! ## What a look leads to -/

/-- A wait goes on after a look that has found the record still in flight, as long as it is not
over. Any other answer is what the wait has come to. -/
inductive Poll.Next (verdict : Verdict) (key : String) (poll : Poll) (t : Moment) :
    Except StoreError (Option Record) → Stage → Prop
  | again {record : Record} (processing : record.isProcessing = true)
      (early : t.instant < poll.endsAt) :
      Next verdict key poll t (.ok (some record))
        (.pausing verdict key poll ⟨poll.endsAt - t.instant⟩)
  | late {record : Record} (processing : record.isProcessing = true)
      (late : poll.endsAt ≤ t.instant) :
      Next verdict key poll t (.ok (some record)) (Plan.awaited verdict (.ok none))
  | settled {reply : Except StoreError (Option Record)}
      (final : ∀ record, reply = .ok (some record) → record.isProcessing = false) :
      Next verdict key poll t reply (Plan.awaited verdict reply)

section Next

variable {verdict : Verdict} {key : String} {poll : Poll} {t : Moment}

theorem keepWaiting_of_lt (h : t.instant < poll.endsAt) :
    Plan.keepWaiting verdict key poll t =
      .pausing verdict key poll ⟨poll.endsAt - t.instant⟩ := if_neg (Nat.not_le.mpr h)

theorem keepWaiting_of_le (h : poll.endsAt ≤ t.instant) :
    Plan.keepWaiting verdict key poll t = Plan.awaited verdict (.ok none) := if_pos h

theorem next_fetched (verdict : Verdict) (key : String) (poll : Poll) (t : Moment)
    (reply : Except StoreError (Option Record)) :
    poll.Next verdict key t reply (Plan.fetched verdict key poll t reply) := by
  match reply with
  | .error e => exact .settled nofun
  | .ok none => exact .settled nofun
  | .ok (some record) =>
      simp only [Plan.fetched]
      split
      · next hprocessing =>
        rcases Nat.lt_or_ge t.instant poll.endsAt with hearly | hlate
        · rw [keepWaiting_of_lt hearly]
          exact .again hprocessing hearly
        · rw [keepWaiting_of_le hlate]
          exact .late hprocessing hlate
      · next hfinal =>
        refine .settled ?_
        rintro _ ⟨⟩
        exact eq_false_of_ne_true hfinal

/-- The wait that begins when a claim has found a record in flight. -/
def Poll.begun (maxWait interval : UInt64) (start : Moment) : Poll :=
  ⟨.ofMillis interval.toNat, start.instant + (Span.ofMillis maxWait.toNat).nanos⟩

theorem claimed_of_processing {plan : Plan} {maxWait interval : UInt64}
    (hflight : plan.inFlight = .wait maxWait interval) {record : Record}
    (hprocessing : record.isProcessing = true) (verdict : Verdict) (key : String)
    (start : Moment) :
    plan.claimed verdict key start (.alreadyClaimed record) =
      Plan.keepWaiting verdict key (.begun maxWait interval start) start := by
  simp only [Plan.claimed, hprocessing, if_true, hflight, Poll.begun]

theorem not_isWaiting_awaited (verdict : Verdict)
    (outcome : Except StoreError (Option Record)) :
    ¬ (Plan.awaited verdict outcome).IsWaiting := by
  intro h
  match outcome with
  | .error e => exact h
  | .ok none => exact h
  | .ok (some record) =>
      simp only [Plan.awaited, Plan.replay] at h
      split at h <;> exact h

end Next

/-! ## Waits of requests -/

section Runs

variable {plan : Plan} {h : History} {t : Moment} {stage : Stage}

theorem not_isWaiting_enter (plan : Plan) (t : Moment) (goal : Goal) :
    ¬ (plan.enter t goal).IsWaiting := by
  intro hwaiting
  cases goal with
  | claim verdict =>
      simp only [Plan.enter] at hwaiting
      split at hwaiting <;> exact hwaiting
  | dispatch verdict owned => exact hwaiting
  | settle verdict response =>
      simp only [Plan.enter] at hwaiting
      split at hwaiting
      · exact hwaiting
      · split at hwaiting <;> exact hwaiting
  | finish result => exact hwaiting

/-- A request begins to wait when its claim has been answered, and then only. -/
theorem not_isWaiting_resume (hstage : ¬ stage.IsWaiting)
    (hclaiming : ∀ verdict key now, stage ≠ .claiming verdict key now)
    (reply : (plan.await stage).Reply) : ¬ (plan.resume t stage reply).IsWaiting := by
  cases stage with
  | checking account now =>
      cases reply with
      | ok state =>
          intro hwaiting
          simp only [Plan.resume, Plan.checked] at hwaiting
          split at hwaiting <;> exact hwaiting
      | error e => exact id
  | claiming verdict key now => exact absurd rfl (hclaiming verdict key now)
  | pausing => exact absurd trivial hstage
  | fetching => exact absurd trivial hstage
  | handling verdict owned =>
      cases reply with
      | ok response =>
          cases owned with
          | some key => exact id
          | none => exact not_isWaiting_enter plan t (.settle verdict response)
      | error e => cases owned <;> exact id
  | saving verdict key response now =>
      cases reply with
      | ok done => exact not_isWaiting_enter plan t (.settle verdict response)
      | error e => exact id
  | releasing key now goal =>
      cases reply with
      | ok deleted =>
          cases deleted with
          | true => exact id
          | false => exact not_isWaiting_enter plan t goal
      | error e => exact not_isWaiting_enter plan t goal
  | charging account cost now response => cases reply <;> exact id
  | telling event owned goal => exact not_isWaiting_enter plan t goal
  | finished result => exact reply.elim

theorem not_isWaiting_claimed {verdict : Verdict} {key : String} {claim : Record.Claim}
    (hnone : ∀ record, claim = .alreadyClaimed record → record.isProcessing = false) :
    ¬ (plan.claimed verdict key t claim).IsWaiting := by
  cases claim with
  | claimed => exact id
  | degraded e => exact id
  | alreadyClaimed record =>
      simp only [Plan.claimed, hnone record rfl]
      exact not_isWaiting_awaited verdict (.ok (some record))

/-- A request that waits has claimed its key, has found a record in flight under it, and has been
waiting since. -/
theorem Plan.Run.exists_wait (run : plan.Run h t stage) (hwaiting : stage.IsWaiting) :
    ∃ verdict key now record start before past, h.past = before ++ past ∧
      before.getLast?.bind Exchange.claim? = some (key, now, .alreadyClaimed record) ∧
        plan.Wait Exchange.Timely verdict key start past t stage := by
  induction run with
  | start t =>
      exfalso
      unfold Plan.start at hwaiting
      split at hwaiting
      · exact hwaiting
      · exact not_isWaiting_enter plan t _ hwaiting
  | @answer h t stage run t' reply takes ih =>
      by_cases hstage : stage.IsWaiting
      · obtain ⟨verdict, key, now, record, start, before, past, hpast, hclaim, wait⟩ := ih hstage
        refine ⟨verdict, key, now, record, start, before, _, ?_, hclaim,
          wait.answer hstage t' reply takes⟩
        rw [History.past_add, hpast, List.append_assoc]
      by_cases hclaiming : ∃ verdict key now, stage = .claiming verdict key now
      · obtain ⟨verdict, key, now, rfl⟩ := hclaiming
        by_cases hfound : ∃ record, Record.Claim.ofAnswer reply = .alreadyClaimed record ∧
            record.isProcessing = true
        · obtain ⟨record, hclaim, hprocessing⟩ := hfound
          have hresume : plan.resume t' (.claiming verdict key now) reply =
              plan.claimed verdict key t' (.alreadyClaimed record) :=
            congrArg (plan.claimed verdict key t') hclaim
          refine ⟨verdict, key, now, record, t', _, [], (List.append_nil _).symm, ?_, ?_⟩
          · rw [History.past_add, List.getLast?_concat, ← hclaim]
            rfl
          · rw [hresume]
            exact .found hprocessing
        · refine absurd hwaiting (not_isWaiting_claimed fun record hclaim => ?_)
          exact eq_false_of_ne_true fun hprocessing => hfound ⟨record, hclaim, hprocessing⟩
      · push Not at hclaiming
        exact absurd hwaiting (not_isWaiting_resume hstage hclaiming reply)

end Runs

/-! ## Every wait ends -/

/-- Where a wait can be after some answers if it is to take no more than so many looks: each look
follows a pause, and there are as many still to come as there are pauses left. -/
inductive Poll.Counts (most : Nat) (verdict : Verdict) (key : String) (poll : Poll)
    (past : List Exchange) (t : Moment) : Stage → Prop
  | pausing (early : t.instant < poll.endsAt)
      (few : looks past + pausesWithin poll.interval.nanos (poll.endsAt - t.instant) ≤ most)
      (length : past.length = 2 * looks past) :
      Counts most verdict key poll past t (.pausing verdict key poll ⟨poll.endsAt - t.instant⟩)
  | fetching {now : UInt64}
      (few : looks past + 1 + pausesWithin poll.interval.nanos (poll.endsAt - t.instant) ≤ most)
      (length : past.length = 2 * looks past + 1) :
      Counts most verdict key poll past t (.fetching verdict key poll now)
  | ended (outcome : Except StoreError (Option Record)) (few : looks past ≤ most) :
      Counts most verdict key poll past t (Plan.awaited verdict outcome)

section Counts

variable {plan : Plan} {verdict : Verdict} {key : String} {poll : Poll} {most : Nat}
variable {past : List Exchange} {t t' : Moment} {stage : Stage}

theorem pausesWithin_pos {interval left : Nat} (hinterval : 0 < interval) (hleft : 0 < left) :
    0 < pausesWithin interval left := by
  have hnone : pausesWithin interval left ≤ 0 ↔ 5 * left ≤ 4 * interval * 0 :=
    pausesWithin_le_iff hinterval
  omega

theorem Poll.Next.counts {reply : Except StoreError (Option Record)}
    (hnext : poll.Next verdict key t reply stage)
    (hfew : looks past + pausesWithin poll.interval.nanos (poll.endsAt - t.instant) ≤ most)
    (hlength : past.length = 2 * looks past) : poll.Counts most verdict key past t stage := by
  cases hnext with
  | again processing early => exact .pausing early hfew hlength
  | late processing late => exact .ended _ (Nat.le_of_add_right_le hfew)
  | settled final => exact .ended _ (Nat.le_of_add_right_le hfew)

/-- A pause uses up one of those that are left, and a look counts. -/
theorem Poll.Counts.resume (hc : poll.Counts most verdict key past t stage)
    (hinterval : 0 < poll.interval.nanos) (hwaiting : stage.IsWaiting)
    (reply : (plan.await stage).Reply) (htakes : (plan.await stage).Takes t t') :
    poll.Counts most verdict key (past ++ [⟨t', plan.await stage, reply⟩]) t'
      (plan.resume t' stage reply) := by
  cases hc with
  | pausing early few length =>
      obtain ⟨span, ⟨n, hn, -, hlength⟩, hlate⟩ := htakes.2 _ _ rfl
      have hspan : span.nanos = min n (poll.endsAt - t.instant) := hlength
      have hleft : 0 < poll.endsAt - t.instant := by omega
      have hless := pausesWithin_sub_lt hinterval hleft hn
      have hmono : pausesWithin poll.interval.nanos (poll.endsAt - t'.instant) ≤
          pausesWithin poll.interval.nanos
            (poll.endsAt - t.instant - min n (poll.endsAt - t.instant)) :=
        pausesWithin_mono (by omega)
      refine .fetching ?_ ?_
      · rw [looks_append_singleton]
        simp only [Plan.await, Exchange.fetched?, Option.isSome_none, Bool.false_eq_true, if_false]
        omega
      · rw [looks_append_singleton, List.length_append, length]
        rfl
  | @fetching now few length =>
      have hlooks : looks (past ++ [⟨t', plan.await (.fetching verdict key poll now), reply⟩]) =
          looks past + 1 := looks_append_singleton past _
      have hmono : pausesWithin poll.interval.nanos (poll.endsAt - t'.instant) ≤
          pausesWithin poll.interval.nanos (poll.endsAt - t.instant) :=
        pausesWithin_mono (Nat.sub_le_sub_left htakes.1 _)
      apply (next_fetched verdict key poll t' reply).counts
      · omega
      · rw [hlooks, List.length_append, length, List.length_singleton]
        omega
  | ended outcome few => exact absurd hwaiting (not_isWaiting_awaited verdict outcome)

theorem Plan.Wait.counts {maxWait interval : UInt64} {start : Moment}
    (wait : plan.Wait Exchange.Timely verdict key start past t stage)
    (hflight : plan.inFlight = .wait maxWait interval) (hinterval : 0 < interval.toNat) :
    (Poll.begun maxWait interval start).Counts plan.inFlight.pauses verdict key past t stage := by
  induction wait with
  | @found record processing =>
      rw [claimed_of_processing hflight processing]
      rcases Nat.lt_or_ge start.instant (Poll.begun maxWait interval start).endsAt with
        hearly | hlate
      · rw [keepWaiting_of_lt hearly]
        refine .pausing hearly ?_ rfl
        rw [hflight, Poll.begun, Nat.add_sub_cancel_left]
        exact Nat.le_of_eq (Nat.zero_add _)
      · rw [keepWaiting_of_le hlate]
        exact .ended _ (Nat.zero_le _)
  | answer wait waiting t' reply comes ih =>
      exact ih.resume (Nat.mul_pos hinterval (by decide)) waiting reply comes

theorem Poll.Counts.looks_le (hc : poll.Counts most verdict key past t stage) :
    looks past ≤ most := by
  cases hc with
  | pausing early few length => omega
  | fetching few length => omega
  | ended outcome few => exact few

/-- A request that still waits has not had all its answers. -/
theorem Poll.Counts.length_lt (hc : poll.Counts most verdict key past t stage)
    (hinterval : 0 < poll.interval.nanos) (hwaiting : stage.IsWaiting) :
    past.length < 2 * most := by
  cases hc with
  | pausing early few length =>
      have hleft : 0 < poll.endsAt - t.instant := by omega
      have hpos := pausesWithin_pos hinterval hleft
      omega
  | fetching few length => omega
  | ended outcome few => exact absurd hwaiting (not_isWaiting_awaited verdict outcome)

/-- It is not stuck either. -/
theorem Stage.IsWaiting.pending (hwaiting : stage.IsWaiting) (plan : Plan) (t : Moment) :
    Nonempty (plan.await stage).Reply ∧ ∃ t', (plan.await stage).Takes t t' := by
  refine ⟨Await.nonempty_reply ?_, Await.exists_takes _ t⟩
  cases stage with
  | pausing => exact nofun
  | fetching => exact nofun
  | _ => exact hwaiting.elim

theorem Poll.Counts.exists_outcome (hc : poll.Counts most verdict key past t stage)
    (hover : ¬ stage.IsWaiting) : ∃ outcome, stage = Plan.awaited verdict outcome := by
  cases hc with
  | pausing early few length => exact absurd trivial hover
  | fetching few length => exact absurd trivial hover
  | ended outcome few => exact ⟨outcome, rfl⟩

end Counts

/-! ## No wait misses a response -/

/-- Where a prompt wait can be after some answers. Its looks are not later than its end, and what it
comes to is what its last look has found, unless that was in flight at the end. -/
inductive Poll.Heeds (records : Nat → Option Record) (verdict : Verdict) (key : String)
    (poll : Poll) (past : List Exchange) (t : Moment) : Stage → Prop
  | pausing (early : t.instant < poll.endsAt) :
      Heeds records verdict key poll past t (.pausing verdict key poll ⟨poll.endsAt - t.instant⟩)
  | fetching {now : UInt64} (intime : t.instant ≤ poll.endsAt) :
      Heeds records verdict key poll past t (.fetching verdict key poll now)
  | late {record : Record} (found : records poll.endsAt = some record)
      (processing : record.isProcessing = true) :
      Heeds records verdict key poll past t (Plan.awaited verdict (.ok none))
  | settled (intime : t.instant ≤ poll.endsAt)
      (last : past.getLast?.bind Exchange.fetched? = some (.ok (records t.instant)))
      (final : ∀ record, records t.instant = some record → record.isProcessing = false) :
      Heeds records verdict key poll past t (Plan.awaited verdict (.ok (records t.instant)))

section Heeds

variable {plan : Plan} {records : Nat → Option Record} {verdict : Verdict} {key : String}
variable {poll : Poll} {past : List Exchange} {t t' : Moment} {stage : Stage}

theorem Poll.Next.heeds (hnext : poll.Next verdict key t (.ok (records t.instant)) stage)
    (hintime : t.instant ≤ poll.endsAt)
    (hlast : past.getLast?.bind Exchange.fetched? = some (.ok (records t.instant))) :
    poll.Heeds records verdict key past t stage := by
  generalize hreply : (.ok (records t.instant) : Except StoreError (Option Record)) = reply at hnext
  cases hnext with
  | again processing early => exact .pausing early
  | @late record processing late =>
      have hend : t.instant = poll.endsAt := Nat.le_antisymm hintime late
      exact .late (hend ▸ Except.ok.inj hreply) processing
  | settled final =>
      subst hreply
      exact .settled hintime hlast fun record hrecord => final record (by rw [hrecord])

/-- The last pause is cut so that it ends with the wait. -/
theorem Poll.Heeds.resume (hh : poll.Heeds records verdict key past t stage)
    (hwaiting : stage.IsWaiting) (reply : (plan.await stage).Reply)
    (hprompt : Exchange.Prompt records t ⟨t', plan.await stage, reply⟩) :
    poll.Heeds records verdict key (past ++ [⟨t', plan.await stage, reply⟩]) t'
      (plan.resume t' stage reply) := by
  cases hh with
  | pausing early =>
      obtain ⟨span, ⟨n, -, -, hlength⟩, htime⟩ := hprompt
      have hspan : span.nanos = min n (poll.endsAt - t.instant) := hlength
      exact .fetching (by omega)
  | @fetching now intime =>
      obtain ⟨htime, hreply⟩ := hprompt
      have hfound : reply = .ok (records t'.instant) := by rw [htime]; exact hreply
      have hnext := next_fetched verdict key poll t' reply
      subst hfound
      exact hnext.heeds (by omega) (by simp [Plan.await, Exchange.fetched?])
  | late found processing => exact absurd hwaiting (not_isWaiting_awaited verdict _)
  | settled intime last final => exact absurd hwaiting (not_isWaiting_awaited verdict _)

theorem Plan.Wait.heeds {maxWait interval : UInt64} {start : Moment}
    (wait : plan.Wait (Exchange.Prompt records) verdict key start past t stage)
    (hflight : plan.inFlight = .wait maxWait interval) (hmaxWait : 0 < maxWait.toNat) :
    (Poll.begun maxWait interval start).Heeds records verdict key past t stage := by
  induction wait with
  | @found record processing =>
      have hearly : start.instant < (Poll.begun maxWait interval start).endsAt :=
        Nat.lt_add_of_pos_right (Nat.mul_pos hmaxWait (by decide))
      rw [claimed_of_processing hflight processing, keepWaiting_of_lt hearly]
      exact .pausing hearly
  | answer wait waiting t' reply comes ih => exact ih.resume waiting reply comes

/-- A response is there from one instant to another one. It may not be the same all the time. -/
def StaysCompleted (records : Nat → Option Record) (first last : Nat) : Prop :=
  ∀ instant, first ≤ instant → instant ≤ last →
    ∃ record, records instant = some record ∧ record.isProcessing = false

/-- What a prompt wait has come to if a response is there when it ends, and has been since an
instant. -/
inductive Poll.Finds (records : Nat → Option Record) (verdict : Verdict) (poll : Poll)
    (completedAt : Nat) (past : List Exchange) (t : Moment) : Stage → Prop
  /-- The last look has found the response. -/
  | response {record : Record}
      (last : past.getLast?.bind Exchange.fetched? = some (.ok (some record)))
      (found : records t.instant = some record) (final : record.isProcessing = false)
      (intime : t.instant ≤ poll.endsAt) :
      Finds records verdict poll completedAt past t (Plan.awaited verdict (.ok (some record)))
  /-- There was no record when the last look came, before the response was there. -/
  | nothing (last : past.getLast?.bind Exchange.fetched? = some (.ok none))
      (absent : records t.instant = none) (early : t.instant < completedAt) :
      Finds records verdict poll completedAt past t (Plan.awaited verdict (.ok none))

theorem Poll.Heeds.finds (hh : poll.Heeds records verdict key past t stage)
    (hover : ¬ stage.IsWaiting) {completedAt : Nat} (hbefore : completedAt < poll.endsAt)
    (hcompleted : StaysCompleted records completedAt poll.endsAt) :
    poll.Finds records verdict completedAt past t stage := by
  cases hh with
  | pausing early => exact absurd trivial hover
  | fetching intime => exact absurd trivial hover
  | late found processing =>
      obtain ⟨record, hrecord, hfinal⟩ :=
        hcompleted poll.endsAt (Nat.le_of_lt hbefore) (Nat.le_refl _)
      rw [found] at hrecord
      cases hrecord
      rw [processing] at hfinal
      cases hfinal
  | settled intime last final =>
      cases hrecords : records t.instant with
      | some record =>
          exact .response (hrecords ▸ last) hrecords (final record hrecords) intime
      | none =>
          refine .nothing (hrecords ▸ last) hrecords (Nat.lt_of_not_le fun hlate => ?_)
          obtain ⟨record, hrecord, -⟩ := hcompleted t.instant hlate intime
          rw [hrecords] at hrecord
          cases hrecord

/-- A prompt wait is not stuck. -/
theorem Stage.IsWaiting.exists_prompt (hwaiting : stage.IsWaiting) (plan : Plan)
    (records : Nat → Option Record) (t : Moment) :
    ∃ (t' : Moment) (reply : (plan.await stage).Reply),
      Exchange.Prompt records t ⟨t', plan.await stage, reply⟩ := by
  cases stage with
  | pausing verdict key poll left =>
      exact ⟨⟨t.clockMs, t.instant + min poll.interval.nanos left.nanos⟩, (), _,
        Await.pauseLength_min poll.interval left, rfl⟩
  | fetching verdict key poll now => exact ⟨t, .ok (records t.instant), rfl, rfl⟩
  | _ => exact hwaiting.elim

end Heeds

/-- Every wait ends, whatever its looks find and however long its pauses are, after as many looks at
most as the shortest pauses leave time for. If looks are answered at once and a response is there
before the end of a wait and until then, the wait comes to the response that its last look has
found, unless a look has found no record before. -/
theorem Plan.wait_completes {plan : Plan} {maxWait interval : UInt64}
    (hflight : plan.inFlight = .wait maxWait interval) (hinterval : 0 < interval.toNat)
    (verdict : Verdict) (key : String) (start : Moment) :
    (∀ past t stage, plan.Wait Exchange.Timely verdict key start past t stage →
      looks past ≤ mostLooks maxWait interval ∧
        (stage.IsWaiting → past.length < 2 * mostLooks maxWait interval ∧
          Nonempty (plan.await stage).Reply ∧ ∃ t', (plan.await stage).Takes t t') ∧
        (¬ stage.IsWaiting → ∃ outcome, stage = awaited verdict outcome)) ∧
      ∀ (records : Nat → Option Record) (completedAt : Nat), 0 < maxWait.toNat →
        completedAt < (Poll.begun maxWait interval start).endsAt →
        StaysCompleted records completedAt (Poll.begun maxWait interval start).endsAt →
        ∀ past t stage, plan.Wait (Exchange.Prompt records) verdict key start past t stage →
          (stage.IsWaiting → past.length < 2 * mostLooks maxWait interval ∧
            ∃ (t' : Moment) (reply : (plan.await stage).Reply),
              Exchange.Prompt records t ⟨t', plan.await stage, reply⟩) ∧
          (¬ stage.IsWaiting → (Poll.begun maxWait interval start).Finds records verdict
            completedAt past t stage) := by
  have hpauses : plan.inFlight.pauses = mostLooks maxWait interval := by
    rw [hflight, pauses_wait hinterval]
  have hnanos : 0 < (Poll.begun maxWait interval start).interval.nanos :=
    Nat.mul_pos hinterval (by decide)
  rw [← hpauses]
  constructor
  · intro past t stage wait
    have hcounts := wait.counts hflight hinterval
    exact ⟨hcounts.looks_le,
      fun hwaiting => ⟨hcounts.length_lt hnanos hwaiting, hwaiting.pending plan t⟩,
      hcounts.exists_outcome⟩
  · intro records completedAt hmaxWait hbefore hcompleted past t stage wait
    have hcounts := (wait.mono fun _ _ => Exchange.Prompt.timely).counts hflight hinterval
    have hheeds := wait.heeds hflight hmaxWait
    exact ⟨fun hwaiting =>
        ⟨hcounts.length_lt hnanos hwaiting, hwaiting.exists_prompt plan records t⟩,
      fun hover => hheeds.finds hover hbefore hcompleted⟩

/-! ### A response that comes in time -/

/-- The response is there after ninety milliseconds. -/
def lateRecord (instant : Nat) : Option Record :=
  if instant < 90000000 then some (.processing "k" 0) else some ⟨"k", 201, .ofString "b", 0⟩

/-- The first look comes too early. -/
def patientPast : List Exchange :=
  [⟨⟨50, 50000000⟩, .sleep (.ofMillis 50) (.ofMillis 5000), ()⟩,
   ⟨⟨50, 50000000⟩, .record (.fetch "k" 0), .ok (some (.processing "k" 0))⟩,
   ⟨⟨100, 100000000⟩, .sleep (.ofMillis 50) (.ofMillis 4950), ()⟩,
   ⟨⟨100, 100000000⟩, .record (.fetch "k" 0), .ok (some ⟨"k", 201, .ofString "b", 0⟩)⟩]

theorem wait_patientPast :
    keyedPlan.Wait (Exchange.Prompt lateRecord) .unlimited "k" ⟨0, 0⟩ patientPast
      ⟨100, 100000000⟩ (Plan.awaited .unlimited (.ok (some ⟨"k", 201, .ofString "b", 0⟩))) := by
  have hfound : keyedPlan.Wait (Exchange.Prompt lateRecord) .unlimited "k" ⟨0, 0⟩ [] ⟨0, 0⟩
      (keyedPlan.claimed .unlimited "k" ⟨0, 0⟩ (.alreadyClaimed (.processing "k" 0))) := .found rfl
  have hpaused := hfound.answer trivial ⟨50, 50000000⟩ ()
    ⟨_, Await.pauseLength_min _ _, rfl⟩
  have hlooked := hpaused.answer trivial ⟨50, 50000000⟩ (.ok (some (.processing "k" 0))) ⟨rfl, rfl⟩
  have hagain := hlooked.answer trivial ⟨100, 100000000⟩ () ⟨_, Await.pauseLength_min _ _, rfl⟩
  exact hagain.answer trivial ⟨100, 100000000⟩ (.ok (some ⟨"k", 201, .ofString "b", 0⟩)) ⟨rfl, rfl⟩

theorem wait_completes_patientPast :
    keyedPlan.inFlight = .wait 5000 50 ∧ 0 < (50 : UInt64).toNat ∧
      keyedPlan.Wait (Exchange.Prompt lateRecord) .unlimited "k" ⟨0, 0⟩ patientPast
        ⟨100, 100000000⟩ (Plan.awaited .unlimited (.ok (some ⟨"k", 201, .ofString "b", 0⟩))) ∧
      looks patientPast ≤ mostLooks 5000 50 ∧
      (Poll.begun 5000 50 ⟨0, 0⟩).Finds lateRecord .unlimited 90000000 patientPast
        ⟨100, 100000000⟩ (Plan.awaited .unlimited (.ok (some ⟨"k", 201, .ofString "b", 0⟩))) := by
  obtain ⟨hends, hfinds⟩ :=
    @Plan.wait_completes keyedPlan 5000 50 rfl (by decide) .unlimited "k" ⟨0, 0⟩
  have hlooks := (hends _ _ _ (wait_patientPast.mono fun _ _ => Exchange.Prompt.timely)).1
  have hcompleted :
      StaysCompleted lateRecord 90000000 (Poll.begun 5000 50 ⟨0, 0⟩).endsAt :=
    fun instant hinstant _ => ⟨_, if_neg (Nat.not_lt.mpr hinstant), rfl⟩
  refine ⟨rfl, by decide, wait_patientPast, hlooks, ?_⟩
  exact (hfinds lateRecord 90000000 (by decide) (by decide) hcompleted _ _ _ wait_patientPast).2
    (not_isWaiting_awaited _ _)

/-! ### A record that is gone for a while -/

/-- The claim is given up after twenty milliseconds; another one is made, and its response is there
after ninety. -/
def lostRecord (instant : Nat) : Option Record :=
  if instant < 20000000 then some (.processing "k" 0)
  else if instant < 80000000 then none
  else if instant < 90000000 then some (.processing "k" 0)
  else some ⟨"k", 201, .ofString "b", 0⟩

/-- A look that comes between the two claims ends the wait, though a response is there long before
its end and until then. -/
theorem wait_gives_up_lostRecord :
    keyedPlan.inFlight = .wait 5000 50 ∧ 0 < (50 : UInt64).toNat ∧ 0 < (5000 : UInt64).toNat ∧
      90000000 < (Poll.begun 5000 50 ⟨0, 0⟩).endsAt ∧
      StaysCompleted lostRecord 90000000 (Poll.begun 5000 50 ⟨0, 0⟩).endsAt ∧
      keyedPlan.Wait (Exchange.Prompt lostRecord) .unlimited "k" ⟨0, 0⟩
        [⟨⟨50, 50000000⟩, .sleep (.ofMillis 50) (.ofMillis 5000), ()⟩,
          ⟨⟨50, 50000000⟩, .record (.fetch "k" 0), .ok none⟩]
        ⟨50, 50000000⟩ (Plan.awaited .unlimited (.ok none)) ∧
      ∀ record,
        Plan.awaited .unlimited (.ok none) ≠ Plan.awaited .unlimited (.ok (some record)) := by
  refine ⟨rfl, by decide, by decide, by decide, ?_, ?_, ?_⟩
  · intro instant hinstant _
    refine ⟨⟨"k", 201, .ofString "b", 0⟩, ?_, rfl⟩
    rw [lostRecord, if_neg (by omega), if_neg (by omega), if_neg (by omega)]
  · have hfound : keyedPlan.Wait (Exchange.Prompt lostRecord) .unlimited "k" ⟨0, 0⟩ [] ⟨0, 0⟩
        (keyedPlan.claimed .unlimited "k" ⟨0, 0⟩ (.alreadyClaimed (.processing "k" 0))) :=
      .found rfl
    have hpaused := hfound.answer trivial ⟨50, 50000000⟩ () ⟨_, Await.pauseLength_min _ _, rfl⟩
    exact hpaused.answer trivial ⟨50, 50000000⟩ (.ok none) ⟨rfl, rfl⟩
  · intro record heq
    simp only [Plan.awaited, Plan.replay, Plan.conflict, Plan.degraded] at heq
    split at heq <;> simp at heq

end Admission
