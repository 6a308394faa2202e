import Admission.Proofs.Traffic.Passage

/-! # Runs of a request

A request that is not dropped is given one answer after another, whatever its stores, its sink and
its handler answer. It comes to its end after a bounded number of answers, since waits are bounded
and each pause lasts. -/

namespace Admission

/-- Whether an answer may come at a moment after another: time does not run back, and a pause takes
its length. -/
def Await.Takes (a : Await) (t t' : Moment) : Prop :=
  t.instant ≤ t'.instant ∧ ∀ interval left, a = .sleep interval left →
    ∃ length, PauseLength interval left length ∧ t.instant + length.nanos ≤ t'.instant

theorem Await.takes_of_le {a : Await} {t t' : Moment} (hle : t.instant ≤ t'.instant)
    (hsleep : ∀ interval left, a = .sleep interval left →
      t.instant + min interval.nanos left.nanos ≤ t'.instant) : a.Takes t t' :=
  ⟨hle, fun interval left ha =>
    ⟨⟨min interval.nanos left.nanos⟩, pauseLength_min interval left, hsleep interval left ha⟩⟩

/-- Every answer may come at some moment. -/
theorem Await.exists_takes (a : Await) (t : Moment) : ∃ t', a.Takes t t' := by
  cases a with
  | sleep interval left =>
      refine ⟨⟨t.clockMs, t.instant + min interval.nanos left.nanos⟩, takes_of_le ?_ ?_⟩
      · exact Nat.le_add_right _ _
      · rintro _ _ ⟨⟩
        exact Nat.le_refl _
  | _ => exact ⟨t, takes_of_le (Nat.le_refl _) (by simp)⟩

/-- How far a request can have come: its history, the moment of the last answer and its stage. -/
inductive Plan.Run (plan : Plan) : History → Moment → Stage → Prop
  | start (t : Moment) : plan.Run ⟨plan, []⟩ t (plan.start t)
  | answer {h : History} {t : Moment} {stage : Stage} (run : plan.Run h t stage) (t' : Moment)
      (reply : (plan.await stage).Reply) (takes : (plan.await stage).Takes t t') :
      plan.Run (h.add ⟨t', plan.await stage, reply⟩) t' (plan.resume t' stage reply)

theorem Plan.Run.plan_eq {plan : Plan} {h : History} {t : Moment} {stage : Stage}
    (run : plan.Run h t stage) : h.plan = plan := by
  induction run with
  | start t => rfl
  | answer run t' reply takes ih => exact ih

/-! ## Pauses -/

/-- How many pauses of about an interval can come before a wait is over of which so much is left. -/
def pausesWithin (interval left : Nat) : Nat := (5 * left + (4 * interval - 1)) / (4 * interval)

theorem pausesWithin_mono {interval left left' : Nat} (h : left ≤ left') :
    pausesWithin interval left ≤ pausesWithin interval left' :=
  Nat.div_le_div_right (by omega)

/-- A pause uses one of them up. -/
theorem pausesWithin_sub_lt {interval left n : Nat} (hinterval : 0 < interval) (hleft : 0 < left)
    (hn : 4 * interval ≤ 5 * n) :
    pausesWithin interval (left - min n left) < pausesWithin interval left := by
  have hpos : 0 < 4 * interval := by omega
  rcases Nat.le_total left n with hle | hle
  · have hnone : pausesWithin interval (left - min n left) = 0 := by
      rw [Nat.min_eq_right hle, Nat.sub_self, pausesWithin]
      exact Nat.div_eq_of_lt (by omega)
    have hone : 0 < pausesWithin interval left := Nat.div_pos (by omega) hpos
    omega
  · rw [Nat.min_eq_left hle, pausesWithin, pausesWithin, Nat.lt_iff_add_one_le,
      ← Nat.add_div_right _ hpos]
    exact Nat.div_le_div_right (by omega)

/-- How many pauses a wait can consist of. -/
def InFlight.pauses : InFlight → Nat
  | wait maxWait interval =>
    pausesWithin (Span.ofMillis interval.toNat).nanos (Span.ofMillis maxWait.toNat).nanos
  | proceed => 0

/-- Waits pause for a while between looking at the record. -/
def InFlight.Pauses (f : InFlight) : Prop :=
  ∀ maxWait interval, f = wait maxWait interval → 0 < interval.toNat

/-- Settings that are not refused make waits pause. -/
theorem Settings.pauses_of_validate {settings : Settings} (h : settings.validate = .ok ()) :
    settings.inFlight.Pauses := by
  intro maxWait interval hflight
  apply Nat.pos_of_ne_zero
  intro hzero
  have hinterval : interval = 0 := UInt64.toNat_inj.mp hzero
  rw [hinterval] at hflight
  unfold validate at h
  split at h
  · cases h
  · split at h
    · cases h
    · split at h
      · cases h
      · simp [hflight] at h

/-! ## How much is still to come -/

namespace Plan

variable (plan : Plan)

/-- No more answers than this are taken from the way to a goal on. -/
def goalAhead : Goal → Nat
  | .claim _ => 8 + 2 * plan.inFlight.pauses
  | .dispatch _ (some _) => 6
  | .dispatch _ none => 3
  | .settle .. => 2
  | .finish _ => 0

/-- No more answers than this are taken from a stage on that is reached at a moment. -/
def ahead (t : Moment) : Stage → Nat
  | .checking .. => 10 + 2 * plan.inFlight.pauses
  | .claiming .. => 8 + 2 * plan.inFlight.pauses
  | .pausing _ _ poll _ => 4 + 2 * pausesWithin poll.interval.nanos (poll.endsAt - t.instant)
  | .fetching _ _ poll _ => 5 + 2 * pausesWithin poll.interval.nanos (poll.endsAt - t.instant)
  | .handling _ (some _) => 6
  | .handling _ none => 3
  | .saving .. => 5
  | .releasing _ _ goal => 2 + plan.goalAhead goal
  | .charging .. => 2
  | .telling _ _ goal => 1 + plan.goalAhead goal
  | .finished _ => 0

end Plan

/-- Pauses are about an interval long and no longer than what is left of the wait. -/
def Stage.Paced (t : Moment) : Stage → Prop
  | .pausing _ _ poll left =>
    0 < poll.interval.nanos ∧ 0 < left.nanos ∧ left.nanos = poll.endsAt - t.instant
  | .fetching _ _ poll _ => 0 < poll.interval.nanos
  | _ => True

section Ahead

variable {plan : Plan} {t t' : Moment}

theorem ahead_enter_le (goal : Goal) : plan.ahead t (plan.enter t goal) ≤ plan.goalAhead goal := by
  cases goal with
  | claim verdict =>
      simp only [Plan.enter]
      split
      · exact Nat.le_refl _
      · exact (by simp only [Plan.ahead, Plan.goalAhead]; omega)
  | dispatch verdict owned => cases owned <;> exact Nat.le_refl _
  | settle verdict response =>
      simp only [Plan.enter]
      split
      · exact Nat.zero_le _
      · split
        · exact Nat.zero_le _
        · exact Nat.le_refl _
  | finish result => exact Nat.le_refl _

theorem paced_enter (goal : Goal) : (plan.enter t goal).Paced t' := by
  cases goal with
  | claim verdict =>
      simp only [Plan.enter]
      split <;> trivial
  | dispatch verdict owned => trivial
  | settle verdict response =>
      simp only [Plan.enter]
      split
      · trivial
      · split <;> trivial
  | finish result => trivial

theorem ahead_degraded (verdict : Verdict) (e : StoreError) :
    plan.ahead t (Plan.degraded verdict e) = 4 := rfl

theorem ahead_conflict (verdict : Verdict) : plan.ahead t (Plan.conflict verdict) = 3 := rfl

theorem ahead_replay_le (verdict : Verdict) (record : Record) :
    plan.ahead t (Plan.replay verdict record) ≤ 4 := by
  unfold Plan.replay
  split
  · exact (by decide : 3 ≤ 4)
  · exact Nat.le_refl _

theorem paced_replay (verdict : Verdict) (record : Record) :
    (Plan.replay verdict record).Paced t := by
  unfold Plan.replay
  split <;> trivial

theorem ahead_keepWaiting_le (verdict : Verdict) (key : String) (poll : Poll) :
    plan.ahead t (Plan.keepWaiting verdict key poll t) ≤
      4 + 2 * pausesWithin poll.interval.nanos (poll.endsAt - t.instant) := by
  unfold Plan.keepWaiting
  split
  · rw [ahead_conflict]
    omega
  · exact Nat.le_refl _

theorem paced_keepWaiting (verdict : Verdict) (key : String) {poll : Poll}
    (hinterval : 0 < poll.interval.nanos) : (Plan.keepWaiting verdict key poll t).Paced t := by
  unfold Plan.keepWaiting
  split
  · trivial
  · next hlate => exact ⟨hinterval, by simp only; omega, rfl⟩

theorem ahead_claimed_le (verdict : Verdict) (key : String) (claim : Record.Claim) :
    plan.ahead t (plan.claimed verdict key t claim) ≤ 7 + 2 * plan.inFlight.pauses := by
  cases claim with
  | claimed => exact Nat.le_add_right 7 _
  | degraded e =>
      change plan.ahead t (Plan.degraded verdict e) ≤ _
      rw [ahead_degraded]
      omega
  | alreadyClaimed record =>
      simp only [Plan.claimed]
      split
      · split
        · simp only [Plan.ahead, Plan.goalAhead]
          omega
        · next maxWait interval hflight =>
          apply Nat.le_trans (ahead_keepWaiting_le _ _ _)
          simp only [Nat.add_sub_cancel_left, InFlight.pauses, hflight]
          omega
      · exact Nat.le_trans (ahead_replay_le _ _) (by omega)

theorem paced_claimed (hpauses : plan.inFlight.Pauses) (verdict : Verdict) (key : String)
    (claim : Record.Claim) : (plan.claimed verdict key t claim).Paced t := by
  cases claim with
  | claimed => trivial
  | degraded e => trivial
  | alreadyClaimed record =>
      simp only [Plan.claimed]
      split
      · split
        · trivial
        · next maxWait interval hflight =>
          apply paced_keepWaiting
          exact Nat.mul_pos (hpauses maxWait interval hflight) (by decide)
      · exact paced_replay _ _

theorem paced_resume (hpauses : plan.inFlight.Pauses) {stage : Stage} (hpaced : stage.Paced t)
    (reply : (plan.await stage).Reply) : (plan.resume t' stage reply).Paced t' := by
  cases stage with
  | checking account now =>
      cases reply with
      | ok state =>
          simp only [Plan.resume, Plan.checked]
          split <;> trivial
      | error e => trivial
  | claiming verdict key now => exact paced_claimed hpauses verdict key _
  | pausing verdict key poll left => exact hpaced.1
  | fetching verdict key poll now =>
      match reply with
      | .ok (some record) =>
          simp only [Plan.resume, Plan.fetched]
          split
          · exact paced_keepWaiting _ _ hpaced
          · exact paced_replay _ _
      | .ok none => trivial
      | .error e => trivial
  | handling verdict owned =>
      cases reply with
      | ok response =>
          cases owned with
          | some key => trivial
          | none =>
              change (plan.enter t' (.settle verdict response)).Paced t'
              exact paced_enter _
      | error e => cases owned <;> trivial
  | saving verdict key response now =>
      cases reply with
      | ok done =>
          change (plan.enter t' (.settle verdict response)).Paced t'
          exact paced_enter _
      | error e => trivial
  | releasing key now goal =>
      match reply with
      | .ok true => trivial
      | .ok false => exact paced_enter _
      | .error e => exact paced_enter _
  | charging account cost now response => cases reply <;> trivial
  | telling event owned goal => exact paced_enter _
  | finished result => exact reply.elim

/-- Each answer brings the request nearer to its end. -/
theorem ahead_resume_lt {stage : Stage} (hpaced : stage.Paced t)
    (reply : (plan.await stage).Reply) (htakes : (plan.await stage).Takes t t') :
    plan.ahead t' (plan.resume t' stage reply) < plan.ahead t stage := by
  cases stage with
  | checking account now =>
      cases reply with
      | ok state =>
          simp only [Plan.resume, Plan.checked]
          split <;> simp only [Plan.ahead, Plan.goalAhead] <;> omega
      | error e =>
          simp only [Plan.resume, Plan.checked, Plan.ahead, Plan.goalAhead]
          omega
  | claiming verdict key now =>
      apply Nat.lt_of_le_of_lt (ahead_claimed_le verdict key _)
      simp only [Plan.ahead]
      omega
  | pausing verdict key poll left =>
      obtain ⟨hinterval, hleft, hrest⟩ := hpaced
      obtain ⟨length, ⟨n, hn, -, hlength⟩, hlate⟩ := htakes.2 poll.interval left rfl
      have hless := pausesWithin_sub_lt hinterval hleft hn
      have hmono : pausesWithin poll.interval.nanos (poll.endsAt - t'.instant) ≤
          pausesWithin poll.interval.nanos (left.nanos - min n left.nanos) :=
        pausesWithin_mono (by omega)
      simp only [Plan.resume, Plan.ahead]
      rw [← hrest]
      omega
  | fetching verdict key poll now =>
      have hmono : pausesWithin poll.interval.nanos (poll.endsAt - t'.instant) ≤
          pausesWithin poll.interval.nanos (poll.endsAt - t.instant) :=
        pausesWithin_mono (Nat.sub_le_sub_left htakes.1 _)
      have hahead : plan.ahead t' (plan.resume t' (.fetching verdict key poll now) reply) ≤
          4 + 2 * pausesWithin poll.interval.nanos (poll.endsAt - t'.instant) := by
        match reply with
        | .ok (some record) =>
            simp only [Plan.resume, Plan.fetched]
            split
            · exact ahead_keepWaiting_le _ _ _
            · exact Nat.le_trans (ahead_replay_le _ _) (Nat.le_add_right 4 _)
        | .ok none =>
            change plan.ahead t' (Plan.conflict verdict) ≤ _
            rw [ahead_conflict]
            omega
        | .error e => exact Nat.le_add_right 4 _
      simp only [Plan.ahead] at hahead ⊢
      omega
  | handling verdict owned =>
      cases reply with
      | ok response =>
          cases owned with
          | some key => exact (by decide : 5 < 6)
          | none =>
              have henter : plan.ahead t' (plan.enter t' (.settle verdict response)) ≤ 2 :=
                ahead_enter_le _
              exact Nat.lt_of_le_of_lt henter (by decide : 2 < 3)
      | error e =>
          cases owned with
          | some key => exact (by decide : 2 < 6)
          | none => exact (by decide : 0 < 3)
  | saving verdict key response now =>
      cases reply with
      | ok done =>
          have henter : plan.ahead t' (plan.enter t' (.settle verdict response)) ≤ 2 :=
            ahead_enter_le _
          exact Nat.lt_of_le_of_lt henter (by decide : 2 < 5)
      | error e => exact (by decide : 4 < 5)
  | releasing key now goal =>
      have henter : plan.ahead t' (plan.enter t' goal) ≤ plan.goalAhead goal :=
        ahead_enter_le goal
      match reply with
      | .ok true =>
          simp only [Plan.resume, Plan.released, Plan.ahead]
          omega
      | .ok false =>
          apply Nat.lt_of_le_of_lt henter
          simp only [Plan.ahead]
          omega
      | .error e =>
          apply Nat.lt_of_le_of_lt henter
          simp only [Plan.ahead]
          omega
  | charging account cost now response => cases reply <;> exact (by decide : 1 < 2)
  | telling event owned goal =>
      apply Nat.lt_of_le_of_lt (ahead_enter_le goal)
      simp only [Plan.ahead]
      omega
  | finished result => exact reply.elim

theorem Await.nonempty_reply {a : Await} (h : a ≠ .nothing) : Nonempty a.Reply := by
  cases a with
  | bucket call => exact ⟨.error (.unavailable "")⟩
  | record call => exact ⟨.error (.unavailable "")⟩
  | tell event => exact ⟨()⟩
  | handler => exact ⟨.error ""⟩
  | sleep interval left => exact ⟨()⟩
  | nothing => exact absurd rfl h

theorem Stage.finished_or_ahead_pos (stage : Stage) (plan : Plan) (t : Moment) :
    (∃ result, stage = .finished result) ∨
      0 < plan.ahead t stage ∧ Nonempty (plan.await stage).Reply := by
  cases stage with
  | finished result => exact .inl ⟨result, rfl⟩
  | handling verdict owned =>
      exact .inr ⟨by cases owned <;> simp [Plan.ahead], Await.nonempty_reply (by simp [Plan.await])⟩
  | _ => exact .inr ⟨by simp only [Plan.ahead]; omega, Await.nonempty_reply (by simp [Plan.await])⟩

end Ahead

namespace Plan.Run

variable {plan : Plan} {h : History} {t : Moment} {stage : Stage}

theorem paced (run : plan.Run h t stage) (hpauses : plan.inFlight.Pauses) : stage.Paced t := by
  induction run with
  | start t =>
      unfold Plan.start
      split
      · trivial
      · exact paced_enter _
  | answer run t' reply takes ih => exact paced_resume hpauses ih reply

/-- Answers that have come and answers that may still come. -/
theorem length_add_ahead_le (run : plan.Run h t stage) (hpauses : plan.inFlight.Pauses) :
    h.past.length + plan.ahead t stage ≤ 10 + 2 * plan.inFlight.pauses := by
  induction run with
  | start t =>
      rw [List.length_nil, Nat.zero_add]
      unfold Plan.start
      split
      · exact Nat.le_refl _
      · apply Nat.le_trans (ahead_enter_le _)
        simp only [Plan.goalAhead]
        omega
  | answer run t' reply takes ih =>
      have hless := ahead_resume_lt (run.paced hpauses) reply takes
      rw [History.past_add, List.length_append, List.length_singleton]
      omega

/-- A request has its result, or there are not many more answers to come, and one of them may. -/
theorem finished_or_pending (run : plan.Run h t stage) (hpauses : plan.inFlight.Pauses) :
    (∃ result, stage = .finished result) ∨
      h.past.length < 10 + 2 * plan.inFlight.pauses ∧
        Nonempty (plan.await stage).Reply ∧ ∃ t', (plan.await stage).Takes t t' := by
  have hle := run.length_add_ahead_le hpauses
  rcases stage.finished_or_ahead_pos plan t with hfinished | ⟨hpos, hreply⟩
  · exact .inl hfinished
  · exact .inr ⟨by omega, hreply, Await.exists_takes _ t⟩

end Plan.Run

end Admission
