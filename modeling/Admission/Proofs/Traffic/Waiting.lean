import Admission.Proofs.Traffic.Stability

/-! # Requests that find their key taken

A request that does not win its claim, and waits, is given the response that is recorded or is told
that the key is in flight. It is given one after a bounded number of answers once its wait is over.
-/

namespace Admission

open Record

/-! ## Answers after the end of a wait -/

namespace History

/-- How many answers have come after an instant. -/
def answersAfter (h : History) (instant : Nat) : Nat :=
  h.past.countP fun x => instant < x.time.instant

section Add

variable {h : History} {x : Exchange} {instant : Nat}

theorem answersAfter_add_le (h : History) (x : Exchange) (instant : Nat) :
    (h.add x).answersAfter instant ≤ h.answersAfter instant + 1 := by
  simp only [answersAfter, past_add, List.countP_append, List.countP_singleton]
  split <;> omega

/-- No answer comes after an instant that is not over. -/
theorem answersAfter_eq_zero (hpast : ∀ y ∈ h.past, y.time.instant ≤ instant) :
    h.answersAfter instant = 0 := by
  rw [answersAfter, List.countP_eq_zero]
  intro y hy
  have := hpast y hy
  simp only [decide_eq_true_eq]
  omega

end Add

end History

/-! ## Stages of a wait -/

/-- Where a request can be that waits for a record until an instant, with the status and body that
it is to be given in the end and the number of answers it has taken since that instant. -/
def Stage.Waits (V : UInt16 → Bytes → Prop) (endsAt late : Nat) : Stage → Prop
  | .pausing _ _ poll _ => poll.endsAt = endsAt ∧ late = 0
  | .fetching _ _ poll _ => poll.endsAt = endsAt ∧ late ≤ 1
  | .telling _ _ (.settle _ response) => V response.status response.body ∧ late ≤ 2
  | .charging _ _ _ response => V response.status response.body ∧ late ≤ 3
  | .telling _ _ (.finish (.ok response)) => V response.status response.body ∧ late ≤ 4
  | .finished (.ok response) => V response.status response.body ∧ late ≤ 5
  | _ => False

section Waits

variable {V : UInt16 → Bytes → Prop} {endsAt late late' : Nat} {plan : Plan} {t : Moment}

theorem Stage.Waits.mono {W : UInt16 → Bytes → Prop} {stage : Stage}
    (h : stage.Waits V endsAt late) (hVW : ∀ status body, V status body → W status body) :
    stage.Waits W endsAt late := by
  cases stage with
  | pausing => exact h
  | fetching => exact h
  | charging => exact ⟨hVW _ _ h.1, h.2⟩
  | telling event owned goal =>
      cases goal with
      | settle => exact ⟨hVW _ _ h.1, h.2⟩
      | finish result =>
          cases result with
          | ok response => exact ⟨hVW _ _ h.1, h.2⟩
          | error e => exact h.elim
      | _ => exact h.elim
  | finished result =>
      cases result with
      | ok response => exact ⟨hVW _ _ h.1, h.2⟩
      | error e => exact h.elim
  | _ => exact h.elim

theorem waits_enter (plan : Plan) (t : Moment) {verdict : Verdict} {response : Response}
    (hV : V response.status response.body) (hlate : late ≤ 3) :
    (plan.enter t (.settle verdict response)).Waits V endsAt late := by
  have hV' : V (verdict.decorate response).status (verdict.decorate response).body := by
    rwa [Verdict.status_decorate, Verdict.body_decorate]
  simp only [Plan.enter]
  split
  · exact ⟨hV', by omega⟩
  · split
    · exact ⟨hV', by omega⟩
    · exact ⟨hV', hlate⟩

theorem waits_conflict (hV : V Response.inProgress.status Response.inProgress.body)
    (verdict : Verdict) (hlate : late ≤ 2) :
    (Plan.conflict verdict).Waits V endsAt late :=
  ⟨hV, hlate⟩

theorem waits_keepWaiting (hV : V Response.inProgress.status Response.inProgress.body)
    (verdict : Verdict) (key : String) {poll : Poll} (hpoll : poll.endsAt = endsAt)
    (hlate : late ≤ 2) (hzero : t.instant < endsAt → late = 0) :
    (Plan.keepWaiting verdict key poll t).Waits V endsAt late := by
  unfold Plan.keepWaiting
  split
  · exact waits_conflict hV verdict hlate
  · exact ⟨hpoll, hzero (by omega)⟩

theorem waits_replay {record : Record} (hV : V record.status record.body)
    (hstatus : Response.isStatus record.status = true) (verdict : Verdict) (hlate : late ≤ 2) :
    (Plan.replay verdict record).Waits V endsAt late := by
  simp only [Plan.replay, Response.ofRecord, hstatus, if_true]
  exact ⟨hV, hlate⟩

/-- The claim has found the key taken. -/
theorem waits_claimed {record : Record} {maxWait interval : UInt64}
    (hflight : plan.inFlight = .wait maxWait interval)
    (hend : plan.inFlight.waitEnd t.instant = endsAt)
    (hconflict : V Response.inProgress.status Response.inProgress.body)
    (hfound : record.isProcessing = false →
      V record.status record.body ∧ Response.isStatus record.status = true)
    (verdict : Verdict) (key : String) (hlate : late = 0) :
    (plan.claimed verdict key t (.alreadyClaimed record)).Waits V endsAt late := by
  simp only [Plan.claimed]
  split
  · rw [hflight] at hend
    simp only [hflight]
    exact waits_keepWaiting hconflict _ _ hend (by omega) fun _ => hlate
  · next hfinal =>
    obtain ⟨hV, hstatus⟩ := hfound (Bool.eq_false_iff.mpr hfinal)
    exact waits_replay hV hstatus _ (by omega)

theorem Stage.Waits.resume {stage : Stage} {reply : (plan.await stage).Reply}
    (h : stage.Waits V endsAt late) (hlate : late' ≤ late + 1)
    (hzero : t.instant < endsAt → late' = 0)
    (hconflict : V Response.inProgress.status Response.inProgress.body)
    (hfound : ∀ key record, Exchange.found? ⟨t, plan.await stage, reply⟩ = some (key, record) →
      record.isProcessing = false →
        V record.status record.body ∧ Response.isStatus record.status = true)
    (hfaultless : ∀ call e,
      (⟨t, plan.await stage, reply⟩ : Exchange) ≠ ⟨t, .record call, .error e⟩) :
    (plan.resume t stage reply).Waits V endsAt late' := by
  cases stage with
  | pausing verdict key poll left =>
      obtain ⟨hpoll, hlate0⟩ := h
      exact ⟨hpoll, by omega⟩
  | fetching verdict key poll now =>
      obtain ⟨hpoll, hlate1⟩ := h
      match reply with
      | .ok (some record) =>
          simp only [Plan.resume, Plan.fetched]
          split
          · exact waits_keepWaiting hconflict _ _ hpoll (by omega) hzero
          · next hfinal =>
            obtain ⟨hV, hstatus⟩ := hfound key record rfl (Bool.eq_false_iff.mpr hfinal)
            exact waits_replay hV hstatus _ (by omega)
      | .ok none => exact waits_conflict hconflict _ (by omega)
      | .error e => exact absurd rfl (hfaultless _ e)
  | charging account cost now response =>
      obtain ⟨hV, hlate3⟩ := h
      cases reply <;> exact ⟨hV, by omega⟩
  | telling event owned goal =>
      cases goal with
      | settle verdict response =>
          obtain ⟨hV, hlate2⟩ := h
          exact waits_enter plan t hV (by omega)
      | finish result =>
          cases result with
          | ok response =>
              obtain ⟨hV, hlate4⟩ := h
              exact ⟨hV, by omega⟩
          | error e => exact h.elim
      | _ => exact h.elim
  | finished result => exact reply.elim
  | _ => exact h.elim

/-- A waiting request has its response, or waits for an answer that it can be given and has not
taken five since its wait was over. -/
theorem Stage.Waits.finished_or_pending {stage : Stage} (h : stage.Waits V endsAt late)
    (plan : Plan) (records : Store) :
    (∃ response, stage = .finished (.ok response) ∧ V response.status response.body) ∨
      late < 5 ∧ ∃ signal : Signal, (signal.reply? records (plan.await stage)).isSome = true := by
  cases stage with
  | pausing => exact .inr ⟨by have := h.2; omega, .done, rfl⟩
  | fetching => exact .inr ⟨by have := h.2; omega, .answered, rfl⟩
  | charging => exact .inr ⟨by have := h.2; omega, .deducted (.ok 0), rfl⟩
  | telling event owned goal =>
      refine .inr ⟨?_, .done, rfl⟩
      cases goal with
      | settle => have := h.2; omega
      | finish result =>
          cases result with
          | ok response => have := h.2; omega
          | error e => exact h.elim
      | _ => exact h.elim
  | finished result =>
      cases result with
      | ok response => exact .inl ⟨response, rfl, h.1⟩
      | error e => exact h.elim
  | _ => exact h.elim

end Waits

/-! ## All waiting requests -/

namespace Traffic

variable {s : Traffic} {key : String}

/-- The handler of a winner has returned a response with this status and body, and it was saved. -/
def Vouched (key : String) (s : Traffic) (status : UInt16) (body : Bytes) : Prop :=
  ∃ (i : Nat) (p : Passage) (since : UInt64) (response : Response), s.passages[i]? = some p ∧
    p.Won key since ∧ p.Returned response ∧ p.Saved key status body ∧ response.status = status ∧
    response.body = body ∧ Response.isStatus response.status = true

theorem Vouched.isStatus {status : UInt16} {body : Bytes} (h : Vouched key s status body) :
    Response.isStatus status = true := by
  obtain ⟨-, -, -, response, -, -, -, -, rfl, -, his⟩ := h
  exact his

theorem Vouched.step {status : UInt16} {body : Bytes} (h : Vouched key s status body) (m : Move) :
    Vouched key (s.step m) status body := by
  obtain ⟨i, p, since, response, hp, hwon, hreturned, hsaved, hstatus, hbody, his⟩ := h
  obtain ⟨q, hq, -, hpre⟩ := past_prefix_step (m := m) hp
  exact ⟨i, q, since, response, hq, hwon.of_prefix hpre, hreturned.of_prefix hpre,
    hsaved.of_prefix hpre, hstatus, hbody, his⟩

/-- Whoever has saved a response has won, and its handler has returned the response. -/
theorem vouched_of_saved? (hsound : s.Sound) {m : Move} {status : UInt16} {body : Bytes}
    (hsaved : (s.exchange? m).bind Exchange.saved? = some (key, status, body)) :
    Vouched key (s.step m) status body := by
  obtain ⟨x, hx, hsaved⟩ := Option.bind_eq_some_iff.mp hsaved
  obtain ⟨i, p, signal, reply, records, -, hturned, hstep, rfl⟩ := exists_of_exchange? hx
  obtain ⟨howns, response, hreturned, hstatus, hbody, his⟩ :=
    (hsound i p hturned.passage).of_saved? hsaved
  obtain ⟨since, hwon⟩ := howns.won
  have hpre : p.past <+: (p.turn s.now reply).past := List.prefix_append _ _
  have hlast : (⟨s.now, p.await, reply⟩ : Exchange) ∈ (p.turn s.now reply).past :=
    List.mem_append_right _ (List.mem_singleton.mpr rfl)
  rw [hstep]
  exact ⟨i, _, since, response, getElem?_turn_self hturned.passage, hwon.add,
    hreturned.of_prefix hpre, ⟨_, hlast, hsaved⟩, hstatus, hbody, his⟩

/-- Every completed record is the response of a winner. -/
def Recorded (key : String) (s : Traffic) : Prop :=
  ∀ e, s.records.entries.get? key = some e → e.record.isProcessing = false →
    Vouched key s e.record.status e.record.body

theorem Recorded.step (h : Recorded key s) (hsound : s.Sound) (m : Move) :
    Recorded key (s.step m) := by
  intro e he hfinal
  cases origin_step hsound he with
  | old he hsame => exact (h e he hfinal).step m
  | claimed i q since hwinner hq hwon he =>
      rw [he] at hfinal
      cases hfinal
  | rewritten origin status body hsaved hstatus horigin he =>
      rw [he]
      exact vouched_of_saved? hsound hsaved
  | renewed i q now status body hsaved hstatus hq he =>
      rw [he]
      exact vouched_of_saved? hsound hsaved

end Traffic

end Admission
