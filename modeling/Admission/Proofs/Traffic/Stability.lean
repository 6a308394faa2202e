import Admission.Proofs.Traffic.Ownership

/-! # How long a completed record stays the same

A record that has a response keeps it for its lifetime, unless another response is saved over it.
Nobody is left to do that when all claims are saved or given up in time. -/

namespace Admission

open Record

/-! ## Reading records -/

namespace Exchange

/-- The key under which a response was found, and the response. -/
def replay? (x : Exchange) : Option (String × Response) :=
  x.found?.bind fun f => (Response.ofRecord f.2).toOption.map fun response => (f.1, response)

def savedUnder? (key : String) (x : Exchange) : Option (UInt16 × Bytes) :=
  (x.saved?.filter (·.1 == key)).map Prod.snd

end Exchange

theorem Response.ofRecord_eq_ok {record : Record} {response : Response}
    (h : ofRecord record = .ok response) :
    response.status = record.status ∧ response.body = record.body := by
  unfold ofRecord at h
  split at h
  · cases h
    exact ⟨rfl, rfl⟩
  · cases h

namespace Traffic

variable {s : Traffic} {key : String} {e : Entry}

/-! ## One move -/

/-- The entry with the responses written into it that are saved under its key. -/
def completeAll (key : String) (e : Entry) (answers : List Exchange) : Entry :=
  (answers.filterMap (Exchange.savedUnder? key)).foldl (fun e saved => e.complete saved.1 saved.2) e

theorem completeAll_append (key : String) (e : Entry) (answers rest : List Exchange) :
    completeAll key e (answers ++ rest) = completeAll key (completeAll key e answers) rest := by
  rw [completeAll, List.filterMap_append, List.foldl_append]
  rfl

theorem completeAll_of_ne {x : Option Exchange}
    (h : ∀ status body, x.bind Exchange.saved? ≠ some (key, status, body)) :
    completeAll key e x.toList = e := by
  have hnone : x.bind (Exchange.savedUnder? key) = none := by
    rw [Option.bind_eq_none_iff]
    intro y hy
    rw [Exchange.savedUnder?, Option.map_eq_none_iff, Option.filter_eq_none_iff]
    rintro ⟨k, status, body⟩ hsaved hk
    obtain rfl := beq_iff_eq.mp hk
    exact h status body (by rw [Option.mem_def.mp hy]; exact hsaved)
  cases x with
  | none => rfl
  | some y =>
      have hy : Exchange.savedUnder? key y = none := hnone
      simp only [completeAll, Option.toList_some, List.filterMap_cons, hy, List.filterMap_nil,
        List.foldl_nil]

theorem completeAll_of_saved? {x : Option Exchange} {status : UInt16} {body : Bytes}
    (h : x.bind Exchange.saved? = some (key, status, body)) :
    completeAll key e x.toList = e.complete status body := by
  obtain ⟨y, rfl, hsaved⟩ := Option.bind_eq_some_iff.mp h
  simp [completeAll, Exchange.savedUnder?, hsaved, Option.filter]

/-- A move does nothing to a completed record in its lifetime but write a response into it that is
saved. -/
theorem completed_step (hsound : s.Sound) (he : s.records.entries.get? key = some e)
    (hfinal : e.record.isProcessing = false) (hlive : e.isLive s.now.clockSecs = true) (m : Move) :
    (s.step m).records.entries.get? key = some (completeAll key e (s.exchange? m).toList) ∧
      (completeAll key e (s.exchange? m).toList).record.isProcessing = false := by
  have hheld := Entry.isHeld_of_isProcessing_eq_false hfinal hlive
  obtain ⟨-, hfate⟩ := held_step hsound he hheld m
  cases hfate with
  | same hsaved hafter =>
      rw [completeAll_of_ne hsaved]
      exact ⟨hafter, hfinal⟩
  | completed status body hsaved hstatus hafter =>
      rw [completeAll_of_saved? hsaved]
      exact ⟨hafter, e.isProcessing_complete body hstatus⟩
  | deleted t now hx hprocessing => cases hfinal.symm.trans hprocessing

theorem expiresAt_completeAll (key : String) (e : Entry) (answers : List Exchange) :
    (completeAll key e answers).expiresAt = e.expiresAt := by
  rw [completeAll]
  induction answers.filterMap (Exchange.savedUnder? key) generalizing e with
  | nil => rfl
  | cons saved rest ih => exact ih (e.complete saved.1 saved.2)

theorem exists_get?_of_found? {x : Exchange} {records : Store} {record : Record}
    (heffect : Effect s.records x records) (hfound : x.found? = some (key, record)) :
    ∃ e, s.records.entries.get? key = some e ∧ e.record = record := by
  cases heffect with
  | refused he hheld =>
      cases hfound
      exact ⟨_, he, rfl⟩
  | @fetched t k now =>
      cases hanswer : (s.records.answer (.fetch k now)).1 with
      | none =>
          rw [hanswer] at hfound
          cases hfound
      | some found =>
          rw [hanswer] at hfound
          cases hfound
          exact Store.exists_get?_of_answer_fetch hanswer
  | @failed t call error =>
      cases call with
      | _ => cases hfound
  | beside hbeside =>
      rcases Exchange.exists_of_found? hfound with ⟨now, ttl, lease, hawait⟩ | ⟨now, hawait⟩
      · exact absurd hawait (hbeside _)
      · exact absurd hawait (hbeside _)
  | _ => cases hfound

/-- What is found under the key of a record is the record. -/
theorem eq_of_found? {m : Move} {x : Exchange} {record : Record}
    (he : s.records.entries.get? key = some e) (hx : s.exchange? m = some x)
    (hfound : x.found? = some (key, record)) : record = e.record := by
  obtain ⟨i, p, signal, reply, records, -, hturned, -, rfl⟩ := exists_of_exchange? hx
  obtain ⟨e', he', rfl⟩ := exists_get?_of_found? hturned.effect hfound
  rw [Option.some_inj.mp (he'.symm.trans he)]

theorem eq_of_replay? {m : Move} {x : Exchange} {response : Response}
    (he : s.records.entries.get? key = some e) (hx : s.exchange? m = some x)
    (hreplay : x.replay? = some (key, response)) :
    response.status = e.record.status ∧ response.body = e.record.body := by
  obtain ⟨⟨k, record⟩, hfound, hresponse⟩ := Option.bind_eq_some_iff.mp hreplay
  obtain ⟨r, hok, hr⟩ := Option.map_eq_some_iff.mp hresponse
  cases hr
  rw [← eq_of_found? he hx hfound]
  cases hresult : Response.ofRecord record with
  | ok r =>
      obtain rfl : r = response := by simpa [hresult, Except.toOption] using hok
      exact Response.ofRecord_eq_ok hresult
  | error e => simp [hresult, Except.toOption] at hok

/-! ## Saving and giving up in time -/

/-- A move in which a request saves under the key or gives the key up is made while the request
still holds the key. -/
def SettlesInTime (key : String) (s : Traffic) (m : Move) : Prop :=
  ∀ c ∈ s.call? m, c.2.settles key = true → ∃ since, c.1.Holds key since s.now.clockSecs

instance (key : String) (s : Traffic) (m : Move) : Decidable (SettlesInTime key s m) :=
  inferInstanceAs (Decidable (∀ c ∈ s.call? m, _))

theorem SettlesInTime.releasesInTime {m : Move} (h : SettlesInTime key s m) :
    ReleasesInTime key s m :=
  fun c hc hreleases => h c hc (Call.settles_of_releases hreleases)

/-- As long as a request holds the key there is no response. -/
def Untouched (key : String) (s : Traffic) : Prop :=
  ∀ (i : Nat) (p : Passage) (since : UInt64), s.passages[i]? = some p →
    p.Holds key since s.now.clockSecs →
    ∀ e, s.records.entries.get? key = some e → e.record.isProcessing = true

/-- A request that keeps its key sees neither a save under the key nor its release. -/
theorem Owned.settles_eq_false_of_inTime (h : Owned key s) {m : Move}
    (hinTime : SettlesInTime key s m) {j : Nat} {p q : Passage} {since : UInt64}
    (hp : s.passages[j]? = some p) (hholds : p.Holds key since s.now.clockSecs)
    (hq : (s.step m).passages[j]? = some q) (hunsettled : q.settled = false) {t : Moment}
    {call : Call} {answer : call.Answer}
    (hx : s.exchange? m = some ⟨t, .record call, .ok answer⟩) (hsettles : call.settles key = true) :
    Exchange.settles ⟨t, .record call, .ok answer⟩ = false := by
  obtain ⟨history, hcall⟩ := exists_call?_of_exchange? hx
  exact h.settles_eq_false hp hholds hq hunsettled hx hcall (hinTime _ hcall hsettles)

theorem Untouched.step (h : Untouched key s) (howned : Owned key s) (hsound : s.Sound) {m : Move}
    (hinTime : SettlesInTime key s m) : Untouched key (s.step m) := by
  intro j q since hq hholds e' he'
  rcases holds_step_cases hq hholds with
    ⟨p, hp, hplan, hbefore⟩ | ⟨p, signal, reply, records, rfl, hturned, hstep, hplan, hclaim⟩
  · obtain ⟨-, e, he, hd⟩ := howned j p since hp hbefore
    obtain ⟨-, hfate⟩ := held_step hsound he (hbefore.inTime.isHeld hd) m
    cases hfate with
    | same hsaved hafter =>
        obtain rfl := Option.some_inj.mp (hafter.symm.trans he')
        exact h j p since hp hbefore e he
    | completed status body hsaved hstatus hafter =>
        obtain ⟨x, hx, hsaved⟩ := Option.bind_eq_some_iff.mp hsaved
        obtain ⟨t, now, ttl, rfl⟩ := Exchange.exists_of_saved? hsaved
        cases howned.settles_eq_false_of_inTime hinTime hp hbefore hq hholds.unsettled hx
          (beq_self_eq_true key)
    | deleted t now hx hprocessing =>
        cases howned.settles_eq_false_of_inTime hinTime hp hbefore hq hholds.unsettled hx
          (beq_self_eq_true key)
  · obtain ⟨-, he⟩ := won_turn (i := j) (hsound j p hturned.passage) hturned.effect hclaim
    rw [hstep] at he'
    obtain rfl := Option.some_inj.mp (he.symm.trans he')
    rfl

/-- What a run keeps in which every claim on a key is settled in time. -/
structure Intact (key : String) (s : Traffic) : Prop where
  sound : s.Sound
  owned : Owned key s
  untouched : Untouched key s

theorem Intact.step (h : Intact key s) {m : Move} (hinTime : SettlesInTime key s m) :
    Intact key (s.step m) where
  sound := h.sound.step m
  owned := h.owned.step h.sound hinTime.releasesInTime
  untouched := h.untouched.step h.owned h.sound hinTime

theorem intact_run {t : Moment} {moves : List Move}
    (h : Along (SettlesInTime key) (start t) moves) : Intact key ((start t).run moves) :=
  h.preserves (fun _ _ hinTime hs => hs.step hinTime)
    ⟨sound_run t [], owned_start t, fun _ _ _ hp => by cases hp⟩

/-- Nothing is saved under the key of a completed record when claims are settled in time. -/
theorem Intact.saved?_ne (h : Intact key s) {m : Move} (hinTime : SettlesInTime key s m)
    (he : s.records.entries.get? key = some e) (hfinal : e.record.isProcessing = false)
    (status : UInt16) (body : Bytes) :
    (s.exchange? m).bind Exchange.saved? ≠ some (key, status, body) := by
  intro hsaved
  obtain ⟨x, hx, hsaved⟩ := Option.bind_eq_some_iff.mp hsaved
  obtain ⟨t, now, ttl, rfl⟩ := Exchange.exists_of_saved? hsaved
  obtain ⟨history, hcall⟩ := exists_call?_of_exchange? hx
  obtain ⟨since, hholds⟩ := hinTime _ hcall (beq_self_eq_true key)
  obtain ⟨i, p, -, hp, -, hhistory⟩ := exists_of_call? hcall
  rw [← hhistory] at hholds
  cases hfinal.symm.trans (h.untouched i p since hp hholds e he)

/-! ## Lifetimes -/

/-- An entry lives from the making of its record on, for the time to live of some request. -/
def Dated (key : String) (s : Traffic) : Prop :=
  ∀ e, s.records.entries.get? key = some e → ∃ (i : Nat) (p : Passage), s.passages[i]? = some p ∧
    e.expiresAt = Word.addClamped e.record.createdAt (lifetimeSecs p.plan.terms.ttl)

theorem Dated.step (h : Dated key s) (hsound : s.Sound) (m : Move) : Dated key (s.step m) := by
  -- What was there before is as old as it was, and its request is still there.
  have hold : ∀ e, s.records.entries.get? key = some e → ∃ (i : Nat) (p : Passage),
      (s.step m).passages[i]? = some p ∧
        e.expiresAt = Word.addClamped e.record.createdAt (lifetimeSecs p.plan.terms.ttl) := by
    intro e he
    obtain ⟨i, p, hp, hdated⟩ := h e he
    obtain ⟨q, hq, hplan, -⟩ := past_prefix_step (m := m) hp
    exact ⟨i, q, hq, by rw [hplan, hdated]⟩
  intro e he
  cases origin_step hsound he with
  | old he hsame => exact hold e he
  | claimed i q since hwinner hq hwon he =>
      subst he
      exact ⟨i, q, hq, rfl⟩
  | rewritten origin status body hsaved hstatus horigin he =>
      subst he
      exact hold origin horigin
  | renewed i q now status body hsaved hstatus hq he =>
      subst he
      exact ⟨i, q, hq, rfl⟩

theorem dated_run (t : Moment) (moves : List Move) : Dated key ((start t).run moves) :=
  (preserved_run (P := fun s => s.Sound ∧ Dated key s)
    (fun _ m hs => ⟨hs.1.step m, hs.2.step hs.1 m⟩) ⟨sound_run t [], fun _ he => by cases he⟩
    moves).2

/-! ## Runs -/

/-- In its lifetime a completed record only changes by the responses that are saved under its key.
-/
theorem completed_run (hsound : s.Sound) (he : s.records.entries.get? key = some e)
    (hfinal : e.record.isProcessing = false) {moves : List Move}
    (hlive : e.isLive (s.run moves).now.clockSecs = true) :
    (s.run moves).records.entries.get? key = some (completeAll key e (s.exchanges moves)) := by
  induction moves generalizing s e with
  | nil => exact he
  | cons m moves ih =>
      have hnow := Entry.isLive_of_le hlive (s.clockSecs_le_run (m :: moves))
      obtain ⟨he', hfinal'⟩ := completed_step hsound he hfinal hnow m
      rw [run_cons, exchanges, completeAll_append]
      refine ih (hsound.step m) he' hfinal' ?_
      rw [Entry.isLive, expiresAt_completeAll]
      exact hlive

/-- When claims are settled in time, a completed record stays as it is, and what is replayed in its
lifetime is its response. -/
theorem completed_run_of_inTime (h : Intact key s) (he : s.records.entries.get? key = some e)
    (hfinal : e.record.isProcessing = false) {moves : List Move}
    (hinTime : Along (SettlesInTime key) s moves)
    (hlive : e.isLive (s.run moves).now.clockSecs = true) :
    (s.run moves).records.entries.get? key = some e ∧
      ∀ x ∈ s.exchanges moves, ∀ response, x.replay? = some (key, response) →
        response.status = e.record.status ∧ response.body = e.record.body := by
  induction moves generalizing s with
  | nil => exact ⟨he, fun x hx => by cases hx⟩
  | cons m moves ih =>
      have hnow := Entry.isLive_of_le hlive (s.clockSecs_le_run (m :: moves))
      have hstep := (completed_step h.sound he hfinal hnow m).1
      rw [completeAll_of_ne (h.saved?_ne hinTime.1 he hfinal)] at hstep
      obtain ⟨hafter, hreplays⟩ := ih (h.step hinTime.1) hstep hinTime.2 hlive
      refine ⟨hafter, fun x hx response hreplay => ?_⟩
      rcases List.mem_append.mp hx with hx | hx
      · exact eq_of_replay? he (Option.mem_toList.mp hx) hreplay
      · exact hreplays x hx response hreplay

/-- A completed record stays the same for its lifetime, but for the responses that are saved over
it. None are saved, and all replays give its response, when every claim on its key is settled in
time. -/
theorem completed_record_stable {t : Moment} {moves rest : List Move}
    (he : ((start t).run moves).records.entries.get? key = some e)
    (hfinal : e.record.isProcessing = false)
    (hlive : ((start t).run (moves ++ rest)).now.clockSecs < e.expiresAt) :
    (∃ (i : Nat) (p : Passage), ((start t).run moves).passages[i]? = some p ∧
        e.expiresAt = Word.addClamped e.record.createdAt (lifetimeSecs p.plan.terms.ttl)) ∧
      ((start t).run (moves ++ rest)).records.entries.get? key =
        some (completeAll key e (((start t).run moves).exchanges rest)) ∧
      (Along (SettlesInTime key) (start t) (moves ++ rest) →
        ((start t).run (moves ++ rest)).records.entries.get? key = some e ∧
          ∀ x ∈ ((start t).run moves).exchanges rest, ∀ response,
            x.replay? = some (key, response) →
              response.status = e.record.status ∧ response.body = e.record.body) := by
  rw [run_append] at hlive ⊢
  have hlive : e.isLive (((start t).run moves).run rest).now.clockSecs = true :=
    decide_eq_true hlive
  refine ⟨dated_run t moves e he, completed_run (sound_run t moves) he hfinal hlive, ?_⟩
  intro hinTime
  obtain ⟨hbefore, hafter⟩ := along_append.mp hinTime
  exact completed_run_of_inTime (intact_run hbefore) he hfinal hafter hlive

def plainResponse (status : UInt16) (body : String) : Response := ⟨status, .empty, .ofString body⟩

/-- A request that saves its response in time. -/
def savingMoves : List Move :=
  [.arrive (recordsOnly "k"), .answer 0 .answered, .answer 0 .done, .advance ⟨59999, 59999000000⟩,
    .answer 0 (.returned (.ok (plainResponse 201 "b"))), .answer 0 .answered]

/-- A request that finds the response almost a day later. -/
def replayingMoves : List Move :=
  [.advance ⟨86399999, 86399999000000⟩, .purge, .arrive (recordsOnly "k"), .answer 1 .answered]

theorem completed_record_stable_savingMoves :
    ∃ e, ((start ⟨0, 0⟩).run savingMoves).records.entries.get? "k" = some e ∧
      e.record.isProcessing = false ∧
      ((start ⟨0, 0⟩).run (savingMoves ++ replayingMoves)).now.clockSecs < e.expiresAt ∧
      ((start ⟨0, 0⟩).run (savingMoves ++ replayingMoves)).records.entries.get? "k" = some e := by
  have he : ((start ⟨0, 0⟩).run savingMoves).records.entries.get? "k" =
      some ((Entry.ofClaim "k" 0 (.ofSecs 86400) (.ofSecs 60)).complete 201 (.ofString "b")) := by
    decide +kernel
  have hlive : ((start ⟨0, 0⟩).run (savingMoves ++ replayingMoves)).now.clockSecs < 86400 := by
    decide +kernel
  have hinTime : Along (SettlesInTime "k") (start ⟨0, 0⟩) (savingMoves ++ replayingMoves) := by
    decide +kernel
  have hstable := completed_record_stable he rfl hlive
  exact ⟨_, he, rfl, hlive, (hstable.2.2 hinTime).1⟩

/-- The handler of the first request outlives its lease. The second request saves its response,
which is replayed, and then the first one saves another response over it. -/
def lateSaveMoves : List Move :=
  [.arrive (recordsOnly "k"), .answer 0 .answered, .answer 0 .done, .advance ⟨60000, 60000000000⟩,
    .arrive (recordsOnly "k"), .answer 1 .answered, .answer 1 .done,
    .answer 1 (.returned (.ok (plainResponse 201 "b"))), .answer 1 .answered,
    .arrive (recordsOnly "k"), .answer 2 .answered,
    .answer 0 (.returned (.ok (plainResponse 200 "a"))), .answer 0 .answered,
    .arrive (recordsOnly "k"), .answer 3 .answered]

/-- Two replays of one record within its lifetime differ in status and body. -/
theorem replays_differ_lateSaveMoves :
    lateSaveMoves.all Move.isFaultless = true ∧
      ((start ⟨0, 0⟩).run lateSaveMoves).now.clockSecs < Word.addClamped 60 86400 ∧
      ((start ⟨0, 0⟩).exchanges lateSaveMoves).filterMap (fun x =>
          x.replay?.map fun r => (r.1, r.2.status, r.2.body)) =
        [("k", 201, .ofString "b"), ("k", 200, .ofString "a")] := by
  decide +kernel

end Traffic

end Admission
