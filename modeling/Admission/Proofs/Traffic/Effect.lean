import Mathlib.Order.Nat
import Admission.Proofs.Traffic.Basic

/-! # What a move can do

Every move either gives one request an answer, or leaves the histories of all requests and the
records alone, except that records that have expired may go. -/

namespace Admission

/-! ## Answers and the records -/

/-- What an answer says about the records and does to them. -/
inductive Effect (records : Record.Store) : Exchange → Record.Store → Prop
  | won {t key now ttl lease}
      (hfree : ∀ e, records.entries.get? key = some e → e.isHeld now = false) :
      Effect records ⟨t, .record (.claim key now ttl lease), .ok none⟩
        (records.put (.ofClaim key now ttl lease))
  | refused {t key now ttl lease e} (he : records.entries.get? key = some e)
      (hheld : e.isHeld now = true) :
      Effect records ⟨t, .record (.claim key now ttl lease), .ok (some e.record)⟩ records
  | saved {t key status body now ttl} :
      Effect records ⟨t, .record (.complete key status body now ttl), .ok ()⟩
        (records.answer (.complete key status body now ttl)).2
  | fetched {t key now} :
      Effect records ⟨t, .record (.fetch key now), .ok (records.answer (.fetch key now)).1⟩ records
  | deleted {t key now e} (he : records.entries.get? key = some e)
      (hprocessing : e.record.isProcessing = true) :
      Effect records ⟨t, .record (.release key now), .ok true⟩ ⟨records.entries.erase key⟩
  | vain {t key now} : Effect records ⟨t, .record (.release key now), .ok false⟩ records
  | failed {t call error} : Effect records ⟨t, .record call, .error error⟩ records
  | beside {x} (h : ∀ call, x.await ≠ .record call) : Effect records x records

namespace Signal

theorem effect_answered (records : Record.Store) (t : Moment) (call : Record.Call) :
    Effect records ⟨t, .record call, .ok (records.answer call).1⟩ (records.answer call).2 := by
  cases call with
  | claim key now ttl lease =>
      rcases records.answer_claim_cases key now ttl lease with ⟨e, he, hheld, ha⟩ | ⟨hfree, ha⟩
      · rw [ha]
        exact .refused he hheld
      · rw [ha]
        exact .won hfree
  | complete key status body now ttl => exact .saved
  | fetch key now => exact .fetched
  | release key now =>
      rcases records.answer_release_cases key now with ⟨e, he, hp, ha⟩ | ha
      · rw [ha]
        exact .deleted he hp
      · rw [ha]
        exact .vain

theorem effect_of_reply? {records records' : Record.Store} {signal : Signal} {a : Await}
    {reply : a.Reply} (h : signal.reply? records a = some (reply, records')) (t : Moment) :
    Effect records ⟨t, a, reply⟩ records' := by
  cases a with
  | record call =>
      cases signal with
      | answered =>
          obtain ⟨rfl, rfl⟩ : .ok (records.answer call).1 = reply ∧
              (records.answer call).2 = records' := by
            simpa [reply?] using h
          exact effect_answered records t call
      | failed e =>
          obtain ⟨rfl, rfl⟩ : .error e = reply ∧ records = records' := by
            simpa [reply?] using h
          exact .failed
      | _ => cases h
  | _ =>
      obtain ⟨_, -, hsame⟩ := Option.map_eq_some_iff.mp h
      cases hsame
      exact .beside fun call hcall => by cases hcall

/-- A handler returns a response only with a status that responses can have. -/
theorem isStatus_of_reply? {records records' : Record.Store} {signal : Signal} {a : Await}
    {reply : a.Reply} (h : signal.reply? records a = some (reply, records')) {t : Moment}
    {response : Response} (hr : Exchange.returned? ⟨t, a, reply⟩ = some response) :
    Response.isStatus response.status = true := by
  cases a with
  | handler =>
      cases signal with
      | returned result =>
          have hok : isResult result = true := by
            by_contra hok
            simp [reply?, beside?, hok] at h
          obtain ⟨rfl, -⟩ : result = reply ∧ records = records' := by
            simpa [reply?, beside?, hok] using h
          cases result with
          | ok r =>
              obtain rfl : r = response := by simpa [Exchange.returned?] using hr
              exact hok
          | error e => cases hr
      | _ => cases h
  | _ => cases hr

theorem records_of_reply?_answered {records records' : Record.Store} {a : Await} {reply : a.Reply}
    (h : answered.reply? records a = some (reply, records')) {call : Record.Call}
    (ha : a = .record call) : records' = (records.answer call).2 := by
  subst ha
  simp only [reply?, Option.some_inj, Prod.mk.injEq] at h
  exact h.2.symm

/-- Only the store of records answers its calls without an error. -/
theorem eq_answered_of_reply? {records records' : Record.Store} {signal : Signal} {a : Await}
    {reply : a.Reply} (h : signal.reply? records a = some (reply, records')) {t u : Moment}
    {call : Record.Call} {answer : call.Answer}
    (hx : (⟨t, a, reply⟩ : Exchange) = ⟨u, .record call, .ok answer⟩) : signal = answered := by
  cases hx
  cases signal with
  | answered => rfl
  | failed e => simp [reply?] at h
  | _ => cases h

theorem eq_failed_of_reply? {records records' : Record.Store} {signal : Signal} {a : Await}
    {reply : a.Reply} (h : signal.reply? records a = some (reply, records')) {t u : Moment}
    {call : Record.Call} {e : StoreError}
    (hx : (⟨t, a, reply⟩ : Exchange) = ⟨u, .record call, .error e⟩) : signal = failed e := by
  cases hx
  cases signal with
  | answered => simp [reply?] at h
  | failed e' =>
      obtain ⟨rfl, -⟩ : e' = e ∧ records = records' := by simpa [reply?] using h
      rfl
  | _ => cases h

end Signal

/-! ## Moves -/

namespace Moment

theorem clockSecs_le {t u : Moment} (h : t.clockMs ≤ u.clockMs) : t.clockSecs ≤ u.clockSecs := by
  rw [UInt64.le_iff_toNat_le] at h ⊢
  simp only [clockSecs, UInt64.toNat_div]
  exact Nat.div_le_div_right h

/-- The clock in seconds never comes near the end of the range. -/
theorem clockSecs_lt (t : Moment) : t.clockSecs.toNat < UInt64.size - 1 := by
  have h := t.clockMs.toNat_lt
  simp only [clockSecs, UInt64.toNat_div, UInt64.reduceToNat, UInt64.size]
  omega

end Moment

namespace Traffic

variable {s : Traffic}

/-- A move after which no request has another answer than before. -/
structure Still (s s' : Traffic) : Prop where
  clockSecs_le : s.now.clockSecs ≤ s'.now.clockSecs
  instant_le : s.now.instant ≤ s'.now.instant
  winners_eq : s'.winners = s.winners
  /-- Records only go when they have expired. -/
  records_eq : s'.records = s.records ∨ s'.records = s.records.purgeExpired s.now.clockSecs
  /-- Every request has the history it had, or has just arrived. -/
  old_or_new : ∀ (i : Nat) (p : Passage), s'.passages[i]? = some p →
    p.past = [] ∨ ∃ q, s.passages[i]? = some q ∧ p.toHistory = q.toHistory
  kept : ∀ (i : Nat) (q : Passage), s.passages[i]? = some q →
    ∃ p, s'.passages[i]? = some p ∧ p.toHistory = q.toHistory

theorem Still.refl (s : Traffic) : Still s s where
  clockSecs_le := UInt64.le_refl _
  instant_le := Nat.le_refl _
  winners_eq := rfl
  records_eq := .inl rfl
  old_or_new _ p hp := .inr ⟨p, hp, rfl⟩
  kept _ q hq := ⟨q, hq, rfl⟩

theorem Still.get?_of_get? {s' : Traffic} (h : Still s s') {key : String} {e : Record.Entry}
    (he : s'.records.entries.get? key = some e) : s.records.entries.get? key = some e := by
  rcases h.records_eq with hrecords | hrecords
  · rwa [hrecords] at he
  · rw [hrecords] at he
    exact Record.Store.get?_of_get?_purgeExpired he

theorem Still.get?_of_isLive {s' : Traffic} (h : Still s s') {key : String} {e : Record.Entry}
    (he : s.records.entries.get? key = some e) (hlive : e.isLive s.now.clockSecs = true) :
    s'.records.entries.get? key = some e := by
  rcases h.records_eq with hrecords | hrecords
  · rwa [hrecords]
  · rw [hrecords]
    exact Record.Store.get?_purgeExpired_of_live he hlive

theorem passage_arrive_cases {plan : Plan} {j : Nat} {q : Passage}
    (hq : (s.step (.arrive plan)).passages[j]? = some q) :
    s.passages[j]? = some q ∨ q = ⟨⟨plan, []⟩, .under (plan.start s.now)⟩ := by
  have happend : (s.passages ++ [(⟨⟨plan, []⟩, .under (plan.start s.now)⟩ : Passage)])[j]? =
    some q := hq
  rw [List.getElem?_append] at happend
  split at happend
  · exact .inl happend
  · rw [List.getElem?_singleton, Option.ite_none_right_eq_some, Option.some_inj] at happend
    exact .inr happend.2.symm

/-- Moving one request on without an answer leaves the others where they are. -/
theorem passage_modify_cases {passages : List Passage} {i j : Nat} {f : Course → Course}
    {q : Passage}
    (hq : (passages.modify i fun p => { p with course := f p.course })[j]? = some q) :
    ∃ p, passages[j]? = some p ∧ (q = p ∨ q = { p with course := f p.course }) := by
  rw [List.getElem?_modify, Option.map_eq_map, Option.map_eq_some_iff] at hq
  obtain ⟨p, hp, rfl⟩ := hq
  refine ⟨p, hp, ?_⟩
  split
  · exact .inr rfl
  · exact .inl rfl

theorem still_modify (s : Traffic) (i : Nat) (f : Course → Course) :
    Still s { s with
      passages := s.passages.modify i fun p => { p with course := f p.course } } where
  clockSecs_le := UInt64.le_refl _
  instant_le := Nat.le_refl _
  winners_eq := rfl
  records_eq := .inl rfl
  old_or_new j q hq := by
    obtain ⟨p, hp, rfl | rfl⟩ := passage_modify_cases hq
    · exact .inr ⟨q, hp, rfl⟩
    · exact .inr ⟨p, hp, rfl⟩
  kept j q hq := by
    rw [List.getElem?_modify, hq]
    refine ⟨_, rfl, ?_⟩
    by_cases hij : i = j <;> simp [hij]

theorem still_arrive (s : Traffic) (plan : Plan) : Still s (s.step (.arrive plan)) where
  clockSecs_le := UInt64.le_refl _
  instant_le := Nat.le_refl _
  winners_eq := rfl
  records_eq := .inl rfl
  old_or_new i p hp := by
    rcases passage_arrive_cases hp with hp | rfl
    · exact .inr ⟨p, hp, rfl⟩
    · exact .inl rfl
  kept i q hq := by
    obtain ⟨hi, -⟩ := List.getElem?_eq_some_iff.mp hq
    exact ⟨q, (List.getElem?_append_left hi).trans hq, rfl⟩

structure Turned (s : Traffic) (i : Nat) (p : Passage) (signal : Signal) (reply : p.await.Reply)
    (records : Record.Store) : Prop where
  passage : s.passages[i]? = some p
  reply_eq : signal.reply? s.records p.await = some (reply, records)

theorem Turned.effect {i : Nat} {p : Passage} {signal : Signal} {reply : p.await.Reply}
    {records : Record.Store} (h : Turned s i p signal reply records) :
    Effect s.records ⟨s.now, p.await, reply⟩ records :=
  Signal.effect_of_reply? h.reply_eq s.now

/-- The answer that a move gives, if it gives one. -/
def exchange? (s : Traffic) : Move → Option Exchange
  | .answer i signal =>
    match s.passages[i]? with
    | none => none
    | some p => (signal.reply? s.records p.await).map fun r => ⟨s.now, p.await, r.1⟩
  | _ => none

def exchanges (s : Traffic) : List Move → List Exchange
  | [] => []
  | m :: moves => (s.exchange? m).toList ++ exchanges (s.step m) moves

theorem Turned.exchange?_eq {i : Nat} {p : Passage} {signal : Signal} {reply : p.await.Reply}
    {records : Record.Store} (h : Turned s i p signal reply records) :
    s.exchange? (.answer i signal) = some ⟨s.now, p.await, reply⟩ := by
  simp only [exchange?, h.passage, h.reply_eq, Option.map_some]

theorem step_answer_cases (s : Traffic) (i : Nat) (signal : Signal) :
    s.exchange? (.answer i signal) = none ∧ s.step (.answer i signal) = s ∨
      ∃ p reply records, Turned s i p signal reply records ∧
        s.step (.answer i signal) = s.turn i p reply records := by
  cases hp : s.passages[i]? with
  | none => exact .inl ⟨by simp only [exchange?, hp], by simp only [step, hp]⟩
  | some p =>
      cases hr : signal.reply? s.records p.await with
      | none => exact .inl ⟨by simp [exchange?, hp, hr], by simp only [step, hp, hr]⟩
      | some answer =>
          obtain ⟨reply, records⟩ := answer
          exact .inr ⟨p, reply, records, ⟨hp, hr⟩, by simp only [step, hp, hr]⟩

/-- A move leaves the histories alone, or it gives one request an answer. -/
theorem step_cases (s : Traffic) (m : Move) :
    s.exchange? m = none ∧ Still s (s.step m) ∨
      ∃ i p signal reply records, m = .answer i signal ∧ Turned s i p signal reply records ∧
        s.step m = s.turn i p reply records := by
  cases m with
  | arrive plan => exact .inl ⟨rfl, still_arrive s plan⟩
  | advance t =>
      by_cases h : s.now.clockMs ≤ t.clockMs ∧ s.now.instant ≤ t.instant
      · rw [step, if_pos h]
        exact .inl ⟨rfl, { Still.refl s with
          clockSecs_le := Moment.clockSecs_le h.1
          instant_le := h.2 }⟩
      · rw [step, if_neg h]
        exact .inl ⟨rfl, .refl s⟩
  | purge => exact .inl ⟨rfl, { Still.refl s with records_eq := .inr rfl }⟩
  | answer i signal =>
      rcases s.step_answer_cases i signal with ⟨hnone, hsame⟩ | ⟨p, reply, records, hturned, hstep⟩
      · rw [hsame]
        exact .inl ⟨hnone, .refl s⟩
      · exact .inr ⟨i, p, signal, reply, records, rfl, hturned, hstep⟩
  | drop i inside => exact .inl ⟨rfl, still_modify s i _⟩
  | rouse i => exact .inl ⟨rfl, still_modify s i _⟩

/-! ## After an answer -/

section Turn

variable {i : Nat} {p : Passage} {reply : p.await.Reply} {records : Record.Store}

theorem getElem?_turn_self (hp : s.passages[i]? = some p) :
    (s.turn i p reply records).passages[i]? = some (p.turn s.now reply) := by
  obtain ⟨hi, -⟩ := List.getElem?_eq_some_iff.mp hp
  simp [turn, hi]

theorem getElem?_turn_of_ne {j : Nat} (h : j ≠ i) :
    (s.turn i p reply records).passages[j]? = s.passages[j]? :=
  List.getElem?_set_ne h.symm

theorem passage_turn_cases (hp : s.passages[i]? = some p) {j : Nat} {q : Passage}
    (hq : (s.turn i p reply records).passages[j]? = some q) :
    j = i ∧ q = p.turn s.now reply ∨ j ≠ i ∧ s.passages[j]? = some q := by
  by_cases hj : j = i
  · subst hj
    rw [getElem?_turn_self hp, Option.some_inj] at hq
    exact .inl ⟨rfl, hq.symm⟩
  · rw [getElem?_turn_of_ne hj] at hq
    exact .inr ⟨hj, hq⟩

/-- Another answer than the winning of its claim leaves the winner of a key alone. -/
theorem get?_winners_turn_of_ne {key : String}
    (h : Exchange.won? ⟨s.now, p.await, reply⟩ ≠ some key) :
    (s.turn i p reply records).winners.get? key = s.winners.get? key := by
  simp only [turn]
  split
  · next k hwon =>
    have hne : key ≠ k := by
      rintro rfl
      exact h hwon
    exact Table.get?_insert_of_ne _ _ hne
  · rfl

theorem get?_winners_turn_self {key : String}
    (h : Exchange.won? ⟨s.now, p.await, reply⟩ = some key) :
    (s.turn i p reply records).winners.get? key = some i := by
  simp only [turn, h]
  exact Table.get?_insert_self _ _ _

end Turn

theorem clockSecs_le_step (s : Traffic) (m : Move) :
    s.now.clockSecs ≤ (s.step m).now.clockSecs := by
  rcases s.step_cases m with ⟨-, hstill⟩ | ⟨i, p, signal, reply, records, -, -, hstep⟩
  · exact hstill.clockSecs_le
  · rw [hstep]
    exact UInt64.le_refl _

theorem instant_le_step (s : Traffic) (m : Move) : s.now.instant ≤ (s.step m).now.instant := by
  rcases s.step_cases m with ⟨-, hstill⟩ | ⟨i, p, signal, reply, records, -, -, hstep⟩
  · exact hstill.instant_le
  · rw [hstep]
    exact Nat.le_refl _

theorem clockSecs_le_run (s : Traffic) (moves : List Move) :
    s.now.clockSecs ≤ (s.run moves).now.clockSecs := by
  induction moves generalizing s with
  | nil => exact UInt64.le_refl _
  | cons m moves ih => exact UInt64.le_trans (s.clockSecs_le_step m) (ih (s.step m))

theorem exists_of_exchange? {m : Move} {x : Exchange} (h : s.exchange? m = some x) :
    ∃ i p signal reply records, m = .answer i signal ∧ Turned s i p signal reply records ∧
      s.step m = s.turn i p reply records ∧ x = ⟨s.now, p.await, reply⟩ := by
  rcases s.step_cases m with ⟨hnone, -⟩ | ⟨i, p, signal, reply, records, rfl, hturned, hstep⟩
  · rw [hnone] at h
    cases h
  · rw [hturned.exchange?_eq, Option.some_inj] at h
    exact ⟨i, p, signal, reply, records, rfl, hturned, hstep, h.symm⟩

/-- A request has just arrived, has the history that it had, or has been given one more answer. -/
theorem history_step_cases {m : Move} {j : Nat} {q : Passage}
    (hq : (s.step m).passages[j]? = some q) :
    q.past = [] ∨ (∃ p, s.passages[j]? = some p ∧ q.toHistory = p.toHistory) ∨
      ∃ p signal reply records, m = .answer j signal ∧ Turned s j p signal reply records ∧
        s.step m = s.turn j p reply records ∧ q = p.turn s.now reply := by
  rcases s.step_cases m with ⟨-, hstill⟩ | ⟨i, p, signal, reply, records, rfl, hturned, hstep⟩
  · rcases hstill.old_or_new j q hq with hnew | hold
    · exact .inl hnew
    · exact .inr (.inl hold)
  · rw [hstep] at hq
    rcases passage_turn_cases hturned.passage hq with ⟨rfl, rfl⟩ | ⟨-, hq⟩
    · exact .inr (.inr ⟨p, signal, reply, records, rfl, hturned, hstep, rfl⟩)
    · exact .inr (.inl ⟨q, hq, rfl⟩)

/-- What a move can make of a request. -/
inductive Next (s : Traffic) (i : Nat) (p : Passage) : Passage → Prop
  | same : Next s i p p
  | dropped (inside : Bool) : Next s i p { p with course := p.course.drop inside }
  | roused : Next s i p { p with course := p.course.rouse s.now.clockSecs }
  | answered {signal : Signal} {reply : p.await.Reply} {records : Record.Store}
      (turned : Turned s i p signal reply records) : Next s i p (p.turn s.now reply)

theorem getElem?_modify_self {passages : List Passage} {i : Nat} {p : Passage}
    (hp : passages[i]? = some p) (f : Course → Course) :
    (passages.modify i fun p => { p with course := f p.course })[i]? =
      some { p with course := f p.course } := by
  rw [List.getElem?_modify_eq, hp]
  rfl

/-- Every request is still there after a move. -/
theorem exists_next {i : Nat} {p : Passage} (hp : s.passages[i]? = some p) (m : Move) :
    ∃ q, (s.step m).passages[i]? = some q ∧ Next s i p q := by
  cases m with
  | arrive plan =>
      obtain ⟨hi, -⟩ := List.getElem?_eq_some_iff.mp hp
      exact ⟨p, (List.getElem?_append_left hi).trans hp, .same⟩
  | advance t =>
      rw [step]
      split
      · exact ⟨p, hp, .same⟩
      · exact ⟨p, hp, .same⟩
  | purge => exact ⟨p, hp, .same⟩
  | answer j signal =>
      rcases s.step_answer_cases j signal with ⟨-, hsame⟩ | ⟨q, reply, records, hturned, hstep⟩
      · rw [hsame]
        exact ⟨p, hp, .same⟩
      · rw [hstep]
        by_cases hij : i = j
        · subst hij
          obtain rfl : p = q := Option.some_inj.mp (hp.symm.trans hturned.passage)
          exact ⟨_, getElem?_turn_self hp, .answered hturned⟩
        · rw [getElem?_turn_of_ne hij]
          exact ⟨p, hp, .same⟩
  | drop j inside =>
      by_cases hij : j = i
      · subst hij
        exact ⟨_, getElem?_modify_self hp _, .dropped inside⟩
      · exact ⟨p, (List.getElem?_modify_ne _ _ hij).trans hp, .same⟩
  | rouse j =>
      by_cases hij : j = i
      · subst hij
        exact ⟨_, getElem?_modify_self hp _, .roused⟩
      · exact ⟨p, (List.getElem?_modify_ne _ _ hij).trans hp, .same⟩

/-- A request was there before a move, or has just arrived. -/
theorem next_or_new {m : Move} {i : Nat} {q : Passage}
    (hq : (s.step m).passages[i]? = some q) :
    (∃ p, s.passages[i]? = some p ∧ Next s i p q) ∨
      ∃ plan, q = ⟨⟨plan, []⟩, .under (plan.start s.now)⟩ := by
  cases hp : s.passages[i]? with
  | some p =>
      obtain ⟨q', hq', hnext⟩ := exists_next hp m
      obtain rfl : q = q' := Option.some_inj.mp (hq.symm.trans hq')
      exact .inl ⟨p, rfl, hnext⟩
  | none =>
      have hgone : s.passages[i]? ≠ some q := by simp [hp]
      cases m with
      | arrive plan => exact .inr ⟨plan, (passage_arrive_cases hq).resolve_left hgone⟩
      | advance t =>
          rw [step] at hq
          split at hq
          · exact absurd hq hgone
          · exact absurd hq hgone
      | purge => exact absurd hq hgone
      | answer j signal =>
          rcases s.step_answer_cases j signal with ⟨-, hsame⟩ | ⟨p, reply, records, hturned, hstep⟩
          · rw [hsame] at hq
            exact absurd hq hgone
          · rw [hstep] at hq
            rcases passage_turn_cases hturned.passage hq with ⟨rfl, -⟩ | ⟨-, hq⟩
            · cases hp.symm.trans hturned.passage
            · exact absurd hq hgone
      | drop j inside =>
          obtain ⟨p, hp', -⟩ := passage_modify_cases hq
          cases hp.symm.trans hp'
      | rouse j =>
          obtain ⟨p, hp', -⟩ := passage_modify_cases hq
          cases hp.symm.trans hp'

/-- A request that has settled nothing has not done so by its latest answer. -/
theorem settles_eq_false_of_exchange? {j : Nat} {signal : Signal} {q : Passage} {x : Exchange}
    (hq : (s.step (.answer j signal)).passages[j]? = some q) (hsettled : q.settled = false)
    (hx : s.exchange? (.answer j signal) = some x) : x.settles = false := by
  obtain ⟨i, p, signal', reply, records, hm, hturned, hstep, rfl⟩ := exists_of_exchange? hx
  cases hm
  rw [hstep, getElem?_turn_self hturned.passage, Option.some_inj] at hq
  rw [← hq, Passage.turn, History.settled_add] at hsettled
  exact (Bool.or_eq_false_iff.mp hsettled).2

/-- No move takes anything out of a history. -/
theorem past_prefix_step {m : Move} {i : Nat} {p : Passage} (hp : s.passages[i]? = some p) :
    ∃ q, (s.step m).passages[i]? = some q ∧ q.plan = p.plan ∧ p.past <+: q.past := by
  rcases s.step_cases m with ⟨-, hstill⟩ | ⟨j, q, signal, reply, records, -, hturned, hstep⟩
  · obtain ⟨q, hq, hsame⟩ := hstill.kept i p hp
    rw [← hsame]
    exact ⟨q, hq, rfl, List.prefix_rfl⟩
  · rw [hstep]
    by_cases hij : i = j
    · subst hij
      obtain rfl : p = q := Option.some_inj.mp (hp.symm.trans hturned.passage)
      exact ⟨_, getElem?_turn_self hp, rfl, List.prefix_append _ _⟩
    · rw [getElem?_turn_of_ne hij]
      exact ⟨p, hp, rfl, List.prefix_rfl⟩

end Traffic

end Admission
