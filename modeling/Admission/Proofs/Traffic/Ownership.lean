import Admission.Proofs.Traffic.Standing

/-! # Whose record a release deletes

A release names a key and not a claim. As long as every release of a key comes while the claim it
gives up still holds, the record it deletes is the one that this claim has put in. -/

namespace Admission

open Record

/-! ## Holding a key -/

namespace History

def entry (h : History) (key : String) (since : UInt64) : Entry :=
  .ofClaim key since h.plan.terms.ttl h.plan.terms.lease

/-- At a reading of the clock, neither the lease nor the lifetime of a claim is over. -/
def InTime (h : History) (since now : UInt64) : Prop :=
  now.toNat < since.toNat + (lifetimeSecs h.plan.terms.lease).toNat ∧
    now.toNat < since.toNat + (lifetimeSecs h.plan.terms.ttl).toNat

instance (h : History) (since now : UInt64) : Decidable (h.InTime since now) :=
  inferInstanceAs (Decidable (_ ∧ _))

/-- The claim made at a reading of the clock was won and is neither settled nor over. -/
structure Holds (h : History) (key : String) (since now : UInt64) : Prop where
  won : h.Won key since
  unsettled : h.settled = false
  inTime : h.InTime since now

instance (h : History) (key : String) (now : UInt64) : Decidable (∃ since, h.Holds key since now) :=
  decidable_of_iff
    (∃ c ∈ h.claim?, c.1 = key ∧ c.2.2 = .claimed ∧ h.settled = false ∧ h.InTime c.2.1 now) <| by
      constructor
      · rintro ⟨⟨k, since, claim⟩, hc, rfl, rfl, hsettled, htime⟩
        exact ⟨since, hc, hsettled, htime⟩
      · rintro ⟨since, hwon, hsettled, htime⟩
        exact ⟨_, hwon, rfl, rfl, hsettled, htime⟩

section InTime

variable {h : History} {key : String} {since : UInt64} {t : Moment} {e : Entry}

theorem InTime.mono {now now' : UInt64} (htime : h.InTime since now') (hle : now ≤ now') :
    h.InTime since now := by
  rw [UInt64.le_iff_toNat_le] at hle
  obtain ⟨hlease, httl⟩ := htime
  exact ⟨by omega, by omega⟩

theorem InTime.isLive (htime : h.InTime since t.clockSecs) (hd : e.Descends (h.entry key since)) :
    e.isLive t.clockSecs = true := by
  rw [Entry.isLive, decide_eq_true_eq, hd.expiresAt]
  exact (lt_addClamped_iff t.clockSecs_lt).mpr htime.2

theorem InTime.isHeld (htime : h.InTime since t.clockSecs) (hd : e.Descends (h.entry key since)) :
    e.isHeld t.clockSecs = true := by
  refine Entry.isHeld_of_lt_leaseUntil (htime.isLive hd) ?_
  rw [hd.leaseUntil]
  exact (lt_addClamped_iff t.clockSecs_lt).mpr htime.1

end InTime

end History

namespace Traffic

variable {s : Traffic} {key : String}

/-- The call that the store of records answers in a move, and the history of the request behind it.
-/
def call? (s : Traffic) : Move → Option (History × Call)
  | .answer i .answered =>
    match s.passages[i]? with
    | some p =>
      match p.await with
      | .record call => some (p.toHistory, call)
      | _ => none
    | none => none
  | _ => none

theorem exists_of_call? {m : Move} {c : History × Call} (h : s.call? m = some c) :
    ∃ i p, m = .answer i .answered ∧ s.passages[i]? = some p ∧ p.await = .record c.2 ∧
      p.toHistory = c.1 := by
  cases m with
  | answer i signal =>
      cases signal with
      | answered =>
          cases hp : s.passages[i]? with
          | none => simp [call?, hp] at h
          | some p =>
              cases hawait : p.await with
              | record call =>
                  obtain rfl : (p.toHistory, call) = c := by simpa [call?, hp, hawait] using h
                  exact ⟨i, p, rfl, hp, hawait, rfl⟩
              | _ => simp [call?, hp, hawait] at h
      | _ => cases h
  | _ => cases h

theorem call?_answered {i : Nat} {p : Passage} {call : Call} (hp : s.passages[i]? = some p)
    (hawait : p.await = .record call) :
    s.call? (.answer i .answered) = some (p.toHistory, call) := by
  simp only [call?, hp, hawait]

/-- An answer without an error is one of the store. -/
theorem exists_call?_of_exchange? {m : Move} {t : Moment} {call : Call} {answer : call.Answer}
    (h : s.exchange? m = some ⟨t, .record call, .ok answer⟩) :
    ∃ history, s.call? m = some (history, call) := by
  obtain ⟨i, p, signal, reply, records, rfl, hturned, -, hx⟩ := exists_of_exchange? h
  obtain rfl := Signal.eq_answered_of_reply? hturned.reply_eq hx.symm
  exact ⟨p.toHistory, call?_answered hturned.passage (congrArg Exchange.await hx.symm)⟩

/-! ## What happens to a held key -/

/-- What a move can do to the entry of a key that is held, by the answer that it gives. -/
inductive Fate (key : String) (e : Entry) (x : Option Exchange) (after : Option Entry) : Prop
  | same (hsaved : ∀ status body, x.bind Exchange.saved? ≠ some (key, status, body))
      (hafter : after = some e)
  | completed (status : UInt16) (body : Bytes)
      (hsaved : x.bind Exchange.saved? = some (key, status, body))
      (hstatus : status ≠ processingStatus) (hafter : after = some (e.complete status body))
  | deleted (t : Moment) (now : UInt64) (hx : x = some ⟨t, .record (.release key now), .ok true⟩)
      (hprocessing : e.record.isProcessing = true)

theorem held_turn {p : Passage} {reply : p.await.Reply} {records : Store} {e : Entry}
    (hfits : p.course.Fits p.toHistory s.now.clockSecs)
    (heffect : Effect s.records ⟨s.now, p.await, reply⟩ records)
    (he : s.records.entries.get? key = some e) (hheld : e.isHeld s.now.clockSecs = true) :
    Exchange.won? ⟨s.now, p.await, reply⟩ ≠ some key ∧
      Fate key e (some ⟨s.now, p.await, reply⟩) (records.entries.get? key) := by
  generalize hx : (⟨s.now, p.await, reply⟩ : Exchange) = x at heffect ⊢
  cases heffect with
  | @won t k now ttl lease hfree =>
      obtain ⟨hle, -⟩ := hfits.of_await_claim (congrArg Exchange.await hx)
      have hne : key ≠ k := by
        rintro rfl
        have hfree := hfree e he
        rw [Entry.isHeld_of_le hheld hle] at hfree
        cases hfree
      refine ⟨?_, .same nofun ((Table.get?_insert_of_ne _ _ hne).trans he)⟩
      intro hwon
      cases hwon
      exact hne rfl
  | @saved t k status body now ttl =>
      obtain ⟨hle, -, -, response, -, rfl, rfl, hstatus⟩ :=
        hfits.of_await_complete (congrArg Exchange.await hx)
      refine ⟨nofun, ?_⟩
      by_cases hk : key = k
      · subst hk
        have hlive : e.isLive now = true := Entry.isLive_of_le (Entry.isLive_of_isHeld hheld) hle
        exact .completed _ _ rfl (Response.ne_processingStatus hstatus)
          (Store.get?_answer_complete_of_live he hlive _ _ _)
      · refine .same ?_ ((Store.get?_answer_of_ne hk).trans he)
        intro status body hsaved
        cases hsaved
        exact hk rfl
  | @deleted t k now e' he' hprocessing =>
      refine ⟨nofun, ?_⟩
      by_cases hk : key = k
      · subst hk
        obtain rfl := Option.some_inj.mp (he.symm.trans he')
        exact .deleted t now rfl hprocessing
      · exact .same nofun ((Table.get?_erase_of_ne _ hk).trans he)
  | @failed t call error =>
      cases call with
      | _ => exact ⟨nofun, .same nofun he⟩
  | beside hbeside =>
      refine ⟨?_, .same ?_ he⟩
      · intro hwon
        obtain ⟨t, now, ttl, lease, rfl⟩ := Exchange.exists_of_won? hwon
        exact hbeside _ rfl
      · intro status body hsaved
        obtain ⟨t, now, ttl, rfl⟩ := Exchange.exists_of_saved? hsaved
        exact hbeside _ rfl
  | refused => exact ⟨nofun, .same nofun he⟩
  | fetched => exact ⟨nofun, .same nofun he⟩
  | vain => exact ⟨nofun, .same nofun he⟩

/-- A key that is held is won by nobody. -/
theorem held_step (hsound : s.Sound) {e : Entry} (he : s.records.entries.get? key = some e)
    (hheld : e.isHeld s.now.clockSecs = true) (m : Move) :
    (s.step m).winners.get? key = s.winners.get? key ∧
      Fate key e (s.exchange? m) ((s.step m).records.entries.get? key) := by
  rcases s.step_cases m with ⟨hnone, hstill⟩ | ⟨i, p, signal, reply, records, rfl, hturned, hstep⟩
  · rw [hnone, hstill.winners_eq]
    exact ⟨rfl, .same nofun (hstill.get?_of_isLive he (Entry.isLive_of_isHeld hheld))⟩
  · obtain ⟨hwon, hfate⟩ := held_turn (hsound i p hturned.passage) hturned.effect he hheld
    rw [hstep, hturned.exchange?_eq]
    exact ⟨get?_winners_turn_of_ne hwon, hfate⟩

theorem Fate.descends {e origin : Entry} {x : Option Exchange} {after : Option Entry}
    (h : Fate key e x after) (hd : e.Descends origin)
    (hkept : ∀ t now, x ≠ some ⟨t, .record (.release key now), .ok true⟩) :
    ∃ e, after = some e ∧ e.Descends origin := by
  cases h with
  | same hsaved hafter => exact ⟨e, hafter, hd⟩
  | completed status body hsaved hstatus hafter => exact ⟨_, hafter, hd.complete status body⟩
  | deleted t now hx hprocessing => exact absurd hx (hkept t now)

/-! ## Where an entry comes from -/

/-- Where the entry of a key comes from that is there after a move. -/
inductive Origin (key : String) (s s' : Traffic) (x : Option Exchange) (e : Entry) : Prop
  | old (he : s.records.entries.get? key = some e)
      (hwinner : s'.winners.get? key = s.winners.get? key)
  | claimed (i : Nat) (q : Passage) (since : UInt64) (hwinner : s'.winners.get? key = some i)
      (hq : s'.passages[i]? = some q) (hwon : q.Won key since) (he : e = q.entry key since)
  | rewritten (origin : Entry) (status : UInt16) (body : Bytes)
      (hsaved : x.bind Exchange.saved? = some (key, status, body))
      (hstatus : status ≠ processingStatus) (horigin : s.records.entries.get? key = some origin)
      (he : e = origin.complete status body)
  | renewed (i : Nat) (q : Passage) (now : UInt64) (status : UInt16) (body : Bytes)
      (hsaved : x.bind Exchange.saved? = some (key, status, body))
      (hstatus : status ≠ processingStatus) (hq : s'.passages[i]? = some q)
      (he : e = ⟨⟨key, status, body, now⟩,
        Word.addClamped now (lifetimeSecs q.plan.terms.ttl), now⟩)

theorem won_turn {i : Nat} {p : Passage} {reply : p.await.Reply} {records : Store}
    {since : UInt64} (hfits : p.course.Fits p.toHistory s.now.clockSecs)
    (heffect : Effect s.records ⟨s.now, p.await, reply⟩ records)
    (hclaim : Exchange.claim? ⟨s.now, p.await, reply⟩ = some (key, since, .claimed)) :
    (s.turn i p reply records).winners.get? key = some i ∧
      records.entries.get? key = some (p.entry key since) := by
  have hwon := Exchange.won?_of_claim? hclaim
  refine ⟨get?_winners_turn_self hwon, ?_⟩
  obtain ⟨t, now, ttl, lease, hx⟩ := Exchange.exists_of_won? hwon
  obtain ⟨-, rfl, rfl, -⟩ := hfits.of_await_claim (congrArg Exchange.await hx)
  rw [hx] at heffect hclaim
  cases hclaim
  cases heffect with
  | won hfree => exact Store.get?_put_self _ _
  | beside hbeside => exact absurd rfl (hbeside _)

theorem origin_turn {i : Nat} {p : Passage} {signal : Signal} {reply : p.await.Reply}
    {records : Store} {e : Entry} (hfits : p.course.Fits p.toHistory s.now.clockSecs)
    (hturned : Turned s i p signal reply records) (he : records.entries.get? key = some e) :
    Origin key s (s.turn i p reply records) (some ⟨s.now, p.await, reply⟩) e := by
  have hq : (s.turn i p reply records).passages[i]? = some (p.turn s.now reply) :=
    getElem?_turn_self hturned.passage
  have heffect := hturned.effect
  by_cases hwon : Exchange.won? ⟨s.now, p.await, reply⟩ = some key
  · obtain ⟨t, since, ttl, lease, hx⟩ := Exchange.exists_of_won? hwon
    have hclaim : Exchange.claim? ⟨s.now, p.await, reply⟩ = some (key, since, .claimed) := by
      rw [hx]
      rfl
    obtain ⟨hwinner, hafter⟩ := won_turn (i := i) hfits heffect hclaim
    obtain ⟨-, -, -, -, hfresh⟩ := hfits.of_await_claim (congrArg Exchange.await hx)
    exact .claimed i _ since hwinner hq
      ((History.claim?_add_of_none hfresh.claim?_eq).trans hclaim)
      (Option.some_inj.mp (he.symm.trans hafter))
  have hwinner : (s.turn i p reply records).winners.get? key = s.winners.get? key :=
    get?_winners_turn_of_ne hwon
  generalize hx : (⟨s.now, p.await, reply⟩ : Exchange) = x at heffect hwon ⊢
  cases heffect with
  | @won t k now ttl lease hfree =>
      have hne : key ≠ k := by
        rintro rfl
        exact hwon rfl
      exact .old ((Table.get?_insert_of_ne _ _ hne).symm.trans he) hwinner
  | @saved t k status body now ttl =>
      by_cases hk : key = k
      · subst hk
        obtain ⟨-, rfl, -, response, -, rfl, rfl, hstatus⟩ :=
          hfits.of_await_complete (congrArg Exchange.await hx)
        have hstatus := Response.ne_processingStatus hstatus
        rcases s.records.get?_answer_complete_cases key response.status response.body now
          p.plan.terms.ttl with ⟨origin, horigin, hafter⟩ | hafter
        · exact .rewritten origin _ _ rfl hstatus horigin
            (Option.some_inj.mp (he.symm.trans hafter))
        · exact .renewed i _ now _ _ rfl hstatus hq (Option.some_inj.mp (he.symm.trans hafter))
      · exact .old ((Store.get?_answer_of_ne hk).symm.trans he) hwinner
  | @deleted t k now _ _ _ =>
      by_cases hk : key = k
      · subst hk
        cases (Table.get?_erase_self _ _).symm.trans he
      · exact .old ((Table.get?_erase_of_ne _ hk).symm.trans he) hwinner
  | _ => exact .old he hwinner

theorem origin_step (hsound : s.Sound) {m : Move} {e : Entry}
    (he : (s.step m).records.entries.get? key = some e) :
    Origin key s (s.step m) (s.exchange? m) e := by
  rcases s.step_cases m with ⟨-, hstill⟩ | ⟨i, p, signal, reply, records, rfl, hturned, hstep⟩
  · exact .old (hstill.get?_of_get? he) (by rw [hstill.winners_eq])
  · rw [hstep] at he
    rw [hstep, hturned.exchange?_eq]
    exact origin_turn (hsound i p hturned.passage) hturned he

/-! ## Releases in time -/

/-- A move in which a request gives the key up is made while the request still holds the key. -/
def ReleasesInTime (key : String) (s : Traffic) (m : Move) : Prop :=
  ∀ c ∈ s.call? m, c.2.releases key = true → ∃ since, c.1.Holds key since s.now.clockSecs

instance (key : String) (s : Traffic) (m : Move) : Decidable (ReleasesInTime key s m) :=
  inferInstanceAs (Decidable (∀ c ∈ s.call? m, _))

/-- A request that holds the key after a move has held it before or has just won it. -/
theorem holds_step_cases {m : Move} {j : Nat} {q : Passage} {since : UInt64}
    (hq : (s.step m).passages[j]? = some q)
    (hholds : q.Holds key since (s.step m).now.clockSecs) :
    (∃ p, s.passages[j]? = some p ∧ q.plan = p.plan ∧ p.Holds key since s.now.clockSecs) ∨
      ∃ p signal reply records, m = .answer j signal ∧ Turned s j p signal reply records ∧
        s.step m = s.turn j p reply records ∧ q.plan = p.plan ∧
        Exchange.claim? ⟨s.now, p.await, reply⟩ = some (key, since, .claimed) := by
  obtain ⟨hwon, hunsettled, hafter⟩ := hholds
  have htime : q.InTime since s.now.clockSecs := hafter.mono (s.clockSecs_le_step m)
  rcases history_step_cases hq with
    hnew | ⟨p, hp, hsame⟩ | ⟨p, signal, reply, records, rfl, hturned, hstep, rfl⟩
  · exact absurd hwon (History.not_won_of_past_eq_nil hnew)
  · rw [hsame] at hwon hunsettled htime
    exact .inl ⟨p, hp, congrArg History.plan hsame, hwon, hunsettled, htime⟩
  · rcases History.won_of_won_add hwon with hwon | ⟨-, hclaim⟩
    · have hsettled := (Bool.or_eq_false_iff.mp (History.settled_add ▸ hunsettled)).1
      exact .inl ⟨p, hturned.passage, rfl, hwon, hsettled, htime⟩
    · exact .inr ⟨p, signal, reply, records, rfl, hturned, hstep, rfl, hclaim⟩

/-- Whoever holds the key was the last one to win it, and the entry is still there. -/
def Owned (key : String) (s : Traffic) : Prop :=
  ∀ (i : Nat) (p : Passage) (since : UInt64), s.passages[i]? = some p →
    p.Holds key since s.now.clockSecs →
    s.winners.get? key = some i ∧
      ∃ e, s.records.entries.get? key = some e ∧ e.Descends (p.entry key since)

theorem owned_start (t : Moment) : Owned key (start t) := fun _ _ _ hp => by cases hp

theorem Owned.eq_of_holds (h : Owned key s) {i j : Nat} {p q : Passage} {since since' : UInt64}
    (hp : s.passages[i]? = some p) (hpholds : p.Holds key since s.now.clockSecs)
    (hq : s.passages[j]? = some q) (hqholds : q.Holds key since' s.now.clockSecs) : i = j := by
  have hi := (h i p since hp hpholds).1
  have hj := (h j q since' hq hqholds).1
  exact Option.some_inj.mp (hi.symm.trans hj)

/-- A request that keeps its key sees no claim end by a call of another one that holds the key. -/
theorem Owned.settles_eq_false (h : Owned key s) {m : Move} {j : Nat} {p q : Passage}
    {since : UInt64} (hp : s.passages[j]? = some p) (hholds : p.Holds key since s.now.clockSecs)
    (hq : (s.step m).passages[j]? = some q) (hunsettled : q.settled = false) {x : Exchange}
    (hx : s.exchange? m = some x) {c : History × Call} (hcall : s.call? m = some c)
    (hholder : ∃ since, c.1.Holds key since s.now.clockSecs) : x.settles = false := by
  obtain ⟨i, p', rfl, hp', -, hhistory⟩ := exists_of_call? hcall
  obtain ⟨since', hholds'⟩ := hholder
  rw [← hhistory] at hholds'
  obtain rfl := h.eq_of_holds hp hholds hp' hholds'
  exact settles_eq_false_of_exchange? hq hunsettled hx

theorem Owned.step (h : Owned key s) (hsound : s.Sound) {m : Move}
    (hinTime : ReleasesInTime key s m) : Owned key (s.step m) := by
  intro j q since hq hholds
  rcases holds_step_cases hq hholds with
    ⟨p, hp, hplan, hbefore⟩ | ⟨p, signal, reply, records, rfl, hturned, hstep, hplan, hclaim⟩
  · obtain ⟨hwinner, e, he, hd⟩ := h j p since hp hbefore
    obtain ⟨hsame, hfate⟩ := held_step hsound he (hbefore.inTime.isHeld hd) m
    rw [History.entry, hplan]
    refine ⟨hsame.trans hwinner, hfate.descends hd ?_⟩
    intro t now hrelease
    obtain ⟨history, hcall⟩ := exists_call?_of_exchange? hrelease
    have hholder := hinTime _ hcall (beq_self_eq_true key)
    cases h.settles_eq_false hp hbefore hq hholds.unsettled hrelease hcall hholder
  · obtain ⟨hwinner, he⟩ := won_turn (i := j) (hsound j p hturned.passage) hturned.effect hclaim
    rw [hstep, History.entry, hplan]
    exact ⟨hwinner, _, he, .refl _⟩

theorem owned_run {t : Moment} {moves : List Move}
    (h : Along (ReleasesInTime key) (start t) moves) : Owned key ((start t).run moves) := by
  have hstart : (start t).Sound ∧ Owned key (start t) := ⟨sound_run t [], owned_start t⟩
  exact (h.preserves (P := fun s => s.Sound ∧ Owned key s)
    (fun _ m hinTime hs => ⟨hs.1.step m, hs.2.step hs.1 hinTime⟩) hstart).2

/-! ## Who has put a record in -/

/-- A processing record was put in by the last claim on its key that was won. -/
def Inserted (key : String) (s : Traffic) : Prop :=
  ∀ e, s.records.entries.get? key = some e → e.record.isProcessing = true →
    ∃ i p since, s.winners.get? key = some i ∧ s.passages[i]? = some p ∧ p.Won key since ∧
      e = p.entry key since

theorem Inserted.step (h : Inserted key s) (hsound : s.Sound) (m : Move) :
    Inserted key (s.step m) := by
  intro e he hprocessing
  cases origin_step hsound he with
  | old he hsame =>
      obtain ⟨i, p, since, hwinner, hp, hwon, rfl⟩ := h e he hprocessing
      obtain ⟨q, hq, hplan, hpre⟩ := past_prefix_step (m := m) hp
      refine ⟨i, q, since, hsame.trans hwinner, hq, hwon.of_prefix hpre, ?_⟩
      rw [History.entry, History.entry, hplan]
  | claimed i q since hwinner hq hwon he => exact ⟨i, q, since, hwinner, hq, hwon, he⟩
  | rewritten origin status body hsaved hstatus horigin he =>
      rw [he, origin.isProcessing_complete body hstatus] at hprocessing
      cases hprocessing
  | renewed i q now status body hsaved hstatus hq he =>
      rw [he, Record.isProcessing, beq_iff_eq] at hprocessing
      exact absurd hprocessing hstatus

theorem inserted_run (t : Moment) (moves : List Move) : Inserted key ((start t).run moves) :=
  (preserved_run (P := fun s => s.Sound ∧ Inserted key s)
    (fun _ m hs => ⟨hs.1.step m, hs.2.step hs.1 m⟩) ⟨sound_run t [], fun _ he => by cases he⟩
    moves).2

/-! ## Releases -/

/-- What an answer of the store to a release deletes is a processing record. -/
theorem isProcessing_of_release {i : Nat} {p : Passage} (hp : s.passages[i]? = some p)
    {now : UInt64} (hawait : p.await = .record (.release key now)) {e : Entry}
    (he : s.records.entries.get? key = some e)
    (hgone : (s.step (.answer i .answered)).records.entries.get? key = none) :
    e.record.isProcessing = true := by
  rcases s.step_answer_cases i .answered with ⟨-, hsame⟩ | ⟨q, reply, records, hturned, hstep⟩
  · rw [hsame] at hgone
    cases he.symm.trans hgone
  · obtain rfl := Option.some_inj.mp (hp.symm.trans hturned.passage)
    have hrecords := Signal.records_of_reply?_answered hturned.reply_eq hawait
    rw [hstep] at hgone
    rcases s.records.answer_release_cases key now with ⟨e', hsome, hprocessing, -⟩ | hvain
    · rw [he, Option.some_inj] at hsome
      rwa [hsome]
    · rw [hvain] at hrecords
      subst hrecords
      cases he.symm.trans hgone

/-- As long as every release of a key comes in time, the record that a release deletes is the one
that the claim of the same request has put in. -/
theorem release_deletes_own_record {t : Moment} {moves : List Move} {i : Nat}
    (hinTime : Along (ReleasesInTime key) (start t) (moves ++ [.answer i .answered])) {p : Passage}
    (hp : ((start t).run moves).passages[i]? = some p) {now : UInt64}
    (hawait : p.await = .record (.release key now)) {e : Entry}
    (he : ((start t).run moves).records.entries.get? key = some e)
    (hgone : ((start t).run (moves ++ [.answer i .answered])).records.entries.get? key = none) :
    ((start t).run moves).winners.get? key = some i ∧
      ∃ since, p.Won key since ∧ e = p.entry key since := by
  obtain ⟨hbefore, hnow, -⟩ := along_append.mp hinTime
  rw [run_append] at hgone
  obtain ⟨since, hholds⟩ := hnow _ (call?_answered hp hawait) (beq_self_eq_true key)
  obtain ⟨hwinner, -⟩ := owned_run hbefore i p since hp hholds
  have hprocessing := isProcessing_of_release hp hawait he hgone
  obtain ⟨j, q, since', hlast, hq, hwon, hentry⟩ := inserted_run t moves e he hprocessing
  obtain rfl : i = j := Option.some_inj.mp (hwinner.symm.trans hlast)
  obtain rfl : p = q := Option.some_inj.mp (hp.symm.trans hq)
  exact ⟨hwinner, since', hwon, hentry⟩

/-- What a request does whose layer only keeps records. -/
def recordsOnly (key : String) : Plan where
  account := none
  key := some key
  terms := {}
  deadline := .standard
  inFlight := .wait 30000 100

/-- A request whose handler fails while it holds the key. -/
def failingMoves : List Move :=
  [.arrive (recordsOnly "k"), .answer 0 .answered, .answer 0 .done, .advance ⟨59999, 59999000000⟩,
    .answer 0 (.returned (.error "boom"))]

theorem release_deletes_own_record_failingMoves :
    Along (ReleasesInTime "k") (start ⟨0, 0⟩) (failingMoves ++ [.answer 0 .answered]) ∧
      ((start ⟨0, 0⟩).run failingMoves).records.entries.get? "k" =
        some (.ofClaim "k" 0 (.ofSecs 86400) (.ofSecs 60)) ∧
      ((start ⟨0, 0⟩).run (failingMoves ++ [.answer 0 .answered])).records.entries.get? "k" = none ∧
      ((start ⟨0, 0⟩).run failingMoves).winners.get? "k" = some 0 := by
  have hinTime : Along (ReleasesInTime "k") (start ⟨0, 0⟩)
      (failingMoves ++ [.answer 0 .answered]) := by decide +kernel
  have hawait : ((start ⟨0, 0⟩).run failingMoves).passages[0]?.map Passage.await =
      some (.record (.release "k" 59)) := by decide +kernel
  obtain ⟨p, hp, hawait⟩ := Option.map_eq_some_iff.mp hawait
  have he : ((start ⟨0, 0⟩).run failingMoves).records.entries.get? "k" =
      some (.ofClaim "k" 0 (.ofSecs 86400) (.ofSecs 60)) := by decide +kernel
  have hgone :
      ((start ⟨0, 0⟩).run (failingMoves ++ [.answer 0 .answered])).records.entries.get? "k" =
        none := by decide +kernel
  exact ⟨hinTime, he, hgone, (release_deletes_own_record hinTime hp hawait he hgone).1⟩

/-- The handler of the first request outlives its lease, and the second request takes the key over
before the first one gives it up. -/
def takeoverMoves : List Move :=
  [.arrive (recordsOnly "k"), .answer 0 .answered, .answer 0 .done, .advance ⟨60000, 60000000000⟩,
    .arrive (recordsOnly "k"), .answer 1 .answered, .answer 1 .done,
    .answer 0 (.returned (.error "boom"))]

/-- A late release deletes the record that another claim has put in while its request is running. -/
theorem release_deletes_other_record :
    ((start ⟨0, 0⟩).run takeoverMoves).passages[0]?.map Passage.await =
        some (.record (.release "k" 60)) ∧
      ((start ⟨0, 0⟩).run takeoverMoves).passages[1]?.map Passage.await = some .handler ∧
      ((start ⟨0, 0⟩).run takeoverMoves).winners.get? "k" = some 1 ∧
      ((start ⟨0, 0⟩).run takeoverMoves).records.entries.get? "k" =
        some (.ofClaim "k" 60 (.ofSecs 86400) (.ofSecs 60)) ∧
      ((start ⟨0, 0⟩).run (takeoverMoves ++ [.answer 0 .answered])).records.entries.get? "k" =
        none := by
  decide +kernel

/-- The first request has given its key up and is reporting that when it is dropped, and the second
request has claimed the key anew. -/
def repeatedMoves : List Move :=
  [.arrive (recordsOnly "k"), .answer 0 .answered, .answer 0 .done,
    .answer 0 (.returned (.error "boom")), .answer 0 .answered, .arrive (recordsOnly "k"),
    .answer 1 .answered, .answer 1 .done, .drop 0 true, .rouse 0]

/-- The claim that was given up is given up once more, which deletes the new record within its
lease. -/
theorem release_deletes_fresh_record :
    ((start ⟨0, 0⟩).run repeatedMoves).passages[0]?.map
        (fun p => (p.await, p.past.map Exchange.await)) =
      some (.record (.release "k" 0), [.record (.claim "k" 0 (.ofSecs 86400) (.ofSecs 60)),
        .tell .claimed, .handler, .record (.release "k" 0)]) ∧
      ((start ⟨0, 0⟩).run repeatedMoves).passages[1]?.map Passage.await = some .handler ∧
      ((start ⟨0, 0⟩).run repeatedMoves).winners.get? "k" = some 1 ∧
      ((start ⟨0, 0⟩).run repeatedMoves).records.entries.get? "k" =
        some (.ofClaim "k" 0 (.ofSecs 86400) (.ofSecs 60)) ∧
      ((start ⟨0, 0⟩).run (repeatedMoves ++ [.answer 0 .answered])).records.entries.get? "k" =
        none := by
  decide +kernel

end Traffic

end Admission
