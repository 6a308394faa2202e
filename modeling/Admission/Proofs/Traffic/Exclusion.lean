import Admission.Proofs.Traffic.Waiting

/-! # One handler at a time

When every claim on a key is settled before its lease and its lifetime are over, no two handlers run
for the key at once, none starts while a response is recorded, and whoever does not win the key is
given a recorded response or told that the key is in flight. -/

namespace Admission

open Record

/-! ## Orderly traffic -/

/-- At a reading of the clock, a claim on the key that was won is settled or neither its lease nor
its lifetime is over. -/
def History.Timely (h : History) (key : String) (now : UInt64) : Prop :=
  ∀ since, h.Won key since → h.settled = false → h.InTime since now

instance (h : History) (key : String) (now : UInt64) : Decidable (h.Timely key now) :=
  decidable_of_iff
    (∀ c ∈ h.claim?, c.1 = key → c.2.2 = .claimed → h.settled = false → h.InTime c.2.1 now) <| by
      constructor
      · intro h since hwon
        exact h _ hwon rfl rfl
      · rintro h ⟨k, since, claim⟩ hc rfl rfl
        exact h since hc

/-- Whether a move is neither a failure of the store nor the end of a request, and brings no request
with the key that would not wait. -/
def Move.isOrderly (key : String) : Move → Bool
  | .arrive plan => plan.key != some key || plan.inFlight != .proceed
  | .drop .. => false
  | m => m.isFaultless

def Passage.Runs (p : Passage) (key : String) : Prop :=
  p.plan.key = some key ∧ ∃ verdict owned, p.course = .under (.handling verdict owned)

namespace Traffic

variable {s : Traffic} {key : String} {m : Move}

def Timely (key : String) (s : Traffic) : Prop :=
  ∀ p ∈ s.passages, p.toHistory.Timely key s.now.clockSecs

instance (key : String) (s : Traffic) : Decidable (Timely key s) :=
  inferInstanceAs (Decidable (∀ p ∈ s.passages, _))

/-- A move that leaves all claims on the key timely. -/
structure Orderly (key : String) (s : Traffic) (m : Move) : Prop where
  isOrderly : m.isOrderly key = true
  timely : Timely key (s.step m)

instance (key : String) (s : Traffic) (m : Move) : Decidable (Orderly key s m) :=
  decidable_of_iff (m.isOrderly key = true ∧ Timely key (s.step m))
    ⟨fun h => ⟨h.1, h.2⟩, fun h => ⟨h.1, h.2⟩⟩

def Present (s : Traffic) : Prop :=
  ∀ (i : Nat) (p : Passage), s.passages[i]? = some p → ∃ stage, p.course = .under stage

def Elapsed (s : Traffic) : Prop :=
  ∀ (i : Nat) (p : Passage), s.passages[i]? = some p → ∀ x ∈ p.past, x.time.instant ≤ s.now.instant

/-- What an orderly move does to one request. -/
theorem passage_step_cases (hm : m.isOrderly key = true) (hpresent : s.Present) {j : Nat}
    {q : Passage} (hq : (s.step m).passages[j]? = some q) :
    s.passages[j]? = some q ∨
      (∃ plan, m = .arrive plan ∧ q = ⟨⟨plan, []⟩, .under (plan.start s.now)⟩) ∨
      ∃ p signal reply records, m = .answer j signal ∧ Turned s j p signal reply records ∧
        q = p.turn s.now reply := by
  cases m with
  | arrive plan =>
      rcases passage_arrive_cases hq with hq | rfl
      · exact .inl hq
      · exact .inr (.inl ⟨plan, rfl, rfl⟩)
  | advance t =>
      rw [step] at hq
      split at hq
      · exact .inl hq
      · exact .inl hq
  | purge => exact .inl hq
  | answer i signal =>
      rcases s.step_answer_cases i signal with ⟨-, hsame⟩ | ⟨p, reply, records, hturned, hstep⟩
      · rw [hsame] at hq
        exact .inl hq
      · rw [hstep] at hq
        rcases passage_turn_cases hturned.passage hq with ⟨rfl, rfl⟩ | ⟨-, hq⟩
        · exact .inr (.inr ⟨p, signal, reply, records, rfl, hturned, rfl⟩)
        · exact .inl hq
  | drop i inside => cases hm
  | rouse i =>
      obtain ⟨p, hp, rfl | rfl⟩ := passage_modify_cases hq
      · exact .inl hp
      · -- Only a dropped request has anything to begin in the background.
        obtain ⟨stage, hstage⟩ := hpresent j p hp
        have hsame : p.course.rouse s.now.clockSecs = p.course := by
          rw [hstage]
          rfl
        rw [hsame]
        exact .inl hp

theorem Present.step (h : s.Present) (hm : m.isOrderly key = true) : (s.step m).Present := by
  intro j q hq
  rcases passage_step_cases hm h hq with
    hq | ⟨plan, -, rfl⟩ | ⟨p, signal, reply, records, -, hp, rfl⟩
  · exact h j q hq
  · exact ⟨_, rfl⟩
  · obtain ⟨stage, hstage⟩ := h j p hp.passage
    obtain ⟨history, course⟩ := p
    obtain rfl : course = .under stage := hstage
    exact ⟨_, rfl⟩

theorem Elapsed.step (h : s.Elapsed) (hpresent : s.Present) (hm : m.isOrderly key = true) :
    (s.step m).Elapsed := by
  intro j q hq x hx
  have hnow := s.instant_le_step m
  rcases passage_step_cases hm hpresent hq with
    hq | ⟨plan, -, rfl⟩ | ⟨p, signal, reply, records, -, hp, rfl⟩
  · exact (h j q hq x hx).trans hnow
  · cases hx
  · rcases List.mem_append.mp hx with hx | hx
    · exact (h j p hp.passage x hx).trans hnow
    · obtain rfl := List.mem_singleton.mp hx
      exact hnow

/-! ## Claims are settled in time -/

/-- Where claims are timely and no request is dropped, each is settled in time. -/
theorem Timely.settlesInTime (h : Timely key s) (hsound : s.Sound) (hpresent : s.Present)
    (m : Move) : SettlesInTime key s m := by
  intro c hc hsettles
  obtain ⟨i, p, -, hp, hawait, hhistory⟩ := exists_of_call? hc
  obtain ⟨stage, hstage⟩ := hpresent i p hp
  have hfits := hsound i p hp
  rw [Passage.await, hstage] at hawait
  rw [hstage] at hfits
  obtain ⟨-, ⟨since, hwon⟩, hunsettled⟩ := hfits.owns_of_settles hawait hsettles
  rw [← hhistory]
  exact ⟨since, hwon, hunsettled, h p (List.mem_of_getElem? hp) since hwon hunsettled⟩

/-! ## A saved response stays -/

/-- Where a winner has saved its response there is a completed record until its lifetime is over. -/
def Kept (key : String) (s : Traffic) : Prop :=
  ∀ (i : Nat) (p : Passage) (since : UInt64) (status : UInt16) (body : Bytes),
    s.passages[i]? = some p → p.Won key since → p.Saved key status body →
    s.now.clockSecs.toNat < since.toNat + (lifetimeSecs p.plan.terms.ttl).toNat →
    ∃ e, s.records.entries.get? key = some e ∧ e.record.isProcessing = false ∧
      e.expiresAt = (p.entry key since).expiresAt

theorem isLive_of_expiresAt_eq {h : History} {e : Entry} {since : UInt64} {t : Moment}
    (he : e.expiresAt = (h.entry key since).expiresAt)
    (hlive : t.clockSecs.toNat < since.toNat + (lifetimeSecs h.plan.terms.ttl).toNat) :
    e.isLive t.clockSecs = true := by
  rw [Entry.isLive, decide_eq_true_eq, he]
  exact (lt_addClamped_iff t.clockSecs_lt).mpr hlive

/-- A move leaves a completed record completed, and as old as it was. -/
theorem Fate.completed_of_completed {e : Entry} {x : Option Exchange} {after : Option Entry}
    (h : Fate key e x after) (hfinal : e.record.isProcessing = false) :
    ∃ e', after = some e' ∧ e'.record.isProcessing = false ∧ e'.expiresAt = e.expiresAt := by
  cases h with
  | same hsaved hafter => exact ⟨e, hafter, hfinal, rfl⟩
  | completed status body hsaved hstatus hafter =>
      exact ⟨_, hafter, e.isProcessing_complete body hstatus, rfl⟩
  | deleted t now hx hprocessing => cases hfinal.symm.trans hprocessing

theorem Kept.step (h : Kept key s) (howned : Owned key s) (htimely : Timely key s)
    (hsound : s.Sound) (m : Move) : Kept key (s.step m) := by
  intro j q since status body hq hwon hsaved hlive
  have hnow := UInt64.le_iff_toNat_le.mp (s.clockSecs_le_step m)
  have hlive : s.now.clockSecs.toNat < since.toNat + (lifetimeSecs q.plan.terms.ttl).toNat := by
    omega
  -- What was kept before is kept by every move.
  have hkeep : ∀ p, s.passages[j]? = some p → p.plan = q.plan → p.Won key since →
      p.Saved key status body →
      ∃ e, (s.step m).records.entries.get? key = some e ∧ e.record.isProcessing = false ∧
        e.expiresAt = (q.entry key since).expiresAt := by
    intro p hp hplan hwon hsaved
    obtain ⟨e, he, hfinal, hexpires⟩ := h j p since status body hp hwon hsaved (hplan ▸ hlive)
    rw [History.entry, hplan] at hexpires
    have hheld := Entry.isHeld_of_isProcessing_eq_false hfinal
      (isLive_of_expiresAt_eq (h := q.toHistory) hexpires hlive)
    obtain ⟨-, hfate⟩ := held_step hsound he hheld m
    obtain ⟨e', hafter, hfinal', hexpires'⟩ := hfate.completed_of_completed hfinal
    exact ⟨e', hafter, hfinal', hexpires'.trans hexpires⟩
  rcases history_step_cases hq with
    hnew | ⟨p, hp, hsame⟩ | ⟨p, signal, reply, records, rfl, hturned, hstep, rfl⟩
  · exact absurd hwon (History.not_won_of_past_eq_nil hnew)
  · rw [hsame] at hwon hsaved
    exact hkeep p hp (congrArg History.plan hsame).symm hwon hsaved
  · have hfits := hsound j p hturned.passage
    rcases History.won_of_won_add hwon with hwon | ⟨-, hclaim⟩
    · rcases History.saved_of_saved_add hsaved with hsaved | hx
      · exact hkeep p hturned.passage rfl hwon hsaved
      · -- The request saves its response now, in time, into the entry of its own claim.
        obtain ⟨⟨-, -, hunsettled⟩, -⟩ := hfits.of_saved? hx
        have htime := htimely p (List.mem_of_getElem? hturned.passage) since hwon hunsettled
        obtain ⟨-, e, he, hd⟩ := howned j p since hturned.passage ⟨hwon, hunsettled, htime⟩
        obtain ⟨-, hfate⟩ := held_step hsound he (htime.isHeld hd) (.answer j signal)
        rw [hturned.exchange?_eq] at hfate
        cases hfate with
        | same hsaved hafter => exact absurd hx (hsaved status body)
        | completed status' body' hsaved hstatus hafter =>
            exact ⟨_, hafter, e.isProcessing_complete body' hstatus, hd.expiresAt⟩
        | deleted t now hrelease hprocessing =>
            rw [Option.some_inj.mp hrelease] at hx
            cases hx
    · obtain ⟨ttl, lease, hawait⟩ := Exchange.exists_of_claim? hclaim
      obtain ⟨-, -, -, -, hfresh⟩ := hfits.of_await_claim hawait
      rcases History.saved_of_saved_add hsaved with hsaved | hx
      · cases hfresh.unsettled.symm.trans hsaved.settled
      · obtain ⟨t, now, ttl', hcomplete⟩ := Exchange.exists_of_saved? hx
        rw [hcomplete] at hclaim
        cases hclaim

/-! ## Requests that do not win -/

/-- The status and body that a request may be given that does not win the key. -/
def Answerable (key : String) (s : Traffic) (status : UInt16) (body : Bytes) : Prop :=
  status = 409 ∨ Vouched key s status body

/-- A request that has not won the key it has claimed waits for the response. -/
def Waiting (key : String) (s : Traffic) : Prop :=
  ∀ (i : Nat) (p : Passage), s.passages[i]? = some p → p.plan.key = some key →
    p.plan.inFlight ≠ .proceed ∧
      ∀ k now claim, p.claim? = some (k, now, claim) → claim ≠ .claimed →
        ∃ stage endsAt, p.course = .under stage ∧ p.waitEnd? = some endsAt ∧
          stage.Waits (Answerable key s) endsAt (p.answersAfter endsAt)

section Turn

variable {i : Nat} {p : Passage} {signal : Signal} {reply : p.await.Reply} {records : Store}

theorem Elapsed.turn (h : s.Elapsed) (hp : s.passages[i]? = some p) :
    ∀ y ∈ (p.turn s.now reply).past, y.time.instant ≤ s.now.instant := by
  intro y hy
  rcases List.mem_append.mp hy with hy | hy
  · exact h i p hp y hy
  · obtain rfl := List.mem_singleton.mp hy
    exact Nat.le_refl _

theorem Turned.ne_error (hturned : Turned s i p signal reply records)
    (hm : (Move.answer i signal).isOrderly key = true) (call : Call) (e : StoreError) :
    (⟨s.now, p.await, reply⟩ : Exchange) ≠ ⟨s.now, .record call, .error e⟩ := by
  intro hx
  obtain rfl := Signal.eq_failed_of_reply? hturned.reply_eq hx
  cases hm

theorem vouched_of_found? (hrecorded : Recorded key s) (hsound : s.Sound)
    (hturned : Turned s i p signal reply records) (hkey : p.plan.key = some key) {k : String}
    {record : Record} (hfound : Exchange.found? ⟨s.now, p.await, reply⟩ = some (k, record))
    (hfinal : record.isProcessing = false) : Vouched key s record.status record.body := by
  have hfits := hsound i p hturned.passage
  have hk : p.plan.key = some k := by
    rcases Exchange.exists_of_found? hfound with ⟨now, ttl, lease, hawait⟩ | ⟨now, hawait⟩
    · exact (hfits.of_await_claim hawait).2.2.2.1
    · exact (hfits.of_await_fetch hawait).2.1
  obtain rfl := Option.some_inj.mp (hkey.symm.trans hk)
  obtain ⟨e, he, rfl⟩ := exists_get?_of_found? hturned.effect hfound
  exact hrecorded e he hfinal

/-- The next answer to a request that is waiting, or begins to wait because it finds its key taken.
-/
theorem Waiting.turn (h : Waiting key s) (hrecorded : Recorded key s) (hsound : s.Sound)
    (hpresent : s.Present) (helapsed : s.Elapsed) (hturned : Turned s i p signal reply records)
    (hm : (Move.answer i signal).isOrderly key = true) (hkey : p.plan.key = some key) {k : String}
    {now : UInt64} {claim : Claim} (hclaim : (p.turn s.now reply).claim? = some (k, now, claim))
    (hne : claim ≠ .claimed) :
    ∃ stage endsAt, (p.turn s.now reply).course = .under stage ∧
      (p.turn s.now reply).waitEnd? = some endsAt ∧
      stage.Waits (Answerable key (s.step (.answer i signal))) endsAt
        ((p.turn s.now reply).answersAfter endsAt) := by
  obtain ⟨hflight, hwaits⟩ := h i p hturned.passage hkey
  have hpast : ∀ y ∈ (p.turn s.now reply).past, y.time.instant ≤ s.now.instant :=
    helapsed.turn hturned.passage
  have hfaultless := hturned.ne_error hm
  have hfound : ∀ k record, Exchange.found? ⟨s.now, p.await, reply⟩ = some (k, record) →
      record.isProcessing = false →
      Answerable key (s.step (.answer i signal)) record.status record.body ∧
        Response.isStatus record.status = true := by
    intro k record hx hfinal
    have hvouched := vouched_of_found? hrecorded hsound hturned hkey hx hfinal
    exact ⟨.inr (hvouched.step _), hvouched.isStatus⟩
  obtain ⟨stage, hstage⟩ := hpresent i p hturned.passage
  obtain ⟨history, course⟩ := p
  obtain rfl : course = .under stage := hstage
  cases hbefore : history.claim? with
  | some c =>
      obtain rfl := Option.some_inj.mp ((History.claim?_add_of_some hbefore).symm.trans hclaim)
      obtain ⟨stage', endsAt, hstage', hend, hw⟩ := hwaits k now claim hbefore hne
      cases hstage'
      have hw' := hw.mono fun _ _ hV => Or.imp_right (fun hV => hV.step (.answer i signal)) hV
      refine ⟨_, endsAt, rfl, History.waitEnd?_add_of_some hend, ?_⟩
      exact hw'.resume (History.answersAfter_add_le _ _ _)
        (fun hlt => History.answersAfter_eq_zero fun y hy => (hpast y hy).trans hlt.le)
        (.inl rfl) hfound hfaultless
  | none =>
      have hx := (History.claim?_add_of_none hbefore).symm.trans hclaim
      obtain ⟨ttl, lease, hawait⟩ := Exchange.exists_of_claim? hx
      cases stage with
      | claiming verdict k' c =>
          match reply with
          | .ok none =>
              cases hx
              exact absurd rfl hne
          | .error e => exact absurd rfl (hfaultless _ e)
          | .ok (some record) =>
              cases hf : history.plan.inFlight with
              | proceed => exact absurd hf hflight
              | wait maxWait interval =>
                  have hend := History.claimedAt?_add_of_none hbefore
                    (Option.isSome_iff_exists.mpr ⟨_, hx⟩)
                  refine ⟨_, history.plan.inFlight.waitEnd s.now.instant, rfl, ?_, ?_⟩
                  · exact (congrArg (Option.map _) hend).trans rfl
                  · refine waits_claimed hf rfl (.inl rfl) (hfound k' record rfl) verdict k' ?_
                    exact History.answersAfter_eq_zero fun y hy =>
                      (hpast y hy).trans (InFlight.le_waitEnd _ _)
      | _ => cases hawait

end Turn

theorem Waiting.step (h : Waiting key s) (hrecorded : Recorded key s) (hsound : s.Sound)
    (hpresent : s.Present) (helapsed : s.Elapsed) (hm : m.isOrderly key = true) :
    Waiting key (s.step m) := by
  intro i q hq hkey
  rcases passage_step_cases hm hpresent hq with
    hq | ⟨plan, rfl, rfl⟩ | ⟨p, signal, reply, records, rfl, hturned, rfl⟩
  · obtain ⟨hflight, hwaits⟩ := h i q hq hkey
    refine ⟨hflight, fun k now claim hclaim hne => ?_⟩
    obtain ⟨stage, endsAt, hstage, hend, hw⟩ := hwaits k now claim hclaim hne
    exact ⟨stage, endsAt, hstage, hend, hw.mono fun _ _ hV => hV.imp_right (·.step m)⟩
  · refine ⟨?_, fun k now claim hclaim => by cases hclaim⟩
    intro hproceed
    have hkey : plan.key = some key := hkey
    have hproceed : plan.inFlight = .proceed := hproceed
    simp [Move.isOrderly, hkey, hproceed] at hm
  · refine ⟨(h i p hturned.passage hkey).1, fun k now claim hclaim hne => ?_⟩
    exact h.turn hrecorded hsound hpresent helapsed hturned hm hkey hclaim hne

/-! ## Exclusion -/

structure Exclusive (key : String) (s : Traffic) : Prop where
  intact : Intact key s
  timely : Timely key s
  present : s.Present
  elapsed : s.Elapsed
  kept : Kept key s
  recorded : Recorded key s
  waiting : Waiting key s

theorem exclusive_start (t : Moment) : Exclusive key (start t) where
  intact := intact_run (show Along (SettlesInTime key) (start t) [] from trivial)
  timely _ hp := by cases hp
  present _ _ hp := by cases hp
  elapsed _ _ hp := by cases hp
  kept _ _ _ _ _ hp := by cases hp
  recorded _ he := by cases he
  waiting _ _ hp := by cases hp

theorem Exclusive.step (h : Exclusive key s) (hm : Orderly key s m) : Exclusive key (s.step m) := by
  have hsound := h.intact.sound
  exact {
    intact := h.intact.step (h.timely.settlesInTime hsound h.present m)
    timely := hm.timely
    present := h.present.step hm.isOrderly
    elapsed := h.elapsed.step h.present hm.isOrderly
    kept := h.kept.step h.intact.owned h.timely hsound m
    recorded := h.recorded.step hsound m
    waiting := h.waiting.step h.recorded hsound h.present h.elapsed hm.isOrderly }

/-- Only a request that holds the key runs its handler. -/
theorem Exclusive.holds_of_runs (h : Exclusive key s) {i : Nat} {p : Passage}
    (hp : s.passages[i]? = some p) (hruns : p.Runs key) :
    ∃ since, p.Holds key since s.now.clockSecs := by
  obtain ⟨hkey, verdict, owned, hcourse⟩ := hruns
  have hfits := h.intact.sound i p hp
  rw [hcourse] at hfits
  cases owned with
  | some k =>
      obtain ⟨hk, ⟨since, hwon⟩, hunsettled⟩ : p.Owns k := hfits
      obtain rfl := Option.some_inj.mp (hkey.symm.trans hk)
      have htime := h.timely p (List.mem_of_getElem? hp) since hwon hunsettled
      exact ⟨since, hwon, hunsettled, htime⟩
  | none =>
      rcases hfits with hnone | ⟨k, now, claim, hclaim, hne⟩
      · cases hkey.symm.trans hnone
      · obtain ⟨stage, endsAt, hstage, -, hw⟩ := (h.waiting i p hp hkey).2 k now claim hclaim hne
        cases hcourse.symm.trans hstage
        exact hw.elim

/-- What is promised of a key. -/
structure OneHandler (key : String) (s : Traffic) : Prop where
  /-- At most one handler is running for the key. -/
  unique : ∀ (i j : Nat) (p q : Passage), s.passages[i]? = some p → s.passages[j]? = some q →
    p.Runs key → q.Runs key → i = j
  /-- None is running while a response that a winner has saved is alive. -/
  not_runs_of_saved : ∀ (i j : Nat) (p q : Passage) (since : UInt64) (status : UInt16)
    (body : Bytes), s.passages[i]? = some p → s.passages[j]? = some q → p.Won key since →
    p.Saved key status body →
    s.now.clockSecs.toNat < since.toNat + (lifetimeSecs p.plan.terms.ttl).toNat →
    ¬ q.Runs key
  /-- A request that has not won the key does not run its handler. It has been answered with 409 or
  with the response of a winner, or can take its next answer and has not taken five since its wait
  was over. -/
  answered : ∀ (i : Nat) (p : Passage) (k : String) (since : UInt64) (claim : Claim),
    s.passages[i]? = some p → p.plan.key = some key → p.claim? = some (k, since, claim) →
    claim ≠ .claimed →
    ¬ p.Runs key ∧ ∃ endsAt, p.waitEnd? = some endsAt ∧
      ((∃ response, p.course = .under (.finished (.ok response)) ∧
          (response.status = 409 ∨ Vouched key s response.status response.body)) ∨
        p.answersAfter endsAt < 5 ∧
          ∃ signal : Signal, (signal.reply? s.records p.await).isSome = true)

theorem Exclusive.oneHandler (h : Exclusive key s) : OneHandler key s where
  unique i j p q hp hq hpruns hqruns := by
    obtain ⟨since, hholds⟩ := h.holds_of_runs hp hpruns
    obtain ⟨since', hholds'⟩ := h.holds_of_runs hq hqruns
    exact h.intact.owned.eq_of_holds hp hholds hq hholds'
  not_runs_of_saved i j p q since status body hp hq hwon hsaved hlive hruns := by
    obtain ⟨since', hholds⟩ := h.holds_of_runs hq hruns
    obtain ⟨e, he, hfinal, -⟩ := h.kept i p since status body hp hwon hsaved hlive
    have hprocessing := h.intact.untouched j q since' hq hholds e he
    cases hfinal.symm.trans hprocessing
  answered i p k since claim hp hkey hclaim hne := by
    obtain ⟨stage, endsAt, hstage, hend, hw⟩ := (h.waiting i p hp hkey).2 k since claim hclaim hne
    refine ⟨?_, endsAt, hend, ?_⟩
    · rintro ⟨-, verdict, owned, hcourse⟩
      cases hcourse.symm.trans hstage
      exact hw.elim
    · rw [Passage.await, hstage]
      rcases hw.finished_or_pending p.plan s.records with ⟨response, rfl, hV⟩ | hpending
      · exact .inl ⟨response, rfl, hV⟩
      · exact .inr hpending

/-- Orderly traffic runs one handler at a time for a key, whatever else goes on in what order. -/
theorem oneHandler_of_orderly {t : Moment} {moves : List Move}
    (h : Along (Orderly key) (start t) moves) : OneHandler key ((start t).run moves) :=
  (h.preserves (fun _ _ hm hs => hs.step hm) (exclusive_start t)).oneHandler

/-- Two requests with one key. The second one finds it taken, polls the record twice and is given
the response of the first. -/
def pollingMoves : List Move :=
  [.arrive (recordsOnly "k"), .answer 0 .answered, .answer 0 .done,
    .arrive (recordsOnly "k"), .answer 1 .answered, .advance ⟨100, 100000000⟩, .answer 1 .done,
    .answer 1 .answered, .answer 0 (.returned (.ok (plainResponse 201 "b"))), .purge,
    .answer 0 .answered, .advance ⟨200, 200000000⟩, .answer 1 .done, .answer 1 .answered,
    .answer 1 .done]

theorem oneHandler_pollingMoves :
    Along (Orderly "k") (start ⟨0, 0⟩) pollingMoves ∧
      OneHandler "k" ((start ⟨0, 0⟩).run pollingMoves) ∧
      (((start ⟨0, 0⟩).run pollingMoves).passages.map fun p =>
          match p.course with
          | .under (.finished (.ok response)) => some (response.status, response.body)
          | _ => none) =
        [some (201, .ofString "b"), some (201, .ofString "b")] := by
  have horderly : Along (Orderly "k") (start ⟨0, 0⟩) pollingMoves := by decide +kernel
  exact ⟨horderly, oneHandler_of_orderly horderly, by decide +kernel⟩

end Traffic

end Admission
