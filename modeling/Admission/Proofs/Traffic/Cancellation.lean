import Admission.Proofs.Request.Claim
import Admission.Proofs.Traffic.Ownership

/-! # Cancelled requests

Once the report of a claim is over, the claim is guarded: a request that is dropped without having
saved its response has given its key up already, or does so in the background. Outside of the
runtime there is no background, and the key stays claimed until the lease ends. -/

namespace Admission

open Record

/-! ## Reports -/

/-- A request that owns its key unguarded is reporting that it has won it. -/
def Stage.Announces : Stage → Prop
  | .telling event none (.dispatch _ (some _)) => event = .claimed
  | _ => True

section Announces

variable {plan : Plan} {t : Moment}

theorem announces_enter (goal : Goal) : (plan.enter t goal).Announces := by
  cases goal with
  | claim verdict =>
      simp only [Plan.enter]
      split <;> trivial
  | dispatch verdict owned => trivial
  | settle verdict response =>
      simp only [Plan.enter]
      split
      · trivial
      · split <;> trivial
  | finish result => trivial

theorem announces_start : (plan.start t).Announces := by
  unfold Plan.start
  split
  · trivial
  · exact announces_enter _

theorem announces_replay (verdict : Verdict) (record : Record) :
    (Plan.replay verdict record).Announces := by
  unfold Plan.replay
  split <;> trivial

theorem announces_keepWaiting (verdict : Verdict) (key : String) (poll : Poll) :
    (Plan.keepWaiting verdict key poll t).Announces := by
  unfold Plan.keepWaiting
  split <;> trivial

theorem announces_claimed (verdict : Verdict) (key : String) (claim : Record.Claim) :
    (plan.claimed verdict key t claim).Announces := by
  cases claim with
  | claimed => rfl
  | degraded e => trivial
  | alreadyClaimed record =>
      simp only [Plan.claimed]
      split
      · split
        · trivial
        · exact announces_keepWaiting _ _ _
      · exact announces_replay _ _

/-- Whatever is answered, the next stage reports a claim only when it has been won. -/
theorem announces_resume (stage : Stage) (reply : (plan.await stage).Reply) :
    (plan.resume t stage reply).Announces := by
  cases stage with
  | checking account now =>
      cases reply with
      | ok state =>
          simp only [Plan.resume, Plan.checked]
          split <;> trivial
      | error e => trivial
  | claiming verdict key now => exact announces_claimed _ _ _
  | pausing verdict key poll left => trivial
  | fetching verdict key poll now =>
      cases reply with
      | ok found =>
          cases found with
          | none => trivial
          | some record =>
              simp only [Plan.resume, Plan.fetched]
              split
              · exact announces_keepWaiting _ _ _
              · exact announces_replay _ _
      | error e => trivial
  | handling verdict owned =>
      cases owned with
      | some key => cases reply <;> trivial
      | none =>
          cases reply with
          | ok response =>
              change (plan.enter t (.settle verdict response)).Announces
              exact announces_enter _
          | error e => trivial
  | saving verdict key response now =>
      cases reply with
      | ok done =>
          change (plan.enter t (.settle verdict response)).Announces
          exact announces_enter _
      | error e => trivial
  | releasing key now goal =>
      cases reply with
      | ok deleted =>
          cases deleted with
          | true => trivial
          | false => exact announces_enter goal
      | error e => exact announces_enter goal
  | charging account cost now response => cases reply <;> trivial
  | telling event owned goal => exact announces_enter goal
  | finished result => exact reply.elim

end Announces

/-! ## What a request owes when it is dropped -/

/-- At every stage that it may be dropped at, a request that has won its key guards it, is reporting
its claim, or has saved its response or given the key up. -/
theorem Stage.Owes.guarded_or_over {h : History} {stage : Stage} {key : String} {since : UInt64}
    (ho : stage.Owes h) (hannounces : stage.Announces) (hwon : h.Won key since) :
    (∃ k, stage.guarded? = some k) ∨ (∃ goal, stage = .telling .claimed none goal) ∨
      h.Deals h.dealings := by
  have hmem := hwon.mem_dealings
  have hclaim : h.dealings ≠ [] := by
    intro hnone
    rw [hnone] at hmem
    cases hmem
  have hlost : ¬ h.Owes none := by
    intro hlost
    obtain ⟨x, hx, hwin⟩ := List.mem_filterMap.mp hmem
    have hlost := hlost x hx
    simp [Exchange.isLost, hwin] at hlost
  cases stage with
  | checking account now => exact absurd ho.2 hclaim
  | claiming verdict k now => exact absurd ho.2.2 hclaim
  | pausing verdict k poll left => exact absurd ho hlost
  | fetching verdict k poll now => exact absurd ho hlost
  | handling verdict owned =>
      cases owned with
      | some k => exact .inl ⟨k, rfl⟩
      | none => exact absurd ho hlost
  | saving verdict k response now => exact .inl ⟨k, rfl⟩
  | releasing k now goal => exact .inl ⟨k, rfl⟩
  | charging account cost now response => exact .inr (.inr ho)
  | finished result => exact .inr (.inr ho)
  | telling event owned goal =>
      cases owned with
      | some k => exact .inl ⟨k, rfl⟩
      | none =>
          cases goal with
          | claim verdict => exact absurd ho.2 hclaim
          | dispatch verdict owned =>
              cases owned with
              | none => exact absurd ho hlost
              | some k =>
                  obtain rfl : event = .claimed := hannounces
                  exact .inr (.inl ⟨_, rfl⟩)
          | settle verdict response => exact .inr (.inr ho)
          | finish result => exact .inr (.inr ho)

/-- Once nothing more is owed, a key that was won was given up unless the response was saved. -/
theorem History.Deals.released_of_unsaved {h : History} {key : String} {since : UInt64}
    (hdeals : h.Deals h.dealings) (hwon : h.Won key since)
    (hunsaved : ∀ status body, ¬ h.Saved key status body) :
    ∃ t now reply, Exchange.release t key now reply ∈ h.past := by
  obtain ⟨l, x, hlast, hx⟩ := hdeals.exists_last hwon.mem_dealings
  have hmem : x ∈ h.dealings := hlast ▸ List.mem_append_cons_self
  have hpast := (List.mem_filter.mp hmem).1
  rcases hx with ⟨t, now, response, -, rfl⟩ | ⟨t, now, reply, rfl⟩
  · exact absurd ⟨_, hpast, rfl⟩ (hunsaved response.status response.body)
  · exact ⟨t, now, reply, hpast⟩

theorem Course.drop_of_guarded {stage : Stage} {key : String} (h : stage.guarded? = some key) :
    (Course.under stage).drop true = .orphaned key := by
  cases stage with
  | finished => cases h
  | _ => simp only [Course.drop, h, if_true]

def Course.Accounts (h : History) : Course → Prop
  | .under stage => stage.Owes h ∧ stage.Announces
  | _ => True

theorem Course.Accounts.drop {h : History} {course : Course} (ha : course.Accounts h)
    (inside : Bool) : (course.drop inside).Accounts h := by
  cases course with
  | under stage =>
      cases stage with
      | finished => exact ha
      | _ =>
          simp only [Course.drop]
          split
          · split <;> trivial
          · trivial
  | _ => exact ha

theorem Course.Accounts.rouse {h : History} {course : Course} (ha : course.Accounts h)
    (now : UInt64) : (course.rouse now).Accounts h := by
  cases course with
  | orphaned key => trivial
  | _ => exact ha

theorem Course.Accounts.resume {h : History} {course : Course} (ha : course.Accounts h)
    (t : Moment) (reply : (course.await h.plan).Reply) :
    (course.resume h.plan t reply).Accounts (h.add ⟨t, course.await h.plan, reply⟩) := by
  cases course with
  | under stage => exact ⟨ha.1.resume reply, announces_resume stage reply⟩
  | retracting key now => trivial
  | orphaned key => exact reply.elim
  | gone => exact reply.elim

namespace Traffic

variable {s : Traffic} {i : Nat} {p : Passage} {key : String}

/-- Every request can account for its claim. -/
def Accountable (s : Traffic) : Prop :=
  ∀ (i : Nat) (p : Passage), s.passages[i]? = some p → p.course.Accounts p.toHistory

theorem Accountable.step (h : s.Accountable) (m : Move) : (s.step m).Accountable := by
  intro i q hq
  rcases next_or_new hq with ⟨p, hp, hnext⟩ | ⟨plan, rfl⟩
  · have hp := h i p hp
    cases hnext with
    | same => exact hp
    | dropped inside => exact hp.drop inside
    | roused => exact hp.rouse _
    | answered turned => exact hp.resume s.now _
  · exact ⟨owes_start plan s.now, announces_start⟩

theorem accountable_run (t : Moment) (moves : List Move) : ((start t).run moves).Accountable :=
  preserved_run (fun _ m h => h.step m) (fun _ _ hp => by cases hp) moves

/-! ## In the background -/

/-- A dropped request waits for its release of the key, or that has been answered. -/
def Releases (key : String) (p : Passage) : Prop :=
  (∃ now, p.course = .retracting key now) ∨
    ∃ t now reply, Exchange.release t key now reply ∈ p.past

theorem Releases.next (h : Releases key p) {q : Passage} (hnext : Next s i p q) :
    Releases key q := by
  obtain ⟨h₀, course⟩ := p
  cases hnext with
  | same => exact h
  | dropped inside =>
      refine h.imp_left ?_
      rintro ⟨now, rfl⟩
      exact ⟨now, rfl⟩
  | roused =>
      refine h.imp_left ?_
      rintro ⟨now, rfl⟩
      exact ⟨now, rfl⟩
  | @answered signal reply records turned =>
      right
      rcases h with ⟨now, rfl⟩ | ⟨t, now, reply', hpast⟩
      · exact ⟨s.now, now, reply, List.mem_append_right _ List.mem_cons_self⟩
      · exact ⟨t, now, reply', List.mem_append_left _ hpast⟩

/-- A dropped request gives the key up as soon as it is roused. -/
def Retracts (key : String) (p : Passage) : Prop := p.course = .orphaned key ∨ Releases key p

theorem Retracts.next (h : Retracts key p) {q : Passage} (hnext : Next s i p q) :
    Retracts key q := by
  rcases h with horphaned | hreleases
  · obtain ⟨h₀, course⟩ := p
    obtain rfl : course = .orphaned key := horphaned
    cases hnext with
    | same => exact .inl rfl
    | dropped inside => exact .inl rfl
    | roused => exact .inr (.inl ⟨_, rfl⟩)
    | @answered signal reply records turned => exact reply.elim
  · exact .inr (hreleases.next hnext)

theorem Releases.run (hp : s.passages[i]? = some p) (h : Releases key p) (moves : List Move) :
    ∃ q, (s.run moves).passages[i]? = some q ∧ Releases key q := by
  induction moves generalizing s p with
  | nil => exact ⟨p, hp, h⟩
  | cons m moves ih =>
      obtain ⟨q, hq, hnext⟩ := exists_next hp m
      exact ih hq (h.next hnext)

/-- Whatever happens meanwhile, the key is given up once the dropped request has been roused. -/
theorem Retracts.run (hp : s.passages[i]? = some p) (h : Retracts key p) {moves : List Move}
    (hroused : .rouse i ∈ moves) :
    ∃ q, (s.run moves).passages[i]? = some q ∧ Releases key q := by
  induction moves generalizing s p with
  | nil => cases hroused
  | cons m moves ih =>
      obtain ⟨q, hq, hnext⟩ := exists_next hp m
      by_cases hm : m = .rouse i
      · subst hm
        have hq : (s.step (.rouse i)).passages[i]? = some _ := getElem?_modify_self hp _
        have hreleases : Releases key { p with course := p.course.rouse s.now.clockSecs } := by
          rcases h with horphaned | hreleases
          · exact .inl ⟨s.now.clockSecs, by rw [horphaned]; rfl⟩
          · exact hreleases.next (Next.roused (s := s) (i := i))
        exact hreleases.run hq moves
      · exact ih hq (h.next hnext) ((List.mem_cons.mp hroused).resolve_left (Ne.symm hm))

/-- A request that is gone does nothing more. -/
theorem gone_run (hp : s.passages[i]? = some p) (hgone : p.course = .gone) (moves : List Move) :
    (s.run moves).passages[i]? = some p := by
  induction moves generalizing s with
  | nil => exact hp
  | cons m moves ih =>
      obtain ⟨q, hq, hnext⟩ := exists_next hp m
      obtain ⟨h, course⟩ := p
      obtain rfl : course = .gone := hgone
      cases hnext with
      | same => exact ih hq
      | dropped inside => exact ih hq
      | roused => exact ih hq
      | @answered signal reply records turned => exact reply.elim

/-- No claim on the key is left when the store has answered a release of it. -/
theorem clear_of_answered (hp : s.passages[i]? = some p) {now : UInt64}
    (hawait : p.await = .record (.release key now)) :
    (s.step (.answer i .answered)).records.Clear key now := by
  have hreply : (Signal.answered.reply? s.records p.await).isSome = true := by
    rw [hawait]
    rfl
  rcases s.step_answer_cases i .answered with ⟨hnone, -⟩ | ⟨q, reply, records, hturned, hstep⟩
  · simp only [exchange?, hp, Option.map_eq_none_iff] at hnone
    rw [hnone] at hreply
    cases hreply
  · obtain rfl : p = q := Option.some_inj.mp (hp.symm.trans hturned.passage)
    have hrecords : records = (s.records.answer (.release key now)).2 :=
      Signal.records_of_reply?_answered hturned.reply_eq hawait
    rw [hstep]
    change records.Clear key now
    rw [hrecords]
    exact clear_answer_release s.records key (UInt64.le_refl now)

/-- Once the report of its claim is over, a request that is dropped inside the runtime without
having saved its response has given its key up, or does so in the background. Whenever the store
answers that it has given the key up, no claim is left there. -/
theorem key_released_of_drop {t : Moment} {moves : List Move} {i : Nat} {p : Passage}
    {stage : Stage} {key : String} {since : UInt64}
    (hp : ((start t).run moves).passages[i]? = some p) (hcourse : p.course = .under stage)
    (hwon : p.Won key since) (hreported : ∀ goal, stage ≠ .telling .claimed none goal)
    (hunsaved : ∀ status body, ¬ p.Saved key status body) :
    ((∃ u now reply, Exchange.release u key now reply ∈ p.past) ∨
      ∀ later, .rouse i ∈ later →
        ∃ q, ((start t).run (moves ++ .drop i true :: later)).passages[i]? = some q ∧
          ((∃ now, q.await = .record (.release key now)) ∨
            ∃ u now reply, Exchange.release u key now reply ∈ q.past)) ∧
      ∀ moves q now, ((start t).run moves).passages[i]? = some q →
        q.await = .record (.release key now) →
          ((start t).run (moves ++ [.answer i .answered])).records.Clear key now := by
  refine ⟨?_, ?_⟩
  · have haccounts := accountable_run t moves i p hp
    have hfits := sound_run t moves i p hp
    rw [hcourse] at haccounts hfits
    rcases haccounts.1.guarded_or_over haccounts.2 hwon with ⟨k, hguarded⟩ | ⟨goal, hgoal⟩ | hdeals
    · right
      intro later hroused
      obtain ⟨since', hwon'⟩ := Stage.Fits.won_of_guarded? hfits hguarded
      obtain rfl : k = key := by
        have hsame := hwon'.symm.trans hwon
        simp only [Option.some_inj, Prod.mk.injEq] at hsame
        exact hsame.1
      have hdropped : (((start t).run moves).step (.drop i true)).passages[i]? = some _ :=
        getElem?_modify_self hp _
      have horphaned : p.course.drop true = .orphaned k := by
        rw [hcourse]
        exact Course.drop_of_guarded hguarded
      rw [run_append, run_cons]
      obtain ⟨q, hq, hreleases⟩ := Retracts.run hdropped (.inl horphaned) hroused
      refine ⟨q, hq, hreleases.imp_left ?_⟩
      rintro ⟨now, hretracting⟩
      exact ⟨now, by rw [Passage.await, hretracting]; rfl⟩
    · exact absurd hgoal (hreported goal)
    · exact .inl (hdeals.released_of_unsaved hwon hunsaved)
  · intro moves q now hq hawait
    rw [run_append]
    exact clear_of_answered hq hawait

/-- A request that has reported its claim and whose handler never answers. -/
def hangingMoves : List Move := [.arrive (recordsOnly "k"), .answer 0 .answered, .answer 0 .done]

def hangingPassage : Passage where
  plan := recordsOnly "k"
  past := [.win ⟨0, 0⟩ "k" 0 (recordsOnly "k").terms, ⟨⟨0, 0⟩, .tell .claimed, ()⟩]
  course := .under (.handling .unlimited (some "k"))

/-- Some seconds after the request has been dropped, the store is asked to give the key up. -/
theorem key_released_of_drop_hangingMoves :
    ((start ⟨0, 0⟩).run hangingMoves).passages[0]? = some hangingPassage ∧
      (∃ q, ((start ⟨0, 0⟩).run
          (hangingMoves ++ [.drop 0 true, .advance ⟨9000, 9⟩, .rouse 0])).passages[0]? = some q ∧
        ((∃ now, q.await = .record (.release "k" now)) ∨
          ∃ u now reply, Exchange.release u "k" now reply ∈ q.past)) ∧
      ((start ⟨0, 0⟩).run (hangingMoves ++ [.drop 0 true, .advance ⟨9000, 9⟩, .rouse 0] ++
        [.answer 0 .answered])).records.Clear "k" 9 := by
  have hp : ((start ⟨0, 0⟩).run hangingMoves).passages[0]? = some hangingPassage := rfl
  have hcourse : hangingPassage.course = .under (.handling .unlimited (some "k")) := rfl
  have hwon : hangingPassage.Won "k" 0 := by decide +kernel
  have hpast : ∀ x ∈ hangingPassage.past, x = .win ⟨0, 0⟩ "k" 0 (recordsOnly "k").terms ∨
      x = ⟨⟨0, 0⟩, .tell .claimed, ()⟩ := by
    intro x hx
    simpa [hangingPassage] using hx
  have hunsaved : ∀ status body, ¬ hangingPassage.Saved "k" status body := by
    rintro status body ⟨x, hx, hsaved⟩
    rcases hpast x hx with rfl | rfl
    · cases hsaved
    · cases hsaved
  have hreported : ∀ goal, Stage.handling .unlimited (some "k") ≠ .telling .claimed none goal := by
    intro goal hsame
    cases hsame
  obtain ⟨hissued, hclear⟩ := key_released_of_drop hp hcourse hwon hreported hunsaved
  have hback := hissued.resolve_left (by
    rintro ⟨u, now, reply, hx⟩
    rcases hpast _ hx with hx | hx
    · cases hx
    · cases hx)
  have hawait : ((start ⟨0, 0⟩).run (hangingMoves ++
      [.drop 0 true, .advance ⟨9000, 9⟩, .rouse 0])).passages[0]?.map Passage.await =
        some (.record (.release "k" 9)) := by decide +kernel
  obtain ⟨q, hq, hrelease⟩ := Option.map_eq_some_iff.mp hawait
  exact ⟨hp, hback [.advance ⟨9000, 9⟩, .rouse 0] (by simp), hclear _ q 9 hq hrelease⟩

/-- Outside of the runtime the dropped request never gives its key up, and another claim is refused
until the last second of the lease. -/
theorem key_kept_of_drop_outside :
    ((start ⟨0, 0⟩).run hangingMoves).passages[0]?.map Passage.await = some .handler ∧
      ((start ⟨0, 0⟩).run (hangingMoves ++ [.drop 0 false, .rouse 0])).passages[0]?.map
        (fun p => (p.await, p.past.map Exchange.await)) =
          some (.nothing, [.record (.claim "k" 0 (.ofSecs 86400) (.ofSecs 60)), .tell .claimed]) ∧
      (((start ⟨0, 0⟩).run (hangingMoves ++ [.drop 0 false, .rouse 0])).records.answer
        (.claim "k" 59 (.ofSecs 86400) (.ofSecs 60))).1 = some (.processing "k" 0) := by
  decide +kernel

/-- A request that has won its key and is reporting that. -/
def announcingMoves : List Move := [.arrive (recordsOnly "k"), .answer 0 .answered]

def announcingPassage : Passage where
  plan := recordsOnly "k"
  past := [.win ⟨0, 0⟩ "k" 0 (recordsOnly "k").terms]
  course := .under (.telling .claimed none (.dispatch .unlimited (some "k")))

/-- Inside of the runtime, too, a request that is dropped while it reports its claim never gives its
key up, whatever happens later, and another claim is refused until the last second of the lease. -/
theorem key_kept_of_drop_announcing :
    ((start ⟨0, 0⟩).run announcingMoves).passages[0]? = some announcingPassage ∧
      (∀ later, ((start ⟨0, 0⟩).run (announcingMoves ++ .drop 0 true :: later)).passages[0]? =
        some { announcingPassage with course := .gone }) ∧
      (((start ⟨0, 0⟩).run (announcingMoves ++ [.drop 0 true, .rouse 0])).records.answer
        (.claim "k" 59 (.ofSecs 86400) (.ofSecs 60))).1 = some (.processing "k" 0) := by
  have hp : ((start ⟨0, 0⟩).run announcingMoves).passages[0]? = some announcingPassage := rfl
  refine ⟨hp, fun later => ?_, by decide +kernel⟩
  have hdropped : (((start ⟨0, 0⟩).run announcingMoves).step (.drop 0 true)).passages[0]? =
      some _ := getElem?_modify_self hp _
  rw [run_append, run_cons]
  exact gone_run hdropped rfl later

end Traffic

end Admission
