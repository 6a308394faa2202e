import Admission.Proofs.Traffic.Effect

/-! # What a stage says about the history

A request runs its handler with a key only while it owns the key, saves only what its handler has
returned, and gives up only what it owns. Its calls carry readings of the clock that are over. -/

namespace Admission

/-! ## Standings -/

namespace History

/-- No claim has been made yet. -/
structure Fresh (h : History) : Prop where
  claim?_eq : h.claim? = none
  unsettled : h.settled = false

/-- The claim on the key was won and has neither led to a saved response nor been given up. -/
structure Owns (h : History) (key : String) : Prop where
  key_eq : h.plan.key = some key
  won : ∃ now, h.Won key now
  unsettled : h.settled = false

/-- There is no key, or the claim on it came to something else than its being won. -/
def Unclaimed (h : History) : Prop :=
  h.plan.key = none ∨
    ∃ key now claim, h.claim? = some (key, now, claim) ∧ claim ≠ Record.Claim.claimed

/-- Whether the handler runs with this key or without one is borne out by the history. -/
def Dispatched (h : History) : Option String → Prop
  | some key => h.Owns key
  | none => h.Unclaimed

section Add

variable {h : History} {x : Exchange} {key : String} {owned : Option String}

theorem Fresh.add (hfresh : h.Fresh) (hclaim : x.claim? = none) (hsettles : x.settles = false) :
    (h.add x).Fresh where
  claim?_eq := by rw [claim?_add_of_none hfresh.claim?_eq, hclaim]
  unsettled := by rw [settled_add, hfresh.unsettled, hsettles, Bool.false_or]

theorem Owns.add (howns : h.Owns key) (hsettles : x.settles = false) : (h.add x).Owns key where
  key_eq := howns.key_eq
  won := howns.won.imp fun _ hwon => hwon.add
  unsettled := by rw [settled_add, howns.unsettled, hsettles, Bool.false_or]

theorem Unclaimed.add (hun : h.Unclaimed) : (h.add x).Unclaimed := by
  rcases hun with hnone | ⟨key, now, claim, hclaim, hne⟩
  · exact .inl hnone
  · exact .inr ⟨key, now, claim, claim?_add_of_some hclaim, hne⟩

theorem Lost.unclaimed (hlost : h.Lost key) : h.Unclaimed := by
  obtain ⟨now, record, hclaim⟩ := hlost
  exact .inr ⟨key, now, _, hclaim, by simp⟩

theorem Dispatched.add (hd : h.Dispatched owned) (hsettles : x.settles = false) :
    (h.add x).Dispatched owned := by
  cases owned with
  | some key => exact Owns.add hd hsettles
  | none => exact Unclaimed.add hd

end Add

end History

/-- A response never passes for a record that is still processing. -/
theorem Response.ne_processingStatus {status : UInt16} (h : isStatus status = true) :
    status ≠ Record.processingStatus := by
  rintro rfl
  cases h

/-! ## Standings by stage -/

/-- Whether the response or the result is certain. -/
def Goal.isLast : Goal → Bool
  | .settle .. => true
  | .finish _ => true
  | _ => false

/-- What the history of a request must be when it is on the way to a goal. -/
def Goal.Fits (h : History) : Goal → Prop
  | .claim _ => h.Fresh
  | .dispatch _ owned => h.Dispatched owned
  | .settle .. => True
  | .finish _ => True

/-- What the history of a request must be when it is at a stage, and what readings of the clock its
calls may carry. -/
def Stage.Fits (h : History) (limit : UInt64) : Stage → Prop
  | .checking .. => h.Fresh
  | .claiming _ key now => h.plan.key = some key ∧ now ≤ limit ∧ h.Fresh
  | .pausing _ key _ _ => h.plan.key = some key ∧ h.Lost key
  | .fetching _ key _ now => h.plan.key = some key ∧ now ≤ limit ∧ h.Lost key
  | .handling _ owned => h.Dispatched owned
  | .saving _ key response now =>
    h.Owns key ∧ now ≤ limit ∧ h.Returned response ∧ Response.isStatus response.status = true
  | .releasing key now goal => h.Owns key ∧ now ≤ limit ∧ goal.isLast = true
  | .charging .. => True
  | .telling _ owned goal => goal.Fits h ∧ ∀ key, owned = some key → ∃ now, h.Won key now
  | .finished _ => True

def Course.Fits (h : History) (limit : UInt64) : Course → Prop
  | .under stage => stage.Fits h limit
  | .orphaned key => ∃ now, h.Won key now
  | .retracting key now => now ≤ limit ∧ ∃ now, h.Won key now
  | .gone => True

section Fits

variable {h : History} {limit limit' : UInt64}

theorem Goal.fits_of_isLast {goal : Goal} (hlast : goal.isLast = true) : goal.Fits h := by
  cases goal with
  | settle => trivial
  | finish => trivial
  | claim => cases hlast
  | dispatch => cases hlast

theorem Stage.Fits.later {stage : Stage} (hfits : stage.Fits h limit) (hle : limit ≤ limit') :
    stage.Fits h limit' := by
  cases stage with
  | claiming => exact ⟨hfits.1, UInt64.le_trans hfits.2.1 hle, hfits.2.2⟩
  | fetching => exact ⟨hfits.1, UInt64.le_trans hfits.2.1 hle, hfits.2.2⟩
  | saving => exact ⟨hfits.1, UInt64.le_trans hfits.2.1 hle, hfits.2.2⟩
  | releasing => exact ⟨hfits.1, UInt64.le_trans hfits.2.1 hle, hfits.2.2⟩
  | _ => exact hfits

theorem Course.Fits.later {course : Course} (hfits : course.Fits h limit) (hle : limit ≤ limit') :
    course.Fits h limit' := by
  cases course with
  | under stage => exact Stage.Fits.later hfits hle
  | retracting => exact ⟨UInt64.le_trans hfits.1 hle, hfits.2⟩
  | _ => exact hfits

/-- A key is guarded only by a request that has won the claim on it. -/
theorem Stage.Fits.won_of_guarded? {stage : Stage} {key : String} (hfits : stage.Fits h limit)
    (hkey : stage.guarded? = some key) : ∃ now, h.Won key now := by
  cases stage with
  | handling verdict owned =>
      obtain rfl : owned = some key := hkey
      exact History.Owns.won hfits
  | saving verdict k response now =>
      obtain rfl : k = key := by simpa [guarded?] using hkey
      exact hfits.1.won
  | releasing k now goal =>
      obtain rfl : k = key := by simpa [guarded?] using hkey
      exact hfits.1.won
  | telling event owned goal => exact hfits.2 key hkey
  | _ => cases hkey

theorem Course.Fits.drop {course : Course} (hfits : course.Fits h limit) (inside : Bool) :
    (course.drop inside).Fits h limit := by
  cases course with
  | under stage =>
      cases hkey : stage.guarded? with
      | none =>
          cases stage with
          | finished => trivial
          | _ =>
              simp only [Course.drop, hkey]
              trivial
      | some key =>
          have hwon := Stage.Fits.won_of_guarded? hfits hkey
          cases stage with
          | finished => trivial
          | _ =>
              simp only [Course.drop, hkey]
              cases inside with
              | false => trivial
              | true => exact hwon
  | _ => exact hfits

theorem Course.Fits.rouse {course : Course} (hfits : course.Fits h limit) :
    (course.rouse limit).Fits h limit := by
  cases course with
  | orphaned key => exact ⟨UInt64.le_refl _, hfits⟩
  | _ => exact hfits

end Fits

/-! ## Answers keep a request within its standing -/

section Resume

variable {h : History} {t : Moment} {x : Exchange}

theorem Goal.Fits.add {goal : Goal} (hfits : goal.Fits h) (hclaim : x.claim? = none)
    (hsettles : x.settles = false) : goal.Fits (h.add x) := by
  cases goal with
  | claim => exact History.Fresh.add hfits hclaim hsettles
  | dispatch => exact History.Dispatched.add hfits hsettles
  | settle => trivial
  | finish => trivial

theorem Goal.Fits.enter {g : Goal} (hfits : g.Fits h) (t : Moment) :
    (h.plan.enter t g).Fits h t.clockSecs := by
  cases g with
  | claim verdict =>
      simp only [Plan.enter]
      split
      · next key hkey => exact ⟨hkey, UInt64.le_refl _, hfits⟩
      · next hkey => exact .inl hkey
  | dispatch verdict owned => exact hfits
  | settle verdict response =>
      simp only [Plan.enter]
      split
      · trivial
      · split <;> trivial
  | finish result => trivial

theorem Stage.Fits.start (plan : Plan) (t : Moment) :
    (plan.start t).Fits ⟨plan, []⟩ t.clockSecs := by
  have hfresh : History.Fresh ⟨plan, []⟩ := ⟨rfl, rfl⟩
  cases haccount : plan.account with
  | some account =>
      simp only [Plan.start, haccount]
      exact hfresh
  | none =>
      simp only [Plan.start, haccount]
      exact Goal.Fits.enter (h := ⟨plan, []⟩) (g := .claim .unlimited) hfresh t

/-- A report by a request that owns nothing. -/
theorem Goal.Fits.telling {g : Goal} (hfits : g.Fits h) (event : Event) (limit : UInt64) :
    (Stage.telling event none g).Fits h limit :=
  ⟨hfits, fun _ hnone => by cases hnone⟩

theorem fits_degraded (hun : h.Unclaimed) (verdict : Verdict) (e : StoreError) (limit : UInt64) :
    (Plan.degraded verdict e).Fits h limit :=
  Goal.Fits.telling (g := .dispatch verdict none) hun _ _

theorem fits_replay (hun : h.Unclaimed) (verdict : Verdict) (record : Record) (limit : UInt64) :
    (Plan.replay verdict record).Fits h limit := by
  unfold Plan.replay
  split
  · exact Goal.Fits.telling (by trivial) _ _
  · exact fits_degraded hun _ _ _

theorem fits_keepWaiting {key : String} (hkey : h.plan.key = some key) (hlost : h.Lost key)
    (verdict : Verdict) (poll : Poll) (t : Moment) (limit : UInt64) :
    (Plan.keepWaiting verdict key poll t).Fits h limit := by
  unfold Plan.keepWaiting
  split
  · exact Goal.Fits.telling (by trivial) _ _
  · exact ⟨hkey, hlost⟩

theorem fits_checked (hfresh : h.Fresh) (account : Account)
    (reply : Except StoreError Bucket.State) (limit : UInt64) :
    (Plan.checked account t reply).Fits h limit := by
  cases reply with
  | ok state =>
      simp only [Plan.checked]
      split
      · exact Goal.Fits.telling (g := .claim _) hfresh _ _
      · exact Goal.Fits.telling (by trivial) _ _
  | error e => exact Goal.Fits.telling (g := .claim _) hfresh _ _

/-- The claim has been answered, as the history shows. -/
theorem fits_claimed {key : String} {now : UInt64} {claim : Record.Claim}
    (hkey : h.plan.key = some key) (hclaim : h.claim? = some (key, now, claim))
    (hsettled : h.settled = false) (verdict : Verdict) (limit : UInt64) :
    (h.plan.claimed verdict key t claim).Fits h limit := by
  cases claim with
  | claimed =>
      have howns : h.Owns key := ⟨hkey, ⟨now, hclaim⟩, hsettled⟩
      exact Goal.Fits.telling (g := .dispatch verdict (some key)) howns _ _
  | degraded e => exact fits_degraded (.inr ⟨key, now, _, hclaim, by simp⟩) _ _ _
  | alreadyClaimed record =>
      have hlost : h.Lost key := ⟨now, record, hclaim⟩
      simp only [Plan.claimed]
      split
      · split
        · exact Goal.Fits.telling (g := .dispatch verdict none) hlost.unclaimed _ _
        · exact fits_keepWaiting hkey hlost _ _ _ _
      · exact fits_replay hlost.unclaimed _ _ _

theorem fits_fetched {key : String} (hkey : h.plan.key = some key) (hlost : h.Lost key)
    (verdict : Verdict) (poll : Poll) (reply : Except StoreError (Option Record))
    (limit : UInt64) : (Plan.fetched verdict key poll t reply).Fits h limit := by
  match reply with
  | .ok (some record) =>
      simp only [Plan.fetched]
      split
      · exact fits_keepWaiting hkey hlost _ _ _ _
      · exact fits_replay hlost.unclaimed _ _ _
  | .ok none => exact Goal.Fits.telling (by trivial) _ _
  | .error e => exact fits_degraded hlost.unclaimed _ _ _

theorem fits_handled {owned : Option String} (hd : h.Dispatched owned) (verdict : Verdict)
    {reply : Except String Response}
    (hreply : ∀ response, reply = .ok response →
      h.Returned response ∧ Response.isStatus response.status = true) :
    (h.plan.handled verdict owned t reply).Fits h t.clockSecs := by
  cases reply with
  | ok response =>
      cases owned with
      | some key => exact ⟨hd, UInt64.le_refl _, hreply response rfl⟩
      | none => exact Goal.Fits.enter (g := .settle verdict response) trivial t
  | error e =>
      cases owned with
      | some key => exact ⟨hd, UInt64.le_refl _, rfl⟩
      | none => trivial

theorem fits_released {key : String} {goal : Goal} (hlast : goal.isLast = true)
    (hwon : ∃ now, h.Won key now) (reply : Except StoreError Bool) :
    (h.plan.released key goal t reply).Fits h t.clockSecs := by
  match reply with
  | .ok true =>
      refine ⟨Goal.fits_of_isLast hlast, ?_⟩
      intro k hk
      obtain rfl : key = k := Option.some_inj.mp hk
      exact hwon
  | .ok false => exact Goal.Fits.enter (Goal.fits_of_isLast hlast) t
  | .error e => exact Goal.Fits.enter (Goal.fits_of_isLast hlast) t

/-- Every answer takes a request to a stage that its longer history fits. -/
theorem Stage.Fits.resume {stage : Stage} {reply : (h.plan.await stage).Reply}
    (hfits : stage.Fits h t.clockSecs)
    (hstatus : ∀ response, Exchange.returned? ⟨t, h.plan.await stage, reply⟩ = some response →
      Response.isStatus response.status = true) :
    (h.plan.resume t stage reply).Fits (h.add ⟨t, h.plan.await stage, reply⟩) t.clockSecs := by
  cases stage with
  | checking account now => exact fits_checked (History.Fresh.add hfits rfl rfl) _ _ _
  | claiming verdict key now =>
      obtain ⟨hkey, -, hfresh⟩ := hfits
      refine fits_claimed (h := h.add _) hkey (History.claim?_add_of_none hfresh.claim?_eq) ?_
        verdict _
      rw [History.settled_add, hfresh.unsettled]
      rfl
  | pausing verdict key poll left => exact ⟨hfits.1, UInt64.le_refl _, hfits.2.add⟩
  | fetching verdict key poll now => exact fits_fetched (h := h.add _) hfits.1 hfits.2.2.add _ _ _ _
  | handling verdict owned =>
      refine fits_handled (History.Dispatched.add hfits ?_) verdict ?_
      · cases reply <;> rfl
      · rintro response rfl
        exact ⟨⟨_, List.mem_append_right _ (List.mem_singleton.mpr rfl), rfl⟩,
          hstatus response rfl⟩
  | saving verdict key response now =>
      match reply with
      | .ok () => exact Goal.Fits.enter (g := .settle verdict response) trivial t
      | .error e => exact ⟨hfits.1.add rfl, UInt64.le_refl _, rfl⟩
  | releasing key now goal =>
      obtain ⟨howns, -, hlast⟩ := hfits
      exact fits_released hlast (howns.won.imp fun _ hwon => hwon.add) _
  | charging account cost now response =>
      cases reply <;> exact Goal.Fits.telling (by trivial) _ _
  | telling event owned goal => exact Goal.Fits.enter (hfits.1.add rfl rfl) t
  | finished result => exact reply.elim

theorem Course.Fits.resume {course : Course} {reply : (course.await h.plan).Reply}
    (hfits : course.Fits h t.clockSecs)
    (hstatus : ∀ response, Exchange.returned? ⟨t, course.await h.plan, reply⟩ = some response →
      Response.isStatus response.status = true) :
    (course.resume h.plan t reply).Fits (h.add ⟨t, course.await h.plan, reply⟩) t.clockSecs := by
  cases course with
  | under stage => exact Stage.Fits.resume hfits hstatus
  | orphaned key => exact reply.elim
  | retracting key now => trivial
  | gone => exact reply.elim

end Resume

/-! ## Calls on the records -/

section Calls

variable {h : History} {course : Course} {limit now : UInt64} {key : String}

theorem Course.Fits.of_await_claim {ttl lease : Span} (hfits : course.Fits h limit)
    (hawait : course.await h.plan = .record (.claim key now ttl lease)) :
    now ≤ limit ∧ ttl = h.plan.terms.ttl ∧ lease = h.plan.terms.lease ∧ h.plan.key = some key ∧
      h.Fresh := by
  cases course with
  | under stage =>
      cases stage with
      | claiming verdict k c =>
          cases hawait
          exact ⟨hfits.2.1, rfl, rfl, hfits.1, hfits.2.2⟩
      | _ => cases hawait
  | _ => cases hawait

theorem Course.Fits.of_await_complete {status : UInt16} {body : Bytes} {ttl : Span}
    (hfits : course.Fits h limit)
    (hawait : course.await h.plan = .record (.complete key status body now ttl)) :
    now ≤ limit ∧ ttl = h.plan.terms.ttl ∧ h.Owns key ∧ ∃ response, h.Returned response ∧
      response.status = status ∧ response.body = body ∧
      Response.isStatus response.status = true := by
  cases course with
  | under stage =>
      cases stage with
      | saving verdict k response c =>
          cases hawait
          exact ⟨hfits.2.1, rfl, hfits.1, response, hfits.2.2.1, rfl, rfl, hfits.2.2.2⟩
      | _ => cases hawait
  | _ => cases hawait

theorem Course.Fits.of_await_fetch (hfits : course.Fits h limit)
    (hawait : course.await h.plan = .record (.fetch key now)) :
    now ≤ limit ∧ h.plan.key = some key ∧ h.Lost key := by
  cases course with
  | under stage =>
      cases stage with
      | fetching verdict k poll c =>
          cases hawait
          exact ⟨hfits.2.1, hfits.1, hfits.2.2⟩
      | _ => cases hawait
  | _ => cases hawait

/-- A request that is not dropped saves and gives up only what it owns. -/
theorem Stage.Fits.owns_of_settles {stage : Stage} {call : Record.Call} (hfits : stage.Fits h limit)
    (hawait : h.plan.await stage = .record call) (hsettles : call.settles key = true) :
    h.Owns key := by
  cases stage with
  | saving verdict k response now =>
      cases hawait
      obtain rfl := beq_iff_eq.mp hsettles
      exact hfits.1
  | releasing k now goal =>
      cases hawait
      obtain rfl := beq_iff_eq.mp hsettles
      exact hfits.1
  | claiming =>
      cases hawait
      cases hsettles
  | fetching =>
      cases hawait
      cases hsettles
  | _ => cases hawait

/-- What is saved is what the handler of a request has returned that owns the key. -/
theorem Course.Fits.of_saved? {t : Moment} {reply : (course.await h.plan).Reply} {status : UInt16}
    {body : Bytes} (hfits : course.Fits h limit)
    (hsaved : Exchange.saved? ⟨t, course.await h.plan, reply⟩ = some (key, status, body)) :
    h.Owns key ∧ ∃ response, h.Returned response ∧ response.status = status ∧
      response.body = body ∧ Response.isStatus response.status = true := by
  obtain ⟨u, now, ttl, hx⟩ := Exchange.exists_of_saved? hsaved
  exact (hfits.of_await_complete (congrArg Exchange.await hx)).2.2

end Calls

/-! ## All requests -/

namespace Traffic

variable {s : Traffic}

/-- Every request is where its history fits. -/
def Sound (s : Traffic) : Prop :=
  ∀ (i : Nat) (p : Passage), s.passages[i]? = some p →
    p.course.Fits p.toHistory s.now.clockSecs

theorem Sound.modify (h : s.Sound) {f : Course → Course} (i : Nat)
    (hf : ∀ (p : Passage), p.course.Fits p.toHistory s.now.clockSecs →
      (f p.course).Fits p.toHistory s.now.clockSecs) :
    Sound { s with passages := s.passages.modify i fun p => { p with course := f p.course } } := by
  intro j q hq
  obtain ⟨p, hp, rfl | rfl⟩ := passage_modify_cases hq
  · exact h j q hp
  · exact hf p (h j p hp)

theorem Sound.step (h : s.Sound) (m : Move) : (s.step m).Sound := by
  cases m with
  | arrive plan =>
      intro i p hp
      rcases passage_arrive_cases hp with hp | rfl
      · exact h i p hp
      · exact Stage.Fits.start plan s.now
  | advance t =>
      by_cases ht : s.now.clockMs ≤ t.clockMs ∧ s.now.instant ≤ t.instant
      · rw [Traffic.step, if_pos ht]
        intro i p hp
        exact (h i p hp).later (Moment.clockSecs_le ht.1)
      · rw [Traffic.step, if_neg ht]
        exact h
  | purge => exact h
  | answer i signal =>
      rcases s.step_answer_cases i signal with ⟨-, hsame⟩ | ⟨p, reply, records, hturned, hstep⟩
      · rwa [hsame]
      · rw [hstep]
        intro j q hq
        rcases passage_turn_cases hturned.passage hq with ⟨-, rfl⟩ | ⟨-, hq⟩
        · exact (h i p hturned.passage).resume fun response hresponse =>
            Signal.isStatus_of_reply? hturned.reply_eq hresponse
        · exact h j q hq
  | drop i inside => exact h.modify i fun p hp => hp.drop inside
  | rouse i => exact h.modify i fun p hp => hp.rouse

theorem sound_run (t : Moment) (moves : List Move) : ((start t).run moves).Sound :=
  preserved_run (fun _ m h => h.step m) (fun _ _ hp => by cases hp) moves

end Traffic

end Admission
