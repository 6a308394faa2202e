import Admission.Proofs.Record.History
import Admission.Proofs.Request.FailOpen
import Admission.Proofs.Traffic.Standing

/-! # What becomes of a claim

A request saves or gives up what it has claimed itself and nothing else. When it is over, its
response was saved or the key was given up, and if nobody else uses the key, no claim is left behind
unless giving it up has failed. -/

namespace Admission

open Record

/-! ## What a request does with its claim -/

namespace Exchange

/-- Whether an exchange claims a key, saves a response or gives a key up. -/
def deals : Exchange → Bool
  | ⟨_, .record (.claim ..), _⟩ => true
  | ⟨_, .record (.complete ..), _⟩ => true
  | ⟨_, .record (.release ..), _⟩ => true
  | _ => false

/-- Whether a claim was made but not won. -/
def isLost (x : Exchange) : Bool := x.claim?.isSome && x.won?.isNone

/-- A claim that was won. -/
def win (t : Moment) (key : String) (now : UInt64) (terms : Terms) : Exchange :=
  ⟨t, .record (terms.claimCall key now), .ok none⟩

def save (t : Moment) (key : String) (response : Response) (now : UInt64) (terms : Terms)
    (reply : Except StoreError Unit) : Exchange :=
  ⟨t, .record (terms.saveCall key response.status response.body now), reply⟩

def release (t : Moment) (key : String) (now : UInt64) (reply : Except StoreError Bool) :
    Exchange :=
  ⟨t, .record (.release key now), reply⟩

@[simp] theorem won?_win (t : Moment) (key : String) (now : UInt64) (terms : Terms) :
    (win t key now terms).won? = some key := rfl

@[simp] theorem won?_save (t : Moment) (key : String) (response : Response) (now : UInt64)
    (terms : Terms) (reply : Except StoreError Unit) :
    (save t key response now terms reply).won? = none := rfl

@[simp] theorem won?_release (t : Moment) (key : String) (now : UInt64)
    (reply : Except StoreError Bool) : (release t key now reply).won? = none := rfl

end Exchange

namespace History

open Exchange (win save release)

/-- All that a request has done with keys, in order. -/
def dealings (h : History) : List Exchange := h.past.filter Exchange.deals

/-- The handler was called once, in the course of a request with a key, and has answered. -/
structure Served (h : History) (key : String) (reply : Except String Response) : Prop where
  key_eq : h.plan.key = some key
  calls : h.calls = 1
  handled : h.Handled reply

/-- What a request may do with keys until it is over. -/
inductive Deals (h : History) : List Exchange → Prop
  /-- It wins no claim, and neither saves nor gives up anything. -/
  | unclaimed {past : List Exchange} (lost : ∀ x ∈ past, x.isLost = true) : Deals h past
  | saved {key : String} {response : Response} (served : h.Served key (.ok response))
      {t t' : Moment} {since now : UInt64} :
      Deals h [win t key since h.plan.terms, save t' key response now h.plan.terms (.ok ())]
  /-- The response cannot be saved. -/
  | unsaved {key : String} {response : Response} (served : h.Served key (.ok response))
      {t t' t'' : Moment} {since now now' : UInt64} {e : StoreError}
      {reply : Except StoreError Bool} :
      Deals h [win t key since h.plan.terms, save t' key response now h.plan.terms (.error e),
        release t'' key now' reply]
  /-- There is no response. -/
  | failed {key : String} {e : String} (served : h.Served key (.error e)) {t t' : Moment}
      {since now : UInt64} {reply : Except StoreError Bool} :
      Deals h [win t key since h.plan.terms, release t' key now reply]

/-- With the key that the request owns, or without one, the handler is yet to be called. -/
def Owes (h : History) : Option String → Prop
  | some key => h.plan.key = some key ∧ h.calls = 0 ∧
    ∃ t since, h.dealings = [win t key since h.plan.terms]
  | none => ∀ x ∈ h.dealings, x.isLost = true

/-! ### How a history grows -/

section Add

variable {h : History} {x : Exchange}

theorem dealings_add_of_deals (hx : x.deals = true) :
    (h.add x).dealings = h.dealings ++ [x] := by
  simp [dealings, hx]

theorem dealings_add_of_not_deals (hx : x.deals = false) : (h.add x).dealings = h.dealings := by
  simp [dealings, hx]

theorem Served.add {key : String} {reply : Except String Response} (hs : h.Served key reply)
    (hx : x.handled? = none) : (h.add x).Served key reply where
  key_eq := hs.key_eq
  calls := (calls_add_of_none hx).trans hs.calls
  handled := hs.handled.add

theorem Deals.add {past : List Exchange} (hd : h.Deals past) (hx : x.handled? = none) :
    (h.add x).Deals past := by
  cases hd with
  | unclaimed lost => exact .unclaimed lost
  | saved served => exact .saved (served.add hx)
  | unsaved served => exact .unsaved (served.add hx)
  | failed served => exact .failed (served.add hx)

theorem Owes.deals (ho : h.Owes none) : h.Deals h.dealings := .unclaimed ho

theorem Owes.add {owned : Option String} (ho : h.Owes owned) (hx : x.handled? = none)
    (hdeals : x.deals = false) : (h.add x).Owes owned := by
  cases owned with
  | none =>
      intro y hy
      rw [dealings_add_of_not_deals hdeals] at hy
      exact ho y hy
  | some key =>
      obtain ⟨hkey, hcalls, hdealings⟩ := ho
      exact ⟨hkey, (calls_add_of_none hx).trans hcalls,
        by rwa [dealings_add_of_not_deals hdeals]⟩

end Add

end History

/-! ## What a stage says about the claim -/

/-- What the history of a request must be when it is on the way to a goal. -/
def Goal.Owes (h : History) : Goal → Prop
  | .claim _ => h.calls = 0 ∧ h.dealings = []
  | .dispatch _ owned => h.Owes owned
  | .settle .. => h.Deals h.dealings
  | .finish _ => h.Deals h.dealings

/-- What the history of a request must be when it is at a stage. -/
def Stage.Owes (h : History) : Stage → Prop
  | .checking .. => h.calls = 0 ∧ h.dealings = []
  | .claiming _ key _ => h.plan.key = some key ∧ h.calls = 0 ∧ h.dealings = []
  | .pausing .. => h.Owes none
  | .fetching .. => h.Owes none
  | .handling _ owned => h.Owes owned
  | .saving _ key response _ => h.Served key (.ok response) ∧
    ∃ t since, h.dealings = [.win t key since h.plan.terms]
  | .releasing key now goal => ∀ t reply, goal.Owes (h.add (.release t key now reply))
  | .charging .. => h.Deals h.dealings
  | .telling _ _ goal => goal.Owes h
  | .finished _ => h.Deals h.dealings

section Owes

variable {h : History} {x : Exchange} {t : Moment}

theorem Goal.Owes.add {goal : Goal} (ho : goal.Owes h) (hx : x.handled? = none)
    (hdeals : x.deals = false) : goal.Owes (h.add x) := by
  have hsame := History.dealings_add_of_not_deals (h := h) hdeals
  cases goal with
  | claim verdict => exact ⟨(History.calls_add_of_none hx).trans ho.1, hsame.trans ho.2⟩
  | dispatch verdict owned => exact History.Owes.add ho hx hdeals
  | settle verdict response =>
      change (h.add x).Deals _
      rw [hsame]
      exact History.Deals.add ho hx
  | finish result =>
      change (h.add x).Deals _
      rw [hsame]
      exact History.Deals.add ho hx

theorem owes_settle (hdeals : h.Deals h.dealings) (verdict : Verdict) (response : Response) :
    (h.plan.enter t (.settle verdict response)).Owes h := by
  simp only [Plan.enter]
  split
  · exact hdeals
  · split <;> exact hdeals

theorem Goal.Owes.enter {goal : Goal} (ho : goal.Owes h) : (h.plan.enter t goal).Owes h := by
  cases goal with
  | claim verdict =>
      obtain ⟨hcalls, hnone⟩ := ho
      simp only [Plan.enter]
      split
      · next key hkey => exact ⟨hkey, hcalls, hnone⟩
      · change ∀ x ∈ h.dealings, x.isLost = true
        simp [hnone]
  | dispatch verdict owned => exact ho
  | settle verdict response => exact owes_settle ho verdict response
  | finish result => exact ho

theorem owes_start (plan : Plan) (t : Moment) : (plan.start t).Owes ⟨plan, []⟩ := by
  have hgoal : (Goal.claim .unlimited).Owes ⟨plan, []⟩ := ⟨rfl, rfl⟩
  unfold Plan.start
  split
  · exact hgoal
  · exact hgoal.enter (h := ⟨plan, []⟩)

theorem owes_replay (ho : h.Owes none) (verdict : Verdict) (record : Record) :
    (Plan.replay verdict record).Owes h := by
  unfold Plan.replay
  split
  · exact ho.deals
  · exact ho

theorem owes_keepWaiting (ho : h.Owes none) (verdict : Verdict) (key : String) (poll : Poll) :
    (Plan.keepWaiting verdict key poll t).Owes h := by
  unfold Plan.keepWaiting
  split
  · exact ho.deals
  · exact ho

/-- A claim that is not won is the last that a request does with its key. -/
theorem owes_claimed_of_lost (ho : h.Owes none) (verdict : Verdict) (key : String)
    (claim : Record.Claim) (hlost : claim ≠ .claimed) :
    (h.plan.claimed verdict key t claim).Owes h := by
  cases claim with
  | claimed => exact absurd rfl hlost
  | degraded e => exact ho
  | alreadyClaimed record =>
      simp only [Plan.claimed]
      split
      · split
        · exact ho
        · exact owes_keepWaiting ho verdict key _
      · exact owes_replay ho verdict record

theorem owes_fetched (ho : h.Owes none) (verdict : Verdict) (key : String) (poll : Poll)
    (reply : Except StoreError (Option Record)) :
    (Plan.fetched verdict key poll t reply).Owes h := by
  match reply with
  | .ok (some record) =>
      simp only [Plan.fetched]
      split
      · exact owes_keepWaiting ho verdict key poll
      · exact owes_replay ho verdict record
  | .ok none => exact ho.deals
  | .error e => exact ho

theorem owes_claiming (hcalls : h.calls = 0) (hnone : h.dealings = []) {key : String}
    (hkey : h.plan.key = some key) (verdict : Verdict) (now : UInt64)
    (reply : Except StoreError (Option Record)) :
    (h.plan.resume t (.claiming verdict key now) reply).Owes
      (h.add ⟨t, .record (h.plan.terms.claimCall key now), reply⟩) := by
  have hdealings : (h.add ⟨t, .record (h.plan.terms.claimCall key now), reply⟩).dealings =
      [⟨t, .record (h.plan.terms.claimCall key now), reply⟩] := by
    rw [History.dealings_add_of_deals rfl, hnone, List.nil_append]
  have hlost : Exchange.isLost ⟨t, .record (h.plan.terms.claimCall key now), reply⟩ = true →
      (h.add ⟨t, .record (h.plan.terms.claimCall key now), reply⟩).Owes none := by
    intro hx y hy
    rw [hdealings] at hy
    rwa [List.mem_singleton.mp hy]
  match reply with
  | .ok none => exact ⟨hkey, (History.calls_add_of_none rfl).trans hcalls, t, now, hdealings⟩
  | .ok (some record) =>
      exact owes_claimed_of_lost (h := h.add _) (t := t) (hlost rfl) verdict key
        (.alreadyClaimed record) nofun
  | .error e =>
      exact owes_claimed_of_lost (h := h.add _) (t := t) (hlost rfl) verdict key (.degraded e)
        nofun

theorem owes_handling {owned : Option String} (ho : h.Owes owned) (verdict : Verdict)
    (reply : Except String Response) :
    (h.plan.resume t (.handling verdict owned) reply).Owes (h.add ⟨t, .handler, reply⟩) := by
  have hdealings : (h.add ⟨t, .handler, reply⟩).dealings = h.dealings :=
    History.dealings_add_of_not_deals rfl
  cases owned with
  | none =>
      have hdeals : (h.add ⟨t, .handler, reply⟩).Deals (h.add ⟨t, .handler, reply⟩).dealings := by
        rw [hdealings]
        exact .unclaimed ho
      cases reply with
      | ok response => exact owes_settle (h := h.add _) hdeals verdict response
      | error e => exact hdeals
  | some key =>
      obtain ⟨hkey, hcalls, t₀, since, hwin⟩ := ho
      have hserved : (h.add ⟨t, .handler, reply⟩).Served key reply :=
        ⟨hkey, by rw [History.calls_add_of_some rfl, hcalls], _, History.mem_add _ _, rfl⟩
      cases reply with
      | ok response => exact ⟨hserved, t₀, since, hdealings.trans hwin⟩
      | error e =>
          intro t' reply'
          change History.Deals _ _
          rw [History.dealings_add_of_deals rfl, hdealings, hwin]
          exact .failed (hserved.add rfl)

theorem owes_saving {key : String} {response : Response} (hserved : h.Served key (.ok response))
    (hwin : ∃ t since, h.dealings = [.win t key since h.plan.terms]) (verdict : Verdict)
    (now : UInt64) (reply : Except StoreError Unit) :
    (h.plan.resume t (.saving verdict key response now) reply).Owes
      (h.add (.save t key response now h.plan.terms reply)) := by
  obtain ⟨t₀, since, hwin⟩ := hwin
  have hdealings : (h.add (.save t key response now h.plan.terms reply)).dealings =
      [.win t₀ key since h.plan.terms, .save t key response now h.plan.terms reply] := by
    rw [History.dealings_add_of_deals rfl, hwin, List.singleton_append]
  cases reply with
  | ok done =>
      refine owes_settle (h := h.add _) ?_ verdict response
      rw [hdealings]
      exact .saved (hserved.add rfl)
  | error e =>
      intro t' reply'
      change History.Deals _ _
      rw [History.dealings_add_of_deals rfl, hdealings]
      exact .unsaved ((hserved.add rfl).add rfl)

/-- Only the handler and calls on the key change what is owed. -/
theorem Stage.Owes.resume {stage : Stage} (ho : stage.Owes h)
    (reply : (h.plan.await stage).Reply) :
    (h.plan.resume t stage reply).Owes (h.add ⟨t, h.plan.await stage, reply⟩) := by
  cases stage with
  | checking account now =>
      have hgoal : (Goal.claim .unlimited).Owes
          (h.add ⟨t, h.plan.await (.checking account now), reply⟩) := Goal.Owes.add ho rfl rfl
      cases reply with
      | ok state =>
          simp only [Plan.resume, Plan.checked]
          split
          · exact hgoal
          · change History.Deals _ _
            rw [hgoal.2]
            exact .unclaimed (List.forall_mem_nil _)
      | error e => exact hgoal
  | claiming verdict key now => exact owes_claiming ho.2.1 ho.2.2 ho.1 verdict now reply
  | pausing verdict key poll left =>
      have ho : h.Owes none := ho
      exact ho.add rfl rfl
  | fetching verdict key poll now =>
      have ho : h.Owes none := ho
      exact owes_fetched (h := h.add _) (ho.add rfl rfl) verdict key poll reply
  | handling verdict owned => exact owes_handling ho verdict reply
  | saving verdict key response now => exact owes_saving ho.1 ho.2 verdict now reply
  | releasing key now goal =>
      have hgoal : goal.Owes (h.add (.release t key now reply)) := ho t reply
      cases reply with
      | ok deleted =>
          cases deleted with
          | true => exact hgoal
          | false => exact hgoal.enter (h := h.add _)
      | error e => exact hgoal.enter (h := h.add _)
  | charging account cost now response =>
      have hgoal : (Goal.finish (.ok response)).Owes
          (h.add ⟨t, h.plan.await (.charging account cost now response), reply⟩) :=
        Goal.Owes.add ho rfl rfl
      cases reply with
      | ok left => exact hgoal
      | error e => exact hgoal
  | telling event owned goal => exact Goal.Owes.enter (h := h.add _) (Goal.Owes.add ho rfl rfl)
  | finished result => exact reply.elim

theorem Plan.Run.owes {plan : Plan} {stage : Stage} (run : plan.Run h t stage) :
    stage.Owes h := by
  induction run with
  | start t => exact owes_start plan t
  | answer run t' reply takes ih =>
      obtain rfl := run.plan_eq
      exact ih.resume reply

end Owes

/-! ## What is left under the key -/

/-- How records change while they answer a request whose key nobody else uses: other keys are used,
what has expired is dropped, and a call that fails was carried out or was not. -/
inductive Attends (key : String) (records : Store) : List Exchange → Store → Prop
  | start : Attends key records [] records
  | meanwhile {past s} (h : Attends key records past s) (use : Use)
      (other : ∀ call, use = .call call → call.key ≠ key) : Attends key records past (s.use use)
  | answered {past s} (h : Attends key records past s) (t : Moment) (call : Call) :
      Attends key records (past ++ [⟨t, .record call, .ok (s.answer call).1⟩]) (s.answer call).2
  | failed {past s} (h : Attends key records past s) (t : Moment) (call : Call) (e : StoreError) :
      Attends key records (past ++ [⟨t, .record call, .error e⟩]) s
  | lost {past s} (h : Attends key records past s) (t : Moment) (call : Call) (e : StoreError) :
      Attends key records (past ++ [⟨t, .record call, .error e⟩]) (s.answer call).2
  | beside {past s} (h : Attends key records past s) {x : Exchange}
      (other : ∀ call, x.await ≠ .record call) : Attends key records (past ++ [x]) s

/-- No claim on the key is left from some time on. -/
def Record.Store.Clear (s : Store) (key : String) (since : UInt64) : Prop :=
  ∀ e, s.entries.get? key = some e → e.record.isProcessing = true → e.isLive since = false

/-- Answers after which no claim on the key is left from some time on. -/
inductive Exchange.Clears (key : String) (since : UInt64) : Exchange → Prop
  | saved {t status body now ttl answer} (final : status ≠ processingStatus) :
      Clears key since ⟨t, .record (.complete key status body now ttl), .ok answer⟩
  | released {t now answer} (past : now ≤ since) :
      Clears key since ⟨t, .record (.release key now), .ok answer⟩

section Clear

variable {s records : Store} {key : String} {since now : UInt64} {past : List Exchange}

theorem Record.Store.Clear.use (h : s.Clear key since) {u : Use}
    (hother : ∀ call, u = .call call → call.key ≠ key) : (s.use u).Clear key since := by
  intro e he
  cases u with
  | call call =>
      refine h e ((Store.get?_answer_of_ne ?_).symm.trans he)
      exact (hother call rfl).symm
  | purge now => exact h e (Store.get?_of_get?_purgeExpired he)

theorem clear_answer_complete (s : Store) (key : String) {status : UInt16}
    (hfinal : status ≠ processingStatus) (body : Bytes) (now : UInt64) (ttl : Span)
    (since : UInt64) : (s.answer (.complete key status body now ttl)).2.Clear key since := by
  intro e he hprocessing
  rcases s.get?_answer_complete_cases key status body now ttl with ⟨origin, -, hafter⟩ | hafter
  · obtain rfl := Option.some_inj.mp (he.symm.trans hafter)
    rw [Entry.isProcessing_complete origin body hfinal] at hprocessing
    cases hprocessing
  · obtain rfl := Option.some_inj.mp (he.symm.trans hafter)
    exact absurd (beq_iff_eq.mp hprocessing) hfinal

theorem clear_answer_release (s : Store) (key : String) (hpast : now ≤ since) :
    (s.answer (.release key now)).2.Clear key since := by
  intro e he hprocessing
  rw [← Bool.not_eq_true]
  intro hlive
  have hover := Store.isLive_eq_false_of_answer_release he hprocessing
  rw [Entry.isLive_of_le hlive hpast] at hover
  cases hover

theorem filter_deals_append_cases {x y : Exchange} {l : List Exchange}
    (h : (past ++ [y]).filter Exchange.deals = l ++ [x]) :
    x = y ∨ y.deals = false ∧ past.filter Exchange.deals = l ++ [x] := by
  rw [List.filter_append] at h
  cases hy : y.deals with
  | true =>
      rw [List.filter_cons_of_pos hy, List.filter_nil] at h
      exact .inl (List.singleton_inj.mp (List.append_inj_right' h rfl)).symm
  | false =>
      rw [List.filter_cons_of_neg (by simp [hy]), List.filter_nil, List.append_nil] at h
      exact .inr ⟨rfl, h⟩

/-- A call that is no dealing with a key only looks at the records. -/
theorem answer_snd_of_not_deals (s : Store) {t : Moment} {call : Call}
    {reply : Await.Reply (.record call)} (h : Exchange.deals ⟨t, .record call, reply⟩ = false) :
    (s.answer call).2 = s := by
  cases call with
  | fetch key now => rfl
  | _ => cases h

/-- Once the last dealing with the key has cleared it, no claim appears. -/
theorem Attends.clear (h : Attends key records past s) {l : List Exchange} {x : Exchange}
    (hlast : past.filter Exchange.deals = l ++ [x]) (hclears : x.Clears key since) :
    s.Clear key since := by
  induction h generalizing l with
  | start => simp at hlast
  | meanwhile h use other ih => exact (ih hlast).use other
  | @answered past s h t call ih =>
      rcases filter_deals_append_cases hlast with rfl | ⟨hlooks, hlast⟩
      · cases hclears with
        | saved final => exact clear_answer_complete s key final _ _ _ since
        | released past => exact clear_answer_release s key past
      · rw [answer_snd_of_not_deals s hlooks]
        exact ih hlast
  | failed h t call e ih =>
      rcases filter_deals_append_cases hlast with rfl | ⟨-, hlast⟩
      · cases hclears
      · exact ih hlast
  | @lost past s h t call e ih =>
      rcases filter_deals_append_cases hlast with rfl | ⟨hlooks, hlast⟩
      · cases hclears
      · rw [answer_snd_of_not_deals s hlooks]
        exact ih hlast
  | beside h other ih =>
      rcases filter_deals_append_cases hlast with rfl | ⟨-, hlast⟩
      · cases hclears with
        | saved final => exact absurd rfl (other _)
        | released past => exact absurd rfl (other _)
      · exact ih hlast

end Clear

/-! ## Requests that are over -/

section Over

variable {h : History} {key : String}

theorem Record.Store.Clear.isProcessing_eq_false {s : Store} {now : UInt64} {record : Record}
    (hclear : s.Clear key now) (hfetch : (s.answer (.fetch key now)).1 = some record) :
    record.isProcessing = false := by
  obtain ⟨e, he, rfl⟩ := Option.map_eq_some_iff.mp hfetch
  obtain ⟨he, hlive⟩ := Option.filter_eq_some_iff.mp he
  rw [← Bool.not_eq_true]
  intro hprocessing
  rw [hclear e he hprocessing] at hlive
  cases hlive

theorem History.returned_of_handled {response : Response} (hhandled : h.Handled (.ok response)) :
    h.Returned response := by
  obtain ⟨x, hx, hreply⟩ := hhandled
  refine ⟨x, hx, ?_⟩
  obtain ⟨t, a, reply⟩ := x
  cases a with
  | handler =>
      obtain rfl : reply = .ok response := Option.some_inj.mp hreply
      rfl
  | _ => cases hreply

theorem History.Won.mem_dealings {since : UInt64} (hwon : h.Won key since) :
    key ∈ h.dealings.filterMap Exchange.won? := by
  obtain ⟨x, hx, hclaim⟩ := List.exists_of_findSome?_eq_some hwon
  have hwin := Exchange.won?_of_claim? hclaim
  refine List.mem_filterMap.mpr ⟨x, List.mem_filter.mpr ⟨hx, ?_⟩, hwin⟩
  obtain ⟨t, now, ttl, lease, rfl⟩ := Exchange.exists_of_won? hwin
  rfl

/-- The last that a request does with a key that it has won is to save its response or to give the
key up. -/
theorem History.Deals.exists_last {past : List Exchange} (hdeals : h.Deals past)
    (hwon : key ∈ past.filterMap Exchange.won?) :
    ∃ l x, past = l ++ [x] ∧
      ((∃ t now response, h.Handled (.ok response) ∧
          x = .save t key response now h.plan.terms (.ok ())) ∨
        ∃ t now reply, x = .release t key now reply) := by
  cases hdeals with
  | unclaimed lost =>
      obtain ⟨x, hx, hwin⟩ := List.mem_filterMap.mp hwon
      have hlost := lost x hx
      simp [Exchange.isLost, hwin] at hlost
  | @saved k response served t t' since now =>
      obtain rfl : key = k := by simpa using hwon
      exact ⟨[_], _, rfl, .inl ⟨t', now, response, served.handled, rfl⟩⟩
  | @unsaved k response served t t' t'' since now now' e reply =>
      obtain rfl : key = k := by simpa using hwon
      exact ⟨[_, _], _, rfl, .inr ⟨t'', now', reply, rfl⟩⟩
  | @failed k e served t t' since now reply =>
      obtain rfl : key = k := by simpa using hwon
      exact ⟨[_], _, rfl, .inr ⟨t', now, reply, rfl⟩⟩

end Over

/-- Whatever the stores answer, a request that is over has saved or given up what it has claimed and
nothing else. If nobody else uses the key that it has won, no claim is left there unless giving it
up has failed. -/
theorem Plan.Run.deals_of_finished {plan : Plan} {h : History} {t : Moment}
    {result : Except String Response} (run : plan.Run h t (.finished result)) :
    h.Deals h.dealings ∧
      ∀ {key : String} {since now : UInt64} {records left : Store} {record : Record},
        h.Won key since → Attends key records h.past left →
        (∀ response, h.Returned response → Response.isStatus response.status = true) →
        (∀ t r reply, .release t key r reply ∈ h.past → r ≤ now) →
        (left.answer (.fetch key now)).1 = some record → record.isProcessing = true →
          ∃ t r e, .release t key r (.error e) ∈ h.past := by
  have hdeals : h.Deals h.dealings := run.owes
  refine ⟨hdeals, ?_⟩
  intro key since now records left record hwon hattends hstatus hpast hfetch hprocessing
  obtain ⟨l, x, hlast, hx⟩ := hdeals.exists_last hwon.mem_dealings
  have hclear : ¬ x.Clears key now := by
    intro hclears
    rw [(hattends.clear hlast hclears).isProcessing_eq_false hfetch] at hprocessing
    cases hprocessing
  have hmem : x ∈ h.dealings := hlast ▸ List.mem_append_cons_self
  have hmem : x ∈ h.past := (List.mem_filter.mp hmem).1
  rcases hx with ⟨t, r, response, hhandled, rfl⟩ | ⟨t, r, reply, rfl⟩
  · have hfinal := hstatus response (History.returned_of_handled hhandled)
    exact absurd (.saved (Response.ne_processingStatus hfinal)) hclear
  · cases reply with
    | ok deleted => exact absurd (.released (hpast t r _ hmem)) hclear
    | error e => exact ⟨t, r, e, hmem⟩

/-! ### A claim that is left behind -/

/-- A request whose bucket nobody limits. -/
def claimingPlan : Plan := { keyedPlan with account := none }

def createdResponse : Response := ⟨201, .empty, .ofString "b"⟩

/-- The response cannot be saved, and then the key cannot be given up. -/
def strandedPast : List Exchange :=
  [.win ⟨7000, 0⟩ "k" 7 claimingPlan.terms, ⟨⟨7000, 0⟩, .tell .claimed, ()⟩,
    ⟨⟨9000, 0⟩, .handler, .ok createdResponse⟩,
    .save ⟨9000, 0⟩ "k" createdResponse 9 claimingPlan.terms (.error (.unavailable "down")),
    .release ⟨9000, 0⟩ "k" 9 (.error (.unavailable "down"))]

theorem run_strandedPast : claimingPlan.Run ⟨claimingPlan, strandedPast⟩ ⟨9000, 0⟩
    (.finished (.ok createdResponse)) := by
  have hclaiming : claimingPlan.Run ⟨claimingPlan, []⟩ ⟨7000, 0⟩ (.claiming .unlimited "k" 7) :=
    .start ⟨7000, 0⟩
  have htelling := hclaiming.answer ⟨7000, 0⟩ (.ok none) (Await.takes_of_le (by decide) nofun)
  have hhandling := htelling.answer ⟨7000, 0⟩ () (Await.takes_of_le (by decide) nofun)
  have hsaving := hhandling.answer ⟨9000, 0⟩ (.ok createdResponse)
    (Await.takes_of_le (by decide) nofun)
  have hreleasing := hsaving.answer ⟨9000, 0⟩ (.error (.unavailable "down"))
    (Await.takes_of_le (by decide) nofun)
  exact hreleasing.answer ⟨9000, 0⟩ (.error (.unavailable "down"))
    (Await.takes_of_le (by decide) nofun)

/-- What is left after the stranded request. -/
def strandedStore : Store := (Store.empty.answer (claimingPlan.terms.claimCall "k" 7)).2

theorem attends_strandedPast : Attends "k" .empty strandedPast strandedStore := by
  have hwon : Attends "k" .empty (strandedPast.take 1) strandedStore :=
    Attends.start.answered ⟨7000, 0⟩ (claimingPlan.terms.claimCall "k" 7)
  have htold : Attends "k" .empty (strandedPast.take 2) strandedStore := hwon.beside nofun
  have hhandled : Attends "k" .empty (strandedPast.take 3) strandedStore := htold.beside nofun
  exact (hhandled.failed _ _ _).failed _ _ _

theorem deals_of_finished_strandedPast :
    claimingPlan.Run ⟨claimingPlan, strandedPast⟩ ⟨9000, 0⟩ (.finished (.ok createdResponse)) ∧
      History.Deals ⟨claimingPlan, strandedPast⟩ (History.dealings ⟨claimingPlan, strandedPast⟩) ∧
      (strandedStore.answer (.fetch "k" 9)).1 = some (.processing "k" 7) ∧
      ∃ t r e, .release t "k" r (.error e) ∈ strandedPast := by
  obtain ⟨hdeals, hleft⟩ := run_strandedPast.deals_of_finished
  have hwon : History.Won ⟨claimingPlan, strandedPast⟩ "k" 7 := by decide +kernel
  have hstatus : ∀ response, History.Returned ⟨claimingPlan, strandedPast⟩ response →
      Response.isStatus response.status = true := by
    have hall : ∀ x ∈ strandedPast, ∀ response ∈ x.returned?,
        Response.isStatus response.status = true := by decide +kernel
    rintro response ⟨x, hx, hreturned⟩
    exact hall x hx response hreturned
  have hpast : ∀ t r reply, .release t "k" r reply ∈ strandedPast → r ≤ 9 := by
    intro t r reply hx
    simp only [strandedPast, List.mem_cons, List.not_mem_nil, or_false] at hx
    rcases hx with hx | hx | hx | hx | hx
    · cases hx
    · cases hx
    · cases hx
    · cases hx
    · cases hx
      exact UInt64.le_refl _
  have hfetch : (strandedStore.answer (.fetch "k" 9)).1 = some (.processing "k" 7) := by
    decide +kernel
  exact ⟨run_strandedPast, hdeals, hfetch,
    hleft hwon attends_strandedPast hstatus hpast hfetch (by decide)⟩

end Admission
