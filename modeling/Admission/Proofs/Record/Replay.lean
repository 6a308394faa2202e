import Admission.Proofs.Record.Claims
import Admission.Record.Claim

/-! # How long a saved response is given again

A response that is saved is what every claim and every fetch of its key finds, until the lifetime is
over of the record that it is written into. That lifetime counts from the second in which the record
was made, and nothing that is done with the key afterwards makes it longer or shorter. -/

namespace Admission.Record

/-- Whether a number of seconds can be read off a clock that counts milliseconds. -/
def IsReading (now : UInt64) : Prop := ∃ ms : UInt64, now = ms / 1000

theorem IsReading.toNat_lt {now : UInt64} (h : IsReading now) : now.toNat < UInt64.size - 1 := by
  obtain ⟨ms, rfl⟩ := h
  have hms := ms.toNat_lt
  rw [UInt64.toNat_div]
  simp only [UInt64.reduceToNat, UInt64.size]
  omega

/-- Whether a use claims a key. -/
def Use.claims (key : String) : Use → Bool
  | .call (.claim k ..) => k == key
  | _ => false

/-- Whether a use writes a response under a key. -/
def Use.saves (key : String) : Use → Bool
  | .call (.complete k ..) => k == key
  | _ => false

/-! ## When a record was made -/

namespace Entry

/-- An entry of a key that was made at a second to live for a while. -/
structure MadeAt (e : Entry) (key : String) (since : UInt64) (ttl : Span) : Prop where
  key : e.record.key = key
  createdAt : e.record.createdAt = since
  expiresAt : e.expiresAt = Word.addClamped since (lifetimeSecs ttl)

theorem MadeAt.complete {e : Entry} {key : String} {since : UInt64} {ttl : Span}
    (h : e.MadeAt key since ttl) (status : UInt16) (body : Bytes) :
    (e.complete status body).MadeAt key since ttl := ⟨h.key, h.createdAt, h.expiresAt⟩

theorem MadeAt.isLive_iff {e : Entry} {key : String} {since now : UInt64} {ttl : Span}
    (h : e.MadeAt key since ttl) (hnow : IsReading now) :
    e.isLive now = true ↔ now.toNat < since.toNat + (lifetimeSecs ttl).toNat := by
  rw [isLive, h.expiresAt, decide_eq_true_eq]
  exact lt_addClamped_iff hnow.toNat_lt

end Entry

namespace Store

/-- The second and the time to live at which a use makes a record of a key, if it does: a claim that
is won, or a save that finds no live record. -/
def makes? (s : Store) (key : String) : Use → Option (UInt64 × Span)
  | .call (.claim k now ttl _) =>
    if k = key ∧ (s.held? key now).isNone then some (now, ttl) else none
  | .call (.complete k _ _ now ttl) =>
    if k = key ∧ (s.live? key now).isNone then some (now, ttl) else none
  | _ => none

/-- The second and the time to live at which a history has last made a record of a key. -/
def lastMade? (s : Store) (key : String) : List Use → Option (UInt64 × Span)
  | [] => none
  | u :: history => ((s.use u).lastMade? key history).or (s.makes? key u)

theorem makes?_of_ne {call : Call} {key : String} (s : Store) (h : key ≠ call.key) :
    s.makes? key (.call call) = none := by
  cases call with
  | claim k now ttl lease =>
      have hk : k ≠ key := Ne.symm h
      simp [makes?, hk]
  | complete k status body now ttl =>
      have hk : k ≠ key := Ne.symm h
      simp [makes?, hk]
  | fetch k now => rfl
  | release k now => rfl

/-- What is kept for a key was made as `made?` says. -/
def Dated (s : Store) (key : String) (made? : Option (UInt64 × Span)) : Prop :=
  ∀ e, s.entries.get? key = some e → ∃ since ttl, made? = some (since, ttl) ∧ e.MadeAt key since ttl

variable {s : Store} {key : String} {made? : Option (UInt64 × Span)}

theorem dated_claim (h : s.Dated key made?) (now : UInt64) (ttl lease : Span) :
    (s.use (.call (.claim key now ttl lease))).Dated key
      ((s.makes? key (.call (.claim key now ttl lease))).or made?) := by
  intro e he
  cases hheld : s.held? key now with
  | some origin =>
      have hsame : s.use (.call (.claim key now ttl lease)) = s := by
        simp only [use, answer, hheld]
      rw [hsame] at he
      simpa [makes?, hheld] using h e he
  | none =>
      have hmade : s.use (.call (.claim key now ttl lease)) =
          s.put (.ofClaim key now ttl lease) := by
        simp only [use, answer, hheld]
        rfl
      rw [hmade] at he
      have hself := get?_put_self s (.ofClaim key now ttl lease)
      obtain rfl := Option.some_inj.mp (he.symm.trans hself)
      exact ⟨now, ttl, by simp [makes?, hheld], rfl, rfl, rfl⟩

theorem dated_complete (h : s.Dated key made?) (status : UInt16) (body : Bytes) (now : UInt64)
    (ttl : Span) :
    (s.use (.call (.complete key status body now ttl))).Dated key
      ((s.makes? key (.call (.complete key status body now ttl))).or made?) := by
  intro e he
  cases hlive : s.live? key now with
  | some origin =>
      obtain ⟨horigin, hlives⟩ := Option.filter_eq_some_iff.mp hlive
      have hafter := get?_answer_complete_of_live horigin hlives status body ttl
      obtain rfl := Option.some_inj.mp (he.symm.trans hafter)
      obtain ⟨since, ttl', hmade, hat⟩ := h origin horigin
      exact ⟨since, ttl', by simpa [makes?, hlive] using hmade, hat.complete status body⟩
  | none =>
      simp only [use, answer, hlive] at he
      obtain rfl := Option.some_inj.mp (he.symm.trans (get?_put_self s _))
      exact ⟨now, ttl, by simp [makes?, hlive], rfl, rfl, rfl⟩

/-- A use leaves what is kept for a key as it was made, or makes it. -/
theorem Dated.use (h : s.Dated key made?) (u : Use) :
    (s.use u).Dated key ((s.makes? key u).or made?) := by
  cases u with
  | purge now =>
      intro e he
      exact h e (get?_of_get?_purgeExpired he)
  | call call =>
      by_cases hkey : key = call.key
      · cases call with
        | claim k now ttl lease =>
            obtain rfl : key = k := hkey
            exact dated_claim h now ttl lease
        | complete k status body now ttl =>
            obtain rfl : key = k := hkey
            exact dated_complete h status body now ttl
        | fetch k now => exact h
        | release k now =>
            obtain rfl : key = k := hkey
            intro e he
            rcases s.answer_release_cases key now with ⟨origin, -, -, ha⟩ | ha
            · simp [Store.use, ha] at he
            · rw [Store.use, ha] at he
              exact h e he
      · intro e he
        rw [makes?_of_ne s hkey, Option.none_or]
        exact h e ((get?_answer_of_ne hkey).symm.trans he)

theorem Dated.follow (h : s.Dated key made?) (history : List Use) :
    (s.follow history).Dated key ((s.lastMade? key history).or made?) := by
  induction history generalizing s made? with
  | nil => simpa [lastMade?, Store.follow] using h
  | cons u history ih => simpa [lastMade?, Store.follow, Option.or_assoc] using ih (h.use u)

/-! ## What is found under the key -/

/-- The entry is kept under its key as long as it lives, and nothing else is kept there. -/
def Keeps (s : Store) (e : Entry) (now : UInt64) : Prop :=
  s.entries.get? e.record.key = some e ∨
    s.entries.get? e.record.key = none ∧ e.isLive now = false

namespace Keeps

variable {e : Entry} {now t : UInt64}

theorem get?_of_isLive (h : s.Keeps e now) (hlive : e.isLive now = true) :
    s.entries.get? e.record.key = some e := by
  rcases h with h | ⟨-, hover⟩
  · exact h
  · rw [hlive] at hover
    cases hover

theorem eq_of_get? (h : s.Keeps e now) {origin : Entry}
    (horigin : s.entries.get? e.record.key = some origin) : origin = e := by
  rcases h with h | ⟨h, -⟩
  · exact Option.some_inj.mp (horigin.symm.trans h)
  · rw [h] at horigin
    cases horigin

theorem later (h : s.Keeps e now) (hle : now ≤ t) : s.Keeps e t := by
  rcases h with h | ⟨h, hover⟩
  · exact .inl h
  · refine .inr ⟨h, ?_⟩
    rw [← Bool.not_eq_true] at hover ⊢
    exact fun hlive => hover (Entry.isLive_of_le hlive hle)

theorem answer_claim (h : s.Keeps e now) (hfinal : e.record.isProcessing = false)
    (hlive : e.isLive now = true) (ttl lease : Span) :
    s.answer (.claim e.record.key now ttl lease) = (some e.record, s) :=
  answer_claim_of_held (h.get?_of_isLive hlive)
    (Entry.isHeld_of_isProcessing_eq_false hfinal hlive) ttl lease

/-- A claim wins the key once the entry has expired. -/
theorem answer_claim_of_over (h : s.Keeps e now) (hover : e.isLive now = false) (ttl lease : Span) :
    (s.answer (.claim e.record.key now ttl lease)).1 = none := by
  rw [answer_claim_of_free]
  intro origin horigin
  rw [h.eq_of_get? horigin, ← Bool.not_eq_true]
  intro hheld
  rw [Entry.isLive_of_isHeld hheld] at hover
  cases hover

theorem answer_fetch (h : s.Keeps e now) (hlive : e.isLive now = true) :
    (s.answer (.fetch e.record.key now)).1 = some e.record := by
  rw [answer_fetch_of_live (h.get?_of_isLive hlive) hlive]

theorem answer_fetch_of_over (h : s.Keeps e now) (hover : e.isLive now = false) :
    (s.answer (.fetch e.record.key now)).1 = none := by
  rcases h with h | ⟨h, -⟩
  · simp [answer, live?, h, hover, Option.filter]
  · simp [answer, live?, h]

theorem answer_release (h : s.Keeps e now) (hfinal : e.record.isProcessing = false) :
    s.answer (.release e.record.key now) = (false, s) := by
  rcases s.answer_release_cases e.record.key now with ⟨origin, horigin, hprocessing, -⟩ | ha
  · rw [h.eq_of_get? horigin, hfinal] at hprocessing
    cases hprocessing
  · exact ha

/-- Only another response, or a claim after the end, takes the place of a response. -/
theorem use (h : s.Keeps e now) (hfinal : e.record.isProcessing = false) {u : Use}
    (hsaves : u.saves e.record.key = false)
    (hclaims : u.claims e.record.key = true → e.isLive u.nowSecs = true) (hle : now ≤ u.nowSecs) :
    (s.use u).Keeps e u.nowSecs := by
  have hkeeps := h.later hle
  cases u with
  | purge t =>
      by_cases hlive : e.isLive t = true
      · exact .inl (get?_purgeExpired_of_live (hkeeps.get?_of_isLive hlive) hlive)
      · have hover := eq_false_of_ne_true hlive
        refine .inr ⟨?_, hover⟩
        simp only [Store.use, get?_purgeExpired, Option.filter_eq_none_iff]
        intro origin horigin
        rwa [hkeeps.eq_of_get? horigin]
  | call call =>
      by_cases hkey : e.record.key = call.key
      · cases call with
        | claim k t ttl lease =>
            obtain rfl : e.record.key = k := hkey
            have hkeeps : s.Keeps e t := hkeeps
            have hlive : e.isLive t = true := hclaims (by simp [Use.claims])
            rw [Store.use, hkeeps.answer_claim hfinal hlive]
            exact hkeeps
        | complete k status body t ttl =>
            obtain rfl : e.record.key = k := hkey
            simp [Use.saves] at hsaves
        | fetch k t => exact hkeeps
        | release k t =>
            obtain rfl : e.record.key = k := hkey
            have hkeeps : s.Keeps e t := hkeeps
            rw [Store.use, hkeeps.answer_release hfinal]
            exact hkeeps
      · rw [Keeps, Store.use, get?_answer_of_ne hkey]
        exact hkeeps

theorem follow (h : s.Keeps e now) (hfinal : e.record.isProcessing = false) {history : List Use}
    (hordered : history.Pairwise fun u v => u.nowSecs ≤ v.nowSecs)
    (hnow : ∀ u ∈ history, now ≤ u.nowSecs)
    (hsaves : ∀ u ∈ history, u.saves e.record.key = false)
    (hclaims : ∀ u ∈ history, u.claims e.record.key = true → e.isLive u.nowSecs = true)
    (hle : now ≤ t) (hlast : ∀ u ∈ history, u.nowSecs ≤ t) : (s.follow history).Keeps e t := by
  induction history generalizing s now with
  | nil => exact h.later hle
  | cons u history ih =>
      rw [List.forall_mem_cons] at hnow hsaves hclaims hlast
      rw [List.pairwise_cons] at hordered
      exact ih (h.use hfinal hsaves.1 hclaims.1 hnow.1) hordered.2 hordered.1 hsaves.2 hclaims.2
        hlast.1 hlast.2

/-- Whatever is used next finds the entry, unless the key has been claimed after the end. -/
theorem follow_append_cons (h : s.Keeps e now) (hfinal : e.record.isProcessing = false)
    {before after : List Use} {u : Use}
    (hordered : (before ++ u :: after).Pairwise fun u v => u.nowSecs ≤ v.nowSecs)
    (hnow : ∀ v ∈ before ++ u :: after, now ≤ v.nowSecs)
    (hsaves : ∀ v ∈ before ++ u :: after, v.saves e.record.key = false)
    (hclaims : ∀ v ∈ before, v.claims e.record.key = true → e.isLive v.nowSecs = true) :
    (s.follow before).Keeps e u.nowSecs := by
  rw [List.forall_mem_append, List.forall_mem_cons] at hnow hsaves
  obtain ⟨hordered, -, hbefore⟩ := List.pairwise_append.mp hordered
  apply h.follow hfinal hordered hnow.1 hsaves.1 hclaims hnow.2.1
  exact fun v hv => hbefore v hv u List.mem_cons_self

end Keeps

/-- A record answers the claims and fetches of its key in a history up to a second, and cannot be
deleted. From that second on nothing is found under the key until it is claimed, and the first claim
wins it. -/
structure Replays (s : Store) (record : Record) (ends : Nat) (history : List Use) : Prop where
  claim : ∀ before now ttl lease after,
    history = before ++ .call (.claim record.key now ttl lease) :: after → now.toNat < ends →
      Claim.ofAnswer (.ok ((s.follow before).answer (.claim record.key now ttl lease)).1) =
        .alreadyClaimed record
  fetch : ∀ before now after,
    history = before ++ .call (.fetch record.key now) :: after → now.toNat < ends →
      ((s.follow before).answer (.fetch record.key now)).1 = some record
  release : ∀ before now after,
    history = before ++ .call (.release record.key now) :: after → now.toNat < ends →
      ((s.follow before).answer (.release record.key now)).1 = false
  fetch_over : ∀ before now after,
    history = before ++ .call (.fetch record.key now) :: after → ends ≤ now.toNat →
      (∀ u ∈ before, u.claims record.key = true → u.nowSecs.toNat < ends) →
        ((s.follow before).answer (.fetch record.key now)).1 = none
  claim_over : ∀ before now ttl lease after,
    history = before ++ .call (.claim record.key now ttl lease) :: after → ends ≤ now.toNat →
      (∀ u ∈ before, u.claims record.key = true → u.nowSecs.toNat < ends) →
        Claim.ofAnswer (.ok ((s.follow before).answer (.claim record.key now ttl lease)).1) =
          .claimed

/-- A response whose entry is kept is given again for as long as the entry lives. -/
theorem Keeps.replays {e : Entry} {now since : UInt64} {ttl : Span} (h : s.Keeps e now)
    (hfinal : e.record.isProcessing = false) (hmade : e.MadeAt key since ttl) {history : List Use}
    (hordered : history.Pairwise fun u v => u.nowSecs ≤ v.nowSecs)
    (hnow : ∀ u ∈ history, now ≤ u.nowSecs) (hreadings : ∀ u ∈ history, IsReading u.nowSecs)
    (hsaves : ∀ u ∈ history, u.saves key = false) :
    s.Replays e.record (since.toNat + (lifetimeSecs ttl).toNat) history := by
  obtain rfl := hmade.key
  have hreading : ∀ {before after : List Use} {u : Use}, history = before ++ u :: after →
      IsReading u.nowSecs := by
    rintro before after u rfl
    exact hreadings u List.mem_append_cons_self
  -- Before the end no claim can have been made after it.
  have hearly : ∀ {before after : List Use} {u : Use}, history = before ++ u :: after →
      u.nowSecs.toNat < since.toNat + (lifetimeSecs ttl).toNat →
      (s.follow before).Keeps e u.nowSecs ∧ e.isLive u.nowSecs = true := by
    intro before after u hhistory hlt
    have hlive := (hmade.isLive_iff (hreading hhistory)).mpr hlt
    subst hhistory
    refine ⟨h.follow_append_cons hfinal hordered hnow hsaves ?_, hlive⟩
    intro v hv _
    exact Entry.isLive_of_le hlive
      ((List.pairwise_append.mp hordered).2.2 v hv u List.mem_cons_self)
  have hlate : ∀ {before after : List Use} {u : Use}, history = before ++ u :: after →
      since.toNat + (lifetimeSecs ttl).toNat ≤ u.nowSecs.toNat →
      (∀ v ∈ before, v.claims e.record.key = true →
        v.nowSecs.toNat < since.toNat + (lifetimeSecs ttl).toNat) →
      (s.follow before).Keeps e u.nowSecs ∧ e.isLive u.nowSecs = false := by
    intro before after u hhistory hle hclaims
    have hover : e.isLive u.nowSecs = false := by
      rw [← Bool.not_eq_true, hmade.isLive_iff (hreading hhistory)]
      omega
    subst hhistory
    refine ⟨h.follow_append_cons hfinal hordered hnow hsaves ?_, hover⟩
    intro v hv hclaim
    exact (hmade.isLive_iff (hreadings v (List.mem_append_left _ hv))).mpr (hclaims v hv hclaim)
  constructor
  · intro before now ttl' lease after hhistory hlt
    obtain ⟨hkeeps, hlive⟩ := hearly hhistory hlt
    have hkeeps : (s.follow before).Keeps e now := hkeeps
    rw [hkeeps.answer_claim hfinal hlive]
    rfl
  · intro before now after hhistory hlt
    obtain ⟨hkeeps, hlive⟩ := hearly hhistory hlt
    exact answer_fetch hkeeps hlive
  · intro before now after hhistory hlt
    obtain ⟨hkeeps, hlive⟩ := hearly hhistory hlt
    have hkeeps : (s.follow before).Keeps e now := hkeeps
    rw [hkeeps.answer_release hfinal]
  · intro before now after hhistory hle hclaims
    obtain ⟨hkeeps, hover⟩ := hlate hhistory hle hclaims
    exact answer_fetch_of_over hkeeps hover
  · intro before now ttl' lease after hhistory hle hclaims
    obtain ⟨hkeeps, hover⟩ := hlate hhistory hle hclaims
    have hkeeps : (s.follow before).Keeps e now := hkeeps
    rw [hkeeps.answer_claim_of_over hover]
    rfl

/-- A response that is saved is what claims and fetches of its key find. Written into a live record,
it is given again for the rest of the lifetime that the record has had since it was made; otherwise
its own lifetime begins. -/
theorem replays_of_save {before after : List Use} {key : String} {status : UInt16} {body : Bytes}
    {now : UInt64} {terms : Terms} (hstatus : status ≠ processingStatus)
    (hordered : (before ++ .call (terms.saveCall key status body now) :: after).Pairwise
      fun u v => u.nowSecs ≤ v.nowSecs)
    (hreadings : ∀ u ∈ after, IsReading u.nowSecs) (hsaves : ∀ u ∈ after, u.saves key = false) :
    let saved := (empty.follow before).use (.call (terms.saveCall key status body now))
    (((empty.follow before).live? key now).isSome →
      ∃ since ttl, empty.lastMade? key before = some (since, ttl) ∧
        saved.Replays ⟨key, status, body, since⟩ (since.toNat + (lifetimeSecs ttl).toNat) after) ∧
      ((empty.follow before).live? key now = none →
        saved.Replays ⟨key, status, body, now⟩ (now.toNat + (lifetimeSecs terms.ttl).toNat)
          after) := by
  intro saved
  obtain ⟨-, hordered, -⟩ := List.pairwise_append.mp hordered
  obtain ⟨hnow, hordered⟩ := List.pairwise_cons.mp hordered
  constructor
  · intro hsome
    obtain ⟨e, hlive⟩ := Option.isSome_iff_exists.mp hsome
    obtain ⟨he, hlives⟩ := Option.filter_eq_some_iff.mp hlive
    have hempty : empty.Dated key none := nofun
    obtain ⟨since, ttl, hmade?, hmade⟩ := hempty.follow before e he
    have hafter : saved.entries.get? key = some (e.complete status body) :=
      get?_answer_complete_of_live he hlives status body terms.ttl
    have hmade := hmade.complete status body
    have hrecord : (e.complete status body).record = ⟨key, status, body, since⟩ := by
      rw [← hmade.key, ← hmade.createdAt]
      rfl
    refine ⟨since, ttl, by simpa using hmade?, ?_⟩
    rw [← hrecord]
    refine Keeps.replays (.inl ?_) (e.isProcessing_complete body hstatus) hmade hordered hnow
      hreadings hsaves
    rw [hmade.key, hafter]
  · intro hnone
    have hmade : Entry.MadeAt ⟨⟨key, status, body, now⟩,
        Word.addClamped now (lifetimeSecs terms.ttl), now⟩ key now terms.ttl := ⟨rfl, rfl, rfl⟩
    have hfinal : isProcessing ⟨key, status, body, now⟩ = false := by
      simp [isProcessing, hstatus]
    refine Keeps.replays (.inl ?_) hfinal hmade hordered hnow hreadings hsaves
    simp only [saved, use, Terms.saveCall, answer, hnone]
    exact get?_put_self _ _

/-- A claim for fifty seconds, and a look at it. -/
def claimedHistory : List Use :=
  [.call (.claim "k" 100 (.ofSecs 50) (.ofSecs 10)), .call (.fetch "k" 103)]

/-- Whatever may be done with a key whose response was saved. -/
def lookingHistory : List Use :=
  [.call (.claim "k" 120 (.ofSecs 9) (.ofSecs 9)), .call (.release "k" 130), .purge 140,
    .call (.complete "j" 200 [] 140 (.ofSecs 5)), .call (.fetch "k" 149), .purge 150,
    .call (.fetch "k" 150), .call (.claim "k" 155 (.ofSecs 9) (.ofSecs 9)),
    .call (.fetch "k" 156)]

theorem isReading_of_mem_lookingHistory : ∀ u ∈ lookingHistory, IsReading u.nowSecs := by
  have hall : ∀ u ∈ lookingHistory, u.nowSecs = u.nowSecs * 1000 / 1000 := by decide +kernel
  exact fun u hu => ⟨u.nowSecs * 1000, hall u hu⟩

/-- A response that is saved after five seconds is given again for forty-five. -/
theorem replays_of_save_lookingHistory :
    (claimedHistory ++ .call ((⟨.ofSecs 7, .ofSecs 7⟩ : Terms).saveCall "k" 201 [98] 105) ::
        lookingHistory).Pairwise (fun u v => u.nowSecs ≤ v.nowSecs) ∧
      (∀ u ∈ lookingHistory, u.saves "k" = false) ∧
      empty.lastMade? "k" claimedHistory = some (100, .ofSecs 50) ∧
      ((empty.follow claimedHistory).use (.call
        ((⟨.ofSecs 7, .ofSecs 7⟩ : Terms).saveCall "k" 201 [98] 105))).Replays
          ⟨"k", 201, [98], 100⟩ 150 lookingHistory := by
  have hordered : (claimedHistory ++
      .call ((⟨.ofSecs 7, .ofSecs 7⟩ : Terms).saveCall "k" 201 [98] 105) ::
        lookingHistory).Pairwise fun u v => u.nowSecs ≤ v.nowSecs := by decide +kernel
  have hsaves : ∀ u ∈ lookingHistory, u.saves "k" = false := by decide +kernel
  have hmade : empty.lastMade? "k" claimedHistory = some (100, .ofSecs 50) := by decide +kernel
  have hlive : ((empty.follow claimedHistory).live? "k" 105).isSome := by decide +kernel
  have hstatus : (201 : UInt16) ≠ processingStatus := by decide
  obtain ⟨hkept, -⟩ := replays_of_save hstatus hordered isReading_of_mem_lookingHistory hsaves
  obtain ⟨since, ttl, hsince, hreplays⟩ := hkept hlive
  obtain ⟨rfl, rfl⟩ := Prod.mk.inj (Option.some_inj.mp (hmade.symm.trans hsince))
  exact ⟨hordered, hsaves, hmade, hreplays⟩

end Store

end Admission.Record
