import Admission.Proofs.Bucket.Expiry
import Admission.Proofs.Server.Buckets
import Admission.Proofs.Traffic.Counters

/-! # Charges that come together

Requests that end at the same reading charge their bucket one after another, in no particular order.
Each charge stops at zero, and the first one may have to make the bucket. Even so none is lost: they
take out of the bucket what one charge of the sum of their costs would. -/

namespace Admission.Bucket

/-- Charges of several costs to one bucket, all at one reading and with one time to live. -/
def charges (key : Key) (capacity : UInt32) (nowMs : UInt64) (ttl : Span) (costs : List UInt32) :
    List Call :=
  costs.map fun cost => .deduct key capacity cost nowMs ttl

def totalCost (costs : List UInt32) : Nat := (costs.map UInt32.toNat).sum

theorem totalCost_cons (cost : UInt32) (costs : List UInt32) :
    totalCost (cost :: costs) = cost.toNat + totalCost costs := by
  simp [totalCost]

theorem totalCost_of_perm {costs costs' : List UInt32} (h : costs.Perm costs') :
    totalCost costs = totalCost costs' :=
  (h.map UInt32.toNat).sum_eq

namespace Store

/-- What the deductions among some calls find and leave. -/
def draws (s : Store) : List Call → List Draw
  | [] => []
  | call :: calls => Draw.ofCall s call ++ (s.answer call).2.draws calls

/-- The tokens that some calls take out. -/
def removed (s : Store) (calls : List Call) : Nat := ((s.draws calls).map Draw.removed).sum

section Charges

variable (s : Store) (key : Key) (capacity : UInt32) (nowMs : UInt64) (ttl : Span)

/-- The state in which a charge finds a bucket: one that is absent or has expired counts as full. -/
def foundBy : State := (s.live? key nowMs).getD (.full capacity nowMs)

/-- That state with so many tokens fewer, or with none. -/
def lessened (n : Nat) : State :=
  ⟨.ofNat ((s.tokensOf key capacity nowMs).toNat - n), (s.foundBy key capacity nowMs).lastRefillMs⟩

/-- The store after so many tokens were taken out at once. -/
def lessen (n : Nat) : Store :=
  ⟨s.entries.insert key.text
    ⟨s.lessened key capacity nowMs n, Word.addClamped nowMs ttl.millisWord⟩⟩

theorem toNat_tokensOf :
    (s.tokensOf key capacity nowMs).toNat =
      min (s.foundBy key capacity nowMs).tokens.toNat capacity.toNat :=
  toNat_min32 _ _

theorem toNat_tokens_lessened (n : Nat) :
    (s.lessened key capacity nowMs n).tokens.toNat =
      (s.tokensOf key capacity nowMs).toNat - n := by
  have hlt := (s.tokensOf key capacity nowMs).toNat_lt
  exact UInt32.toNat_ofNat_of_lt' (by simp only [UInt32.size]; omega)

/-- A charge takes its cost out at once. -/
theorem answer_deduct (cost : UInt32) :
    s.answer (.deduct key capacity cost nowMs ttl) =
      ((s.lessened key capacity nowMs cost.toNat).tokens,
        s.lessen key capacity nowMs ttl cost.toNat) := by
  have htokens : (deduct (s.live? key nowMs) capacity cost nowMs).tokens =
      (s.lessened key capacity nowMs cost.toNat).tokens := by
    rw [← UInt32.toNat_inj, toNat_tokens_deduct, toNat_tokens_lessened, toNat_tokensOf]
    rfl
  have hstate : deduct (s.live? key nowMs) capacity cost nowMs =
      s.lessened key capacity nowMs cost.toNat :=
    congrArg (State.mk · _) htokens
  simp only [answer, mutate, hstate, lessen]

theorem serve_charges_cons (cost : UInt32) (costs : List UInt32) :
    s.serve (charges key capacity nowMs ttl (cost :: costs)) =
      (s.lessen key capacity nowMs ttl cost.toNat).serve
        (charges key capacity nowMs ttl costs) := by
  rw [charges, List.map_cons, serve, List.foldl_cons, answer_deduct]
  rfl

theorem removed_charges_cons (cost : UInt32) (costs : List UInt32) :
    s.removed (charges key capacity nowMs ttl (cost :: costs)) =
      ((s.tokensOf key capacity nowMs).toNat -
          (s.lessened key capacity nowMs cost.toNat).tokens.toNat) +
        (s.lessen key capacity nowMs ttl cost.toNat).removed
          (charges key capacity nowMs ttl costs) := by
  simp [removed, draws, charges, Draw.ofCall, Draw.removed, answer_deduct]

variable {nowMs ttl}

/-- At a reading before the last one, an entry that lives for a millisecond is live. -/
theorem lt_addClamped_millisWord (hnow : nowMs.toNat < 2 ^ 64 - 1) (httl : 1 ≤ ttl.millis) :
    nowMs < Word.addClamped nowMs ttl.millisWord := by
  rw [UInt64.lt_iff_toNat_lt, Word.toNat_addClamped, Span.millisWord, Word.toNat_ofNatClamp]
  simp only [UInt64.size] at hnow ⊢
  omega

variable (hlives : nowMs < Word.addClamped nowMs ttl.millisWord)

include hlives

theorem foundBy_lessen (n : Nat) :
    (s.lessen key capacity nowMs ttl n).foundBy key capacity nowMs =
      s.lessened key capacity nowMs n := by
  have hkept : (s.lessen key capacity nowMs ttl n).entries.get? key.text =
      some ⟨s.lessened key capacity nowMs n, Word.addClamped nowMs ttl.millisWord⟩ :=
    s.entries.get?_insert_self _ _
  rw [foundBy, live?_of_get? hkept, if_pos hlives]
  rfl

theorem toNat_tokensOf_lessen (n : Nat) :
    ((s.lessen key capacity nowMs ttl n).tokensOf key capacity nowMs).toNat =
      (s.tokensOf key capacity nowMs).toNat - n := by
  have hcapacity := s.toNat_tokensOf key capacity nowMs
  rw [toNat_tokensOf, foundBy_lessen _ _ _ hlives, toNat_tokens_lessened]
  omega

/-- Taking tokens out twice is taking them out together. -/
theorem lessen_lessen (n m : Nat) :
    (s.lessen key capacity nowMs ttl n).lessen key capacity nowMs ttl m =
      s.lessen key capacity nowMs ttl (n + m) := by
  have hstate : (s.lessen key capacity nowMs ttl n).lessened key capacity nowMs m =
      s.lessened key capacity nowMs (n + m) := by
    simp only [lessened, toNat_tokensOf_lessen _ _ _ hlives, foundBy_lessen _ _ _ hlives,
      Nat.sub_sub]
  rw [lessen, hstate]
  exact congrArg Store.mk (s.entries.insert_insert_self _ _ _)

/-- Charges after the first one only add to it. -/
theorem serve_charges_lessen (costs : List UInt32) (n : Nat) :
    (s.lessen key capacity nowMs ttl n).serve (charges key capacity nowMs ttl costs) =
      s.lessen key capacity nowMs ttl (n + totalCost costs) := by
  induction costs generalizing n with
  | nil => rfl
  | cons cost costs ih =>
      rw [serve_charges_cons, lessen_lessen _ _ _ hlives, ih, totalCost_cons, Nat.add_assoc]

theorem serve_charges {costs : List UInt32} (hne : costs ≠ []) :
    s.serve (charges key capacity nowMs ttl costs) =
      s.lessen key capacity nowMs ttl (totalCost costs) := by
  obtain ⟨cost, costs, rfl⟩ := List.exists_cons_of_ne_nil hne
  rw [serve_charges_cons, serve_charges_lessen _ _ _ hlives, totalCost_cons]

/-- Charges take out their whole cost, as far as there are tokens. -/
theorem removed_charges (costs : List UInt32) :
    s.removed (charges key capacity nowMs ttl costs) =
      min (s.tokensOf key capacity nowMs).toNat (totalCost costs) := by
  induction costs generalizing s with
  | nil => exact (Nat.min_zero _).symm
  | cons cost costs ih =>
      rw [removed_charges_cons, ih, toNat_tokensOf_lessen _ _ _ hlives, toNat_tokens_lessened,
        totalCost_cons]
      omega

end Charges

/-- Charges that come at one reading, in whatever order, leave in the bucket what the sum of their
costs leaves of the tokens that they found, and its refill time as it was. So each order ends in the
same store, and what is taken out in all is that sum, or all tokens if it is larger. -/
theorem charges_add_up (s : Store) (key : Key) (capacity : UInt32) {nowMs : UInt64} {ttl : Span}
    {costs order : List UInt32} (hne : costs ≠ []) (hnow : nowMs.toNat < 2 ^ 64 - 1)
    (httl : 1 ≤ ttl.millis) (horder : order.Perm costs) :
    let found := (s.live? key nowMs).getD (.full capacity nowMs)
    let tokens := min found.tokens.toNat capacity.toNat
    let sum := (costs.map UInt32.toNat).sum
    (∃ e, (s.serve (charges key capacity nowMs ttl order)).entries.get? key.text = some e ∧
        e.state.tokens.toNat = tokens - sum ∧ e.state.lastRefillMs = found.lastRefillMs) ∧
      s.serve (charges key capacity nowMs ttl order) =
        s.serve (charges key capacity nowMs ttl costs) ∧
      s.removed (charges key capacity nowMs ttl order) = min tokens sum := by
  intro found tokens sum
  have hlives := lt_addClamped_millisWord hnow httl
  have hsum : totalCost order = sum := totalCost_of_perm horder
  have hleft := s.serve_charges key capacity hlives hne
  have hne' : order ≠ [] := by
    rintro rfl
    exact hne horder.nil_eq.symm
  have hleft' := s.serve_charges key capacity hlives hne'
  have htokens : (s.tokensOf key capacity nowMs).toNat = tokens :=
    s.toNat_tokensOf key capacity nowMs
  have hkept : (s.serve (charges key capacity nowMs ttl order)).entries.get? key.text =
      some ⟨s.lessened key capacity nowMs (totalCost order),
        Word.addClamped nowMs ttl.millisWord⟩ := by
    rw [hleft', lessen]
    exact s.entries.get?_insert_self _ _
  refine ⟨⟨_, hkept, ?_, rfl⟩, ?_, ?_⟩
  · rw [toNat_tokens_lessened, htokens, hsum]
  · rw [hleft', hleft, hsum]
    rfl
  · rw [removed_charges _ _ _ hlives, htokens, hsum]

/-- A bucket with more tokens than it may hold by now. -/
def ampleStore : Store := ⟨.ofList [("rate_limit:\x7bAMPLE:caller\x7d", ⟨⟨9, 400⟩, 5000⟩)]⟩

/-- The charges come to more than there is: one of them finds two tokens and the last one none. -/
theorem charges_add_up_ampleStore :
    let key : Key := ⟨"AMPLE", "caller"⟩
    [5, 0, 3, 2].Perm [2, 3, 5, (0 : UInt32)] ∧
      ((ampleStore.serve (charges key 7 1000 (.ofSecs 120) [5, 0, 3, 2])).entries.get? key.text).map
        Entry.state = some ⟨0, 400⟩ ∧
      ampleStore.serve (charges key 7 1000 (.ofSecs 120) [5, 0, 3, 2]) =
        ampleStore.serve (charges key 7 1000 (.ofSecs 120) [2, 3, 5, 0]) ∧
      ampleStore.removed (charges key 7 1000 (.ofSecs 120) [5, 0, 3, 2]) = 7 := by
  intro key
  have hnow : UInt64.toNat 1000 < 2 ^ 64 - 1 := by decide
  have httl : 1 ≤ (Span.ofSecs 120).millis := by decide
  have horder : [5, 0, 3, 2].Perm [2, 3, 5, (0 : UInt32)] := by decide
  obtain ⟨-, hsame, hremoved⟩ :=
    charges_add_up ampleStore key 7 (List.cons_ne_nil 2 [3, 5, 0]) hnow httl horder
  exact ⟨horder, by decide +kernel, hsame, hremoved.trans (by decide +kernel)⟩

end Store

end Admission.Bucket
