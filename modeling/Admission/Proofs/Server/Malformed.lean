import Admission.Policy.Basic
import Admission.Proofs.Server.Bounds
import Admission.Proofs.Server.Buckets

/-! # Malformed buckets

A refill and a deduction read two texts that anybody may have written. Each either finds something
that is no number and touches nothing, or writes both texts anew. What a refill has written it may
still be unable to answer with, since a word is never negative. -/

namespace Admission.Server

open Binary64 (ofNat AtMost)
open Bucket (Key)
open Script

/-! ## What is found -/

/-- The number in a slot, if there is a slot and it holds a number. -/
def numberOf : Option Slot → Option (Option Binary64)
  | none => none
  | some ⟨.string value, _⟩ => some (Binary64.ofChars? value.chars)
  | some ⟨.hash _, _⟩ => some none

/-- The two slots of a bucket, as far as they are there. -/
def bucket? (s : Server) (key : Key) : Option Slot × Option Slot :=
  (s.live? key.tokensName, s.live? key.lastRefillName)

/-- Two numbers, as far as they are there, unless one of them is no number. -/
def numbersOf : Option (Option Binary64) → Option (Option Binary64) →
    Option (Option Binary64 × Option Binary64)
  | some none, _ => none
  | _, some none => none
  | tokens, last => some (tokens.join, last.join)

theorem numbersOf_some_none (tokens : Option (Option Binary64)) :
    numbersOf tokens (some none) = none := by
  rcases tokens with _ | _ | _ <;> rfl

/-- The two numbers of a bucket, as far as they are there, unless a slot holds no number. -/
def numbers? (s : Server) (key : Key) : Option (Option Binary64 × Option Binary64) :=
  numbersOf (numberOf (s.bucket? key).1) (numberOf (s.bucket? key).2)

theorem bucketNumbers_eq (key : Key) :
    bucketNumbers key = (do
      let tokens ← get key.tokensName
      let last ← get key.lastRefillName
      let found := numbersOf (tokens.map (Binary64.ofChars? ·.chars))
        (last.map (Binary64.ofChars? ·.chars))
      found.elim (throw (.malformedBucket key.tokensName)) pure) := by
  unfold bucketNumbers
  congr 1
  funext tokens
  congr 1
  funext last
  generalize tokens.map (Binary64.ofChars? ·.chars) = tokens
  generalize last.map (Binary64.ofChars? ·.chars) = last
  rcases tokens with _ | _ | _ <;> rcases last with _ | _ | _ <;> rfl

section Read

variable {s : Server} (hrunning : s.failing = none)

include hrunning

/-- A string is read as its slot is, and a hash is not. -/
theorem get_gives_or_fails (name : String) :
    (∃ text : Option Bytes, (get name).Gives s text s ∧
      numberOf (s.live? name) = text.map (Binary64.ofChars? ·.chars)) ∨
    (get name).Fails s .wrongType s ∧ numberOf (s.live? name) = some none := by
  cases hlive : s.live? name with
  | none => exact .inl ⟨none, get_gives_none hrunning hlive, rfl⟩
  | some slot =>
      obtain ⟨stored, expires⟩ := slot
      cases stored with
      | string value => exact .inl ⟨some value, get_gives_some hrunning hlive, rfl⟩
      | hash fields => exact .inr ⟨get_fails_hash hrunning hlive, rfl⟩

/-- A bucket is read just if none of its slots holds anything but a number, and reading it changes
nothing. -/
theorem bucketNumbers_gives_or_fails (key : Key) :
    (∃ found, s.numbers? key = some found ∧ (bucketNumbers key).Gives s found s) ∨
    s.numbers? key = none ∧ ∃ e, (bucketNumbers key).Fails s e s := by
  unfold numbers? bucket?
  rw [bucketNumbers_eq]
  rcases get_gives_or_fails hrunning key.tokensName with
    ⟨tokens, htokens, hcount⟩ | ⟨htokens, hcount⟩
  · rcases get_gives_or_fails hrunning key.lastRefillName with
      ⟨last, hlast, htime⟩ | ⟨hlast, htime⟩
    · rw [hcount, htime]
      cases hread : numbersOf (tokens.map (Binary64.ofChars? ·.chars))
          (last.map (Binary64.ofChars? ·.chars)) with
      | none =>
          refine .inr ⟨rfl, .malformedBucket key.tokensName,
            htokens.bind_fails (hlast.bind_fails ?_)⟩
          rw [hread]
          exact fails_throw _ s
      | some found =>
          refine .inl ⟨found, rfl, htokens.bind (hlast.bind ?_)⟩
          rw [hread]
          exact gives_pure found s
    · rw [htime, numbersOf_some_none]
      exact .inr ⟨rfl, _, htokens.bind_fails (hlast.bind _)⟩
  · rw [hcount]
    exact .inr ⟨rfl, _, htokens.bind _⟩

end Read

/-! ## What is written -/

/-- The lifetime that goes with a write, as the scripts write it. -/
def lifetimeText (ttlMs : UInt64) : Bytes := .ofChars (ofNat ttlMs.toNat).generalText

/-- The slots of a bucket after a count and a time have been written. -/
def writtenSlots (b : Binary64 × Binary64) (expires : Nat) : Option Slot × Option Slot :=
  (some ⟨.string (.ofChars b.1.generalText), some expires⟩,
    some ⟨.string (.ofChars b.2.integerText), some expires⟩)

/-- The server after they have been written. -/
def putNumbers (s : Server) (key : Key) (b : Binary64 × Binary64) (expires : Nat) : Server :=
  (s.put key.tokensName ⟨.string (.ofChars b.1.generalText), some expires⟩).put key.lastRefillName
    ⟨.string (.ofChars b.2.integerText), some expires⟩

section Write

variable {s : Server} {key : Key} {b : Binary64 × Binary64} {ttlMs : UInt64} {expires : Nat}

theorem bucket?_putNumbers (hclock : s.clockMs < expires) :
    (s.putNumbers key b expires).bucket? key = writtenSlots b expires := by
  have hlater : (some expires).all (s.clockMs < ·) = true := by simpa using hclock
  have htokens : (s.putNumbers key b expires).live? key.tokensName =
      some ⟨.string (.ofChars b.1.generalText), some expires⟩ := by
    rw [live?, putNumbers, get?_put_of_ne _ _ (key.tokensName_ne_lastRefillName key),
      get?_put_self, Option.filter_some]
    exact if_pos hlater
  have hlast : (s.putNumbers key b expires).live? key.lastRefillName =
      some ⟨.string (.ofChars b.2.integerText), some expires⟩ :=
    live?_put_self _ _ hlater
  rw [bucket?, htokens, hlast, writtenSlots]

variable (hrunning : s.failing = none)

include hrunning

theorem writeBucket_gives_of_deadline
    (hdeadline : s.deadline 1 (lifetimeText ttlMs) = .ok expires) :
    (writeBucket key b.1 b.2 ttlMs).Gives s () (s.putNumbers key b expires) :=
  (setFor_gives_of_deadline hrunning hdeadline _).bind
    (setFor_gives_of_deadline ((failing_put s _ _).trans hrunning) hdeadline _)

/-- The two writes have one lifetime, so the second cannot fail where the first has not. -/
theorem writeBucket_fails {e : ServerError}
    (hdeadline : s.deadline 1 (lifetimeText ttlMs) = .error e) :
    (writeBucket key b.1 b.2 ttlMs).Fails s e s :=
  (setFor_fails hrunning hdeadline _).bind _

end Write

/-! ## Rewriting a bucket -/

/-- Reads a bucket, writes what is left of its numbers and answers with that. -/
def rewriteScript {α : Type} (key : Key)
    (left : Option Binary64 × Option Binary64 → Binary64 × Binary64)
    (answer : Binary64 × Binary64 → α) (ttlMs : UInt64) : Script α := do
  let found ← bucketNumbers key
  writeBucket key (left found).1 (left found).2 ttlMs
  return answer (left found)

/-- The numbers that a refill leaves of those that it finds. -/
def refilled (capacity rate : UInt32) (now : UInt64) (found : Option Binary64 × Option Binary64) :
    Binary64 × Binary64 :=
  let capacity := ofNat capacity.toNat
  let now := ofNat now.toNat
  let (tokens, last) :=
    match found.1 with
    | none => (capacity, now)
    | some tokens => (tokens, found.2.getD now)
  credit (clampTokens tokens capacity) last capacity (ofNat rate.toNat) now

/-- The numbers that a deduction leaves of those that it finds. -/
def deducted (capacity cost : UInt32) (now : UInt64) (found : Option Binary64 × Option Binary64) :
    Binary64 × Binary64 :=
  let capacity := ofNat capacity.toNat
  let left := (clampTokens (found.1.getD capacity) capacity).sub (ofNat cost.toNat)
  (if left.lt (ofNat 0) then ofNat 0 else left, found.2.getD (ofNat now.toNat))

theorem refillScript_eq (key : Key) (capacity rate : UInt32) (now ttlMs : UInt64) :
    refillScript key (ofNat capacity.toNat) (ofNat rate.toNat) (ofNat now.toNat) ttlMs =
      rewriteScript key (refilled capacity rate now) id ttlMs :=
  rfl

theorem deductScript_eq (key : Key) (capacity cost : UInt32) (now ttlMs : UInt64) :
    deductScript key (ofNat capacity.toNat) (ofNat cost.toNat) (ofNat now.toNat) ttlMs =
      rewriteScript key (deducted capacity cost now) Prod.fst ttlMs :=
  rfl

/-- The server can read a bucket and write it anew. -/
structure Opens (s : Server) (key : Key) (ttlMs : UInt64)
    (found : Option Binary64 × Option Binary64) (expires : Nat) : Prop where
  running : s.failing = none
  found : s.numbers? key = some found
  deadline : s.deadline 1 (lifetimeText ttlMs) = .ok expires

section Rewrite

variable {α : Type} {s : Server} {key : Key}
  (left : Option Binary64 × Option Binary64 → Binary64 × Binary64)
  (answer : Binary64 × Binary64 → α) {ttlMs : UInt64}

theorem rewriteScript_gives {found : Option Binary64 × Option Binary64} {expires : Nat}
    (h : s.Opens key ttlMs found expires) :
    (rewriteScript key left answer ttlMs).Gives s (answer (left found))
      (s.putNumbers key (left found) expires) := by
  rcases bucketNumbers_gives_or_fails h.running key with ⟨found', hfound, hgives⟩ | ⟨hnone, -⟩
  · obtain rfl := Option.some_inj.mp (h.found.symm.trans hfound)
    exact hgives.bind ((writeBucket_gives_of_deadline h.running h.deadline).bind (gives_pure _ _))
  · cases h.found.symm.trans hnone

/-- A script that cannot do both fails and has written nothing. -/
theorem opens_or_rewriteScript_fails (s : Server) (key : Key) (ttlMs : UInt64) :
    (∃ found expires, s.Opens key ttlMs found expires) ∨
      ∃ e, (rewriteScript key left answer ttlMs).Fails s e s := by
  cases hrunning : s.failing with
  | some reply =>
    have hget : (get key.tokensName).Fails s (.refused reply) s := (guard_fails hrunning).bind _
    have hread : (bucketNumbers key).Fails s (.refused reply) s := hget.bind _
    exact .inr ⟨_, hread.bind _⟩
  | none =>
    rcases bucketNumbers_gives_or_fails hrunning key with ⟨found, hfound, hgives⟩ | ⟨-, e, hfails⟩
    · cases hdeadline : s.deadline 1 (lifetimeText ttlMs) with
      | ok expires => exact .inl ⟨found, expires, hrunning, hfound, hdeadline⟩
      | error e =>
        exact .inr ⟨e, hgives.bind_fails ((writeBucket_fails hrunning hdeadline).bind _)⟩
    · exact .inr ⟨e, hfails.bind _⟩

end Rewrite

/-! ## Answers -/

section Answers

variable {key : Key} {tokens last : Int}

theorem eq_of_tokensOf {n : UInt32} (h : tokensOf key tokens = .ok n) : tokens = n.toNat := by
  unfold tokensOf at h
  split at h
  · next hword =>
    obtain ⟨m, rfl⟩ := Int.eq_ofNat_of_zero_le hword.1
    cases h
    exact congrArg Nat.cast (UInt32.toNat_ofNat_of_lt (by simpa using hword.2)).symm
  · cases h

/-- A count is malformed just if it is no word. -/
theorem tokensOf_eq_malformed_iff :
    (∃ d, tokensOf key tokens = .error (.malformed d)) ↔ ¬ (0 ≤ tokens ∧ tokens < UInt32.size) := by
  by_cases hword : 0 ≤ tokens ∧ tokens < UInt32.size
  · have hcount : tokensOf key tokens = .ok _ := if_pos hword
    rw [hcount]
    exact iff_of_false (by rintro ⟨d, hmalformed⟩; cases hmalformed) (not_not_intro hword)
  · have hcount : tokensOf key tokens = .error _ := if_neg hword
    rw [hcount]
    exact iff_of_true ⟨_, rfl⟩ hword

/-- So is a state with such a count, or with a time below zero. -/
theorem stateOf_eq_malformed_iff :
    (∃ d, stateOf key (tokens, last) = .error (.malformed d)) ↔
      ¬ (0 ≤ tokens ∧ tokens < UInt32.size) ∨ last < 0 := by
  by_cases htokens : 0 ≤ tokens ∧ tokens < UInt32.size
  · have hcount : tokensOf key tokens = .ok _ := if_pos htokens
    by_cases hlast : 0 ≤ last
    · have htime : timeOf key last = .ok _ := if_pos hlast
      have hstate : stateOf key (tokens, last) =
          .ok ⟨UInt32.ofNat tokens.toNat, UInt64.ofNat last.toNat⟩ := by
        rw [stateOf, hcount, htime]
        rfl
      rw [hstate]
      refine iff_of_false (by rintro ⟨d, hmalformed⟩; cases hmalformed) ?_
      omega
    · have htime : timeOf key last = .error _ := if_neg hlast
      have hstate : stateOf key (tokens, last) =
          .error (.malformed (.refillTime key.text last)) := by
        rw [stateOf, hcount, htime]
        rfl
      rw [hstate]
      exact iff_of_true ⟨_, rfl⟩ (.inr (Int.not_le.mp hlast))
  · have hcount : tokensOf key tokens = .error _ := if_neg htokens
    have hstate : stateOf key (tokens, last) =
        .error (.malformed (.tokenCount key.text tokens)) := by
      rw [stateOf, hcount]
      rfl
    rw [hstate]
    exact iff_of_true ⟨_, rfl⟩ (.inl htokens)

theorem tokens_of_stateOf {state : Bucket.State} (h : stateOf key (tokens, last) = .ok state) :
    tokensOf key tokens = .ok state.tokens := by
  rw [stateOf] at h
  cases hcount : tokensOf key tokens with
  | error e =>
      rw [hcount] at h
      cases h
  | ok n =>
      rw [hcount] at h
      cases htime : timeOf key last with
      | error e =>
          rw [htime] at h
          cases h
      | ok time =>
          rw [htime] at h
          cases h
          rfl

end Answers

/-! ## Integers -/

section Integers

variable (s : Server) {x : Binary64} {capacity : UInt32}

/-- What is not above a bound is not answered with more, but perhaps with the greatest word. -/
theorem integer_le_or_eq {n : Nat} (h : x.AtMost n) :
    s.integer x ≤ n ∨ s.integer x = Word.maxSigned := by
  unfold integer
  cases hword : x.toInt64? with
  | some k => exact .inl (Binary64.le_of_toInt64? h hword)
  | none =>
      rw [Option.getD_none]
      refine (or_assoc.mpr (s.overflow.integer_mem x)).imp_left ?_
      rintro (hzero | hleast)
      · omega
      · simp only [hleast, Word.minSigned]
        omega

theorem isCount_integer_iff (h : x.AtMost capacity.toNat) :
    (0 ≤ s.integer x ∧ s.integer x < UInt32.size) ↔
      0 ≤ s.integer x ∧ s.integer x ≤ capacity.toNat := by
  have hcapacity := capacity.toNat_lt
  have hrange := s.integer_le_or_eq h
  simp only [UInt32.size, Word.maxSigned] at hrange ⊢
  omega

/-- What is not above the capacity is not read as more tokens. -/
theorem le_of_tokensOf_integer {key : Key} {n : UInt32} (h : x.AtMost capacity.toNat)
    (hcount : tokensOf key (s.integer x) = .ok n) : n ≤ capacity := by
  have hn := n.toNat_lt
  have hrange := s.integer_le_or_eq h
  rw [eq_of_tokensOf hcount] at hrange
  rw [UInt32.le_iff_toNat_le]
  simp only [Word.maxSigned] at hrange
  omega

end Integers

/-! ## Bounds of what is left -/

section Bounds

variable (capacity rate cost : UInt32) (now : UInt64) (found : Option Binary64 × Option Binary64)

theorem refilled_atMost : (refilled capacity rate now found).1.AtMost capacity.toNat := by
  unfold refilled
  rw [Binary64.ofNat_toNat32]
  exact credit_atMost (clampTokens_atMost _) _ _ _

theorem deducted_atMost : (deducted capacity cost now found).1.AtMost capacity.toNat := by
  have hcapacity := capacity.toNat_lt
  simp only [deducted, Binary64.ofNat_toNat32, Binary64.ofNat_zero]
  split
  · simp [AtMost]
  · exact (clampTokens_atMost _).sub_whole (by omega) cost.toNat

/-- What is no number is left as it is. -/
theorem deducted_nan (negative : Bool) (last : Option Binary64) :
    deducted capacity cost now (some (.nan negative), last) =
      (.nan negative, last.getD (ofNat now.toNat)) := by
  simp only [deducted, Binary64.ofNat_toNat32, Binary64.ofNat_zero]
  rfl

/-- Of any number a word is left. -/
theorem exists_toInt64?_deducted_eq (hnumber : ∀ x ∈ found.1, x.IsNumber) :
    ∃ n : Nat, n ≤ capacity.toNat ∧
      (deducted capacity cost now found).1.toInt64? = some (n : Int) := by
  have hcapacity := capacity.toNat_lt
  have hle := deducted_atMost capacity cost now found
  refine Binary64.exists_toInt64?_eq ?_ hle (by simp only [Word.maxSigned]; omega) ?_
  · simp only [deducted, Binary64.ofNat_zero]
    split
    · exact Binary64.isNonneg_whole 0
    · next h => exact Bool.eq_false_iff.mpr h
  · have hfound : (found.1.getD (Binary64.whole capacity.toNat)).IsNumber := by
      cases htokens : found.1 with
      | none => exact Binary64.isNumber_whole capacity.toNat
      | some x => exact hnumber x htokens
    simp only [deducted, Binary64.ofNat_toNat32, Binary64.ofNat_zero]
    split
    · exact Binary64.isNumber_whole 0
    · exact (clampTokens_isNumber hfound).sub_whole cost.toNat

end Bounds

/-! ## Calls -/

section Calls

variable {s : Server} {key : Key} (capacity rate cost : UInt32) (now : UInt64) {ttl : Span}

section Opens

variable {found : Option Binary64 × Option Binary64} {expires : Nat}
  (h : s.Opens key (lifetimeMs ttl) found expires)

include h

theorem answerBucket_refill_of_opens :
    s.answerBucket (.refill key capacity rate now ttl) =
      (stateOf key (s.integer (refilled capacity rate now found).1,
        s.integer (refilled capacity rate now found).2),
        s.putNumbers key (refilled capacity rate now found) expires) := by
  rw [answerBucket, refillScript_eq, (rewriteScript_gives _ _ h).run_eq]
  rfl

theorem answerBucket_deduct_of_opens :
    s.answerBucket (.deduct key capacity cost now ttl) =
      (tokensOf key (s.integer (deducted capacity cost now found).1),
        s.putNumbers key (deducted capacity cost now found) expires) := by
  rw [answerBucket, deductScript_eq, (rewriteScript_gives _ _ h).run_eq]
  rfl

end Opens

theorem opens_or_answerBucket_refill (s : Server) (key : Key) (ttl : Span) :
    (∃ found expires, s.Opens key (lifetimeMs ttl) found expires) ∨
      ∃ e, s.answerBucket (.refill key capacity rate now ttl) = (.error e, s) := by
  refine (opens_or_rewriteScript_fails (refilled capacity rate now) id s key
    (lifetimeMs ttl)).imp_right fun ⟨e, hfails⟩ => ?_
  refine ⟨e.toStoreError, ?_⟩
  rw [answerBucket, refillScript_eq, hfails.run_eq]
  rfl

theorem opens_or_answerBucket_deduct (s : Server) (key : Key) (ttl : Span) :
    (∃ found expires, s.Opens key (lifetimeMs ttl) found expires) ∨
      ∃ e, s.answerBucket (.deduct key capacity cost now ttl) = (.error e, s) := by
  refine (opens_or_rewriteScript_fails (deducted capacity cost now) Prod.fst s key
    (lifetimeMs ttl)).imp_right fun ⟨e, hfails⟩ => ?_
  refine ⟨e.toStoreError, ?_⟩
  rw [answerBucket, deductScript_eq, hfails.run_eq]
  rfl

end Calls

/-! ## Reports of malformed state -/

/-- A call reports malformed state when it has already changed the bucket. -/
def ReportsLate (s : Server) (call : Bucket.Call) : Prop :=
  (∃ d, (s.answerBucket call).1 = .error (.malformed d)) ∧
    (s.answerBucket call).2.bucket? call.key ≠ s.bucket? call.key

section Reports

variable {s : Server} {key : Key} {capacity rate cost : UInt32} {now : UInt64} {ttl : Span}

theorem not_reportsLate_of_unchanged {call : Bucket.Call} {r : Except StoreError call.Answer}
    (hanswer : s.answerBucket call = (r, s)) : ¬ s.ReportsLate call := by
  rintro ⟨-, hchanged⟩
  rw [hanswer] at hchanged
  exact hchanged rfl

/-- A call that has written a bucket anew reports late just if it cannot read its answer, and has
changed the bucket by that. -/
theorem reportsLate_iff_of_writes {call : Bucket.Call} {r : Except StoreError call.Answer}
    {b : Binary64 × Binary64} {expires : Nat}
    (hanswer : s.answerBucket call = (r, s.putNumbers call.key b expires))
    (hclock : s.clockMs < expires) :
    s.ReportsLate call ↔
      (∃ d, r = .error (.malformed d)) ∧ s.bucket? call.key ≠ writtenSlots b expires := by
  rw [ReportsLate, hanswer, bucket?_putNumbers hclock, ne_comm]

theorem reportsLate_refill_iff_of_opens {found : Option Binary64 × Option Binary64} {expires : Nat}
    (h : s.Opens key (lifetimeMs ttl) found expires) :
    s.ReportsLate (.refill key capacity rate now ttl) ↔
      (¬ (0 ≤ s.integer (refilled capacity rate now found).1 ∧
          s.integer (refilled capacity rate now found).1 ≤ capacity.toNat) ∨
        s.integer (refilled capacity rate now found).2 < 0) ∧
      s.bucket? key ≠ writtenSlots (refilled capacity rate now found) expires := by
  rw [reportsLate_iff_of_writes (answerBucket_refill_of_opens capacity rate now h)
    (clockMs_lt_of_deadline Nat.one_pos h.deadline), stateOf_eq_malformed_iff,
    s.isCount_integer_iff (refilled_atMost capacity rate now found), Bucket.Call.key]

/-- A refill reports malformed state late just if it can read the bucket and write it anew, with a
count that is not answered with one up to the capacity or a time that is answered with one below
zero, and not as it was before. -/
theorem reportsLate_refill_iff :
    s.ReportsLate (.refill key capacity rate now ttl) ↔
      ∃ found expires, s.Opens key (lifetimeMs ttl) found expires ∧
        (¬ (0 ≤ s.integer (refilled capacity rate now found).1 ∧
            s.integer (refilled capacity rate now found).1 ≤ capacity.toNat) ∨
          s.integer (refilled capacity rate now found).2 < 0) ∧
        s.bucket? key ≠ writtenSlots (refilled capacity rate now found) expires := by
  constructor
  · intro hlate
    rcases opens_or_answerBucket_refill capacity rate now s key ttl with
      ⟨found, expires, hopens⟩ | ⟨e, hanswer⟩
    · exact ⟨found, expires, hopens, (reportsLate_refill_iff_of_opens hopens).mp hlate⟩
    · exact absurd hlate (not_reportsLate_of_unchanged hanswer)
  · rintro ⟨found, expires, hopens, hlate⟩
    exact (reportsLate_refill_iff_of_opens hopens).mpr hlate

theorem reportsLate_deduct_iff_of_nan {negative : Bool} {last : Option Binary64} {expires : Nat}
    (h : s.Opens key (lifetimeMs ttl) (some (.nan negative), last) expires) :
    s.ReportsLate (.deduct key capacity cost now ttl) ↔
      s.integer (.nan negative) ≠ 0 ∧
        s.bucket? key ≠ writtenSlots (.nan negative, last.getD (ofNat now.toNat)) expires := by
  have hanswer := answerBucket_deduct_of_opens capacity cost now h
  rw [deducted_nan] at hanswer
  rw [reportsLate_iff_of_writes hanswer (clockMs_lt_of_deadline Nat.one_pos h.deadline),
    tokensOf_eq_malformed_iff, Bucket.Call.key]
  apply and_congr_left'
  have hrange : s.integer (.nan negative) = 0 ∨ s.integer (.nan negative) = Word.minSigned ∨
      s.integer (.nan negative) = Word.maxSigned := s.overflow.integer_mem (.nan negative)
  simp only [Word.minSigned, Word.maxSigned, UInt32.size] at hrange ⊢
  omega

theorem not_reportsLate_deduct_of_number {found : Option Binary64 × Option Binary64} {expires : Nat}
    (h : s.Opens key (lifetimeMs ttl) found expires) (hnumber : ∀ x ∈ found.1, x.IsNumber) :
    ¬ s.ReportsLate (.deduct key capacity cost now ttl) := by
  obtain ⟨n, hn, hword⟩ := exists_toInt64?_deducted_eq capacity cost now found hnumber
  have hcapacity := capacity.toNat_lt
  have hcount : s.integer (deducted capacity cost now found).1 = n := by
    rw [integer, hword, Option.getD_some]
  rw [reportsLate_iff_of_writes (answerBucket_deduct_of_opens capacity cost now h)
    (clockMs_lt_of_deadline Nat.one_pos h.deadline), tokensOf_eq_malformed_iff, hcount]
  rintro ⟨hmalformed, -⟩
  simp only [UInt32.size] at hmalformed
  omega

/-- A deduction does so just if the count that it finds is no number, and is not answered with zero. -/
theorem reportsLate_deduct_iff :
    s.ReportsLate (.deduct key capacity cost now ttl) ↔
      ∃ negative last expires, s.Opens key (lifetimeMs ttl) (some (.nan negative), last) expires ∧
        s.integer (.nan negative) ≠ 0 ∧
        s.bucket? key ≠ writtenSlots (.nan negative, last.getD (ofNat now.toNat)) expires := by
  constructor
  · intro hlate
    rcases opens_or_answerBucket_deduct capacity cost now s key ttl with
      ⟨⟨tokens, last⟩, expires, hopens⟩ | ⟨e, hanswer⟩
    · by_cases hnumber : ∀ x ∈ tokens, x.IsNumber
      · exact absurd hlate (not_reportsLate_deduct_of_number hopens hnumber)
      · simp only [Binary64.IsNumber, not_forall, not_not] at hnumber
        obtain ⟨x, htokens, negative, rfl⟩ := hnumber
        obtain rfl := Option.mem_def.mp htokens
        exact ⟨negative, last, expires, hopens, (reportsLate_deduct_iff_of_nan hopens).mp hlate⟩
    · exact absurd hlate (not_reportsLate_of_unchanged hanswer)
  · rintro ⟨negative, last, expires, hopens, hlate⟩
    exact (reportsLate_deduct_iff_of_nan hopens).mpr hlate

theorem tokens_le_of_refill {state : Bucket.State}
    (h : (s.answerBucket (.refill key capacity rate now ttl)).1 = .ok state) :
    state.tokens ≤ capacity := by
  rcases opens_or_answerBucket_refill capacity rate now s key ttl with
    ⟨found, expires, hopens⟩ | ⟨e, hanswer⟩
  · rw [answerBucket_refill_of_opens capacity rate now hopens] at h
    exact s.le_of_tokensOf_integer (refilled_atMost capacity rate now found) (tokens_of_stateOf h)
  · rw [hanswer] at h
    cases h

theorem left_le_of_deduct {left : UInt32}
    (h : (s.answerBucket (.deduct key capacity cost now ttl)).1 = .ok left) : left ≤ capacity := by
  rcases opens_or_answerBucket_deduct capacity cost now s key ttl with
    ⟨found, expires, hopens⟩ | ⟨e, hanswer⟩
  · rw [answerBucket_deduct_of_opens capacity cost now hopens] at h
    exact s.le_of_tokensOf_integer (deducted_atMost capacity cost now found) h
  · rw [hanswer] at h
    cases h

end Reports

theorem small_refillPerMinute_pos : 0 < (60 : UInt32) := by decide

theorem small_capacity_pos : 0 < (5 : UInt32) := by decide

/-- One token per second, and room for five. -/
def smallPolicy : Policy where
  name := "SMALL"
  refillPerMinute := 60
  capacity := 5
  refillPerMinute_pos := small_refillPerMinute_pos
  capacity_pos := small_capacity_pos

abbrev smallKey : Key := ⟨smallPolicy.name, "a"⟩

/-- A server on which a bucket of that policy holds two texts, without a lifetime. -/
def keeping (overflow : Overflow) (tokens last : String) : Server :=
  let slots := Table.ofList [(smallKey.tokensName, Slot.mk (.string (.ofString tokens)) none),
    (smallKey.lastRefillName, Slot.mk (.string (.ofString last)) none)]
  { empty overflow with slots := slots }

abbrev smallRefill : Bucket.Call :=
  .refill smallKey smallPolicy.capacity smallPolicy.refillPerMinute 1000 smallPolicy.bucketTtl

abbrev smallDeduct : Bucket.Call :=
  .deduct smallKey smallPolicy.capacity 3 1000 smallPolicy.bucketTtl

end Admission.Server
