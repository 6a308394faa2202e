import Admission.Bucket.Store
import Admission.Proofs.Bucket.Refill
import Admission.Proofs.Server.Script
import Admission.Server.Buckets

/-! # Buckets on a server and in memory

The scripts on the server compute in floating point over two strings, the store in memory in words
over one entry. As long as the numbers are exact in floating point, nobody can tell the two apart. -/

namespace Admission

open Binary64 (whole digits ofNat)

/-! ## Calls whose numbers are exact -/

namespace Bucket

namespace Call

def ttl : Call → Span
  | refill _ _ _ _ ttl => ttl
  | deduct _ _ _ _ ttl => ttl
  | reset _ _ _ ttl => ttl

/-- Tokens per minute that a call credits; none, but for a refill. -/
def rate : Call → UInt32
  | refill _ _ rate _ _ => rate
  | _ => 0

/-- Whether a call on a bucket meets no numbers that floating point would round. -/
structure IsExact (prior : Option State) (call : Call) : Prop where
  ttl_pos : 1 ≤ call.ttl.millis
  expires_lt : call.nowMs.toNat + call.ttl.millis < 2 ^ 53
  earned_lt : ∀ s ∈ prior, (call.nowMs.toNat - s.lastRefillMs.toNat) * call.rate.toNat < 2 ^ 53

instance (prior : Option State) (call : Call) : Decidable (call.IsExact prior) :=
  decidable_of_iff (1 ≤ call.ttl.millis ∧ call.nowMs.toNat + call.ttl.millis < 2 ^ 53 ∧
      ∀ s ∈ prior, (call.nowMs.toNat - s.lastRefillMs.toNat) * call.rate.toNat < 2 ^ 53)
    ⟨fun h => ⟨h.1, h.2.1, h.2.2⟩, fun h => ⟨h.ttl_pos, h.expires_lt, h.earned_lt⟩⟩

end Call

namespace Store

/-- The store after calls. -/
def serve (s : Store) (calls : List Call) : Store :=
  calls.foldl (fun s call => (s.answer call).2) s

/-- Whether all calls are exact on the buckets that they find. -/
def Exact (s : Store) : List Call → Prop
  | [] => True
  | call :: calls => call.IsExact (s.live? call.key call.nowMs) ∧ (s.answer call).2.Exact calls

instance decidableExact : (s : Store) → (calls : List Call) → Decidable (s.Exact calls)
  | _, [] => isTrue trivial
  | s, call :: calls =>
    have := decidableExact (s.answer call).2 calls
    inferInstanceAs (Decidable (_ ∧ _))

end Store

end Bucket

/-! ## Names -/

namespace Bucket.Key

variable (k k' : Key)

theorem tokensName_ne_lastRefillName : k.tokensName ≠ k'.lastRefillName := by
  intro h
  have hlast := congrArg (fun name : String => name.toList.getLast?) h
  simp [tokensName, lastRefillName] at hlast

variable {k k'}

theorem tokensName_inj : k.tokensName = k'.tokensName ↔ k.text = k'.text := by
  simp [tokensName]

theorem lastRefillName_inj : k.lastRefillName = k'.lastRefillName ↔ k.text = k'.text := by
  simp [lastRefillName]

end Bucket.Key

/-! ## The same bucket in both places -/

namespace Bucket.Entry

/-- How the server keeps the count of an entry. -/
def tokensSlot (e : Entry) : Slot :=
  ⟨.string (.ofChars (digits e.state.tokens.toNat)), some e.expiresMs.toNat⟩

/-- How the server keeps the time of an entry. -/
def lastRefillSlot (e : Entry) : Slot :=
  ⟨.string (.ofChars (digits e.state.lastRefillMs.toNat)), some e.expiresMs.toNat⟩

end Bucket.Entry

namespace Server

open Bucket (Entry Key State Store)
open Script

/-- The server with an entry under the two names of its bucket. -/
def putBucket (s : Server) (key : Key) (e : Entry) : Server :=
  (s.put key.tokensName e.tokensSlot).put key.lastRefillName e.lastRefillSlot

/-- A server that is not failing keeps the same buckets as a store in memory, all of them last
refilled up to some time. -/
structure Mirrors (s : Server) (store : Store) (t : UInt64) : Prop where
  running : s.failing = none
  tokens : ∀ key : Key, s.slots.get? key.tokensName =
    (store.entries.get? key.text).map Entry.tokensSlot
  lastRefill : ∀ key : Key, s.slots.get? key.lastRefillName =
    (store.entries.get? key.text).map Entry.lastRefillSlot
  past : ∀ name e, store.entries.get? name = some e → e.state.lastRefillMs ≤ t

theorem mirrors_empty (overflow : Overflow) : Mirrors (.empty overflow) .empty 0 :=
  ⟨rfl, fun _ => rfl, fun _ => rfl, fun _ _ h => by cases h⟩

namespace Mirrors

variable {s : Server} {store : Store} {t now : UInt64}

theorem at_clock (h : s.Mirrors store t) (clockMs : Nat) :
    Mirrors { s with clockMs := clockMs } store t :=
  ⟨h.running, h.tokens, h.lastRefill, h.past⟩

/-- Both places write the same entry. -/
theorem putBucket (h : s.Mirrors store t) (htime : t ≤ now) (key : Key) (e : Entry)
    (hlast : e.state.lastRefillMs ≤ now) :
    (s.putBucket key e).Mirrors ⟨store.entries.insert key.text e⟩ now where
  running := h.running
  tokens := by
    intro key'
    rw [Server.putBucket, get?_put_of_ne _ _ (key'.tokensName_ne_lastRefillName key)]
    by_cases hsame : key'.text = key.text
    · rw [hsame, Bucket.Key.tokensName_inj.mpr hsame, get?_put_self, Table.get?_insert_self]
      rfl
    · rw [get?_put_of_ne _ _ (mt Bucket.Key.tokensName_inj.mp hsame),
        Table.get?_insert_of_ne _ _ hsame]
      exact h.tokens key'
  lastRefill := by
    intro key'
    by_cases hsame : key'.text = key.text
    · rw [Server.putBucket, hsame, Bucket.Key.lastRefillName_inj.mpr hsame, get?_put_self,
        Table.get?_insert_self]
      rfl
    · rw [Server.putBucket, get?_put_of_ne _ _ (mt Bucket.Key.lastRefillName_inj.mp hsame),
        get?_put_of_ne _ _ (key.tokensName_ne_lastRefillName key').symm,
        Table.get?_insert_of_ne _ _ hsame]
      exact h.lastRefill key'
  past := by
    intro name e' he'
    by_cases hsame : name = key.text
    · rw [hsame, Table.get?_insert_self] at he'
      cases he'
      exact hlast
    · rw [Table.get?_insert_of_ne _ _ hsame] at he'
      exact UInt64.le_trans (h.past name e' he') htime

section Clock

variable (h : s.Mirrors store t) (key : Key)

/-- A bucket expires in both places at once. -/
theorem live?_eq_map (hclock : s.clockMs = now.toNat) {name : String} {slot : Entry → Slot}
    (hkept : s.slots.get? name = (store.entries.get? key.text).map slot)
    (hexpires : ∀ e, (slot e).expiresMs = some e.expiresMs.toNat) :
    s.live? name =
      ((store.entries.get? key.text).filter fun e => now < e.expiresMs).map slot := by
  rw [live?, hkept, hclock]
  cases store.entries.get? key.text with
  | none => rfl
  | some e => simp [hexpires, Option.filter, UInt64.lt_iff_toNat_lt]

include h

theorem lastRefillMs_le (hpast : t ≤ now) {state : State}
    (hlive : store.live? key now = some state) : state.lastRefillMs ≤ now := by
  obtain ⟨e, he, rfl⟩ := Option.map_eq_some_iff.mp hlive
  exact UInt64.le_trans (h.past _ e (Option.filter_eq_some_iff.mp he).1) hpast

theorem lastRefillMs_getD_le (hpast : t ≤ now) (capacity : UInt32) :
    ((store.live? key now).getD (.full capacity now)).lastRefillMs ≤ now := by
  cases hlive : store.live? key now with
  | none => exact UInt64.le_refl now
  | some state => exact h.lastRefillMs_le key hpast hlive

/-- The scripts read what the store finds. -/
theorem bucketNumbers_gives (hclock : s.clockMs = now.toNat) (hpast : t ≤ now)
    (hnow : now.toNat < 2 ^ 53) :
    (bucketNumbers key).Gives s
      ((store.live? key now).map fun state => whole state.tokens.toNat,
        (store.live? key now).map fun state => whole state.lastRefillMs.toNat) s := by
  have htokens := live?_eq_map key hclock (h.tokens key) fun _ => rfl
  have hlast := live?_eq_map key hclock (h.lastRefill key) fun _ => rfl
  have hlive : store.live? key now =
      ((store.entries.get? key.text).filter fun e => decide (now < e.expiresMs)).map
        Entry.state := rfl
  cases hfound : (store.entries.get? key.text).filter fun e => decide (now < e.expiresMs) with
  | none =>
      rw [hfound] at htokens hlast hlive
      rw [hlive]
      exact (get_gives_none h.running htokens).bind
        ((get_gives_none h.running hlast).bind (gives_pure _ _))
  | some e =>
      rw [hfound] at htokens hlast hlive
      have htoken := e.state.tokens.toNat_lt
      have htime := UInt64.le_iff_toNat_le.mp (h.lastRefillMs_le key hpast hlive)
      rw [hlive]
      apply (get_gives_some h.running htokens).bind
      apply (get_gives_some h.running hlast).bind
      simp only [Option.map_some, Binary64.chars_digits,
        Binary64.ofChars?_digits (by omega : e.state.tokens.toNat ≤ 2 ^ 53),
        Binary64.ofChars?_digits (by omega : e.state.lastRefillMs.toNat ≤ 2 ^ 53)]
      exact gives_pure _ _

end Clock

end Mirrors

/-! ## What the scripts compute -/

theorem clampTokens_whole (a b : Nat) : clampTokens (whole a) (whole b) = whole (min a b) := by
  rw [clampTokens, Binary64.whole_lt_whole]
  split
  · next h => rw [Nat.min_eq_right (by simpa using Nat.le_of_lt (of_decide_eq_true h))]
  · next h => rw [Nat.min_eq_left (by simpa using h)]

/-- Crediting in floating point is crediting in words. -/
theorem credit_whole {state : State} {capacity rate : UInt32} {now : UInt64}
    (hnow : now.toNat < 2 ^ 53) (hlast : state.lastRefillMs ≤ now)
    (hearned : (now.toNat - state.lastRefillMs.toNat) * rate.toNat < 2 ^ 53) :
    credit (whole (min state.tokens.toNat capacity.toNat)) (whole state.lastRefillMs.toNat)
        (whole capacity.toNat) (whole rate.toNat) (whole now.toNat) =
      (whole (Bucket.refill (some state) capacity rate now).tokens.toNat,
        whole (Bucket.refill (some state) capacity rate now).lastRefillMs.toNat) := by
  rw [UInt64.le_iff_toNat_le] at hlast
  have hcapacity := capacity.toNat_lt
  have hrate := rate.toNat_lt
  have hbound : Bucket.earned (now.toNat - state.lastRefillMs.toNat) rate.toNat * 60000 ≤
      (now.toNat - state.lastRefillMs.toNat) * rate.toNat := Nat.div_mul_le_self _ _
  have hcredited : ((whole ((now.toNat - state.lastRefillMs.toNat) * rate.toNat)).div
      (whole 60000)).floor =
        whole (Bucket.earned (now.toNat - state.lastRefillMs.toNat) rate.toNat) :=
    Binary64.floor_whole_div (by decide) hearned (by decide)
  simp only [credit, Binary64.ofNat_zero, Binary64.ofNat_eq_whole (by decide : 60000 < 2 ^ 53),
    Binary64.whole_sub_clamped hnow (by omega : state.lastRefillMs.toNat < 2 ^ 53),
    Binary64.whole_mul hearned, hcredited]
  rw [Binary64.whole_lt_whole]
  rcases Nat.eq_zero_or_pos (Bucket.earned (now.toNat - state.lastRefillMs.toNat) rate.toNat)
    with hzero | hpos
  · rw [if_neg (by simp [hzero]), Bucket.refill_of_earned_eq_zero hzero, Bucket.toNat_min32]
  · have hratePos := Bucket.rate_pos_of_earned hpos
    rw [if_pos (decide_eq_true hpos), Binary64.whole_add (by omega), Binary64.whole_le_whole]
    by_cases hfull : capacity.toNat ≤ min state.tokens.toNat capacity.toNat +
        Bucket.earned (now.toNat - state.lastRefillMs.toNat) rate.toNat
    · rw [if_pos (decide_eq_true hfull), Bucket.refill_of_capacity_le hpos hfull]
      rfl
    · have hms := Bucket.earned_mul_div_le (now.toNat - state.lastRefillMs.toNat) hratePos
      obtain ⟨htokens, htime⟩ := Bucket.refill_of_lt_capacity hpos (Nat.lt_of_not_le hfull)
      rw [if_neg (by simpa using hfull), htokens, htime, Binary64.whole_mul (by omega),
        Binary64.floor_whole_div hratePos (by omega) (by omega), Binary64.whole_add (by omega)]

/-! ## What the scripts leave behind -/

section Scripts

variable {s : Server} {store : Store} {t now : UInt64} {ttl : Span}

theorem toNat_millisWord (hexpires : now.toNat + ttl.millis < 2 ^ 53) :
    ttl.millisWord.toNat = ttl.millis := by
  rw [Span.millisWord, Word.toNat_ofNatClamp]
  simp only [UInt64.size]
  omega

theorem toNat_lifetimeMs (hpos : 1 ≤ ttl.millis) (hexpires : now.toNat + ttl.millis < 2 ^ 53) :
    (lifetimeMs ttl).toNat = ttl.millis := by
  have hword := toNat_millisWord hexpires
  change (if ttl.millisWord ≤ 1 then 1 else ttl.millisWord).toNat = _
  split
  · next hone =>
    rw [UInt64.le_iff_toNat_le, hword] at hone
    exact Nat.le_antisymm hpos hone
  · exact hword

theorem toNat_expiresMs (hexpires : now.toNat + ttl.millis < 2 ^ 53) :
    (Word.addClamped now ttl.millisWord).toNat = ttl.millis + now.toNat := by
  rw [Word.toNat_addClamped, toNat_millisWord hexpires]
  simp only [UInt64.size]
  omega

section Written

variable (hrunning : s.failing = none) (hclock : s.clockMs = now.toNat)
  (hpos : 1 ≤ ttl.millis) (hexpires : now.toNat + ttl.millis < 2 ^ 53)

include hrunning hclock hpos hexpires

/-- Writing both strings puts in the entry. -/
theorem setFor_setFor_gives (key : Key) (state : State) :
    Gives (do
      setFor key.tokensName (.ofChars (digits state.tokens.toNat))
        (.ofChars (digits (lifetimeMs ttl).toNat))
      setFor key.lastRefillName (.ofChars (digits state.lastRefillMs.toNat))
        (.ofChars (digits (lifetimeMs ttl).toNat))) s ()
      (s.putBucket key ⟨state, Word.addClamped now ttl.millisWord⟩) := by
  have hfits : ttl.millis + s.clockMs ≤ Word.maxSigned := by
    rw [hclock]
    simp only [Word.maxSigned]
    omega
  rw [toNat_lifetimeMs hpos hexpires]
  apply (setFor_gives hrunning hpos hfits _).bind
  rw [putBucket, Entry.tokensSlot, Entry.lastRefillSlot, toNat_expiresMs hexpires, ← hclock]
  exact setFor_gives ((failing_put s _ _).trans hrunning) hpos hfits _

theorem writeBucket_gives (key : Key) (state : State) :
    (writeBucket key (whole state.tokens.toNat) (whole state.lastRefillMs.toNat)
      (lifetimeMs ttl)).Gives s ()
        (s.putBucket key ⟨state, Word.addClamped now ttl.millisWord⟩) := by
  have htokens := state.tokens.toNat_lt
  have hlifetime := toNat_lifetimeMs hpos hexpires
  rw [writeBucket, Binary64.ofNat_eq_whole (by omega), Binary64.generalText_whole (by omega),
    Binary64.generalText_whole (by omega), Binary64.integerText_whole]
  exact setFor_setFor_gives hrunning hclock hpos hexpires key state

/-- The part of a refill that comes after the bucket has been read. -/
theorem credit_gives (key : Key) (state : State) (capacity rate : UInt32)
    (hlast : state.lastRefillMs ≤ now)
    (hearned : (now.toNat - state.lastRefillMs.toNat) * rate.toNat < 2 ^ 53) :
    Gives (do
      let (tokens, last) := credit (clampTokens (whole state.tokens.toNat) (whole capacity.toNat))
        (whole state.lastRefillMs.toNat) (whole capacity.toNat) (whole rate.toNat)
        (whole now.toNat)
      writeBucket key tokens last (lifetimeMs ttl)
      return (tokens, last)) s
        (whole (Bucket.refill (some state) capacity rate now).tokens.toNat,
          whole (Bucket.refill (some state) capacity rate now).lastRefillMs.toNat)
        (s.putBucket key ⟨Bucket.refill (some state) capacity rate now,
          Word.addClamped now ttl.millisWord⟩) := by
  rw [clampTokens_whole, credit_whole (by omega) hlast hearned]
  exact (writeBucket_gives hrunning hclock hpos hexpires key _).bind (gives_pure _ _)

end Written

section Mirrored

variable (h : s.Mirrors store t) (hclock : s.clockMs = now.toNat) (hpast : t ≤ now)
  (hpos : 1 ≤ ttl.millis) (hexpires : now.toNat + ttl.millis < 2 ^ 53)

include h hclock hpast hpos hexpires

theorem refillScript_gives (key : Key) (capacity rate : UInt32)
    (hearned : ∀ state ∈ store.live? key now,
      (now.toNat - state.lastRefillMs.toNat) * rate.toNat < 2 ^ 53) :
    (refillScript key (ofNat capacity.toNat) (ofNat rate.toNat) (ofNat now.toNat)
      (lifetimeMs ttl)).Gives s
        (whole (Bucket.refill (store.live? key now) capacity rate now).tokens.toNat,
          whole (Bucket.refill (store.live? key now) capacity rate now).lastRefillMs.toNat)
        (s.putBucket key ⟨Bucket.refill (store.live? key now) capacity rate now,
          Word.addClamped now ttl.millisWord⟩) := by
  rw [Binary64.ofNat_toNat32, Binary64.ofNat_toNat32,
    Binary64.ofNat_eq_whole (by omega : now.toNat < 2 ^ 53)]
  apply (h.bucketNumbers_gives key hclock hpast (by omega)).bind
  cases hlive : store.live? key now with
  | none =>
      have hnothing : (now.toNat - (State.full capacity now).lastRefillMs.toNat) * rate.toNat <
          2 ^ 53 := by simp [State.full]
      rw [Bucket.refill_none]
      exact credit_gives h.running hclock hpos hexpires key (.full capacity now) capacity rate
        (UInt64.le_refl now) hnothing
  | some state =>
      exact credit_gives h.running hclock hpos hexpires key state capacity rate
        (h.lastRefillMs_le key hpast hlive) (hearned state hlive)

theorem deductScript_gives (key : Key) (capacity cost : UInt32) :
    (deductScript key (ofNat capacity.toNat) (ofNat cost.toNat) (ofNat now.toNat)
      (lifetimeMs ttl)).Gives s
        (whole (Bucket.deduct (store.live? key now) capacity cost now).tokens.toNat)
        (s.putBucket key ⟨Bucket.deduct (store.live? key now) capacity cost now,
          Word.addClamped now ttl.millisWord⟩) := by
  have hcapacity := capacity.toNat_lt
  have hcost := cost.toNat_lt
  rw [Binary64.ofNat_toNat32, Binary64.ofNat_toNat32,
    Binary64.ofNat_eq_whole (by omega : now.toNat < 2 ^ 53)]
  apply (h.bucketNumbers_gives key hclock hpast (by omega)).bind
  have htokens : ((store.live? key now).map fun state => whole state.tokens.toNat).getD
      (whole capacity.toNat) =
        whole ((store.live? key now).getD (.full capacity now)).tokens.toNat := by
    cases store.live? key now <;> rfl
  have hlast : ((store.live? key now).map fun state => whole state.lastRefillMs.toNat).getD
      (whole now.toNat) =
        whole (Bucket.deduct (store.live? key now) capacity cost now).lastRefillMs.toNat := by
    rw [Bucket.lastRefillMs_deduct]
    cases store.live? key now <;> rfl
  have hleft := Binary64.whole_sub_clamped
    (by omega : min ((store.live? key now).getD (.full capacity now)).tokens.toNat
      capacity.toNat < 2 ^ 53) (by omega : cost.toNat < 2 ^ 53)
  rw [← Bucket.toNat_tokens_deduct] at hleft
  simp only [htokens, hlast, clampTokens_whole, Binary64.ofNat_zero, hleft]
  exact (writeBucket_gives h.running hclock hpos hexpires key _).bind (gives_pure _ _)

omit hpast in
theorem resetScript_gives (key : Key) (capacity : UInt32) :
    (resetScript key capacity now (lifetimeMs ttl)).Gives s ()
      (s.putBucket key ⟨.full capacity now, Word.addClamped now ttl.millisWord⟩) :=
  setFor_setFor_gives h.running hclock hpos hexpires key (.full capacity now)

end Mirrored

end Scripts

/-! ## Answers -/

/-- A whole number is answered as it is. -/
theorem integer_whole (s : Server) {n : Nat} (h : n < 2 ^ 53) : s.integer (whole n) = n := by
  rw [integer, Binary64.toInt64?_whole h, Option.getD_some]

theorem tokensOf_toNat (key : Key) (n : UInt32) : tokensOf key n.toNat = .ok n := by
  have hn := n.toNat_lt
  rw [tokensOf, if_pos ⟨Int.natCast_nonneg _, by simp only [UInt32.size]; omega⟩]
  simp

theorem timeOf_toNat (key : Key) (n : UInt64) : timeOf key n.toNat = .ok n := by
  rw [timeOf, if_pos (Int.natCast_nonneg _)]
  simp

/-- A count is read as it was written. -/
theorem tokensOf_integer (s : Server) (key : Key) (n : UInt32) :
    tokensOf key (s.integer (whole n.toNat)) = .ok n := by
  have hn := n.toNat_lt
  rw [integer_whole s (by omega), tokensOf_toNat]

/-- So is a state, if floating point holds its time. -/
theorem stateOf_integer (s : Server) (key : Key) {state : State}
    (hlast : state.lastRefillMs.toNat < 2 ^ 53) :
    stateOf key (s.integer (whole state.tokens.toNat), s.integer (whole state.lastRefillMs.toNat)) =
      .ok state := by
  rw [stateOf, tokensOf_integer, integer_whole s hlast, timeOf_toNat]
  rfl

/-- A script has run and what it gave has been read. -/
theorem bind_run_eq {α β : Type} {s s' : Server} {script : Script α} {a : α} {b : β}
    {read : α → Except StoreError β} (hrun : s.run script = (.ok a, s')) (hread : read a = .ok b) :
    (match s.run script with
      | (r, s) => (r.bind read, s)) = (.ok b, s') := by
  rw [hrun]
  exact congrArg (Prod.mk · s') hread

/-- Both places answer a call in the same way and keep the same buckets afterwards. -/
def AnswersAlike (s : Server) (store : Store) (call : Bucket.Call) : Prop :=
  (s.answerBucket call).1 = .ok (store.answer call).1 ∧
    (s.answerBucket call).2.Mirrors (store.answer call).2 call.nowMs

namespace Mirrors

variable {s : Server} {store : Store} {t now : UInt64} {ttl : Span}
  (h : s.Mirrors store t) (hclock : s.clockMs = now.toNat) (hpast : t ≤ now)
  (hpos : 1 ≤ ttl.millis) (hexpires : now.toNat + ttl.millis < 2 ^ 53)

include h hpast in
theorem answersAlike {call : Bucket.Call} {answer : call.Answer} {e : Entry}
    (hserver : s.answerBucket call = (.ok answer, s.putBucket call.key e))
    (hstore : store.answer call = (answer, ⟨store.entries.insert call.key.text e⟩))
    (hnow : call.nowMs = now) (hlast : e.state.lastRefillMs ≤ now) :
    s.AnswersAlike store call := by
  rw [AnswersAlike, hserver, hstore, hnow]
  exact ⟨rfl, h.putBucket hpast call.key e hlast⟩

include h hclock hpast hpos hexpires

theorem refill (key : Key) (capacity rate : UInt32)
    (hearned : ∀ state ∈ store.live? key now,
      (now.toNat - state.lastRefillMs.toNat) * rate.toNat < 2 ^ 53) :
    s.AnswersAlike store (.refill key capacity rate now ttl) := by
  have hrun := (refillScript_gives h hclock hpast hpos hexpires key capacity rate hearned).run_eq
  have hlast : (Bucket.refill (store.live? key now) capacity rate now).lastRefillMs ≤ now := by
    rw [← Bucket.refill_getD]
    exact Bucket.lastRefillMs_refill_le (h.lastRefillMs_getD_le key hpast capacity)
  refine h.answersAlike hpast ?_ rfl rfl hlast
  rw [UInt64.le_iff_toNat_le] at hlast
  rw [answerBucket]
  exact bind_run_eq hrun (stateOf_integer s key (by omega))

theorem deduct (key : Key) (capacity cost : UInt32) :
    s.AnswersAlike store (.deduct key capacity cost now ttl) := by
  have hrun := (deductScript_gives h hclock hpast hpos hexpires key capacity cost).run_eq
  refine h.answersAlike hpast ?_ rfl rfl (h.lastRefillMs_getD_le key hpast capacity)
  rw [answerBucket]
  exact bind_run_eq hrun (tokensOf_integer s key _)

theorem reset (key : Key) (capacity : UInt32) :
    s.AnswersAlike store (.reset key capacity now ttl) := by
  have hrun := (resetScript_gives h hclock hpos hexpires key capacity).run_eq
  refine h.answersAlike hpast ?_ rfl rfl (UInt64.le_refl now)
  rw [answerBucket, hrun]
  rfl

end Mirrors

/-- Answers a call while the clock of the server reads what the clock of the caller does. -/
def answerAt (s : Server) (call : Bucket.Call) : Except StoreError call.Answer × Server :=
  { s with clockMs := call.nowMs.toNat }.answerBucket call

/-- The server after calls. -/
def serve (s : Server) (calls : List Bucket.Call) : Server :=
  calls.foldl (fun s call => (s.answerAt call).2) s

section Runs

variable {s : Server} {store : Store} {t : UInt64}

theorem Mirrors.answerAt (h : s.Mirrors store t) {call : Bucket.Call} (hpast : t ≤ call.nowMs)
    (hexact : call.IsExact (store.live? call.key call.nowMs)) :
    (s.answerAt call).1 = .ok (store.answer call).1 ∧
      (s.answerAt call).2.Mirrors (store.answer call).2 call.nowMs := by
  have hclocked := h.at_clock call.nowMs.toNat
  cases call with
  | refill key capacity rate now ttl =>
      exact hclocked.refill rfl hpast hexact.ttl_pos hexact.expires_lt key capacity rate
        hexact.earned_lt
  | deduct key capacity cost now ttl =>
      exact hclocked.deduct rfl hpast hexact.ttl_pos hexact.expires_lt key capacity cost
  | reset key capacity now ttl =>
      exact hclocked.reset rfl hpast hexact.ttl_pos hexact.expires_lt key capacity

/-- The last call of a history is answered in the same way. -/
theorem Mirrors.serve (h : s.Mirrors store t) (calls : List Bucket.Call) (call : Bucket.Call)
    (hpast : ∀ c ∈ calls ++ [call], t ≤ c.nowMs)
    (hordered : (calls ++ [call]).Pairwise fun c d => c.nowMs ≤ d.nowMs)
    (hexact : store.Exact (calls ++ [call])) :
    ((s.serve calls).answerAt call).1 = .ok ((store.serve calls).answer call).1 := by
  induction calls generalizing s store t with
  | nil => exact (h.answerAt (hpast call List.mem_cons_self) hexact.1).1
  | cons c calls ih =>
      obtain ⟨hfirst, hrest⟩ := hexact
      obtain ⟨hfromFirst, hordered⟩ := List.pairwise_cons.mp hordered
      exact ih (h.answerAt (hpast c List.mem_cons_self) hfirst).2 hfromFirst hordered hrest

end Runs

/-- Whatever calls come on whatever buckets, if their readings do not run back and floating point
holds their numbers exactly, the server answers each of them as the store in memory does. -/
theorem answerAt_serve (overflow : Overflow) (calls : List Bucket.Call) (call : Bucket.Call)
    (hordered : (calls ++ [call]).Pairwise fun c d => c.nowMs ≤ d.nowMs)
    (hexact : Store.empty.Exact (calls ++ [call])) :
    (((empty overflow).serve calls).answerAt call).1 =
      .ok ((Store.empty.serve calls).answer call).1 :=
  (mirrors_empty overflow).serve calls call (fun _ _ => UInt64.zero_le) hordered hexact

/-- Two buckets: one that is emptied and earns three tokens in two steps, one that expires, is filled
up and loses a token to a smaller capacity. -/
def mixedCalls : List Bucket.Call :=
  [.deduct ⟨"P", "a"⟩ 50 60 1000 (.ofMillis 120000), .refill ⟨"P", "b"⟩ 5 60 1000 (.ofMillis 1),
    .refill ⟨"P", "a"⟩ 50 7 26714 (.ofMillis 120000), .reset ⟨"P", "b"⟩ 3 26714 (.ofMillis 120000),
    .deduct ⟨"P", "b"⟩ 2 1 30000 (.ofMillis 120000)]

abbrev lateRefill : Bucket.Call := .refill ⟨"P", "a"⟩ 50 7 30000 (.ofMillis 120000)

theorem answerAt_serve_mixedCalls :
    (mixedCalls ++ [lateRefill]).Pairwise (fun c d => c.nowMs ≤ d.nowMs) ∧
      Store.empty.Exact (mixedCalls ++ [lateRefill]) ∧
      (((empty .refusing).serve mixedCalls).answerAt lateRefill).1 = .ok ⟨3, 26713⟩ := by
  have hordered : (mixedCalls ++ [lateRefill]).Pairwise fun c d => c.nowMs ≤ d.nowMs := by
    decide +kernel
  have hexact : Store.empty.Exact (mixedCalls ++ [lateRefill]) := by decide +kernel
  have hstore : ((Store.empty.serve mixedCalls).answer lateRefill).1 = ⟨3, 26713⟩ := by
    decide +kernel
  refine ⟨hordered, hexact, ?_⟩
  rw [answerAt_serve .refusing mixedCalls lateRefill hordered hexact, hstore]

end Server

end Admission
