import Admission.Word

/-!
What a bucket holds, and the two steps on it: crediting the tokens that time has earned and taking
tokens out.
-/

namespace Admission.Bucket

/-- A token count and the time up to which tokens were credited. -/
structure State where
  tokens : UInt32
  lastRefillMs : UInt64
deriving DecidableEq, Repr

/-- A new bucket is full. -/
def State.full (capacity : UInt32) (nowMs : UInt64) : State := ⟨capacity, nowMs⟩

/-- Products of a time and a rate need twice the width of a time. -/
abbrev Wide := BitVec 128

def wideTime (t : UInt64) : Wide := t.toBitVec.setWidth 128

def wideCount (n : UInt32) : Wide := n.toBitVec.setWidth 128

def narrowCount (w : Wide) : UInt32 := ⟨w.setWidth 32⟩

def narrowTime (w : Wide) : UInt64 := UInt64.ofNatClamp w.toNat

/-- Credits the tokens earned since the last refill. Below capacity the time moves on by just what
those tokens stand for, so the rest of it counts next time; a full bucket saves up no time. -/
def refill (prior : Option State) (capacity rate : UInt32) (nowMs : UInt64) : State :=
  match prior with
  | none => .full capacity nowMs
  | some s =>
    let tokens := min s.tokens capacity
    let elapsed := wideTime (Word.subClamped nowMs s.lastRefillMs)
    let credited := elapsed * wideCount rate / 60000
    if credited = 0 then { s with tokens := tokens }
    else
      let total := wideCount tokens + credited
      if wideCount capacity ≤ total then .full capacity nowMs
      else
        { tokens := narrowCount total
          lastRefillMs :=
            Word.addClamped s.lastRefillMs (narrowTime (credited * 60000 / wideCount rate)) }

/-- Takes tokens out, as far as there are any. -/
def deduct (prior : Option State) (capacity cost : UInt32) (nowMs : UInt64) : State :=
  let s := prior.getD (.full capacity nowMs)
  { s with tokens := Word.subClamped32 (min s.tokens capacity) cost }

end Admission.Bucket
