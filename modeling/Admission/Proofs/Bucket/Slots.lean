import Admission.Proofs.Bucket.Isolation
import Admission.Server.Address

/-! # Which slot of a cluster a bucket is in

A clustered server spreads names over its slots by a part of them that it hashes: what stands between
the first opening brace and the first closing brace after it, or the whole name if nothing does. The
braces in the names of a bucket are to bring its two fields into one slot. They fail to where the policy
begins with a closing brace, and nowhere else. -/

namespace Admission

/-! ## The part of a name that is hashed -/

namespace Server

/-- The text between the first opening brace and the first closing brace after it. -/
def tag? (name : List Char) : Option (List Char) := do
  let (_, rest) ← cutFirst? ['\x7b'] name
  let (tag, _) ← cutFirst? ['\x7d'] rest
  return tag

/-- What decides the slot of a name: its tag, if it has one that is not empty. -/
def hashedPart (name : String) : String :=
  match tag? name.toList with
  | some (c :: tag) => String.ofList (c :: tag)
  | _ => name

theorem cutFirst?_self (mark : Char) (cs : List Char) :
    cutFirst? [mark] (mark :: cs) = some ([], cs) := by
  simp [cutFirst?]

theorem cutFirst?_of_ne {mark c : Char} (h : mark ≠ c) (cs : List Char) :
    cutFirst? [mark] (c :: cs) =
      (cutFirst? [mark] cs).map fun (before, after) => (c :: before, after) := by
  simp [cutFirst?, h]

/-- A single mark is found where it stands first. -/
theorem cutFirst?_eq_some_iff {mark : Char} {cs before after : List Char} :
    cutFirst? [mark] cs = some (before, after) ↔ cs = before ++ mark :: after ∧ mark ∉ before := by
  induction cs generalizing before with
  | nil => simp [cutFirst?]
  | cons c cs ih =>
      by_cases hc : mark = c
      · subst hc
        rw [cutFirst?_self]
        cases before with
        | nil => simp
        | cons d before =>
            simp only [Option.some_inj, Prod.mk.injEq, List.nil_eq, reduceCtorEq, false_and,
              List.cons_append, List.cons_eq_cons, false_iff]
            rintro ⟨⟨rfl, -⟩, hmem⟩
            exact hmem List.mem_cons_self
      · rw [cutFirst?_of_ne hc]
        cases before with
        | nil => simp [Ne.symm hc]
        | cons d before =>
            rw [Option.map_eq_some_iff, List.cons_append, List.cons_eq_cons, List.mem_cons, not_or]
            constructor
            · rintro ⟨⟨front, back⟩, hcut, heq⟩
              obtain ⟨⟨rfl, rfl⟩, rfl⟩ : (c = d ∧ front = before) ∧ back = after := by
                simpa using heq
              obtain ⟨rfl, hmem⟩ := ih.mp hcut
              exact ⟨⟨rfl, rfl⟩, hc, hmem⟩
            · rintro ⟨⟨rfl, rfl⟩, -, hmem⟩
              exact ⟨(before, after), ih.mpr ⟨rfl, hmem⟩, rfl⟩

theorem tag?_eq_some_iff {name tag : List Char} :
    tag? name = some tag ↔ ∃ before after, name = before ++ '\x7b' :: (tag ++ '\x7d' :: after) ∧
      '\x7b' ∉ before ∧ '\x7d' ∉ tag := by
  simp only [tag?, Option.bind_eq_bind, Option.bind_eq_some_iff, Prod.exists, Option.pure_def,
    Option.some_inj, cutFirst?_eq_some_iff]
  constructor
  · rintro ⟨before, rest, ⟨rfl, hopen⟩, _, after, ⟨rfl, hclose⟩, rfl⟩
    exact ⟨before, after, rfl, hopen, hclose⟩
  · rintro ⟨before, after, rfl, hopen, hclose⟩
    exact ⟨before, _, ⟨rfl, hopen⟩, tag, after, ⟨rfl, hclose⟩, rfl⟩

theorem hashedPart_of_tag?_nil {name : String} (h : tag? name.toList = some []) :
    hashedPart name = name := by
  rw [hashedPart, h]

theorem hashedPart_of_tag?_cons {name : String} {c : Char} {tag : List Char}
    (h : tag? name.toList = some (c :: tag)) : hashedPart name = String.ofList (c :: tag) := by
  rw [hashedPart, h]

end Server

/-! ## The names of a bucket -/

namespace Bucket.Key

open Server

variable (k : Key)

/-- What the name of a bucket has in braces, as far as a server reads it: up to the first closing
brace. -/
def tag : List Char := (k.policy.toList ++ ':' :: k.identifier.toList).takeWhile (· != '\x7d')

theorem closing_not_mem_tag : '\x7d' ∉ k.tag := by
  intro hmem
  simpa using List.mem_takeWhile_imp hmem

/-- The tag ends at a brace of the policy or the caller, or else at the one that closes the text. -/
theorem exists_tag_append : ∃ rest, k.policy.toList ++ ':' :: k.identifier.toList ++ ['\x7d'] =
    k.tag ++ '\x7d' :: rest := by
  have hsplit := List.takeWhile_append_dropWhile (p := (· != '\x7d'))
    (l := k.policy.toList ++ ':' :: k.identifier.toList)
  rw [← hsplit, ← tag]
  cases hrest : (k.policy.toList ++ ':' :: k.identifier.toList).dropWhile (· != '\x7d') with
  | nil => exact ⟨[], by simp⟩
  | cons c rest =>
      obtain rfl : c = '\x7d' := by
        have hhead := List.head?_dropWhile_not (· != '\x7d')
          (k.policy.toList ++ ':' :: k.identifier.toList)
        simpa [hrest] using hhead
      exact ⟨rest ++ ['\x7d'], by simp⟩

/-- A server reads the same tag in every name that begins with the text of the bucket. -/
theorem tag?_text_append (field : String) : tag? (k.text ++ field).toList = some k.tag := by
  obtain ⟨rest, hrest⟩ := k.exists_tag_append
  rw [tag?_eq_some_iff]
  refine ⟨"rate_limit:".toList, rest ++ field.toList, ?_, by decide, k.closing_not_mem_tag⟩
  rw [String.toList_append, toList_text, List.append_assoc, hrest]
  simp

theorem tag_eq_nil_iff : k.tag = [] ↔ k.policy.toList.head? = some '\x7d' := by
  rw [tag]
  cases k.policy.toList with
  | nil => simp
  | cons c cs => by_cases h : c = '\x7d' <;> simp [h]

/-- A server hashes the same part of the names of both fields of a bucket, so that they are in one slot,
if and only if the policy does not begin with a closing brace. -/
theorem sameSlot_iff_head_ne :
    hashedPart k.tokensName = hashedPart k.lastRefillName ↔
      k.policy.toList.head? ≠ some '\x7d' := by
  have htokens : tag? k.tokensName.toList = some k.tag := k.tag?_text_append ":tokens"
  have hlast : tag? k.lastRefillName.toList = some k.tag := k.tag?_text_append ":last_refill"
  rw [ne_eq, ← tag_eq_nil_iff]
  cases htag : k.tag with
  | nil =>
      rw [htag] at htokens hlast
      rw [hashedPart_of_tag?_nil htokens, hashedPart_of_tag?_nil hlast]
      simpa using k.tokensName_ne_lastRefillName k
  | cons c tag =>
      rw [htag] at htokens hlast
      rw [hashedPart_of_tag?_cons htokens, hashedPart_of_tag?_cons hlast]
      simp

/-- A policy that is called by a closing brace leaves nothing between the braces, so that both names are
hashed whole. -/
theorem not_sameSlot_closingBrace :
    let k : Key := ⟨"\x7d", "a"⟩
    hashedPart k.tokensName = "rate_limit:\x7b\x7d:a\x7d:tokens" ∧
      hashedPart k.lastRefillName = "rate_limit:\x7b\x7d:a\x7d:last_refill" ∧
      hashedPart k.tokensName ≠ hashedPart k.lastRefillName := by
  decide +kernel

end Bucket.Key

end Admission
