/-!
Finite maps as lists of pairs with distinct keys. Each operation is described by what it does to
`get?`.
-/

namespace Admission

/-- A finite map from `κ` to `υ`. -/
structure Table (κ υ : Type) where
  entries : List (κ × υ)
  distinct : (entries.map Prod.fst).Nodup

namespace Table

variable {κ υ : Type}

def empty : Table κ υ := ⟨[], List.nodup_nil⟩

instance : Inhabited (Table κ υ) := ⟨empty⟩

def size (t : Table κ υ) : Nat := t.entries.length

def isEmpty (t : Table κ υ) : Bool := t.entries.isEmpty

def keys (t : Table κ υ) : List κ := t.entries.map Prod.fst

/-- The entries for which `keep` holds. -/
def filter (keep : κ → υ → Bool) (t : Table κ υ) : Table κ υ :=
  ⟨t.entries.filter fun e => keep e.1 e.2,
    t.distinct.sublist (List.filter_sublist.map Prod.fst)⟩

section Keyed

variable [DecidableEq κ]

def get? (t : Table κ υ) (k : κ) : Option υ := t.entries.lookup k

def erase (t : Table κ υ) (k : κ) : Table κ υ := t.filter fun k' _ => k' != k

theorem not_mem_keys_erase (t : Table κ υ) (k : κ) : k ∉ (t.erase k).keys := by
  simp [erase, filter, keys]

def insert (t : Table κ υ) (k : κ) (v : υ) : Table κ υ :=
  ⟨(k, v) :: (t.erase k).entries, by
    have := t.not_mem_keys_erase k
    exact List.nodup_cons.2 ⟨this, (t.erase k).distinct⟩⟩

/-- The table with the pairs put in one after another, a later pair replacing an earlier one. -/
def ofList (pairs : List (κ × υ)) : Table κ υ :=
  pairs.foldl (fun t e => t.insert e.1 e.2) empty

/-! ### What each operation does to `get?` -/

@[simp] theorem get?_empty (k : κ) : (empty : Table κ υ).get? k = none := rfl

theorem lookup_cons_of_ne (es : List (κ × υ)) {k a : κ} (v : υ) (h : k ≠ a) :
    ((a, v) :: es).lookup k = es.lookup k := by
  rw [List.lookup_cons, beq_false_of_ne h]

theorem lookup_filter_of_ne (es : List (κ × υ)) {k k' : κ} (h : k' ≠ k) :
    (es.filter fun e => e.1 != k).lookup k' = es.lookup k' := by
  induction es with
  | nil => rfl
  | cons e es ih =>
    obtain ⟨a, v⟩ := e
    by_cases ha : a = k
    · subst ha
      simpa [lookup_cons_of_ne es v h] using ih
    · by_cases hk : k' = a
      · subst hk; simp [ha]
      · simp [lookup_cons_of_ne _ v hk, ha, ih]

theorem lookup_eq_none_of_not_mem (es : List (κ × υ)) {k : κ} (h : k ∉ es.map Prod.fst) :
    es.lookup k = none := by
  induction es with
  | nil => rfl
  | cons e es ih =>
    obtain ⟨a, v⟩ := e
    simp only [List.map_cons, List.mem_cons, not_or] at h
    rw [lookup_cons_of_ne es v h.1, ih h.2]

@[simp] theorem get?_erase_self (t : Table κ υ) (k : κ) : (t.erase k).get? k = none :=
  lookup_eq_none_of_not_mem _ (t.not_mem_keys_erase k)

theorem get?_erase_of_ne (t : Table κ υ) {k k' : κ} (h : k' ≠ k) :
    (t.erase k).get? k' = t.get? k' :=
  lookup_filter_of_ne t.entries h

/-- Of two values put in under one key, the later one stays. -/
theorem insert_insert_self (t : Table κ υ) (k : κ) (v w : υ) :
    (t.insert k v).insert k w = t.insert k w := by
  simp [insert, erase, filter]

@[simp] theorem get?_insert_self (t : Table κ υ) (k : κ) (v : υ) :
    (t.insert k v).get? k = some v := by
  simp [insert, get?]

theorem get?_insert_of_ne (t : Table κ υ) {k k' : κ} (v : υ) (h : k' ≠ k) :
    (t.insert k v).get? k' = t.get? k' :=
  (lookup_cons_of_ne _ v h).trans (t.get?_erase_of_ne h)

theorem lookup_filter (es : List (κ × υ)) (keep : κ → υ → Bool)
    (hd : (es.map Prod.fst).Nodup) (k : κ) :
    (es.filter fun e => keep e.1 e.2).lookup k = (es.lookup k).filter (keep k) := by
  induction es with
  | nil => rfl
  | cons e es ih =>
    obtain ⟨a, v⟩ := e
    rw [List.map_cons, List.nodup_cons] at hd
    by_cases hk : k = a
    · subst hk
      have hn : (es.filter fun e => keep e.1 e.2).lookup k = none :=
        lookup_eq_none_of_not_mem _ fun hm =>
          hd.1 ((List.filter_sublist.map Prod.fst).subset hm)
      by_cases hv : keep k v = true
      · simp [hv, Option.filter]
      · simp [hv, hn, Option.filter]
    · rw [lookup_cons_of_ne es v hk, ← ih hd.2]
      by_cases hv : keep a v = true
      · simp [hv, lookup_cons_of_ne _ v hk]
      · simp [hv]

theorem get?_filter (t : Table κ υ) (keep : κ → υ → Bool) (k : κ) :
    (t.filter keep).get? k = (t.get? k).filter (keep k) :=
  lookup_filter t.entries keep t.distinct k

end Keyed

end Table

end Admission
