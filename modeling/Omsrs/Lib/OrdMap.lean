import Mathlib.Algebra.BigOperators.Ring.List
import Mathlib.Algebra.Order.BigOperators.Group.List
import Mathlib.Algebra.Order.Ring.Nat
import Mathlib.Data.List.Induction
import Mathlib.Data.List.Nodup
import Mathlib.Data.List.Perm.Basic
import Mathlib.Tactic.SplitIfs

/-!
# Ordered maps

A finite map kept as its list of entries in strictly increasing key order. The order is part of the
value, so two maps with the same lookups are equal and a traversal visits the keys in order.
-/

namespace Omsrs.Lib

/-- A finite map from `κ` to `ν` whose entries stand in strictly increasing key order. -/
structure OrdMap (κ ν : Type) [LinearOrder κ] where
  entries : List (κ × ν)
  sorted : entries.Pairwise fun a b => a.1 < b.1

namespace OrdMap

variable {κ ν : Type} [LinearOrder κ]

instance [DecidableEq ν] : DecidableEq (OrdMap κ ν) := fun m n =>
  decidable_of_iff (m.entries = n.entries) (by cases m; cases n; simp)

/-! ## Entries of a list -/

/-- The value stored under `k` in a list of entries. -/
def lookupEntry (k : κ) : List (κ × ν) → Option ν
  | [] => none
  | (k', v) :: rest => if k = k' then some v else lookupEntry k rest

/-- Insert `(k, v)` at its place, replacing the entry of an equal key. -/
def insertEntry (k : κ) (v : ν) : List (κ × ν) → List (κ × ν)
  | [] => [(k, v)]
  | (k', v') :: rest =>
      if k < k' then (k, v) :: (k', v') :: rest
      else if k = k' then (k, v) :: rest
      else (k', v') :: insertEntry k v rest

theorem mem_insertEntry {k : κ} {v : ν} {l : List (κ × ν)} {e : κ × ν}
    (h : e ∈ insertEntry k v l) : e = (k, v) ∨ e ∈ l := by
  induction l with
  | nil => simpa [insertEntry] using h
  | cons x rest ih =>
      obtain ⟨k', v'⟩ := x
      simp only [insertEntry] at h
      split_ifs at h with h₁ h₂
      · simpa using h
      · rcases List.mem_cons.mp h with rfl | h
        · exact Or.inl rfl
        · exact Or.inr (List.mem_cons_of_mem _ h)
      · rcases List.mem_cons.mp h with rfl | h
        · exact Or.inr List.mem_cons_self
        · exact (ih h).imp_right (List.mem_cons_of_mem _)

theorem insertEntry_sorted (k : κ) (v : ν) {l : List (κ × ν)}
    (h : l.Pairwise fun a b => a.1 < b.1) :
    (insertEntry k v l).Pairwise fun a b => a.1 < b.1 := by
  induction l with
  | nil => simp [insertEntry]
  | cons x rest ih =>
      obtain ⟨k', v'⟩ := x
      obtain ⟨hx, hrest⟩ := List.pairwise_cons.mp h
      simp only [insertEntry]
      split_ifs with h₁ h₂
      · refine List.pairwise_cons.mpr ⟨fun e he => ?_, h⟩
        rcases List.mem_cons.mp he with rfl | he
        · exact h₁
        · exact h₁.trans (hx e he)
      · subst h₂
        exact List.pairwise_cons.mpr ⟨hx, hrest⟩
      · refine List.pairwise_cons.mpr ⟨fun e he => ?_, ih hrest⟩
        rcases mem_insertEntry he with rfl | he
        · exact lt_of_le_of_ne (not_lt.mp h₁) (Ne.symm h₂)
        · exact hx e he

theorem lookupEntry_insertEntry (k j : κ) (v : ν) (l : List (κ × ν)) :
    lookupEntry j (insertEntry k v l) = if j = k then some v else lookupEntry j l := by
  induction l with
  | nil => simp [insertEntry, lookupEntry]
  | cons x rest ih =>
      obtain ⟨k', v'⟩ := x
      by_cases hlt : k < k'
      · by_cases hj : j = k <;> simp [insertEntry, hlt, lookupEntry, hj]
      · by_cases hk : k = k'
        · subst hk
          by_cases hj : j = k <;> simp [insertEntry, lookupEntry, hj]
        · by_cases hj : j = k'
          · have hjk : j ≠ k := fun h => hk (h ▸ hj)
            simp [insertEntry, hlt, hk, lookupEntry, hj ▸ hjk, hj]
          · simp [insertEntry, hlt, hk, lookupEntry, hj, ih]

theorem lookupEntry_eq_none {k : κ} {l : List (κ × ν)} (h : ∀ e ∈ l, e.1 ≠ k) :
    lookupEntry k l = none := by
  induction l with
  | nil => rfl
  | cons x rest ih =>
      have hx : k ≠ x.1 := (h x List.mem_cons_self).symm
      simp only [lookupEntry, hx, ↓reduceIte]
      exact ih fun e he => h e (List.mem_cons_of_mem _ he)

theorem mem_iff_lookupEntry {k : κ} {v : ν} {l : List (κ × ν)}
    (h : l.Pairwise fun a b => a.1 < b.1) : (k, v) ∈ l ↔ lookupEntry k l = some v := by
  induction l with
  | nil => simp [lookupEntry]
  | cons x rest ih =>
      obtain ⟨k', v'⟩ := x
      obtain ⟨hx, hrest⟩ := List.pairwise_cons.mp h
      by_cases hk : k = k'
      · subst hk
        have hnot : (k, v) ∉ rest := fun hm => (hx (k, v) hm).false
        simp [lookupEntry, hnot, eq_comm]
      · simp [lookupEntry, hk, ih hrest]

theorem eq_of_lookupEntry_eq {l₁ l₂ : List (κ × ν)} (h₁ : l₁.Pairwise fun a b => a.1 < b.1)
    (h₂ : l₂.Pairwise fun a b => a.1 < b.1)
    (h : ∀ k, lookupEntry k l₁ = lookupEntry k l₂) : l₁ = l₂ := by
  have hmem : ∀ e, e ∈ l₁ ↔ e ∈ l₂ := by
    intro ⟨k, v⟩
    rw [mem_iff_lookupEntry h₁, mem_iff_lookupEntry h₂, h k]
  have hnodup : ∀ {l : List (κ × ν)}, (l.Pairwise fun a b => a.1 < b.1) → l.Nodup :=
    fun hl => hl.imp fun hab he => (he ▸ hab).false
  have hperm : l₁.Perm l₂ := (List.perm_ext_iff_of_nodup (hnodup h₁) (hnodup h₂)).mpr hmem
  exact List.Perm.eq_of_pairwise (fun a b _ _ hab hba => (lt_asymm hab hba).elim) h₁ h₂ hperm

/-! ## The map -/

def empty : OrdMap κ ν := ⟨[], .nil⟩

def get? (m : OrdMap κ ν) (k : κ) : Option ν := lookupEntry k m.entries

def contains (m : OrdMap κ ν) (k : κ) : Bool := (m.get? k).isSome

def insert (m : OrdMap κ ν) (k : κ) (v : ν) : OrdMap κ ν :=
  ⟨insertEntry k v m.entries, insertEntry_sorted k v m.sorted⟩

def erase (m : OrdMap κ ν) (k : κ) : OrdMap κ ν :=
  ⟨m.entries.filter (·.1 ≠ k), m.sorted.filter _⟩

def keys (m : OrdMap κ ν) : List κ := m.entries.map Prod.fst

def values (m : OrdMap κ ν) : List ν := m.entries.map Prod.snd

def isEmpty (m : OrdMap κ ν) : Bool := m.entries.isEmpty

def size (m : OrdMap κ ν) : Nat := m.entries.length

@[simp] theorem get?_empty (k : κ) : (empty : OrdMap κ ν).get? k = none := rfl

@[simp] theorem entries_empty : (empty : OrdMap κ ν).entries = [] := rfl

@[simp] theorem values_empty : (empty : OrdMap κ ν).values = [] := rfl

theorem get?_insert (m : OrdMap κ ν) (k j : κ) (v : ν) :
    (m.insert k v).get? j = if j = k then some v else m.get? j :=
  lookupEntry_insertEntry k j v m.entries

@[simp] theorem get?_insert_self (m : OrdMap κ ν) (k : κ) (v : ν) :
    (m.insert k v).get? k = some v := by simp [get?_insert]

theorem get?_insert_ne (m : OrdMap κ ν) {k j : κ} (v : ν) (h : j ≠ k) :
    (m.insert k v).get? j = m.get? j := by simp [get?_insert, h]

theorem get?_erase (m : OrdMap κ ν) (k j : κ) :
    (m.erase k).get? j = if j = k then none else m.get? j := by
  have hsub := m.sorted.filter (fun e => decide (e.1 ≠ k))
  apply Option.ext
  intro v
  simp only [get?, erase, ← mem_iff_lookupEntry hsub]
  split_ifs with h
  · simp [h]
  · simp [h, mem_iff_lookupEntry m.sorted]

theorem contains_iff {m : OrdMap κ ν} {k : κ} : m.contains k = true ↔ ∃ v, m.get? k = some v := by
  simp [contains, Option.isSome_iff_exists]

theorem contains_eq_false {m : OrdMap κ ν} {k : κ} : m.contains k = false ↔ m.get? k = none := by
  simp [contains]

theorem mem_entries {m : OrdMap κ ν} {k : κ} {v : ν} : (k, v) ∈ m.entries ↔ m.get? k = some v :=
  mem_iff_lookupEntry m.sorted

theorem mem_keys {m : OrdMap κ ν} {k : κ} : k ∈ m.keys ↔ ∃ v, m.get? k = some v := by
  simp only [keys, List.mem_map, Prod.exists, exists_and_right, exists_eq_right, mem_entries]

theorem mem_values {m : OrdMap κ ν} {v : ν} : v ∈ m.values ↔ ∃ k, m.get? k = some v := by
  simp only [values, List.mem_map, Prod.exists, exists_eq_right, mem_entries]

theorem keys_nodup (m : OrdMap κ ν) : m.keys.Nodup :=
  (List.pairwise_map.mpr m.sorted).imp ne_of_lt

/-- Maps with the same lookups are equal. -/
theorem ext_get? {m n : OrdMap κ ν} (h : ∀ k, m.get? k = n.get? k) : m = n := by
  obtain ⟨l₁, h₁⟩ := m
  obtain ⟨l₂, h₂⟩ := n
  obtain rfl := eq_of_lookupEntry_eq h₁ h₂ h
  rfl

/-- Maps that hold the same keys list them alike. -/
theorem keys_congr {μ : Type} {m : OrdMap κ ν} {n : OrdMap κ μ}
    (h : ∀ k, m.contains k = n.contains k) : m.keys = n.keys := by
  have hmem : ∀ k, k ∈ m.keys ↔ k ∈ n.keys := by
    intro k
    rw [mem_keys, mem_keys, ← contains_iff, ← contains_iff, h k]
  have hsorted : ∀ {μ : Type} (m : OrdMap κ μ), m.keys.Pairwise (· < ·) :=
    fun m => List.pairwise_map.mpr m.sorted
  have hperm := (List.perm_ext_iff_of_nodup m.keys_nodup n.keys_nodup).mpr hmem
  exact List.Perm.eq_of_pairwise (fun a b _ _ hab hba => (lt_asymm hab hba).elim) (hsorted m)
    (hsorted n) hperm

/-- The values in key order, read off the keys. -/
theorem values_map {α : Type} (m : OrdMap κ ν) (f : ν → α) (a : α) :
    m.values.map f = m.keys.map fun k => ((m.get? k).map f).getD a := by
  simp only [values, keys, List.map_map]
  refine List.map_congr_left fun e he => ?_
  simp [mem_entries.mp he]

theorem isEmpty_iff {m : OrdMap κ ν} : m.isEmpty = true ↔ m = empty := by
  obtain ⟨l, hl⟩ := m
  cases l <;> simp [isEmpty, empty]

theorem insert_insert (m : OrdMap κ ν) (k : κ) (v w : ν) :
    (m.insert k v).insert k w = m.insert k w := by
  apply ext_get?
  intro i
  simp only [get?_insert]
  split_ifs <;> rfl

theorem insert_get? {m : OrdMap κ ν} {k : κ} {v : ν} (h : m.get? k = some v) : m.insert k v = m := by
  apply ext_get?
  intro i
  rw [get?_insert]
  split_ifs with hi
  · exact (hi ▸ h).symm
  · rfl

/-- Inserting a new key adds its entry, up to order. -/
theorem entries_insert_perm {m : OrdMap κ ν} {k : κ} (v : ν) (h : m.get? k = none) :
    ((m.insert k v).entries).Perm ((k, v) :: m.entries) := by
  have hnodup : ∀ n : OrdMap κ ν, n.entries.Nodup := fun n =>
    n.sorted.imp fun hab he => (he ▸ hab).false
  have hnot : (k, v) ∉ m.entries := by simp [mem_entries, h]
  refine (List.perm_ext_iff_of_nodup (hnodup _) (List.nodup_cons.mpr ⟨hnot, hnodup m⟩)).mpr ?_
  rintro ⟨j, w⟩
  simp only [mem_entries, get?_insert, List.mem_cons, Prod.mk.injEq]
  by_cases hj : j = k
  · subst hj; simp [h, eq_comm]
  · simp [hj]

/-! ## Many insertions -/

/-- Insert the entries of a list one by one; of equal keys the last one stays. -/
def insertAll (m : OrdMap κ ν) (l : List (κ × ν)) : OrdMap κ ν :=
  l.foldl (fun m e => m.insert e.1 e.2) m

@[simp] theorem insertAll_nil (m : OrdMap κ ν) : m.insertAll [] = m := rfl

@[simp] theorem insertAll_cons (m : OrdMap κ ν) (e : κ × ν) (l : List (κ × ν)) :
    m.insertAll (e :: l) = (m.insert e.1 e.2).insertAll l := rfl

theorem insertAll_append (m : OrdMap κ ν) (l l' : List (κ × ν)) :
    m.insertAll (l ++ l') = (m.insertAll l).insertAll l' := List.foldl_append

/-- What was there before shows where the list has nothing to say. -/
theorem get?_insertAll (m : OrdMap κ ν) (l : List (κ × ν)) (k : κ) :
    (m.insertAll l).get? k = ((empty.insertAll l).get? k).or (m.get? k) := by
  induction l using List.reverseRecOn with
  | nil => rfl
  | append_singleton l e ih =>
      simp only [insertAll_append, insertAll_cons, insertAll_nil, get?_insert, ih]
      split_ifs <;> rfl

theorem get?_insertAll_none {l : List (κ × ν)} {k : κ} :
    (empty.insertAll l).get? k = none ↔ k ∉ l.map Prod.fst := by
  induction l using List.reverseRecOn with
  | nil => simp
  | append_singleton l e ih =>
      simp only [insertAll_append, insertAll_cons, insertAll_nil, get?_insert, List.map_append,
        List.map_cons, List.map_nil, List.mem_append, List.mem_singleton, not_or, ← ih]
      split_ifs with h <;> simp [h]

theorem mem_of_get?_insertAll {l : List (κ × ν)} {k : κ} {v : ν}
    (h : (empty.insertAll l).get? k = some v) : (k, v) ∈ l := by
  induction l using List.reverseRecOn with
  | nil => cases h
  | append_singleton l e ih =>
      simp only [insertAll_append, insertAll_cons, insertAll_nil, get?_insert] at h
      split_ifs at h with hk
      · obtain rfl := Option.some.inj h
        simp [hk]
      · exact List.mem_append_left _ (ih h)

/-- What a list of insertions leaves under a key is its last entry there. -/
theorem get?_insertAll_getLast? {k : κ} {p : κ × ν → Bool} (hp : ∀ e, p e = true ↔ e.1 = k)
    (l : List (κ × ν)) : (empty.insertAll l).get? k = ((l.filter p).getLast?).map (·.2) := by
  induction l using List.reverseRecOn with
  | nil => rfl
  | append_singleton l e ih =>
      simp only [insertAll_append, insertAll_cons, insertAll_nil, get?_insert, List.filter_append]
      by_cases h : k = e.1
      · simp [h, (hp e).mpr h.symm]
      · have hpe : p e = false := by simpa using (hp e).not.mpr (Ne.symm h)
        simp [h, hpe, ih]

/-- An insertion under another key is not seen. -/
theorem get?_insertAll_skip {j k : κ} (h : j ≠ k) (v : ν) (l r : List (κ × ν)) :
    (empty.insertAll (l ++ (k, v) :: r)).get? j = (empty.insertAll (l ++ r)).get? j := by
  simp only [insertAll_append, insertAll_cons]
  rw [get?_insertAll, get?_insertAll (empty.insertAll l), get?_insert_ne _ _ h]

/-- A key of the list that occurs once keeps its value. -/
theorem get?_insertAll_of_nodup {l : List (κ × ν)} {k : κ} {v : ν} (hl : (l.map Prod.fst).Nodup)
    (h : (k, v) ∈ l) : (empty.insertAll l).get? k = some v := by
  cases hg : (empty.insertAll l).get? k with
  | none => exact absurd (List.mem_map_of_mem h) (get?_insertAll_none.mp hg)
  | some w =>
      have hw := mem_of_get?_insertAll hg
      exact congrArg (some ∘ Prod.snd) (List.inj_on_of_nodup_map hl hw h rfl)

/-- Of entries that may lack a value those that have one are inserted. -/
theorem get?_insertAll_present {l : List (κ × Option ν)} {k : κ} {v : Option ν}
    (hl : (l.map Prod.fst).Nodup) (h : (k, v) ∈ l) :
    (empty.insertAll (l.filterMap fun e => e.2.map (Prod.mk e.1))).get? k = v := by
  have hval : ∀ w, (k, w) ∈ l.filterMap (fun e => e.2.map (Prod.mk e.1)) ↔ v = some w := by
    intro w
    rw [List.mem_filterMap]
    constructor
    · rintro ⟨e, he, hmap⟩
      obtain ⟨u, hu, heq⟩ := Option.map_eq_some_iff.mp hmap
      cases heq
      rw [← hu]
      exact congrArg Prod.snd (List.inj_on_of_nodup_map hl h he rfl)
    · rintro rfl
      exact ⟨_, h, rfl⟩
  cases hg : (empty.insertAll (l.filterMap fun e => e.2.map (Prod.mk e.1))).get? k with
  | some w => exact ((hval w).mp (mem_of_get?_insertAll hg)).symm
  | none =>
      cases v with
      | none => rfl
      | some v => exact absurd (List.mem_map_of_mem ((hval v).mpr rfl)) (get?_insertAll_none.mp hg)

/-- The entries of a map rebuild it. -/
theorem insertAll_entries (m : OrdMap κ ν) : empty.insertAll m.entries = m := by
  apply ext_get?
  intro k
  cases h : m.get? k with
  | none =>
      refine get?_insertAll_none.mpr fun hk => ?_
      obtain ⟨⟨j, v⟩, hm, rfl⟩ := List.mem_map.mp hk
      rw [mem_entries.mp hm] at h
      cases h
  | some v => exact get?_insertAll_of_nodup m.keys_nodup (mem_entries.mpr h)

/-- A map rebuilt with other values looks up the value of its own entry. -/
theorem get?_insertAll_map {μ : Type} (m : OrdMap κ ν) (f : ν → μ) (k : κ) :
    (empty.insertAll (m.entries.map fun e => (e.1, f e.2))).get? k = (m.get? k).map f := by
  have hkeys : (m.entries.map fun e => (e.1, f e.2)).map Prod.fst = m.keys := by
    rw [List.map_map]
    rfl
  cases h : m.get? k with
  | none =>
      refine get?_insertAll_none.mpr fun hk => ?_
      rw [hkeys] at hk
      obtain ⟨v, hv⟩ := mem_keys.mp hk
      rw [h] at hv
      cases hv
  | some v =>
      exact get?_insertAll_of_nodup (hkeys ▸ m.keys_nodup)
        (List.mem_map.mpr ⟨(k, v), mem_entries.mpr h, rfl⟩)

/-- The entries of a map, each kept under its key or dropped. -/
theorem get?_insertAll_filterMap {μ : Type} (m : OrdMap κ ν) (g : κ → ν → Option μ) (k : κ) :
    ((empty : OrdMap κ μ).insertAll (m.entries.filterMap fun e => (g e.1 e.2).map (Prod.mk e.1))).get? k =
      (m.get? k).bind (g k) := by
  have hmem : ∀ w, (k, w) ∈ m.entries.filterMap (fun e => (g e.1 e.2).map (Prod.mk e.1)) ↔
      (m.get? k).bind (g k) = some w := by
    intro w
    rw [List.mem_filterMap, Option.bind_eq_some_iff]
    constructor
    · rintro ⟨⟨k', v⟩, he, hg⟩
      obtain ⟨w', hw', hpair⟩ := Option.map_eq_some_iff.mp hg
      cases hpair
      exact ⟨v, mem_entries.mp he, hw'⟩
    · rintro ⟨v, hv, hg⟩
      exact ⟨(k, v), mem_entries.mpr hv, by simp [hg]⟩
  cases hget : ((empty : OrdMap κ μ).insertAll
      (m.entries.filterMap fun e => (g e.1 e.2).map (Prod.mk e.1))).get? k with
  | some w => exact ((hmem w).mp (mem_of_get?_insertAll hget)).symm
  | none =>
      cases hbind : (m.get? k).bind (g k) with
      | none => rfl
      | some w =>
          exact absurd (List.mem_map_of_mem ((hmem w).mpr hbind)) (get?_insertAll_none.mp hget)

/-- Insertions gathered in a map first and then inserted from there are the same insertions. -/
theorem insertAll_gathered (m : OrdMap κ ν) (l : List (κ × ν)) :
    m.insertAll (empty.insertAll l).entries = m.insertAll l := by
  apply ext_get?
  intro k
  rw [get?_insertAll, insertAll_entries, ← get?_insertAll]

theorem mem_keys_insertAll {l : List (κ × ν)} {k : κ} :
    k ∈ (empty.insertAll l).keys ↔ k ∈ l.map Prod.fst := by
  rw [mem_keys, ← Option.isSome_iff_exists, ← not_iff_not, Option.not_isSome_iff_eq_none,
    get?_insertAll_none]

/-- As many entries as there are different keys, whatever the values. -/
theorem size_insertAll_congr {μ : Type} {l : List (κ × ν)} {l' : List (κ × μ)}
    (h : l.map Prod.fst = l'.map Prod.fst) :
    (empty.insertAll l).size = (empty.insertAll l').size := by
  have hp : (empty.insertAll l).keys.Perm (empty.insertAll l').keys :=
    (List.perm_ext_iff_of_nodup (keys_nodup _) (keys_nodup _)).mpr fun k => by
      rw [mem_keys_insertAll, mem_keys_insertAll, h]
  simpa [keys, size] using hp.length_eq

/-! ## Changing values in place -/

/-- Change the value under a key that is there. -/
def modify (m : OrdMap κ ν) (k : κ) (f : ν → ν) : OrdMap κ ν :=
  match m.get? k with
  | some v => m.insert k (f v)
  | none => m

/-- Change every value. -/
def mapValues (m : OrdMap κ ν) (f : κ → ν → ν) : OrdMap κ ν :=
  ⟨m.entries.map fun e => (e.1, f e.1 e.2), List.pairwise_map.mpr m.sorted⟩

theorem get?_modify (m : OrdMap κ ν) (k j : κ) (f : ν → ν) :
    (m.modify k f).get? j = if j = k then (m.get? k).map f else m.get? j := by
  simp only [modify]
  split
  · rename_i v hv
    simp only [get?_insert, hv, Option.map_some]
  · rename_i hv
    split
    · rename_i hj
      simp only [hj, hv, Option.map_none]
    · rfl

theorem lookupEntry_map (f : κ → ν → ν) (k : κ) (l : List (κ × ν)) :
    lookupEntry k (l.map fun e => (e.1, f e.1 e.2)) = (lookupEntry k l).map (f k) := by
  induction l with
  | nil => rfl
  | cons e l ih =>
      simp only [List.map_cons, lookupEntry]
      split
      · rename_i h
        simp only [Option.map_some, h]
      · exact ih

@[simp] theorem get?_mapValues (m : OrdMap κ ν) (f : κ → ν → ν) (k : κ) :
    (m.mapValues f).get? k = (m.get? k).map (f k) := lookupEntry_map f k m.entries

/-! ## A part of the keys -/

theorem lookupEntry_filter (p : κ → Bool) (k : κ) (l : List (κ × ν)) :
    lookupEntry k (l.filter fun e => p e.1) = if p k then lookupEntry k l else none := by
  induction l with
  | nil => simp [lookupEntry]
  | cons e l ih =>
      by_cases he : p e.1
      · rw [List.filter_cons_of_pos (by simpa using he)]
        simp only [lookupEntry, ih]
        by_cases hk : k = e.1
        · simp [hk, he]
        · simp [hk]
      · rw [List.filter_cons_of_neg (by simpa using he), ih]
        by_cases hk : k = e.1
        · simp [hk, he]
        · simp [lookupEntry, hk]

/-- Maps that agree on a part of the keys list it alike. -/
theorem filter_entries_congr {m n : OrdMap κ ν} {p : κ → Bool}
    (h : ∀ k, p k = true → m.get? k = n.get? k) :
    (m.entries.filter fun e => p e.1) = n.entries.filter fun e => p e.1 := by
  refine eq_of_lookupEntry_eq (m.sorted.filter _) (n.sorted.filter _) fun k => ?_
  rw [lookupEntry_filter, lookupEntry_filter]
  split
  · rename_i hk
    exact h k hk
  · rfl

/-! ## Sums over the values -/

/-- The sum of `f` over the stored values. -/
def sumBy (m : OrdMap κ ν) (f : ν → Nat) : Nat := (m.values.map f).sum

@[simp] theorem sumBy_empty (f : ν → Nat) : (empty : OrdMap κ ν).sumBy f = 0 := rfl

/-- A new key adds its value to the sum. -/
theorem sumBy_insert_new {m : OrdMap κ ν} {k : κ} (v : ν) (f : ν → Nat) (h : m.get? k = none) :
    (m.insert k v).sumBy f = m.sumBy f + f v := by
  have hp := ((entries_insert_perm v h).map Prod.snd).map f
  simp only [sumBy, values, hp.sum_eq, List.map_cons, List.sum_cons]
  omega

theorem sumEntry_insert {k : κ} {v w : ν} {l : List (κ × ν)} (f : ν → Nat)
    (hs : l.Pairwise fun a b => a.1 < b.1) (h : lookupEntry k l = some w) :
    (((insertEntry k v l).map Prod.snd).map f).sum + f w = ((l.map Prod.snd).map f).sum + f v := by
  induction l with
  | nil => simp [lookupEntry] at h
  | cons x rest ih =>
      obtain ⟨k', v'⟩ := x
      obtain ⟨hx, hrest⟩ := List.pairwise_cons.mp hs
      by_cases hk : k = k'
      · subst hk
        simp only [lookupEntry, ↓reduceIte, Option.some.injEq] at h
        subst h
        simp only [insertEntry, lt_irrefl, ↓reduceIte, List.map_cons, List.sum_cons]
        omega
      · simp only [lookupEntry, hk, ↓reduceIte] at h
        have hlt : ¬ k < k' := fun hlt =>
          lt_asymm hlt (hx (k, w) ((mem_iff_lookupEntry hrest).mpr h))
        have := ih hrest h
        simp only [insertEntry, hlt, hk, ↓reduceIte, List.map_cons, List.sum_cons]
        omega

/-- Replacing a stored value exchanges its share of the sum. -/
theorem sumBy_insert_old {m : OrdMap κ ν} {k : κ} {w : ν} (v : ν) (f : ν → Nat)
    (h : m.get? k = some w) : (m.insert k v).sumBy f + f w = m.sumBy f + f v :=
  sumEntry_insert f m.sorted h

theorem sumBy_congr {m : OrdMap κ ν} {f g : ν → Nat} (h : ∀ v ∈ m.values, f v = g v) :
    m.sumBy f = m.sumBy g := by
  simp only [sumBy, List.map_congr_left h]

theorem sumBy_le_sumBy {m : OrdMap κ ν} {f g : ν → Nat} (h : ∀ v ∈ m.values, f v ≤ g v) :
    m.sumBy f ≤ m.sumBy g := by
  simp only [sumBy]
  exact List.sum_le_sum h

theorem sumBy_mul_right (m : OrdMap κ ν) (f : ν → Nat) (k : Nat) :
    (m.sumBy fun v => f v * k) = m.sumBy f * k := List.sum_map_mul_right ..

theorem le_sumBy {m : OrdMap κ ν} {k : κ} {v : ν} (f : ν → Nat) (h : m.get? k = some v) :
    f v ≤ m.sumBy f :=
  List.single_le_sum (by simp) _ (List.mem_map_of_mem (mem_values.mpr ⟨k, h⟩))

end OrdMap

end Omsrs.Lib
