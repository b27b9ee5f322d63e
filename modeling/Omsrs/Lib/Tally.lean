import Mathlib.Algebra.BigOperators.Group.List.Basic
import Omsrs.Lib.OrdMap

/-!
# Amounts by key

A map to which amounts are added key by key. What it holds in the end is what the list of amounts holds
for each key, in any order.
-/

namespace Omsrs.Lib.OrdMap

variable {κ ν ε : Type} [LinearOrder κ] [AddCommMonoid ν]

/-- What stands under a key, zero where there is no entry. -/
def read (m : OrdMap κ ν) (k : κ) : ν := (m.get? k).getD 0

def addAt (m : OrdMap κ ν) (k : κ) (a : ν) : OrdMap κ ν := m.insert k (m.read k + a)

def addAll (m : OrdMap κ ν) (l : List (κ × ν)) : OrdMap κ ν := l.foldl (fun m e => m.addAt e.1 e.2) m

/-- What a list holds for a key. -/
def amount (k : κ) (l : List (κ × ν)) : ν := ((l.filter fun e => e.1 = k).map Prod.snd).sum

@[simp] theorem read_empty (k : κ) : (empty : OrdMap κ ν).read k = 0 := rfl

@[simp] theorem amount_nil (k : κ) : amount k ([] : List (κ × ν)) = 0 := rfl

theorem amount_cons (k : κ) (e : κ × ν) (l : List (κ × ν)) :
    amount k (e :: l) = (if e.1 = k then e.2 else 0) + amount k l := by
  unfold amount
  by_cases h : e.1 = k <;> simp [h]

theorem amount_append (k : κ) (l r : List (κ × ν)) : amount k (l ++ r) = amount k l + amount k r := by
  simp [amount]

theorem amount_perm (k : κ) {l r : List (κ × ν)} (h : l.Perm r) : amount k l = amount k r :=
  ((h.filter _).map _).sum_eq

/-- The amounts of a list under a map that respects sums. -/
theorem amount_map {μ : Type} [AddCommMonoid μ] (f : ν →+ μ) (k : κ) (l : List (κ × ν)) :
    amount k (l.map fun e => (e.1, f e.2)) = f (amount k l) := by
  induction l with
  | nil => simp
  | cons e l ih =>
      simp only [List.map_cons, amount_cons, ih, map_add]
      split <;> simp

theorem amount_eq_zero {k : κ} {l : List (κ × ν)} (h : k ∉ l.map Prod.fst) : amount k l = 0 := by
  induction l with
  | nil => rfl
  | cons e l ih =>
      simp only [List.map_cons, List.mem_cons, not_or] at h
      rw [amount_cons, if_neg (Ne.symm h.1), ih h.2, add_zero]

/-- The entries of a map hold what it reads. -/
theorem amount_entries (m : OrdMap κ ν) (k : κ) : amount k m.entries = m.read k := by
  obtain ⟨l, hl⟩ := m
  unfold read get?
  induction l with
  | nil => rfl
  | cons e l ih =>
      obtain ⟨hhead, htail⟩ := List.pairwise_cons.mp hl
      rw [amount_cons, lookupEntry]
      by_cases h : k = e.1
      · have hrest : amount k l = 0 := amount_eq_zero fun hm => by
          obtain ⟨e', he', heq⟩ := List.mem_map.mp hm
          exact absurd (hhead e' he') (by rw [heq, h]; exact lt_irrefl _)
        rw [if_pos h.symm, if_pos h, hrest, add_zero]
        rfl
      · rw [if_neg (Ne.symm h), if_neg h, zero_add]
        exact ih htail

/-- One of several different keys is met once. -/
theorem sum_single_key {ι : Type} [DecidableEq ι] {ks : List ι} (hn : ks.Nodup) {j : ι} (hj : j ∈ ks)
    (a : ν) : (ks.map fun k => if j = k then a else 0).sum = a := by
  induction ks with
  | nil => cases hj
  | cons k ks ih =>
      obtain ⟨hk, hn⟩ := List.nodup_cons.mp hn
      rw [List.map_cons, List.sum_cons]
      rcases List.mem_cons.mp hj with rfl | htail
      · have hrest : (ks.map fun k => if j = k then a else 0) = ks.map fun _ => 0 :=
          List.map_congr_left fun k hmem => if_neg (by rintro rfl; exact hk hmem)
        rw [if_pos rfl, hrest]
        simp
      · have hne : j ≠ k := by
          rintro rfl
          exact hk htail
        rw [if_neg hne, zero_add, ih hn htail]

/-- A sum is the sum over the keys of what each key has. -/
theorem sum_by_key {α ι : Type} [DecidableEq ι] {ks : List ι} (hn : ks.Nodup) (key : α → ι) (f : α → ν)
    {l : List α} (h : ∀ a ∈ l, key a ∈ ks) :
    (l.map f).sum = (ks.map fun k => ((l.filter fun a => key a = k).map f).sum).sum := by
  induction l with
  | nil => simp
  | cons a l ih =>
      have hsplit : ∀ k, (((a :: l).filter fun a => key a = k).map f).sum =
          (if key a = k then f a else 0) + ((l.filter fun a => key a = k).map f).sum := by
        intro k
        by_cases hk : key a = k <;> simp [hk]
      simp only [hsplit, List.sum_map_add]
      rw [List.map_cons, List.sum_cons, sum_single_key hn (h a List.mem_cons_self),
        ih fun b hb => h b (List.mem_cons_of_mem a hb)]

/-! ## Reading after adding -/

theorem read_addAt (m : OrdMap κ ν) (k j : κ) (a : ν) :
    (m.addAt k a).read j = m.read j + if k = j then a else 0 := by
  unfold addAt read
  rw [get?_insert]
  by_cases h : j = k
  · rw [if_pos h, if_pos h.symm, h]
    rfl
  · rw [if_neg h, if_neg (Ne.symm h), add_zero]

theorem read_addAll (m : OrdMap κ ν) (l : List (κ × ν)) (k : κ) :
    (m.addAll l).read k = m.read k + amount k l := by
  induction l generalizing m with
  | nil => simp [addAll]
  | cons e l ih =>
      have hrest := ih (m.addAt e.1 e.2)
      rw [read_addAt, add_assoc, ← amount_cons] at hrest
      exact hrest

theorem get?_addAll_isSome (m : OrdMap κ ν) (l : List (κ × ν)) (k : κ) :
    ((m.addAll l).get? k).isSome = true ↔ (m.get? k).isSome = true ∨ k ∈ l.map Prod.fst := by
  induction l generalizing m with
  | nil => simp [addAll]
  | cons e l ih =>
      refine (ih (m.addAt e.1 e.2)).trans ?_
      unfold addAt
      rw [get?_insert]
      by_cases h : k = e.1 <;> simp [h]

/-- Maps with the same keys and the same amounts are the same. -/
theorem ext_read {m n : OrdMap κ ν} (hkeys : ∀ k, (m.get? k).isSome = true ↔ (n.get? k).isSome = true)
    (hread : ∀ k, m.read k = n.read k) : m = n := by
  refine ext_get? fun k => ?_
  have hk := hkeys k
  have hr := hread k
  unfold read at hr
  cases hm : m.get? k with
  | none =>
      cases hn : n.get? k with
      | none => rfl
      | some b => simp [hm, hn] at hk
  | some a =>
      cases hn : n.get? k with
      | none => simp [hm, hn] at hk
      | some b =>
          rw [hm, hn] at hr
          exact congrArg some hr

theorem addAll_perm (m : OrdMap κ ν) {l r : List (κ × ν)} (h : l.Perm r) : m.addAll l = m.addAll r := by
  refine ext_read (fun k => ?_) fun k => ?_
  · rw [get?_addAll_isSome, get?_addAll_isSome, (h.map Prod.fst).mem_iff]
  · rw [read_addAll, read_addAll, amount_perm k h]

theorem addAll_append (m : OrdMap κ ν) (l r : List (κ × ν)) :
    m.addAll (l ++ r) = (m.addAll l).addAll r := List.foldl_append

/-- A fold that adds for some of its elements adds their list. -/
theorem foldl_addAt {α : Type} {step : OrdMap κ ν → α → OrdMap κ ν} {f : α → Option (κ × ν)}
    (hstep : ∀ m a, step m a = (f a).elim m fun e => m.addAt e.1 e.2) (m : OrdMap κ ν) (l : List α) :
    l.foldl step m = m.addAll (l.filterMap f) := by
  induction l generalizing m with
  | nil => rfl
  | cons a l ih =>
      rw [List.foldl_cons, ih, hstep, List.filterMap_cons]
      cases f a <;> rfl

/-- Adding what a list adds up to is adding the list. -/
theorem addAll_entries (m : OrdMap κ ν) (l : List (κ × ν)) :
    m.addAll ((empty : OrdMap κ ν).addAll l).entries = m.addAll l := by
  refine ext_read (fun k => ?_) fun k => ?_
  · have hk : k ∈ ((empty : OrdMap κ ν).addAll l).keys ↔ k ∈ l.map Prod.fst := by
      rw [mem_keys, ← Option.isSome_iff_exists, get?_addAll_isSome]
      simp
    rw [get?_addAll_isSome, get?_addAll_isSome]
    exact or_congr_right hk
  · rw [read_addAll, read_addAll, amount_entries, read_addAll, read_empty, zero_add]

/-- The first entries of a map hold for a key nothing, or all that the map holds. -/
theorem amount_prefix_entries {m : OrdMap κ ν} {pre : List (κ × ν)} (h : pre <+: m.entries) (k : κ) :
    amount k pre = 0 ∨ amount k pre = m.read k := by
  obtain ⟨post, hpost⟩ := h
  by_cases hk : k ∈ pre.map Prod.fst
  · refine .inr ?_
    have hnodup : (pre.map Prod.fst ++ post.map Prod.fst).Nodup := by
      rw [← List.map_append, hpost]
      exact m.keys_nodup
    have hno : k ∉ post.map Prod.fst := fun hm => (List.nodup_append.mp hnodup).2.2 k hk k hm rfl
    rw [← amount_entries, ← hpost, amount_append, amount_eq_zero hno, add_zero]
  · exact .inl (amount_eq_zero hk)

/-! ## Adding with a check -/

/-- Each new amount is checked before it is kept. -/
def addAllM (check : ν → Except ε ν) (m : OrdMap κ ν) (l : List (κ × ν)) : Except ε (OrdMap κ ν) :=
  l.foldlM (fun m e => (check (m.read e.1 + e.2)).map (m.insert e.1)) m

/-- Where every amount on the way passes the check, nothing is stopped. -/
theorem addAllM_ok {check : ν → Except ε ν} {m : OrdMap κ ν} {l : List (κ × ν)}
    (h : ∀ pre k, pre <+: l → check (m.read k + amount k pre) = .ok (m.read k + amount k pre)) :
    addAllM check m l = .ok (m.addAll l) := by
  induction l generalizing m with
  | nil => rfl
  | cons e l ih =>
      have hfirst := h [e] e.1 ⟨l, rfl⟩
      rw [amount_cons, if_pos rfl, amount_nil, add_zero] at hfirst
      have hrest := ih (m := m.addAt e.1 e.2) fun pre k hp => by
        rw [read_addAt, add_assoc, ← amount_cons]
        exact h (e :: pre) k (List.cons_prefix_cons.mpr ⟨rfl, hp⟩)
      unfold addAllM
      rw [List.foldlM_cons, hfirst]
      exact hrest

end Omsrs.Lib.OrdMap
