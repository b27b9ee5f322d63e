import Mathlib.Algebra.Order.Ring.Nat

/-!
# Checked and saturating arithmetic

Natural numbers under a largest value `max`, as a machine integer computes with them: the checked
operations answer `none` where the exact result is out of range, the saturating ones stop at the end
of the range.
-/

namespace Omsrs.Lib

def u64Max : Nat := 2 ^ 64 - 1

def u128Max : Nat := 2 ^ 128 - 1

def checkedAdd (max a b : Nat) : Option Nat := if a + b ≤ max then some (a + b) else none

def checkedSub (a b : Nat) : Option Nat := if b ≤ a then some (a - b) else none

def saturatingAdd (max a b : Nat) : Nat := min (a + b) max

theorem checkedAdd_eq_some {max a b c : Nat} :
    checkedAdd max a b = some c ↔ a + b ≤ max ∧ c = a + b := by
  simp only [checkedAdd]
  split
  · simp_all [eq_comm]
  · simp_all

theorem checkedAdd_eq_none {max a b : Nat} : checkedAdd max a b = none ↔ max < a + b := by
  simp [checkedAdd]

theorem checkedSub_eq_some {a b c : Nat} : checkedSub a b = some c ↔ b ≤ a ∧ c = a - b := by
  simp only [checkedSub]
  split
  · simp_all [eq_comm]
  · simp_all

@[simp] theorem checkedSub_zero (a : Nat) : checkedSub a 0 = some a := by simp [checkedSub]

/-- Saturation commutes with a further saturating addition. -/
theorem saturatingAdd_min (max a b : Nat) :
    saturatingAdd max (min a max) b = min (a + b) max := by
  simp only [saturatingAdd]; omega

theorem foldl_saturatingAdd (max : Nat) (xs : List Nat) (a : Nat) :
    xs.foldl (saturatingAdd max) (min a max) = min (a + xs.sum) max := by
  induction xs generalizing a with
  | nil => simp
  | cons x xs ih =>
      rw [List.foldl_cons, saturatingAdd_min, ih, List.sum_cons, Nat.add_assoc]

theorem foldlM_checkedAdd {max : Nat} {xs : List Nat} {a b : Nat} (ha : a ≤ max) :
    xs.foldlM (checkedAdd max) a = some b ↔ a + xs.sum ≤ max ∧ b = a + xs.sum := by
  induction xs generalizing a with
  | nil => simp [ha, eq_comm]
  | cons x xs ih =>
      rw [List.foldlM_cons, List.sum_cons]
      by_cases hx : a + x ≤ max
      · rw [checkedAdd_eq_some.mpr ⟨hx, rfl⟩, Option.bind_eq_bind, Option.bind_some, ih hx,
          Nat.add_assoc]
      · rw [checkedAdd_eq_none.mpr (by omega)]
        refine iff_of_false (fun h => nomatch h) ?_
        omega

end Omsrs.Lib
