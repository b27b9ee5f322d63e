import Mathlib.Tactic.Linarith
import Omsrs.Replica.Lemmas.Evolve

/-!
# Exact quantities

With exact numbers the quantities of an order are put right where its parts are in its quantity already,
and an order whose parts make its quantity goes on like that.
-/

namespace Omsrs.Replica
open Omsrs.Lib

section Normalise

variable {q f p c : ℚ}

theorem normaliseQuantities_eq (q f p c : ℚ) :
    normaliseQuantities q f p c =
      if 0 < c then (q - min c q, q - min c q - (q - min c q), min c q)
      else if 0 < f then (min f q, q - min f q, c)
      else if 0 < p then (q - min p q, min p q, c)
      else (f, q - p, c) := rfl

theorem normalise_canceled (hc : 0 < c) :
    normaliseQuantities q f p c = (f, p, c) ↔ c ≤ q ∧ f = q - c ∧ p = 0 := by
  rw [normaliseQuantities_eq, if_pos hc]
  simp only [Prod.mk.injEq, sub_self, min_eq_left_iff]
  constructor
  · rintro ⟨hf, hp, hle⟩
    rw [min_eq_left hle] at hf
    exact ⟨hle, hf.symm, hp.symm⟩
  · rintro ⟨hle, hf, hp⟩
    rw [min_eq_left hle]
    exact ⟨hf.symm, hp.symm, hle⟩

theorem normalise_filled (hc : c ≤ 0) (hf : 0 < f) :
    normaliseQuantities q f p c = (f, p, c) ↔ f ≤ q ∧ p = q - f := by
  rw [normaliseQuantities_eq, if_neg (not_lt.mpr hc), if_pos hf]
  simp only [Prod.mk.injEq, min_eq_left_iff, and_true]
  constructor
  · rintro ⟨hle, hp⟩
    rw [min_eq_left hle] at hp
    exact ⟨hle, hp.symm⟩
  · rintro ⟨hle, hp⟩
    rw [min_eq_left hle]
    exact ⟨hle, hp.symm⟩

theorem normalise_pending (hc : c ≤ 0) (hf : f ≤ 0) (hp : 0 < p) :
    normaliseQuantities q f p c = (f, p, c) ↔ p ≤ q ∧ f = q - p := by
  rw [normaliseQuantities_eq, if_neg (not_lt.mpr hc), if_neg (not_lt.mpr hf), if_pos hp]
  simp only [Prod.mk.injEq, min_eq_left_iff, and_true]
  constructor
  · rintro ⟨hf, hle⟩
    rw [min_eq_left hle] at hf
    exact ⟨hle, hf.symm⟩
  · rintro ⟨hle, hf⟩
    rw [min_eq_left hle]
    exact ⟨hf.symm, hle⟩

theorem normalise_none (hc : c ≤ 0) (hf : f ≤ 0) (hp : p ≤ 0) :
    normaliseQuantities q f p c = (f, p, c) ↔ p = q - p := by
  rw [normaliseQuantities_eq, if_neg (not_lt.mpr hc), if_neg (not_lt.mpr hf), if_neg (not_lt.mpr hp)]
  simp only [Prod.mk.injEq, true_and, and_true]
  exact eq_comm

end Normalise

namespace VOrder

variable {o o' : VOrder ℚ}

/-! ## Parts of a quantity -/

/-- The parts of an order are within its quantity, and make it. -/
structure Conserves (o : VOrder ℚ) : Prop where
  filled : 0 ≤ o.filledQuantity ∧ o.filledQuantity ≤ o.quantity
  pending : 0 ≤ o.pendingQuantity ∧ o.pendingQuantity ≤ o.quantity
  canceled : 0 ≤ o.canceledQuantity ∧ o.canceledQuantity ≤ o.quantity
  sum : o.filledQuantity + o.pendingQuantity + o.canceledQuantity = o.quantity

/-- Parts that are not negative and make the quantity are within it. -/
theorem Conserves.of_sum (hf : 0 ≤ o.filledQuantity) (hp : 0 ≤ o.pendingQuantity)
    (hc : 0 ≤ o.canceledQuantity)
    (h : o.filledQuantity + o.pendingQuantity + o.canceledQuantity = o.quantity) : o.Conserves :=
  ⟨⟨hf, by linarith⟩, ⟨hp, by linarith⟩, ⟨hc, by linarith⟩, h⟩

theorem Conserves.nonneg (h : o.Conserves) : 0 ≤ o.quantity := h.filled.1.trans h.filled.2

/-- An order that adds up is done exactly when nothing is pending. -/
theorem Conserves.isDone_iff (h : o.Conserves) : o.isDone = true ↔ o.pendingQuantity = 0 := by
  obtain ⟨⟨hf, -⟩, ⟨hp, -⟩, ⟨hc, -⟩, hsum⟩ := h
  rw [VOrder.isDone_iff]
  constructor
  · rintro (h | h | h) <;> linarith
  · exact fun h => .inr (.inr h.le)

/-- An order that adds up goes on to one that adds up, and one that is done keeps what it has filled and
canceled. -/
structure Settles (o o' : VOrder ℚ) : Prop where
  conserves : o'.Conserves
  done : o.isDone = true → o'.isDone = true ∧ o'.filledQuantity = o.filledQuantity ∧
    o'.canceledQuantity = o.canceledQuantity

theorem Conserves.settles (h : o.Conserves) : Settles o o := ⟨h, fun hd => ⟨hd, rfl, rfl⟩⟩

/-- Only an open order changes. -/
theorem settles_open (h : o'.Conserves) (hd : o.isDone = false) : Settles o o' :=
  ⟨h, fun hd' => absurd (hd.symm.trans hd') (by decide)⟩

/-- The same quantities. -/
theorem Conserves.congr (h : o.Conserves) (hq : o'.quantity = o.quantity)
    (hf : o'.filledQuantity = o.filledQuantity) (hp : o'.pendingQuantity = o.pendingQuantity)
    (hc : o'.canceledQuantity = o.canceledQuantity) : Settles o o' := by
  have hd : o'.isDone = o.isDone := by simp only [isDone, hq, hf, hp, hc]
  refine ⟨?_, fun hdone => ⟨hd.trans hdone, hf, hc⟩⟩
  obtain ⟨h₁, h₂, h₃, h₄⟩ := h
  rw [← hq] at h₁ h₂ h₃ h₄
  rw [← hf] at h₁ h₄
  rw [← hp] at h₂ h₄
  rw [← hc] at h₃ h₄
  exact ⟨h₁, h₂, h₃, h₄⟩

/-! ## Putting the quantities right -/

/-- Quantities that are not negative are put right so that they add up. -/
theorem makeRightQuantity_conserves (hq : 0 ≤ o.quantity) (hf : 0 ≤ o.filledQuantity)
    (hp : 0 ≤ o.pendingQuantity) (hc : 0 ≤ o.canceledQuantity) : o.makeRightQuantity.Conserves := by
  obtain ⟨id, symbol, q, side, price, avg, trigger, msg, type, f, p, c⟩ := o
  dsimp only at hq hf hp hc
  have hright : ∀ {n : ℚ × ℚ × ℚ}, normaliseQuantities q f p c = n →
      0 ≤ n.1 → 0 ≤ n.2.1 → 0 ≤ n.2.2 → n.1 + n.2.1 + n.2.2 = q →
      (makeRightQuantity ⟨id, symbol, q, side, price, avg, trigger, msg, type, f, p, c⟩).Conserves := by
    rintro n rfl h₁ h₂ h₃ h₄
    exact .of_sum h₁ h₂ h₃ h₄
  rcases hc.lt_or_eq with hc' | rfl
  · have hle : min c q ≤ q := min_le_right c q
    have hpos : 0 ≤ min c q := le_min hc hq
    refine hright (by rw [normaliseQuantities_eq, if_pos hc']) ?_ ?_ ?_ ?_ <;> dsimp only <;> linarith
  · rcases hf.lt_or_eq with hf' | rfl
    · have hle : min f q ≤ q := min_le_right f q
      have hpos : 0 ≤ min f q := le_min hf hq
      refine hright (by rw [normaliseQuantities_eq, if_neg (lt_irrefl _), if_pos hf']) ?_ ?_ ?_ ?_ <;>
        dsimp only <;> linarith
    · rcases hp.lt_or_eq with hp' | rfl
      · have hle : min p q ≤ q := min_le_right p q
        have hpos : 0 ≤ min p q := le_min hp hq
        refine hright (by rw [normaliseQuantities_eq, if_neg (lt_irrefl _), if_neg (lt_irrefl _),
          if_pos hp']) ?_ ?_ ?_ ?_ <;> dsimp only <;> linarith
      · refine hright (by rw [normaliseQuantities_eq, if_neg (lt_irrefl _), if_neg (lt_irrefl _),
          if_neg (lt_irrefl _)]) ?_ ?_ ?_ ?_ <;> dsimp only <;> linarith

/-! ## The operations of the replica broker -/

theorem Unfilled.conserves (h : o.Unfilled) (hq : 0 ≤ o.quantity) : o.Conserves := by
  refine .of_sum h.filled.ge ?_ h.canceled.ge ?_
  · rw [h.pending]
    exact hq
  · rw [h.filled, h.pending, h.canceled]
    linarith

theorem Conserves.fillIf (h : o.Conserves) (met : Bool) (lastPrice : ℚ) :
    (o.fillIf met lastPrice).Conserves := by
  cases met with
  | true => exact makeRightQuantity_conserves h.nonneg h.nonneg h.pending.1 h.canceled.1
  | false => exact makeRightQuantity_conserves h.nonneg h.filled.1 h.pending.1 h.canceled.1

theorem Conserves.applyAsMarket (h : o.Conserves) (lastPrice : ℚ) :
    (o.applyAsMarket lastPrice).Conserves := by
  unfold VOrder.applyAsMarket
  split
  · split
    · exact h
    · exact h.fillIf _ _
  · split
    · exact h
    · exact h.fillIf _ _
  · exact h

theorem Unfilled.reject_conserves (h : o.Unfilled) (hq : 0 ≤ o.quantity) : o.reject.Conserves := by
  refine .of_sum h.filled.ge le_rfl hq ?_
  show o.filledQuantity + 0 + o.quantity = o.quantity
  rw [h.filled]
  linarith

theorem Conserves.applyFillUpdate (h : o.Conserves) (lastPrice : ℚ) :
    Settles o (o.applyFillUpdate lastPrice) := by
  rcases applyFillUpdate_cases lastPrice o with ⟨he, _⟩ | ⟨_, _, he⟩ | ⟨hd, _, _, _, _, he⟩
  · rw [he]
    exact h.settles
  · rw [he]
    exact h.congr rfl rfl rfl rfl
  · rw [he]
    exact settles_open (makeRightQuantity_conserves h.nonneg h.nonneg h.pending.1 h.canceled.1) hd

/-- A cancellation counts what is pending twice. -/
theorem Conserves.not_cancel (h : o.Conserves) (hd : o.isDone = false) : ¬ o.cancel.Conserves := by
  intro hcancel
  have hne : o.pendingQuantity ≠ 0 := fun he => by
    rw [h.isDone_iff.mpr he] at hd
    cases hd
  have hsum : o.filledQuantity + o.pendingQuantity + (o.quantity - o.filledQuantity) = o.quantity :=
    hcancel.sum
  exact hne (by linarith)

/-- The quantity that the arguments of a modification name. -/
def namedQuantity (args : Args ℚ) (o : VOrder ℚ) : ℚ :=
  ((args.get? "quantity").bind (·.asF64)).getD o.quantity

theorem modifyField_quantity (o : VOrder ℚ) (k : String) (v : Value ℚ) :
    (o.modifyField (k, v)).quantity = if k = "quantity" then v.asF64.getD o.quantity else o.quantity := by
  unfold modifyField
  split <;> simp_all

theorem modify_quantity (args : Args ℚ) (o : VOrder ℚ) :
    (o.modify args).quantity = namedQuantity args o := by
  have hlist : ∀ (l : List (String × Value ℚ)), (l.map Prod.fst).Nodup → ∀ o : VOrder ℚ,
      (l.foldl modifyField o).quantity =
        ((OrdMap.lookupEntry "quantity" l).bind (·.asF64)).getD o.quantity := by
    intro l
    induction l with
    | nil => exact fun _ _ => rfl
    | cons e l ih =>
        obtain ⟨k, v⟩ := e
        intro hn o
        obtain ⟨hk, hn⟩ := List.nodup_cons.mp hn
        rw [List.foldl_cons, ih hn, modifyField_quantity, OrdMap.lookupEntry]
        by_cases hq : k = "quantity"
        · subst hq
          have hnone : OrdMap.lookupEntry "quantity" l = none :=
            OrdMap.lookupEntry_eq_none fun e he heq => hk (List.mem_map.mpr ⟨e, he, heq⟩)
          simp [hnone]
        · rw [if_neg hq, if_neg (Ne.symm hq)]
  exact hlist args.entries args.keys_nodup o

/-- A modification keeps an order that adds up exactly when it keeps its quantity. -/
theorem Conserves.modify_iff (h : o.Conserves) (args : Args ℚ) :
    (o.modify args).Conserves ↔ namedQuantity args o = o.quantity := by
  obtain ⟨hf, hp, hc⟩ := modify_quantities args o
  rw [← modify_quantity]
  constructor
  · intro h'
    have hsum := h'.sum
    rw [hf, hp, hc, h.sum] at hsum
    exact hsum.symm
  · exact fun hq => (h.congr hq hf hp hc).conserves

end VOrder

end Omsrs.Replica
