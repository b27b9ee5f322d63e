import Mathlib.Algebra.Order.Ring.Cast
import Mathlib.Data.Int.Cast.Lemmas
import Mathlib.Tactic.Ring
import Omsrs.Basket.Aggregates
import Omsrs.Basket.Lemmas.Walk

/-!
# What baskets and strategies add up to

The aggregates of a basket agree with one another, do not depend on the order of its orders, and those of
a strategy are those of one basket with all its orders, as long as no quantity that is added up leaves
the range of its type.
-/

namespace Omsrs.Basket
open Omsrs.Lib

variable {L : Formats} {orders orders' : List Order}

/-! ## Trades -/

/-- The orders of a side that are filled at least in part. -/
def trades (side : String) (orders : List Order) : List Order :=
  orders.filter fun o => asciiLower o.side = side ∧ o.filledQuantity ≠ 0

def quantities (side : String) (orders : List Order) : List (String × Int) :=
  (trades side orders).map fun o => (o.symbol, o.filledQuantity)

/-- An order is on one of two sides, with a filled quantity that is not negative. -/
structure Order.Counts (o : Order) : Prop where
  side : asciiLower o.side = "buy" ∨ asciiLower o.side = "sell"
  filled : 0 ≤ o.filledQuantity

/-- Orders that count, of which no more is bought and no more sold of a symbol than a quantity holds. -/
structure Countable (orders : List Order) : Prop where
  counts : ∀ o ∈ orders, o.Counts
  bought : ∀ symbol, OrdMap.amount symbol (quantities "buy" orders) < 2 ^ 63
  sold : ∀ symbol, OrdMap.amount symbol (quantities "sell" orders) < 2 ^ 63

def signed (o : Order) : String × Int :=
  (o.symbol, if asciiLower o.side = "sell" then -o.filledQuantity else o.filledQuantity)

theorem eqIgnoreAsciiCase_sell (s : String) : eqIgnoreAsciiCase s "sell" = decide (asciiLower s = "sell") := by
  unfold eqIgnoreAsciiCase
  rw [show asciiLower "sell" = "sell" by decide]

theorem quantities_append (side : String) (l r : List Order) :
    quantities side (l ++ r) = quantities side l ++ quantities side r := by
  simp [quantities, trades]

theorem quantities_cons (side : String) (o : Order) (l : List Order) :
    quantities side (o :: l) = (if asciiLower o.side = side ∧ o.filledQuantity ≠ 0 then
      [(o.symbol, o.filledQuantity)] else []) ++ quantities side l := by
  by_cases h : asciiLower o.side = side ∧ o.filledQuantity ≠ 0
  · simp [quantities, trades, h]
  · rw [if_neg h]
    simp only [quantities, trades, List.filter_cons, h, decide_false, Bool.false_eq_true, if_false,
      List.nil_append]

theorem amount_quantities_nonneg (h : ∀ o ∈ orders, o.Counts) (side symbol : String) :
    0 ≤ OrdMap.amount symbol (quantities side orders) := by
  induction orders with
  | nil => exact le_rfl
  | cons o l ih =>
      have hrest := ih fun o' ho' => h o' (by simp [ho'])
      have hone : 0 ≤ OrdMap.amount symbol (if asciiLower o.side = side ∧ o.filledQuantity ≠ 0 then
          [(o.symbol, o.filledQuantity)] else []) := by
        split
        · rw [OrdMap.amount_cons, OrdMap.amount_nil, add_zero]
          split
          · exact (h o (by simp)).filled
          · exact le_rfl
        · exact le_rfl
      rw [quantities_cons, OrdMap.amount_append]
      exact add_nonneg hone hrest

/-- What is held of a symbol is what was bought less what was sold. -/
theorem amount_signed (h : ∀ o ∈ orders, o.Counts) (symbol : String) :
    OrdMap.amount symbol (orders.map signed) = OrdMap.amount symbol (quantities "buy" orders) -
      OrdMap.amount symbol (quantities "sell" orders) := by
  induction orders with
  | nil => rfl
  | cons o l ih =>
      have hrest := ih fun o' ho' => h o' (by simp [ho'])
      have hone : (if o.symbol = symbol then (signed o).2 else 0) =
          OrdMap.amount symbol (if asciiLower o.side = "buy" ∧ o.filledQuantity ≠ 0 then
            [(o.symbol, o.filledQuantity)] else []) -
          OrdMap.amount symbol (if asciiLower o.side = "sell" ∧ o.filledQuantity ≠ 0 then
            [(o.symbol, o.filledQuantity)] else []) := by
        by_cases hz : o.filledQuantity = 0
        · simp [signed, hz]
        · rcases (h o (by simp)).side with hside | hside
          · simp [signed, hside, hz, OrdMap.amount_cons]
          · simp only [signed, hside, hz, OrdMap.amount_cons, if_true, ne_eq, not_false_eq_true,
              and_true, OrdMap.amount_nil, add_zero, String.reduceEq, if_false, zero_sub]
            split <;> simp
      rw [List.map_cons, OrdMap.amount_cons, quantities_cons, quantities_cons, OrdMap.amount_append,
        OrdMap.amount_append, hrest]
      have hsymbol : (signed o).1 = o.symbol := rfl
      rw [hsymbol, hone]
      omega

theorem Countable.append_left (h : Countable (orders ++ orders')) : Countable orders := by
  have hcounts : ∀ o ∈ orders', o.Counts := fun o ho => h.counts o (List.mem_append_right _ ho)
  refine ⟨fun o ho => h.counts o (List.mem_append_left _ ho), fun symbol => ?_, fun symbol => ?_⟩
  · have hall := h.bought symbol
    have hrest := amount_quantities_nonneg hcounts "buy" symbol
    rw [quantities_append, OrdMap.amount_append] at hall
    omega
  · have hall := h.sold symbol
    have hrest := amount_quantities_nonneg hcounts "sell" symbol
    rw [quantities_append, OrdMap.amount_append] at hall
    omega

theorem Countable.perm (h : Countable orders) (hp : orders'.Perm orders) : Countable orders' := by
  have hsame : ∀ side symbol, OrdMap.amount symbol (quantities side orders') =
      OrdMap.amount symbol (quantities side orders) :=
    fun side symbol => OrdMap.amount_perm symbol ((hp.filter _).map _)
  refine ⟨fun o ho => h.counts o (hp.mem_iff.mp ho), fun symbol => ?_, fun symbol => ?_⟩
  · rw [hsame]
    exact h.bought symbol
  · rw [hsame]
    exact h.sold symbol

/-- What is held of a symbol is in range. -/
theorem Countable.held_range (h : Countable orders) (symbol : String) :
    InI64 (OrdMap.amount symbol (orders.map signed)) := by
  have hbuy := amount_quantities_nonneg h.counts "buy" symbol
  have hsell := amount_quantities_nonneg h.counts "sell" symbol
  have hbought := h.bought symbol
  have hsold := h.sold symbol
  rw [amount_signed h.counts]
  unfold InI64
  omega

/-- A single filled quantity is in range. -/
theorem Countable.one_range (h : Countable orders) {o : Order} (ho : o ∈ orders) :
    0 ≤ o.filledQuantity ∧ o.filledQuantity < 2 ^ 63 := by
  have hcounts := h.counts o ho
  refine ⟨hcounts.filled, ?_⟩
  obtain ⟨l, r, rfl⟩ := List.append_of_mem ho
  have hl := amount_quantities_nonneg (fun o' ho' => h.counts o' (List.mem_append_left _ ho'))
  have hcounts' : ∀ o' ∈ r, o'.Counts := fun o' ho' => h.counts o' (by simp [ho'])
  have hr := amount_quantities_nonneg hcounts'
  by_cases hz : o.filledQuantity = 0
  · rw [hz]
    decide
  · rcases hcounts.side with hside | hside
    · have hall := h.bought o.symbol
      have := hl "buy" o.symbol
      have := hr "buy" o.symbol
      rw [quantities_append, quantities_cons, OrdMap.amount_append, OrdMap.amount_append,
        if_pos ⟨hside, hz⟩, OrdMap.amount_cons, if_pos rfl, OrdMap.amount_nil] at hall
      omega
    · have hall := h.sold o.symbol
      have := hl "sell" o.symbol
      have := hr "sell" o.symbol
      rw [quantities_append, quantities_cons, OrdMap.amount_append, OrdMap.amount_append,
        if_pos ⟨hside, hz⟩, OrdMap.amount_cons, if_pos rfl, OrdMap.amount_nil] at hall
      omega

/-! ## What each fold adds -/

theorem addPosition_eq {o : Order} (h : 0 ≤ o.filledQuantity ∧ o.filledQuantity < 2 ^ 63)
    (out : OrdMap String Int) :
    addPosition out o = (checkedI64 (out.read (signed o).1 + (signed o).2)).map (out.insert (signed o).1) := by
  have hproduct : checkedI64 (o.filledQuantity * if eqIgnoreAsciiCase o.side "sell" then -1 else 1) =
      .ok (signed o).2 := by
    rw [eqIgnoreAsciiCase_sell]
    by_cases hside : asciiLower o.side = "sell"
    · simp only [hside, decide_true, if_true, signed, mul_neg, mul_one]
      exact if_pos ⟨by omega, by omega⟩
    · simp only [hside, decide_false, Bool.false_eq_true, if_false, signed, mul_one]
      exact if_pos ⟨by omega, by omega⟩
  unfold addPosition
  simp only [bind, Except.bind, hproduct]
  have hsymbol : (signed o).1 = o.symbol := rfl
  rw [hsymbol]
  cases checkedI64 (out.read o.symbol + (signed o).2) <;> rfl

/-- Positions add the signed quantities. -/
theorem positions_eq (h : Countable orders) :
    positions orders = .ok (OrdMap.empty.addAll (orders.map signed)) := by
  have hfold : ∀ (l : List Order) (out : OrdMap String Int), (∀ o ∈ l, o ∈ orders) →
      l.foldlM addPosition out = OrdMap.addAllM checkedI64 out (l.map signed) := by
    intro l
    induction l with
    | nil => exact fun _ _ => rfl
    | cons o l ih =>
        intro out hl
        unfold OrdMap.addAllM
        rw [List.foldlM_cons, List.map_cons, List.foldlM_cons, addPosition_eq (h.one_range (hl o (by simp)))]
        cases checkedI64 (out.read (signed o).1 + (signed o).2) with
        | error p => rfl
        | ok n => exact ih _ fun o' ho' => hl o' (by simp [ho'])
  refine (hfold orders .empty fun _ => id).trans (OrdMap.addAllM_ok fun pre k hp => ?_)
  obtain ⟨l, hl, rfl⟩ : ∃ l, l <+: orders ∧ pre = l.map signed := by
    refine ⟨orders.take pre.length, List.take_prefix .., ?_⟩
    rw [List.map_take]
    exact List.prefix_iff_eq_take.mp hp
  obtain ⟨r, rfl⟩ := hl
  rw [OrdMap.read_empty, zero_add]
  exact if_pos (h.append_left.held_range k)

/-- One more order adds its filled quantity to its side. -/
theorem addQuantity_eq {l : List Order} {o : Order} (h : Countable (l ++ [o])) :
    addQuantity (OrdMap.empty.addAll (quantities "buy" l)) (OrdMap.empty.addAll (quantities "sell" l)) o =
      .ok (OrdMap.empty.addAll (quantities "buy" (l ++ [o])),
        OrdMap.empty.addAll (quantities "sell" (l ++ [o]))) := by
  obtain ⟨hpos, hlt⟩ := h.one_range (o := o) (by simp)
  have habs : absI64 o.filledQuantity = .ok o.filledQuantity := by
    unfold absI64
    rw [abs_of_nonneg hpos]
    exact if_pos ⟨by omega, hlt⟩
  have hadded : ∀ side, asciiLower o.side = side → o.filledQuantity ≠ 0 →
      OrdMap.amount o.symbol (quantities side (l ++ [o])) < 2 ^ 63 →
      checkedI64 (((OrdMap.empty : OrdMap String Int).addAll (quantities side l)).read o.symbol +
        o.filledQuantity) = .ok (((OrdMap.empty : OrdMap String Int).addAll (quantities side l)).read
          o.symbol + o.filledQuantity) := by
    intro side hside hz hall
    have hprev := amount_quantities_nonneg h.append_left.counts side o.symbol
    rw [quantities_append, quantities_cons, if_pos ⟨hside, hz⟩, OrdMap.amount_append,
      OrdMap.amount_append, OrdMap.amount_cons, if_pos rfl, OrdMap.amount_nil] at hall
    have hnil : OrdMap.amount o.symbol (quantities side []) = 0 := rfl
    rw [hnil] at hall
    rw [OrdMap.read_addAll, OrdMap.read_empty]
    exact if_pos ⟨by omega, by omega⟩
  have hquantities : ∀ side, quantities side [o] = if asciiLower o.side = side ∧ o.filledQuantity ≠ 0 then
      [(o.symbol, o.filledQuantity)] else [] := fun side => by
    rw [quantities_cons]
    exact List.append_nil _
  unfold addQuantity
  simp only [bind, Except.bind, habs, pure, Except.pure, quantities_append, hquantities]
  by_cases hz : o.filledQuantity = 0
  · simp [hz]
  · rcases (h.counts o (by simp)).side with hside | hside
    · rw [if_neg hz, if_pos hside, hadded "buy" hside hz (h.bought _), if_pos ⟨hside, hz⟩,
        if_neg (by simp [hside]), List.append_nil, OrdMap.addAll_append]
      rfl
    · rw [if_neg hz, if_neg (by simp [hside]), if_pos hside, hadded "sell" hside hz (h.sold _),
        if_neg (by simp [hside]), if_pos ⟨hside, hz⟩, List.append_nil, OrdMap.addAll_append]
      rfl

/-- Both total quantities add what was filled on their side. -/
theorem totalQuantity_eq (h : Countable orders) :
    totalQuantity orders = .ok (OrdMap.empty.addAll (quantities "buy" orders),
      OrdMap.empty.addAll (quantities "sell" orders)) := by
  induction orders using List.reverseRecOn with
  | nil => rfl
  | append_singleton l o ih =>
      unfold totalQuantity at ih ⊢
      rw [List.foldlM_append, ih h.append_left]
      simp only [List.foldlM_cons, List.foldlM_nil, bind, Except.bind, addQuantity_eq h]
      rfl

/-- What was paid or received on a side. -/
def values (side : String) (orders : List Order) : List (String × ℚ) :=
  (trades side orders).map fun o => (o.symbol, o.averagePrice * o.filledQuantity)

theorem addTrade_eq (side : String) (o : Order) (value quantity : OrdMap String ℚ) :
    addTrade side (value, quantity) o = (value.addAll (values side [o]),
      quantity.addAll ((quantities side [o]).map fun e => (e.1, (e.2 : ℚ)))) := by
  by_cases h : asciiLower o.side = side ∧ o.filledQuantity ≠ 0
  · have hno : ¬ (asciiLower o.side ≠ side ∨ o.filledQuantity = 0) := by
      rintro (h' | h')
      · exact h' h.1
      · exact h.2 h'
    rw [addTrade, if_neg hno]
    simp only [values, quantities, trades, List.filter_cons, h, ne_eq, not_false_eq_true, and_self,
      decide_true, if_true, List.filter_nil, List.map_cons, List.map_nil]
    rfl
  · have hyes : asciiLower o.side ≠ side ∨ o.filledQuantity = 0 := by
      by_cases hside : asciiLower o.side = side
      · exact .inr (not_not.mp fun hz => h ⟨hside, hz⟩)
      · exact .inl hside
    rw [addTrade, if_pos hyes]
    simp only [values, quantities, trades, List.filter_cons, h, decide_false, Bool.false_eq_true,
      if_false, List.filter_nil, List.map_nil]
    rfl

theorem values_append (side : String) (l r : List Order) :
    values side (l ++ r) = values side l ++ values side r := by
  simp [values, trades]

theorem foldl_addTrade (side : String) (orders : List Order) :
    orders.foldl (addTrade side) (.empty, .empty) = (OrdMap.empty.addAll (values side orders),
      OrdMap.empty.addAll ((quantities side orders).map fun e => (e.1, (e.2 : ℚ)))) := by
  induction orders using List.reverseRecOn with
  | nil => rfl
  | append_singleton l o ih =>
      rw [List.foldl_append, ih, List.foldl_cons, List.foldl_nil, addTrade_eq, values_append,
        quantities_append, List.map_append, OrdMap.addAll_append, OrdMap.addAll_append]

theorem amount_quantities_pos (h : ∀ o ∈ orders, o.Counts) {side symbol : String}
    (hm : symbol ∈ (quantities side orders).map Prod.fst) :
    0 < OrdMap.amount symbol (quantities side orders) := by
  obtain ⟨e, he, rfl⟩ := List.mem_map.mp hm
  obtain ⟨o, ho, rfl⟩ := List.mem_map.mp he
  obtain ⟨hmem, hside⟩ := List.mem_filter.mp ho
  obtain ⟨hside, hz⟩ := of_decide_eq_true hside
  obtain ⟨l, r, rfl⟩ := List.append_of_mem hmem
  have hcounts : ∀ o' ∈ l, o'.Counts := fun o' ho' => h o' (by simp [ho'])
  have hcounts' : ∀ o' ∈ r, o'.Counts := fun o' ho' => h o' (by simp [ho'])
  have hl := amount_quantities_nonneg hcounts side o.symbol
  have hr := amount_quantities_nonneg hcounts' side o.symbol
  have hpos := (h o hmem).filled
  rw [quantities_append, quantities_cons, OrdMap.amount_append, OrdMap.amount_append, if_pos ⟨hside, hz⟩,
    OrdMap.amount_cons, if_pos rfl, OrdMap.amount_nil]
  dsimp only
  omega

theorem values_keys (side : String) (orders : List Order) :
    (values side orders).map Prod.fst = (quantities side orders).map Prod.fst := by
  simp [values, quantities, Function.comp_def]

theorem amount_cast (symbol : String) (l : List (String × Int)) :
    OrdMap.amount symbol (l.map fun e => (e.1, (e.2 : ℚ))) = ((OrdMap.amount symbol l : Int) : ℚ) :=
  OrdMap.amount_map (Int.castAddHom ℚ) symbol l

/-- The average price of a side times its quantity is what was paid or received. -/
theorem averagePrice_eq (h : ∀ o ∈ orders, o.Counts) (side symbol : String) :
    (averagePrice orders side).read symbol * ((OrdMap.amount symbol (quantities side orders) : Int) : ℚ) =
      OrdMap.amount symbol (values side orders) := by
  unfold averagePrice
  rw [foldl_addTrade]
  dsimp only
  generalize hv : (OrdMap.empty : OrdMap String ℚ).addAll (values side orders) = value
  generalize hq : (OrdMap.empty : OrdMap String ℚ).addAll
    ((quantities side orders).map fun e => (e.1, (e.2 : ℚ))) = quantity
  have hquantity : quantity.read symbol = ((OrdMap.amount symbol (quantities side orders) : Int) : ℚ) := by
    rw [← hq, OrdMap.read_addAll, OrdMap.read_empty, zero_add, amount_cast]
  have hvalue : value.read symbol = OrdMap.amount symbol (values side orders) := by
    rw [← hv, OrdMap.read_addAll, OrdMap.read_empty, zero_add]
  unfold OrdMap.read at hquantity hvalue ⊢
  rw [OrdMap.get?_insertAll_filterMap]
  by_cases hm : symbol ∈ (quantities side orders).map Prod.fst
  · have hpos : (0 : ℚ) < ((OrdMap.amount symbol (quantities side orders) : Int) : ℚ) :=
      Int.cast_pos.mpr (amount_quantities_pos h hm)
    have hsome : (value.get? symbol).isSome = true := by
      rw [← hv, OrdMap.get?_addAll_isSome, values_keys]
      exact .inr hm
    cases hget : value.get? symbol with
    | none =>
        rw [hget] at hsome
        cases hsome
    | some v =>
        rw [hget] at hvalue
        cases hget' : quantity.get? symbol with
        | none =>
            rw [hget', Option.getD_none] at hquantity
            rw [← hquantity] at hpos
            exact absurd hpos (lt_irrefl _)
        | some q =>
            rw [hget', Option.getD_some] at hquantity
            have havg : averageOf quantity symbol v = some (v / q) := by
              unfold averageOf
              rw [hget']
              exact if_pos (hquantity ▸ hpos)
            rw [Option.bind_some, havg, Option.getD_some, ← hvalue, Option.getD_some, ← hquantity]
            exact div_mul_cancel₀ v (hquantity ▸ hpos).ne'
  · have hzero : OrdMap.amount symbol (quantities side orders) = 0 := OrdMap.amount_eq_zero hm
    have hzero' : OrdMap.amount symbol (values side orders) = 0 :=
      OrdMap.amount_eq_zero (by rw [values_keys]; exact hm)
    rw [hzero, hzero', Int.cast_zero, mul_zero]

/-! ## Net value and mark to market -/

/-- What an order that is filled takes from or adds to the cash of its basket. -/
def netOf (o : Order) : Option (String × ℚ) :=
  if 0 < o.filledQuantity then
    some (o.symbol, o.filledQuantity * o.averagePrice * if asciiLower o.side = "sell" then -1 else 1)
  else none

theorem netValue_eq (orders : List Order) :
    netValue orders = OrdMap.empty.addAll (orders.filterMap netOf) := by
  refine OrdMap.foldl_addAt (fun m o => ?_) _ _
  rw [eqIgnoreAsciiCase_sell]
  unfold netOf
  by_cases hpos : 0 < o.filledQuantity
  · by_cases hside : asciiLower o.side = "sell" <;> simp [hpos, hside]
  · simp [hpos]

/-- The net value of a symbol is what was paid less what was received. -/
theorem amount_netOf (h : ∀ o ∈ orders, o.Counts) (symbol : String) :
    OrdMap.amount symbol (orders.filterMap netOf) = OrdMap.amount symbol (values "buy" orders) -
      OrdMap.amount symbol (values "sell" orders) := by
  induction orders using List.reverseRecOn with
  | nil => exact (sub_self _).symm
  | append_singleton l o ih =>
      have hrest := ih fun o' ho' => h o' (by simp [ho'])
      have hcounts := h o (by simp)
      have hone : OrdMap.amount symbol ([o].filterMap netOf) =
          OrdMap.amount symbol (values "buy" [o]) - OrdMap.amount symbol (values "sell" [o]) := by
        by_cases hz : o.filledQuantity = 0
        · simp [netOf, values, trades, hz]
        · have hpos : 0 < o.filledQuantity := lt_of_le_of_ne hcounts.filled (Ne.symm hz)
          rcases hcounts.side with hside | hside
          · simp [netOf, values, trades, hz, hpos, hside, OrdMap.amount_cons, mul_comm]
          · simp only [netOf, values, trades, List.filterMap_cons, hpos, hside, hz, OrdMap.amount_cons,
              List.filter_cons, if_true, mul_neg, mul_one, List.filterMap_nil, OrdMap.amount_nil,
              add_zero, String.reduceEq, false_and, decide_false, Bool.false_eq_true, if_false,
              List.filter_nil, List.map_nil, ne_eq, not_false_eq_true, and_self, decide_true,
              List.map_cons, zero_sub]
            split
            · rw [mul_comm]
            · rw [neg_zero]
      rw [List.filterMap_append, values_append, values_append, OrdMap.amount_append,
        OrdMap.amount_append, OrdMap.amount_append, hrest, hone]
      exact sub_add_sub_comm _ _ _ _

/-- The last price of a symbol. -/
def lastPrice (L : Formats) (ltp : OrdMap String ℚ) (symbol : String) : Option ℚ :=
  (ltp.get? symbol).bind L.decimalOfFloat

/-- The net value turned round. -/
def costs (orders : List Order) : List (String × ℚ) :=
  (netValue orders).entries.map fun e => (e.1, -e.2)

/-- Positions at their last prices. -/
def marks (L : Formats) (ltp : OrdMap String ℚ) (held : OrdMap String Int) : List (String × ℚ) :=
  held.entries.filterMap fun e => (lastPrice L ltp e.1).map fun d => (e.1, e.2 * d)

theorem mtm_eq (h : Countable orders) (ltp : OrdMap String ℚ) :
    mtm orders L ltp = .ok (OrdMap.empty.addAll
      (costs orders ++ marks L ltp (OrdMap.empty.addAll (orders.map signed)))) := by
  have hcosts : (netValue orders).entries.foldl (fun c e => c.insert e.1 (c.read e.1 - e.2))
      (OrdMap.empty : OrdMap String ℚ) = OrdMap.empty.addAll (costs orders) := by
    refine (OrdMap.foldl_addAt (f := fun e => some (e.1, -e.2)) (fun m e => ?_) _ _).trans ?_
    · show m.insert e.1 (m.read e.1 - e.2) = m.insert e.1 (m.read e.1 + -e.2)
      rw [sub_eq_add_neg]
    · rw [List.filterMap_eq_map']
      rfl
  have hmarks : ∀ (held : OrdMap String Int) (c : OrdMap String ℚ),
      held.entries.foldl (fun c e => addMark L ltp c e.1 e.2) c = c.addAll (marks L ltp held) := by
    intro held c
    refine OrdMap.foldl_addAt (fun m e => ?_) _ _
    unfold addMark lastPrice
    cases (ltp.get? e.1).bind L.decimalOfFloat <;> rfl
  unfold mtm
  rw [positions_eq h]
  simp only [bind, Except.bind, pure, Except.pure]
  rw [OrdMap.addAll_append, hcosts, hmarks]

theorem amount_costs (orders : List Order) (symbol : String) :
    OrdMap.amount symbol (costs orders) = -(netValue orders).read symbol := by
  unfold costs
  rw [← OrdMap.amount_entries]
  exact OrdMap.amount_map (negAddMonoidHom : ℚ →+ ℚ) symbol (netValue orders).entries

/-- What is held of a symbol at its last price. -/
theorem amount_marks (ltp : OrdMap String ℚ) (held : OrdMap String Int) (symbol : String) :
    OrdMap.amount symbol (marks L ltp held) =
      (lastPrice L ltp symbol).elim 0 fun d => (held.read symbol : ℚ) * d := by
  have hlist : ∀ l : List (String × Int), OrdMap.amount symbol
      (l.filterMap fun e => (lastPrice L ltp e.1).map fun d => (e.1, (e.2 : ℚ) * d)) =
        (lastPrice L ltp symbol).elim 0 fun d => ((OrdMap.amount symbol l : Int) : ℚ) * d := by
    intro l
    induction l with
    | nil => cases lastPrice L ltp symbol <;> simp
    | cons e l ih =>
        rw [OrdMap.amount_cons, List.filterMap_cons]
        by_cases hsymbol : e.1 = symbol
        · cases hlast : lastPrice L ltp symbol with
          | none =>
              rw [hlast] at ih
              simp only [hsymbol, hlast, Option.map_none, Option.elim_none] at ih ⊢
              exact ih
          | some d =>
              rw [hlast] at ih
              simp only [hsymbol, hlast, Option.map_some, Option.elim_some, OrdMap.amount_cons, if_true]
                at ih ⊢
              rw [ih]
              push_cast
              ring
        · cases lastPrice L ltp e.1 with
          | none => simpa [hsymbol] using ih
          | some d => simpa [hsymbol, OrdMap.amount_cons] using ih
  unfold marks
  rw [hlist, OrdMap.amount_entries]

/-! ## Books -/

/-- The aggregates of a basket agree with one another. -/
structure Book.Consistent (book : Book) (ltp : OrdMap String ℚ) : Prop where
  positions : ∀ symbol, book.positions.read symbol =
    book.buyQuantity.read symbol - book.sellQuantity.read symbol
  netValue : ∀ symbol, book.netValue.read symbol =
    book.averageBuyPrice.read symbol * (book.buyQuantity.read symbol : ℚ) -
      book.averageSellPrice.read symbol * (book.sellQuantity.read symbol : ℚ)
  mtm : ∀ symbol, book.mtm.read symbol = match ltp.get? symbol with
    | some x => (book.positions.read symbol : ℚ) * x - book.netValue.read symbol
    | none => -book.netValue.read symbol
  totalMtm : book.totalMtm = book.mtm.values.sum

/-- The book of orders that count. -/
def tallied (L : Formats) (orders : List Order) (ltp : OrdMap String ℚ) : Book :=
  let held := OrdMap.empty.addAll (orders.map signed)
  let c := OrdMap.empty.addAll (costs orders ++ marks L ltp held)
  { positions := held
    buyQuantity := OrdMap.empty.addAll (quantities "buy" orders)
    sellQuantity := OrdMap.empty.addAll (quantities "sell" orders)
    averageBuyPrice := averagePrice orders "buy"
    averageSellPrice := averagePrice orders "sell"
    netValue := netValue orders
    mtm := c
    totalMtm := c.values.sum }

theorem book_eq {b : CompoundOrder} (h : Countable b.orders) : b.book L = .ok (tallied L b.orders b.ltp) := by
  simp only [CompoundOrder.book, CompoundOrder.positions, CompoundOrder.buyQuantity,
    CompoundOrder.sellQuantity, CompoundOrder.mtm, CompoundOrder.totalMtm, totalMtm, positions_eq h,
    totalQuantity_eq h, mtm_eq h, bind, Except.bind, Except.map, pure, Except.pure]
  rfl

theorem asyncBook_eq {b : AsyncCompoundOrder} (h : Countable b.orders) :
    b.book L = .ok (tallied L b.orders b.ltp) := by
  simp only [AsyncCompoundOrder.book, AsyncCompoundOrder.positions, AsyncCompoundOrder.buyQuantity,
    AsyncCompoundOrder.sellQuantity, AsyncCompoundOrder.mtm, AsyncCompoundOrder.totalMtm, totalMtm,
    positions_eq h, totalQuantity_eq h, mtm_eq h, bind, Except.bind, Except.map, pure, Except.pure]
  rfl

theorem tallied_consistent (h : ∀ o ∈ orders, o.Counts) {ltp : OrdMap String ℚ}
    (hltp : ∀ symbol x, ltp.get? symbol = some x → L.decimalOfFloat x = some x) :
    (tallied L orders ltp).Consistent ltp := by
  have hnet : ∀ symbol, (netValue orders).read symbol =
      OrdMap.amount symbol (values "buy" orders) - OrdMap.amount symbol (values "sell" orders) := by
    intro symbol
    rw [netValue_eq, OrdMap.read_addAll, OrdMap.read_empty, zero_add, amount_netOf h]
  refine ⟨fun symbol => ?_, fun symbol => ?_, fun symbol => ?_, rfl⟩
  · simp only [tallied, OrdMap.read_addAll, OrdMap.read_empty, zero_add]
    exact amount_signed h symbol
  · simp only [tallied, OrdMap.read_addAll, OrdMap.read_empty, zero_add]
    rw [averagePrice_eq h, averagePrice_eq h]
    exact hnet symbol
  · simp only [tallied, OrdMap.read_addAll, OrdMap.read_empty, zero_add, OrdMap.amount_append,
      amount_costs, amount_marks, lastPrice]
    cases hget : ltp.get? symbol with
    | none => exact add_zero _
    | some x =>
        rw [Option.bind_some, hltp symbol x hget]
        exact neg_add_eq_sub _ _

theorem averagePrice_perm (hp : orders'.Perm orders) (side : String) :
    averagePrice orders' side = averagePrice orders side := by
  have hvalues : (values side orders').Perm (values side orders) := (hp.filter _).map _
  have hquantities : ((quantities side orders').map fun e => (e.1, (e.2 : ℚ))).Perm
      ((quantities side orders).map fun e => (e.1, (e.2 : ℚ))) := ((hp.filter _).map _).map _
  unfold averagePrice
  rw [foldl_addTrade, foldl_addTrade, OrdMap.addAll_perm _ hvalues, OrdMap.addAll_perm _ hquantities]

theorem tallied_perm (hp : orders'.Perm orders) (ltp : OrdMap String ℚ) :
    tallied L orders' ltp = tallied L orders ltp := by
  have hsigned := OrdMap.addAll_perm (OrdMap.empty : OrdMap String Int) (hp.map signed)
  have hquantities : ∀ side, (OrdMap.empty : OrdMap String Int).addAll (quantities side orders') =
      OrdMap.empty.addAll (quantities side orders) :=
    fun side => OrdMap.addAll_perm _ ((hp.filter _).map _)
  have hnet : netValue orders' = netValue orders := by
    rw [netValue_eq, netValue_eq]
    exact OrdMap.addAll_perm _ (hp.filterMap netOf)
  have hcosts : costs orders' = costs orders := by rw [costs, hnet, costs]
  simp only [tallied, hsigned, hquantities, averagePrice_perm hp, hnet, hcosts]

/-! ## Strategies -/

/-- The orders of all baskets of a strategy. -/
def OrderStrategy.allOrders (s : OrderStrategy) : List Order := s.orders.flatMap (·.orders)

theorem addPositions_eq {l : List Order} {r : List Order} (h : Countable (l ++ r)) :
    ((OrdMap.empty : OrdMap String Int).addAll (r.map signed)).entries.foldlM (fun out e => do
        let n ← checkedI64 (out.read e.1 + e.2)
        return out.insert e.1 n) ((OrdMap.empty : OrdMap String Int).addAll (l.map signed)) =
      (.ok (OrdMap.empty.addAll ((l ++ r).map signed)) : Except Panic _) := by
  have hstep : (fun (out : OrdMap String Int) (e : String × Int) => (do
      let n ← checkedI64 (out.read e.1 + e.2)
      return out.insert e.1 n : Except Panic (OrdMap String Int))) =
      fun out e => (checkedI64 (out.read e.1 + e.2)).map (out.insert e.1) := by
    funext out e
    cases checkedI64 (out.read e.1 + e.2) <;> rfl
  rw [hstep, List.map_append, OrdMap.addAll_append,
    ← OrdMap.addAll_entries ((OrdMap.empty : OrdMap String Int).addAll (l.map signed)) (r.map signed)]
  refine OrdMap.addAllM_ok fun pre k hp => ?_
  have hread : ∀ l' : List Order, ((OrdMap.empty : OrdMap String Int).addAll (l'.map signed)).read k =
      OrdMap.amount k (l'.map signed) := fun l' => by
    rw [OrdMap.read_addAll, OrdMap.read_empty, zero_add]
  rcases OrdMap.amount_prefix_entries hp k with hzero | hall
  · rw [hzero, add_zero, hread]
    exact if_pos (h.append_left.held_range k)
  · rw [hall, hread, hread, ← OrdMap.amount_append, ← List.map_append]
    exact if_pos (h.held_range k)

theorem strategy_positions_eq {s : OrderStrategy} (h : Countable s.allOrders) :
    s.positions = .ok (OrdMap.empty.addAll (s.allOrders.map signed)) := by
  obtain ⟨id, ltp, compounds⟩ := s
  simp only [OrderStrategy.allOrders, OrderStrategy.positions] at h ⊢
  induction compounds using List.reverseRecOn with
  | nil => rfl
  | append_singleton l co ih =>
      rw [List.flatMap_append, List.flatMap_singleton] at h ⊢
      have hco : Countable co.orders := (h.perm List.perm_append_comm).append_left
      rw [List.foldlM_append, ih h.append_left]
      have hheld : co.positions = .ok (OrdMap.empty.addAll (co.orders.map signed)) := positions_eq hco
      simp only [List.foldlM_cons, List.foldlM_nil, bind, Except.bind, hheld]
      have hadd := addPositions_eq h
      simp only [bind, Except.bind] at hadd
      rw [hadd]
      rfl

/-- What the mark to market of orders adds up. -/
def marked (L : Formats) (ltp : OrdMap String ℚ) (orders : List Order) : List (String × ℚ) :=
  costs orders ++ marks L ltp (OrdMap.empty.addAll (orders.map signed))

theorem amount_marked (ltp : OrdMap String ℚ) (orders : List Order) (symbol : String) :
    OrdMap.amount symbol (marked L ltp orders) = -OrdMap.amount symbol (orders.filterMap netOf) +
      (lastPrice L ltp symbol).elim 0 fun d => ((OrdMap.amount symbol (orders.map signed) : Int) : ℚ) * d := by
  rw [marked, OrdMap.amount_append, amount_costs, amount_marks, netValue_eq, OrdMap.read_addAll,
    OrdMap.read_empty, zero_add, OrdMap.read_addAll, OrdMap.read_empty, zero_add]

/-- A symbol is marked where an order of it is filled, or where it is held and has a last price. -/
theorem marked_keys (ltp : OrdMap String ℚ) (orders : List Order) (symbol : String) :
    symbol ∈ (marked L ltp orders).map Prod.fst ↔ symbol ∈ (orders.filterMap netOf).map Prod.fst ∨
      (lastPrice L ltp symbol).isSome = true ∧ symbol ∈ (orders.map signed).map Prod.fst := by
  have hkeys : ∀ {ν : Type} [AddCommMonoid ν] (l : List (String × ν)),
      symbol ∈ ((OrdMap.empty : OrdMap String ν).addAll l).entries.map Prod.fst ↔
        symbol ∈ l.map Prod.fst := by
    intro ν _ l
    refine OrdMap.mem_keys.trans ?_
    rw [← Option.isSome_iff_exists, OrdMap.get?_addAll_isSome]
    simp
  unfold marked
  rw [List.map_append, List.mem_append]
  refine or_congr ?_ ?_
  · rw [costs, netValue_eq, List.map_map]
    exact hkeys (orders.filterMap netOf)
  · rw [← hkeys (orders.map signed)]
    unfold marks
    generalize (OrdMap.empty : OrdMap String Int).addAll (orders.map signed) = held
    constructor
    · intro hm
      obtain ⟨e, he, rfl⟩ := List.mem_map.mp hm
      obtain ⟨e', he', hlast⟩ := List.mem_filterMap.mp he
      obtain ⟨d, hd, rfl⟩ := Option.map_eq_some_iff.mp hlast
      exact ⟨by rw [hd]; rfl, List.mem_map_of_mem he'⟩
    · rintro ⟨hlast, hm⟩
      obtain ⟨e, he, rfl⟩ := List.mem_map.mp hm
      obtain ⟨d, hd⟩ := Option.isSome_iff_exists.mp hlast
      exact List.mem_map.mpr ⟨(e.1, e.2 * d), List.mem_filterMap.mpr ⟨e, he, by rw [hd]; rfl⟩, rfl⟩

/-- Two baskets are marked as one that has the orders of both. -/
theorem marked_append (ltp : OrdMap String ℚ) (l r : List Order) :
    (OrdMap.empty : OrdMap String ℚ).addAll (marked L ltp l ++ marked L ltp r) =
      OrdMap.empty.addAll (marked L ltp (l ++ r)) := by
  refine OrdMap.ext_read (fun symbol => ?_) fun symbol => ?_
  · rw [OrdMap.get?_addAll_isSome, OrdMap.get?_addAll_isSome, List.map_append, List.mem_append,
      marked_keys, marked_keys, marked_keys, List.filterMap_append, List.map_append, List.map_append,
      List.map_append, List.mem_append, List.mem_append]
    tauto
  · rw [OrdMap.read_addAll, OrdMap.read_addAll, OrdMap.amount_append, amount_marked, amount_marked,
      amount_marked, List.filterMap_append, List.map_append, OrdMap.amount_append, OrdMap.amount_append]
    cases lastPrice L ltp symbol with
    | none =>
        simp only [Option.elim_none]
        ring
    | some d =>
        simp only [Option.elim_some]
        push_cast
        ring

theorem strategy_mtm_eq {s : OrderStrategy} {ltp : OrdMap String ℚ} (h : Countable s.allOrders)
    (hltp : ∀ co ∈ s.orders, co.ltp = ltp) :
    s.mtm L = .ok (OrdMap.empty.addAll (marked L ltp s.allOrders)) := by
  obtain ⟨id, ltp', compounds⟩ := s
  simp only [OrderStrategy.allOrders, OrderStrategy.mtm] at h hltp ⊢
  induction compounds using List.reverseRecOn with
  | nil =>
      refine congrArg Except.ok (OrdMap.ext_read (fun symbol => ?_) fun symbol => ?_)
      · rw [OrdMap.get?_addAll_isSome, List.flatMap_nil, marked_keys]
        simp
      · rw [OrdMap.read_addAll, List.flatMap_nil, amount_marked]
        cases lastPrice L ltp symbol <;> simp
  | append_singleton l co ih =>
      rw [List.flatMap_append, List.flatMap_singleton] at h ⊢
      have hco : Countable co.orders := (h.perm List.perm_append_comm).append_left
      rw [List.foldlM_append, ih h.append_left fun c hc => hltp c (by simp [hc])]
      have hmtm : co.mtm L = .ok (OrdMap.empty.addAll (marked L ltp co.orders)) := by
        rw [← hltp co (by simp)]
        exact mtm_eq hco co.ltp
      simp only [List.foldlM_cons, List.foldlM_nil, bind, Except.bind, hmtm, pure, Except.pure]
      rw [← marked_append, OrdMap.addAll_append, ← OrdMap.addAll_entries
        ((OrdMap.empty : OrdMap String ℚ).addAll (marked L ltp (l.flatMap (·.orders))))]
      rfl

/-! ## Baskets and strategies -/

/-- A basket has a book whose parts agree, and a basket with the same orders in another order and the same
last prices has the same book. -/
def Balanced {β : Type} (orders : β → List Order) (ltp : β → OrdMap String ℚ)
    (book : β → Except Panic Book) (b : β) : Prop :=
  ∃ tally, book b = .ok tally ∧ tally.Consistent (ltp b) ∧
    ∀ b', (orders b').Perm (orders b) → ltp b' = ltp b → book b' = .ok tally

/-- Where the last prices read as they are, baskets of either kind are balanced if their orders count, and
the positions and the mark to market of a strategy are those of a basket with all its orders. -/
theorem aggregates_consistent (L : Formats) (ltp : OrdMap String ℚ)
    (hltp : ∀ symbol x, ltp.get? symbol = some x → L.decimalOfFloat x = some x) :
    (∀ b : CompoundOrder, b.ltp = ltp → Countable b.orders →
        Balanced CompoundOrder.orders CompoundOrder.ltp (·.book L) b) ∧
      (∀ b : AsyncCompoundOrder, b.ltp = ltp → Countable b.orders →
        Balanced AsyncCompoundOrder.orders AsyncCompoundOrder.ltp (·.book L) b) ∧
      ∀ (s : OrderStrategy) (b : CompoundOrder), (∀ co ∈ s.orders, co.ltp = ltp) → b.ltp = ltp →
        b.orders = s.allOrders → Countable b.orders →
          s.positions = b.positions ∧ s.mtm L = b.mtm L ∧ s.totalMtm L = b.totalMtm L := by
  refine ⟨fun b hb hc => ?_, fun b hb hc => ?_, fun s b hs hb horders hc => ?_⟩
  · refine ⟨_, book_eq hc, tallied_consistent hc.counts (hb.symm ▸ hltp), fun b' hp hsame => ?_⟩
    dsimp only
    rw [book_eq (hc.perm hp), hsame, tallied_perm hp]
  · refine ⟨_, asyncBook_eq hc, tallied_consistent hc.counts (hb.symm ▸ hltp), fun b' hp hsame => ?_⟩
    dsimp only
    rw [asyncBook_eq (hc.perm hp), hsame, tallied_perm hp]
  · have hmtm : b.mtm L = .ok (OrdMap.empty.addAll (marked L ltp b.orders)) := by
      rw [← hb]
      exact mtm_eq hc b.ltp
    have hsmtm : s.mtm L = b.mtm L := by
      rw [hmtm, horders]
      exact strategy_mtm_eq (horders ▸ hc) hs
    refine ⟨?_, hsmtm, ?_⟩
    · rw [strategy_positions_eq (horders ▸ hc), ← horders]
      exact (positions_eq hc).symm
    · rw [OrderStrategy.totalMtm, hsmtm]
      rfl

namespace Sample

/-- An order that is filled. -/
def traded (side : String) (n : Int) : Order :=
  OrderInit.build
    { symbol := "aapl", side := side, quantity := n, filledQuantity := some n, averagePrice := some 10 }
    0 "a" 60

/-- Five bought and two sold. -/
def basket : CompoundOrder :=
  { CompoundOrder.new "b" with
    orders := [traded "Buy" 5, traded "sell" 2]
    ltp := OrdMap.empty.insert "aapl" 12 }

theorem basket_countable : Countable basket.orders := by
  refine ⟨?_, fun symbol => ?_, fun symbol => ?_⟩
  · have hbuy : (traded "Buy" 5).Counts := ⟨.inl (by decide), by decide⟩
    have hsell : (traded "sell" 2).Counts := ⟨.inr (by decide), by decide⟩
    simp [basket, hbuy, hsell]
  · have hbought : quantities "buy" basket.orders = [("aapl", 5)] := rfl
    rw [hbought, OrdMap.amount_cons, OrdMap.amount_nil]
    split <;> simp
  · have hsold : quantities "sell" basket.orders = [("aapl", 2)] := rfl
    rw [hsold, OrdMap.amount_cons, OrdMap.amount_nil]
    split <;> simp

/-- The greatest quantity, bought twice. -/
def heavy : CompoundOrder :=
  { CompoundOrder.new "b" with orders := [traded "buy" (2 ^ 63 - 1), traded "buy" (2 ^ 63 - 1)] }

end Sample

open Sample in
theorem aggregates_consistent_basket :
    Balanced CompoundOrder.orders CompoundOrder.ltp (·.book plain) basket :=
  (aggregates_consistent plain basket.ltp fun _ _ _ => rfl).1 basket rfl basket_countable

open Sample in
/-- The position of the symbol overflows. -/
theorem heavy_basket_unbalanced :
    ¬ ∀ (L : Formats) (b : CompoundOrder),
      (∀ symbol x, b.ltp.get? symbol = some x → L.decimalOfFloat x = some x) →
      (∀ o ∈ b.orders, o.Counts ∧ InI64 o.filledQuantity) →
        Balanced CompoundOrder.orders CompoundOrder.ltp (·.book L) b := by
  intro h
  have hcounts : (traded "buy" (2 ^ 63 - 1)).Counts := ⟨.inl (by decide), by decide⟩
  have hrange : InI64 (traded "buy" (2 ^ 63 - 1)).filledQuantity := by decide
  have hall : ∀ o ∈ heavy.orders, o.Counts ∧ InI64 o.filledQuantity := by
    intro o ho
    rcases List.mem_cons.mp ho with rfl | ho
    · exact ⟨hcounts, hrange⟩
    · rw [List.mem_singleton.mp ho]
      exact ⟨hcounts, hrange⟩
  obtain ⟨tally, hbook, -⟩ := h plain heavy (fun _ _ _ => rfl) hall
  have hpanics : heavy.book plain = .error .overflow := rfl
  have hbook' : heavy.book plain = .ok tally := hbook
  rw [hpanics] at hbook'
  cases hbook'

end Omsrs.Basket
