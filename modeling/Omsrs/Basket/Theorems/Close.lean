import Omsrs.Basket.Broker
import Omsrs.Lib.Tally

/-!
# Closing all positions

The orders that close positions undo them symbol by symbol, unless a row holds the least number there is,
which has no opposite.
-/

namespace Omsrs.Basket
open Omsrs.Lib

variable {keysToCopy : Option (List String)} {keysToAdd : Option Fields}
  {symbolTransformer : Option (String → String)}

/-! ## Rows -/

/-- The symbol and the quantity of a row that has both, and the quantity not zero. -/
def Fields.holding (row : Fields) : Option (String × Int) :=
  match (row.get? "symbol").bind (·.asStr), coerceQuantity (row.get? "quantity") with
  | some symbol, some quantity => if quantity = 0 then none else some (symbol, quantity)
  | _, _ => none

def transformed (symbolTransformer : Option (String → String)) (symbol : String) : String :=
  match symbolTransformer with
  | some f => f symbol
  | none => symbol

/-- An order closes a holding at the market. -/
structure Closes (symbolTransformer : Option (String → String)) (holding : String × Int)
    (args : OrdMap String Value) : Prop where
  quantity : args.get? "quantity" = some (.int |holding.2|)
  positive : 0 < |holding.2|
  side : args.get? "side" = some (.string (if 0 < holding.2 then "sell" else "buy"))
  symbol : args.get? "symbol" = some (.string (transformed symbolTransformer holding.1))
  orderType : args.get? "order_type" = some (.string "MARKET")

/-- The symbol and the signed quantity of an order that is placed. -/
def placedOf (args : OrdMap String Value) : Option (String × Int) :=
  match args.get? "symbol", args.get? "side", args.get? "quantity" with
  | some (.string symbol), some (.string "buy"), some (.number (.int n)) => some (symbol, n)
  | some (.string symbol), some (.string "sell"), some (.number (.int n)) => some (symbol, -n)
  | _, _, _ => none

/-- Nothing stops the call, each holding is closed by one order in the order of the rows, and the orders
of a symbol undo its holdings. -/
structure Flattens (rows : List Fields) (symbolTransformer : Option (String → String))
    (placed : List (OrdMap String Value)) (stopped : Option Panic) : Prop where
  quiet : stopped = none
  closes : List.Forall₂ (Closes symbolTransformer) (rows.filterMap Fields.holding) placed
  flat : ∀ symbol, OrdMap.amount symbol (placed.filterMap placedOf) =
    -OrdMap.amount symbol
      ((rows.filterMap Fields.holding).map fun h => (transformed symbolTransformer h.1, h.2))

/-! ## One row -/

theorem i64OfText_range {s : String} {n : Int} (h : i64OfText s = some n) : InI64 n :=
  of_decide_eq_true (Option.filter_eq_some_iff.mp h).2

theorem coerceQuantity_range {v : Option Value} {n : Int} (h : coerceQuantity v = some n) : InI64 n := by
  unfold coerceQuantity at h
  split at h
  · cases h
  · cases h
  · rename_i m
    cases hm : (Value.number m).asI64 with
    | some k =>
        rw [hm, Option.some_or] at h
        cases h
        exact Value.asI64_range hm
    | none =>
        rw [hm, Option.none_or] at h
        obtain ⟨x, -, rfl⟩ := Option.map_eq_some_iff.mp h
        unfold InI64 i64OfFloat
        omega
  · exact i64OfText_range h
  · cases h

/-- The fields of a row that are copied leave what the order is about. -/
theorem copiedKeys_static {position : Fields} {key : String} (hk : key ∈ staticKeys) :
    key ∉ (copiedKeys position keysToCopy).map Prod.fst := by
  intro hm
  obtain ⟨⟨key', v⟩, he, rfl⟩ := List.mem_map.mp hm
  obtain ⟨key'', -, hv⟩ := List.mem_filterMap.mp he
  split at hv
  · cases hv
  · rename_i hstatic
    split at hv
    · split at hv
      · cases hv
      · cases hv
        exact hstatic (List.contains_iff_mem.mpr hk)
    · cases hv

variable (keysToCopy keysToAdd symbolTransformer) in
/-- What is placed for a row: an order that closes its holding, or a panic where the holding has no
opposite. -/
theorem closeRow_cases (position : Fields) :
    match position.holding with
    | none => closeRow keysToCopy keysToAdd symbolTransformer position = .ok none
    | some holding =>
        if holding.2 = -2 ^ 63 then
          ∃ p, closeRow keysToCopy keysToAdd symbolTransformer position = .error p
        else ∃ args, closeRow keysToCopy keysToAdd symbolTransformer position = .ok (some args) ∧
          Closes symbolTransformer holding args := by
  unfold Fields.holding closeRow
  cases hquantity : coerceQuantity (position.get? "quantity") with
  | none =>
      cases (position.get? "symbol").bind (·.asStr) <;> rfl
  | some quantity =>
      cases hsymbol : (position.get? "symbol").bind (·.asStr) with
      | none =>
          dsimp only
          split <;> rfl
      | some symbolRaw =>
          dsimp only
          by_cases hz : quantity = 0
          · rw [if_pos hz, if_pos hz]
          · rw [if_neg hz, if_neg hz]
            have hrange := coerceQuantity_range hquantity
            unfold InI64 at hrange
            dsimp only
            by_cases hmin : quantity = -2 ^ 63
            · rw [if_pos hmin]
              have habs : absI64 quantity = .error .overflow := by
                unfold absI64 checkedI64
                rw [hmin]
                exact if_neg (by decide)
              rw [habs]
              exact ⟨.overflow, rfl⟩
            · rw [if_neg hmin]
              have hpos : 0 < |quantity| := abs_pos.mpr hz
              have habs : absI64 quantity = .ok |quantity| := by
                refine if_pos ⟨by omega, ?_⟩
                rcases le_or_gt 0 quantity with h | h
                · rw [abs_of_nonneg h]
                  exact hrange.2
                · rw [abs_of_neg h]
                  omega
              rw [habs]
              have held : ∀ key ∈ staticKeys, ∀ base : List (String × Value),
                  (((OrdMap.empty.insertAll ((keysToAdd.map Fields.entries).getD [])).insertAll
                    ((OrdMap.empty.insertAll base).insertAll (copiedKeys position keysToCopy)).entries).get?
                      key) = ((OrdMap.empty.insertAll base).get? key).or
                        ((OrdMap.empty.insertAll ((keysToAdd.map Fields.entries).getD [])).get? key) := by
                intro key hk base
                rw [OrdMap.get?_insertAll, OrdMap.insertAll_entries, OrdMap.get?_insertAll,
                  OrdMap.get?_insertAll_none.mpr (copiedKeys_static hk), Option.none_or]
              refine ⟨_, rfl, ?_, hpos, ?_, ?_, ?_⟩
              · rw [held "quantity" (by decide)]
                simp [OrdMap.get?_insert]
              · rw [held "side" (by decide)]
                simp [OrdMap.get?_insert]
              · rw [held "symbol" (by decide)]
                simp only [OrdMap.insertAll_cons, OrdMap.insertAll_nil]
                rw [OrdMap.get?_insert_ne _ _ (by decide), OrdMap.get?_insert_self]
                rfl
              · rw [held "order_type" (by decide)]
                simp

/-- An order that closes a holding counts against it. -/
theorem placedOf_closes {holding : String × Int} {args : OrdMap String Value}
    (h : Closes symbolTransformer holding args) :
    placedOf args = some (transformed symbolTransformer holding.1, -holding.2) := by
  unfold placedOf
  rw [h.symbol, h.side, h.quantity]
  by_cases hpos : 0 < holding.2
  · rw [if_pos hpos, abs_of_pos hpos]
    rfl
  · rw [if_neg hpos, abs_of_nonpos (not_lt.mp hpos)]
    rfl

/-! ## All rows -/

theorem closeRows_flattens {rows : List Fields}
    (h : ∀ row ∈ rows, ∀ holding, row.holding = some holding → holding.2 ≠ -2 ^ 63) :
    Flattens rows symbolTransformer (closeRows keysToCopy keysToAdd symbolTransformer rows).1
      (closeRows keysToCopy keysToAdd symbolTransformer rows).2 := by
  induction rows with
  | nil => exact ⟨rfl, .nil, fun _ => rfl⟩
  | cons row rows ih =>
      obtain ⟨hquiet, hcloses, hflat⟩ := ih fun r hr => h r (by simp [hr])
      have hrow := closeRow_cases keysToCopy keysToAdd symbolTransformer row
      have hhere := h row (by simp)
      rw [closeRows]
      cases hhold : row.holding with
      | none =>
          rw [hhold] at hrow
          dsimp only at hrow
          rw [hrow]
          have hskip : (row :: rows).filterMap Fields.holding = rows.filterMap Fields.holding := by
            rw [List.filterMap_cons, hhold]
          refine ⟨hquiet, ?_, fun symbol => ?_⟩
          · rw [hskip]
            exact hcloses
          · rw [hskip]
            exact hflat symbol
      | some holding =>
          rw [hhold] at hrow
          dsimp only at hrow
          rw [if_neg (hhere holding hhold)] at hrow
          obtain ⟨args, hplaced, hargs⟩ := hrow
          rw [hplaced]
          have hheld : (row :: rows).filterMap Fields.holding =
              holding :: rows.filterMap Fields.holding := by
            rw [List.filterMap_cons, hhold]
          refine ⟨hquiet, ?_, fun symbol => ?_⟩
          · rw [hheld]
            exact .cons hargs hcloses
          · have hrest := hflat symbol
            rw [hheld]
            simp only [Option.toList_some, List.singleton_append, List.filterMap_cons,
              placedOf_closes hargs, List.map_cons, OrdMap.amount_cons, hrest]
            split
            · omega
            · omega

theorem closeRows_stopped {rows : List Fields} {row : Fields} {holding : String × Int} (hr : row ∈ rows)
    (hh : row.holding = some holding) (hmin : holding.2 = -2 ^ 63) :
    (closeRows keysToCopy keysToAdd symbolTransformer rows).2 ≠ none := by
  induction rows with
  | nil => cases hr
  | cons row' rows ih =>
      rw [closeRows]
      rcases List.mem_cons.mp hr with rfl | hr
      · have hrow := closeRow_cases keysToCopy keysToAdd symbolTransformer row
        rw [hh] at hrow
        dsimp only at hrow
        rw [if_pos hmin] at hrow
        obtain ⟨p, hp⟩ := hrow
        rw [hp]
        exact nofun
      · cases closeRow keysToCopy keysToAdd symbolTransformer row' with
        | error p => exact nofun
        | ok placed => exact ih hr

/-- A row holds the least number of a symbol. -/
def Fields.Bottomless (row : Fields) : Prop :=
  ((row.get? "symbol").bind (·.asStr)).isSome = true ∧ coerceQuantity (row.get? "quantity") = some (-2 ^ 63)

theorem bottomless_iff (row : Fields) :
    row.Bottomless ↔ ∃ holding, row.holding = some holding ∧ holding.2 = -2 ^ 63 := by
  unfold Fields.Bottomless Fields.holding
  cases (row.get? "symbol").bind (·.asStr) with
  | none => simp
  | some symbol =>
      cases coerceQuantity (row.get? "quantity") with
      | none => simp
      | some quantity =>
          by_cases hz : quantity = 0
          · subst hz
            simp
          · simp [hz]

/-- Both brokers place the same, and it flattens what is held exactly when no row holds the least
number. -/
theorem close_flattens_iff (b : Broker) (a : AsyncBroker) (hsame : a.positions = b.positions)
    (positions : Option (List Fields)) (keysToCopy : Option (List String)) (keysToAdd : Option Fields)
    (symbolTransformer : Option (String → String)) :
    a.closeAllPositions positions keysToCopy keysToAdd symbolTransformer =
        b.closeAllPositions positions keysToCopy keysToAdd symbolTransformer ∧
      (Flattens (positions.getD b.positions) symbolTransformer
          (b.closeAllPositions positions keysToCopy keysToAdd symbolTransformer).1
          (b.closeAllPositions positions keysToCopy keysToAdd symbolTransformer).2 ↔
        ∀ row ∈ positions.getD b.positions, ¬ row.Bottomless) := by
  constructor
  · unfold AsyncBroker.closeAllPositions Broker.closeAllPositions
    rw [hsame]
    cases positions <;> rfl
  · constructor
    · intro h row hr hb
      obtain ⟨holding, hh, hmin⟩ := (bottomless_iff row).mp hb
      exact closeRows_stopped hr hh hmin h.quiet
    · intro h
      refine closeRows_flattens fun row hr holding hh hmin => ?_
      exact h row hr ((bottomless_iff row).mpr ⟨holding, hh, hmin⟩)

namespace Sample

/-- A row that holds a quantity of a symbol. -/
def holds (quantity : Int) : Fields :=
  ⟨[("symbol", .string "aapl"), ("quantity", .int quantity)], by simp⟩

def broker : Broker := ⟨[holds 5, holds (-3)]⟩

end Sample

open Sample in
theorem close_flattens_holdings :
    (AsyncBroker.mk broker.positions).closeAllPositions none (some ["symbol"]) none none =
        broker.closeAllPositions none (some ["symbol"]) none none ∧
      (Flattens broker.positions none (broker.closeAllPositions none (some ["symbol"]) none none).1
          (broker.closeAllPositions none (some ["symbol"]) none none).2 ↔
        ∀ row ∈ broker.positions, ¬ row.Bottomless) :=
  close_flattens_iff broker ⟨broker.positions⟩ rfl none (some ["symbol"]) none none

open Sample in
/-- The least number has no opposite. -/
theorem least_holding_panics :
    ¬ ∀ (b : Broker) (positions : Option (List Fields)) (keysToCopy : Option (List String))
      (keysToAdd : Option Fields) (symbolTransformer : Option (String → String)),
      Flattens (positions.getD b.positions) symbolTransformer
        (b.closeAllPositions positions keysToCopy keysToAdd symbolTransformer).1
        (b.closeAllPositions positions keysToCopy keysToAdd symbolTransformer).2 := by
  intro h
  have hquiet := (h broker (some [holds (-2 ^ 63)]) none none none).quiet
  exact absurd hquiet (by decide)

end Omsrs.Basket
