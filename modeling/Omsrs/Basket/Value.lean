import Mathlib.Algebra.Order.Ring.Int
import Mathlib.Algebra.Order.Ring.Rat
import Mathlib.Data.String.Basic
import Omsrs.Lib.OrdMap

/-!
# Dynamic values

The json values that orders are updated with and that brokers are given, the maps that name them, and
the texts and numbers they are read from. Integers are checked where the source would overflow.
-/

namespace Omsrs.Basket
open Omsrs.Lib

/-! ## Integers -/

/-- What stops a call. -/
inductive Panic
  | assertion
  | clamp
  | overflow
deriving DecidableEq, Repr

/-- The range of `i64`. -/
def InI64 (n : Int) : Prop := -2 ^ 63 ≤ n ∧ n < 2 ^ 63

instance (n : Int) : Decidable (InI64 n) := inferInstanceAs (Decidable (_ ∧ _))

def checkedI64 (n : Int) : Except Panic Int := if InI64 n then .ok n else .error .overflow

def absI64 (n : Int) : Except Panic Int := checkedI64 |n|

def clampI64 (n lo hi : Int) : Except Panic Int :=
  if hi < lo then .error .clamp else .ok (max lo (min n hi))

/-- The nearest value of `i64` to the integral part of a float. -/
def i64OfFloat (x : ℚ) : Int := max (-2 ^ 63) (min (2 ^ 63 - 1) (x.num.tdiv x.den))

/-- The float next to a whole number, of two as near the even one. -/
def f64OfInt (n : Int) : ℚ :=
  let k := n.natAbs.log2 - 52
  let q := n.natAbs / 2 ^ k
  let r := n.natAbs % 2 ^ k
  n.sign * ((if 2 ^ k < 2 * r ∨ 2 * r = 2 ^ k ∧ q % 2 = 1 then q + 1 else q) * 2 ^ k : Nat)

example : f64OfInt (2 ^ 53 + 1) = 2 ^ 53 ∧ f64OfInt (2 ^ 53 + 3) = 2 ^ 53 + 4 := by decide +kernel

def digits (cs : List Char) : Option Nat :=
  if cs.isEmpty then none
  else cs.foldlM (fun n c => if c.isDigit then some (10 * n + (c.toNat - '0'.toNat)) else none) 0

def i64OfText (s : String) : Option Int :=
  let n := match s.toList with
    | '-' :: cs => (digits cs).map fun n => -(n : Int)
    | '+' :: cs => (digits cs).map Int.ofNat
    | cs => (digits cs).map Int.ofNat
  n.filter fun n => decide (InI64 n)

/-! ## Texts -/

def asciiLower (s : String) : String := String.ofList (s.toList.map Char.toLower)

def eqIgnoreAsciiCase (s t : String) : Bool := decide (asciiLower s = asciiLower t)

/-! ## Values -/

inductive Number
  | int (n : Int)
  | float (x : ℚ)
deriving DecidableEq

inductive Value
  | null
  | bool (b : Bool)
  | number (n : Number)
  | string (s : String)
  | array (items : List Value)
  | object (members : List (String × Value))

namespace Value

def isNull : Value → Bool
  | .null => true
  | _ => false

def asI64 : Value → Option Int
  | .number (.int n) => if InI64 n then some n else none
  | _ => none

def asF64 : Value → Option ℚ
  | .number (.int n) => some (f64OfInt n)
  | .number (.float x) => some x
  | _ => none

def asStr : Value → Option String
  | .string s => some s
  | _ => none

def int (n : Int) : Value := .number (.int n)

theorem asI64_range {v : Value} {n : Int} (h : v.asI64 = some n) : InI64 n := by
  unfold asI64 at h
  split at h
  · split at h
    · cases h
      assumption
    · cases h
  · cases h

end Value

/-! ## Maps -/

/-- A map from names to values, in the order in which it happens to be walked. -/
structure Fields where
  entries : List (String × Value)
  distinct : (entries.map Prod.fst).Nodup

namespace Fields

def get? (m : Fields) (key : String) : Option Value := m.entries.lookup key

def contains (m : Fields) (key : String) : Bool := (m.get? key).isSome

end Fields

/-! ## Formats -/

/-- What the libraries make of texts and numbers. -/
structure Formats where
  toUppercase : String → String
  decimalOfText : String → Option ℚ
  decimalText : ℚ → String
  decimalOfFloat : ℚ → Option ℚ
  decimalFloat : ℚ → ℚ
  timeOfText : String → Option Int
  timeText : Int → String
  objectOfText : String → Option Fields
  valueText : Value → String
  /-- The float that the text of a float in an object is read as. -/
  jsonFloat : ℚ → ℚ
  /-- The number that a text is stored as in a column without a text type. -/
  numberOfText : String → Option Number

def decimalValue (L : Formats) (d : ℚ) : Value := .string (L.decimalText d)

def valueToDecimal (L : Formats) (v : Value) : Option ℚ :=
  match v.asStr with
  | some s => L.decimalOfText s
  | none =>
      match v.asF64 with
      | some x => L.decimalOfFloat x
      | none => v.asI64.map fun n => (n : ℚ)

end Omsrs.Basket
