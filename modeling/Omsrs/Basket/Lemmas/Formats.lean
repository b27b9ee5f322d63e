import Mathlib.Data.Rat.Encodable
import Mathlib.Logic.Encodable.Basic
import Mathlib.Logic.Equiv.List
import Omsrs.Basket.Lemmas.Walk

/-!
# What the libraries promise of texts and numbers

The times, prices and objects that come back as they were, told from the times, prices and objects alone.
-/

namespace Omsrs.Basket
open Omsrs.Lib

/-! ## Times -/

/-- A time, in nanoseconds, of the years from 0 to 9999. -/
def InYears (t : Int) : Prop := -62167219200 * 10 ^ 9 ≤ t ∧ t < 253402300800 * 10 ^ 9

instance (t : Int) : Decidable (InYears t) := inferInstanceAs (Decidable (_ ∧ _))

/-! ## Prices -/

/-- The decimals: less than `2 ^ 96` units of one of the first 28 places. -/
def IsDecimal (d : ℚ) : Prop := ∃ s ≤ 28, (d * 10 ^ s).den = 1 ∧ |(d * 10 ^ s).num| < 2 ^ 96

/-- The numbers that a float holds exactly. -/
def IsFloat (x : ℚ) : Prop :=
  ∃ m : Int, |m| < 2 ^ 53 ∧ ((∃ k ≤ 971, x = m * 2 ^ k) ∨ ∃ k ≤ 1074, x * 2 ^ k = m)

/-- The decimals that a float guarantees: whole, or less than `2 ^ 52` units of the last place. -/
def Short (d : ℚ) : Prop := d.den = 1 ∨ ∃ s ≤ 28, (d * 10 ^ s).den = 1 ∧ |(d * 10 ^ s).num| < 2 ^ 52

instance (d : ℚ) : Decidable (Short d) := inferInstanceAs (Decidable (_ ∨ _))

/-- The price is exact in a float and has too many digits for one. -/
example : ¬ Short (1 + 1 / 2 ^ 20) ∧ Short (1 + 1 / 2 ^ 10) := by decide +kernel

/-! ## Objects -/

mutual

/-- How deep arrays and objects are nested. -/
def Value.depth : Value → Nat
  | .array items => 1 + itemsDepth items
  | .object members => 1 + membersDepth members
  | _ => 0

def itemsDepth : List Value → Nat
  | [] => 0
  | v :: items => max v.depth (itemsDepth items)

def membersDepth : List (String × Value) → Nat
  | [] => 0
  | (_, v) :: members => max v.depth (membersDepth members)

end

mutual

/-- A value whose floats are read anew. -/
def Value.reread (f : ℚ → ℚ) : Value → Value
  | .number (.float x) => .number (.float (f x))
  | .array items => .array (rereadItems f items)
  | .object members => .object (rereadMembers f members)
  | v => v

def rereadItems (f : ℚ → ℚ) : List Value → List Value
  | [] => []
  | v :: items => v.reread f :: rereadItems f items

def rereadMembers (f : ℚ → ℚ) : List (String × Value) → List (String × Value)
  | [] => []
  | (key, v) :: members => (key, v.reread f) :: rereadMembers f members

end

mutual

/-- The floats in a value. -/
def Value.floats : Value → List ℚ
  | .number (.float x) => [x]
  | .array items => itemsFloats items
  | .object members => membersFloats members
  | _ => []

def itemsFloats : List Value → List ℚ
  | [] => []
  | v :: items => v.floats ++ itemsFloats items

def membersFloats : List (String × Value) → List ℚ
  | [] => []
  | (_, v) :: members => v.floats ++ membersFloats members

end

mutual

/-- A value comes back exactly where its floats do. -/
theorem Value.reread_eq_iff (f : ℚ → ℚ) (v : Value) : v.reread f = v ↔ ∀ x ∈ v.floats, f x = x := by
  cases v with
  | number n =>
      cases n with
      | int n => simp [Value.reread, Value.floats]
      | float x => simp [Value.reread, Value.floats]
  | array items =>
      simp only [Value.reread, Value.floats, Value.array.injEq]
      exact rereadItems_eq_iff f items
  | object members =>
      simp only [Value.reread, Value.floats, Value.object.injEq]
      exact rereadMembers_eq_iff f members
  | _ => simp [Value.reread, Value.floats]

theorem rereadItems_eq_iff (f : ℚ → ℚ) (items : List Value) :
    rereadItems f items = items ↔ ∀ x ∈ itemsFloats items, f x = x := by
  cases items with
  | nil => simp [rereadItems, itemsFloats]
  | cons v items =>
      simp only [rereadItems, itemsFloats, List.cons.injEq, List.forall_mem_append]
      exact and_congr (Value.reread_eq_iff f v) (rereadItems_eq_iff f items)

theorem rereadMembers_eq_iff (f : ℚ → ℚ) (members : List (String × Value)) :
    rereadMembers f members = members ↔ ∀ x ∈ membersFloats members, f x = x := by
  cases members with
  | nil => simp [rereadMembers, membersFloats]
  | cons e members =>
      obtain ⟨key, v⟩ := e
      simp only [rereadMembers, membersFloats, List.cons.injEq, List.forall_mem_append, Prod.mk.injEq,
        true_and]
      exact and_congr (Value.reread_eq_iff f v) (rereadMembers_eq_iff f members)

end

/-! ## The promises -/

/-- What the libraries document of their texts and numbers. -/
structure Formats.Lawful (L : Formats) : Prop where
  /-- The text of a time has four digits for the year, and is read to the nanosecond. -/
  time : ∀ t, L.timeOfText (L.timeText t) = if InYears t then some t else none
  /-- A decimal that is made of a float has no more digits than the float guarantees. -/
  cut : ∀ x d, L.decimalOfFloat x = some d → Short d
  /-- What a float holds exactly and guarantees comes back. -/
  exact : ∀ d, IsDecimal d → IsFloat d → Short d → L.decimalOfFloat (L.decimalFloat d) = some d
  /-- An object is read member by member, to a depth of 127. -/
  object : ∀ m : Fields, 1 + membersDepth m.entries ≤ 127 →
    ∃ m', L.objectOfText (L.valueText (.object m.entries)) = some m' ∧
      ∀ key, m'.get? key = (m.get? key).map (Value.reread L.jsonFloat)
  tooDeep : ∀ m : Fields, 127 < 1 + membersDepth m.entries →
    L.objectOfText (L.valueText (.object m.entries)) = none

/-! ## Formats that keep them -/

namespace Sample

abbrev Token := Nat ⊕ Int ⊕ ℚ ⊕ List Nat

def code (s : String) : List Nat := s.toList.map Char.toNat

@[simp] theorem code_inj {s t : String} : code s = code t ↔ s = t := by
  rw [code, code, List.map_inj_right fun _ _ => Char.toNat_inj.mp, String.toList_inj]

mutual

/-- A value as a list that can be read from the front. -/
def tokens : Value → List Token
  | .null => [.inl 0]
  | .bool b => [.inl (if b then 1 else 2)]
  | .number (.int n) => [.inr (.inl n)]
  | .number (.float x) => [.inr (.inr (.inl x))]
  | .string s => [.inr (.inr (.inr (code s)))]
  | .array items => .inl 3 :: itemsTokens items
  | .object members => .inl 4 :: membersTokens members

def itemsTokens : List Value → List Token
  | [] => [.inl 5]
  | v :: items => .inl 6 :: (tokens v ++ itemsTokens items)

def membersTokens : List (String × Value) → List Token
  | [] => [.inl 5]
  | (key, v) :: members => .inr (.inr (.inr (code key))) :: (tokens v ++ membersTokens members)

end

mutual

theorem tokens_inj {v w : Value} {r r' : List Token} (h : tokens v ++ r = tokens w ++ r') :
    v = w ∧ r = r' := by
  cases v with
  | number n => cases n <;> rcases w with _ | _ | (_ | _) | _ | _ | _ <;> simp_all [tokens]
  | array items =>
      rcases w with _ | b | (_ | _) | _ | items' | _
      all_goals simp only [tokens, List.cons_append, List.cons.injEq, reduceCtorEq, false_and] at h
      · simp at h
      · cases b <;> simp at h
      · obtain ⟨rfl, hr⟩ := itemsTokens_inj h.2
        exact ⟨rfl, hr⟩
      · simp at h
  | object members =>
      rcases w with _ | b | (_ | _) | _ | _ | members'
      all_goals simp only [tokens, List.cons_append, List.cons.injEq, reduceCtorEq, false_and] at h
      · simp at h
      · cases b <;> simp at h
      · simp at h
      · obtain ⟨rfl, hr⟩ := membersTokens_inj h.2
        exact ⟨rfl, hr⟩
  | bool b =>
      cases b
      all_goals
        rcases w with _ | b' | (_ | _) | _ | _ | _
        all_goals simp [tokens] at h ⊢
        all_goals cases b' <;> simp_all
  | _ =>
      rcases w with _ | b' | (_ | _) | _ | _ | _
      all_goals simp [tokens] at h ⊢
      all_goals first | exact h | (cases b' <;> simp_all)

theorem itemsTokens_inj {items items' : List Value} {r r' : List Token}
    (h : itemsTokens items ++ r = itemsTokens items' ++ r') : items = items' ∧ r = r' := by
  cases items with
  | nil =>
      cases items' with
      | nil => simpa [itemsTokens] using h
      | cons w items' => simp [itemsTokens] at h
  | cons v items =>
      cases items' with
      | nil => simp [itemsTokens] at h
      | cons w items' =>
          simp only [itemsTokens, List.cons_append, List.append_assoc, List.cons.injEq, true_and] at h
          obtain ⟨rfl, hrest⟩ := tokens_inj h
          obtain ⟨rfl, hr⟩ := itemsTokens_inj hrest
          exact ⟨rfl, hr⟩

theorem membersTokens_inj {members members' : List (String × Value)} {r r' : List Token}
    (h : membersTokens members ++ r = membersTokens members' ++ r') : members = members' ∧ r = r' := by
  cases members with
  | nil =>
      cases members' with
      | nil => simpa [membersTokens] using h
      | cons e members' => simp [membersTokens] at h
  | cons e members =>
      obtain ⟨key, v⟩ := e
      cases members' with
      | nil => simp [membersTokens] at h
      | cons e' members' =>
          obtain ⟨key', w⟩ := e'
          simp only [membersTokens, List.cons_append, List.append_assoc, List.cons.injEq, Sum.inr.injEq,
            code_inj] at h
          obtain ⟨rfl, hv⟩ := h
          obtain ⟨rfl, hrest⟩ := tokens_inj hv
          obtain ⟨rfl, hr⟩ := membersTokens_inj hrest
          exact ⟨rfl, hr⟩

end

/-- A text of a length. -/
def unary (n : Nat) : String := String.ofList (List.replicate n '1')

theorem unary_length (n : Nat) : (unary n).length = n := by simp [unary]

theorem unary_ne {n : Nat} {s : String} (h : '-' ∈ s.toList) : unary n ≠ s := by
  rintro rfl
  simp [unary] at h

/-- The text of two times as it is, of any other as a length. -/
def timeText (t : Int) : String :=
  if t = 0 then "1970-01-01T00:00:00+00:00"
  else if t = 2 then "1970-01-01T00:00:00.000000002+00:00"
  else unary (Encodable.encode t)

def timeOfText (s : String) : Option Int :=
  if s = "1970-01-01T00:00:00+00:00" then some 0
  else if s = "1970-01-01T00:00:00.000000002+00:00" then some 2
  else (Encodable.decode s.length).filter fun t => decide (InYears t)

def objectText (v : Value) : String := unary (Encodable.encode (tokens v))

theorem objectText_inj {v w : Value} (h : objectText v = objectText w) : v = w := by
  have hlen := congrArg String.length h
  simp only [objectText, unary_length] at hlen
  have htokens : tokens v ++ [] = tokens w ++ [] := by rw [Encodable.encode_injective hlen]
  exact (tokens_inj htokens).1

open Classical in
/-- The object with this text, if there is one that is not too deep. -/
noncomputable def objectOfText (s : String) : Option Fields :=
  if h : ∃ m : Fields, 1 + membersDepth m.entries ≤ 127 ∧ objectText (.object m.entries) = s then
    some h.choose
  else none

/-- Formats that keep the promises; floats come back, whole numbers are numbers. -/
noncomputable def reading : Formats :=
  { plain with
    decimalOfFloat := fun x => if Short x then some x else none
    timeText := timeText
    timeOfText := timeOfText
    objectOfText := objectOfText
    valueText := objectText
    numberOfText := fun s => (i64OfText s).map .int }

theorem reading_lawful : reading.Lawful where
  time t := by
    show timeOfText (timeText t) = _
    unfold timeText timeOfText
    by_cases h0 : t = 0
    · simp [h0, InYears]
    · by_cases h2 : t = 2
      · simp [h2, InYears]
      · rw [if_neg h0, if_neg h2, if_neg (unary_ne (by decide)), if_neg (unary_ne (by decide)),
          unary_length, Encodable.encodek]
        by_cases hy : InYears t <;> simp [Option.filter, hy]
  cut x d h := by
    simp only [reading] at h
    split at h
    · cases h
      assumption
    · cases h
  exact d _ _ hs := if_pos hs
  object m hm := by
    have hex : ∃ m' : Fields, 1 + membersDepth m'.entries ≤ 127 ∧
        objectText (.object m'.entries) = objectText (.object m.entries) := ⟨m, hm, rfl⟩
    refine ⟨hex.choose, dif_pos hex, fun key => ?_⟩
    have hsame : hex.choose.entries = m.entries := by
      have := objectText_inj hex.choose_spec.2
      simpa using this
    have hkeep : ∀ v : Value, v.reread reading.jsonFloat = v := fun v =>
      (Value.reread_eq_iff _ v).mpr fun _ _ => rfl
    rw [Fields.get?, Fields.get?, hsame, funext hkeep]
    exact Option.map_id'.symm
  tooDeep m hm := by
    refine dif_neg fun hex => ?_
    obtain ⟨m', hm', htext⟩ := hex
    have hsame : m'.entries = m.entries := by
      have := objectText_inj htext
      simpa using this
    rw [hsame] at hm'
    omega

end Sample

end Omsrs.Basket
