import Omsrs.Basket.Lemmas.Session

/-!
# What a broker hears of an order

Whatever is called on a basket, in any order, its broker hears of each order a conversation of one form:
placements that it refuses, at most one that it takes, and from then on modifications and cancellations
of the order that it took. The modifications stay within the order's limit.
-/

namespace Omsrs.Basket
open Omsrs.Lib

variable {L : Formats} {own : Prop} {o o' : Order}

namespace Message

def toBroker : Message → Bool
  | .save .. => false
  | _ => true

def isModify : Message → Bool
  | .modify _ => true
  | _ => false

/-- A placement that the broker gave no id. -/
def refused : Message → Bool
  | .place _ none => true
  | _ => false

/-- A modification or a cancellation of the order with this id. -/
def Concerns (own : Prop) (oid : String) : Message → Prop
  | .modify args => own → args.get? "order_id" = some (.string oid)
  | .cancel args => args.get? "order_id" = some (.string oid)
  | _ => False

end Message

/-- What a broker hears of an order, from the id that the order had to the one that it has. -/
inductive Conversation (own : Prop) : Option String → List Message → Option String → Prop
  | unplaced {heard : List Message} (h : ∀ m ∈ heard, m.refused = true) : Conversation own none heard none
  | placed {refused later : List Message} {args : OrdMap String Value} {oid : String}
      (h : ∀ m ∈ refused, m.refused = true) (hl : ∀ m ∈ later, m.Concerns own oid) :
      Conversation own none (refused ++ .place args (some oid) :: later) (some oid)
  | known {later : List Message} {oid : String} (h : ∀ m ∈ later, m.Concerns own oid) :
      Conversation own (some oid) later (some oid)

namespace Conversation

variable {before : Option String} {heard : List Message}

/-- Another placement of an order without an id. -/
theorem place (h : Conversation own before heard none) (args : OrdMap String Value)
    (answer : Option String) : Conversation own before (heard ++ [.place args answer]) answer := by
  cases h with
  | unplaced h =>
      cases answer with
      | none =>
          refine .unplaced fun m hm => ?_
          rcases List.mem_append.mp hm with hm | hm
          · exact h m hm
          · rw [List.mem_singleton.mp hm]
            rfl
      | some oid => exact .placed h (by simp)

/-- Another message about the order that the broker knows. -/
theorem go {oid : String} (h : Conversation own before heard (some oid)) {m : Message}
    (hm : m.Concerns own oid) : Conversation own before (heard ++ [m]) (some oid) := by
  have hmore : ∀ {later : List Message}, (∀ m ∈ later, m.Concerns own oid) →
      ∀ m' ∈ later ++ [m], m'.Concerns own oid := by
    intro later hl m' hm'
    rcases List.mem_append.mp hm' with hm' | hm'
    · exact hl m' hm'
    · rw [List.mem_singleton.mp hm']
      exact hm
  cases h with
  | placed h hl =>
      rw [List.append_assoc, List.cons_append]
      exact .placed h (hmore hl)
  | known hl => exact .known (hmore hl)

theorem start (before : Option String) : Conversation own before [] before := by
  cases before with
  | none => exact .unplaced (by simp)
  | some oid => exact .known (by simp)

end Conversation

/-- A save is not heard by the broker, and is no modification. -/
theorem saveToDb_unheard (o : Order) :
    (o.saveToDb L).filter Message.toBroker = [] ∧ (o.saveToDb L).countP Message.isModify = 0 := by
  unfold Order.saveToDb
  split <;> exact ⟨rfl, rfl⟩

theorem sent_heard {m : Message} (hm : m.toBroker = true) (o : Order) :
    (m :: o.saveToDb L).filter Message.toBroker = [m] ∧
      (m :: o.saveToDb L).countP Message.isModify = if m.isModify then 1 else 0 := by
  rw [List.filter_cons_of_pos hm, List.countP_cons, (saveToDb_unheard o).1, (saveToDb_unheard o).2]
  exact ⟨rfl, Nat.zero_add _⟩

/-- How a course stands with the broker. -/
structure Heard (own : Prop) (o : Order) (told : List Message) (o' : Order) : Prop where
  talk : Conversation own o.orderId (told.filter Message.toBroker) o'.orderId
  counted : o'.numModifications = o.numModifications + (told.countP Message.isModify : Int)
  limit : o'.maxModifications = o.maxModifications
  bounded : (told.countP Message.isModify : Int) ≤ max 0 (o.maxModifications - o.numModifications)

theorem Moved.heard {told fx : List Message} {p : Order} (h : Heard own o told p)
    (hm : Moved L own p fx o') : Heard own o (told ++ fx) o' := by
  obtain ⟨htalk, hcount, hlimit, hbound⟩ := h
  cases hm with
  | written hs =>
      rw [List.append_nil]
      exact ⟨hs.orderId ▸ htalk, hs.numModifications.trans hcount, hs.maxModifications.trans hlimit, hbound⟩
  | relocked l =>
      rw [List.append_nil]
      exact ⟨htalk, hcount, hlimit, hbound⟩
  | placed args answer hid =>
      rw [hid] at htalk
      obtain ⟨hfilter, hno⟩ := sent_heard (L := L) (m := .place args answer) rfl { p with orderId := answer }
      refine ⟨?_, ?_, hlimit, ?_⟩
      · rw [List.filter_append, hfilter]
        exact htalk.place args answer
      · rw [List.countP_append, hno]
        exact hcount
      · rw [List.countP_append, hno]
        exact hbound
  | modified args hid hlt hown =>
      obtain ⟨hfilter, hone⟩ := sent_heard (L := L) (m := .modify args) rfl
        { p with numModifications := p.numModifications + 1 }
      have hone : List.countP Message.isModify (told ++ .modify args :: Order.saveToDb L
          { p with numModifications := p.numModifications + 1 }) =
            told.countP Message.isModify + 1 := by
        rw [List.countP_append, hone]
        rfl
      refine ⟨?_, ?_, hlimit, ?_⟩
      · rw [hid] at htalk
        rw [List.filter_append, hfilter]
        exact hid ▸ htalk.go (m := .modify args) hown
      · rw [hone]
        push_cast
        omega
      · rw [hone]
        push_cast
        omega
  | cancelled args hid hargs =>
      rw [hid] at htalk
      refine ⟨?_, by simpa [Message.isModify] using hcount, hlimit, by simpa [Message.isModify] using hbound⟩
      rw [List.filter_append]
      exact hid ▸ htalk.go (m := .cancel args) hargs
  | saved =>
      obtain ⟨hfilter, hno⟩ := saveToDb_unheard (L := L) o'
      refine ⟨?_, ?_, hlimit, ?_⟩
      · rwa [List.filter_append, hfilter, List.append_nil]
      · rwa [List.countP_append, hno, Nat.add_zero]
      · rwa [List.countP_append, hno, Nat.add_zero]

theorem Heard.start (o : Order) : Heard own o [] o := ⟨.start _, by simp, rfl, by simp⟩

theorem Course.heard {told : List Message} (h : Course L own o told o') : Heard own o told o' := by
  have := Trail.preserves (I := Heard own o) (fun h hm => hm.heard h) h (Heard.start o)
  simpa using this

/-- Over every run of calls on a basket, in any order: of each order, from where it came into the basket,
the broker hears a conversation, within the order's limit of modifications. Its modifications are of the
order that it took where no call of the run names another order id. -/
theorem broker_conversation (L : Formats) (s : Session) (es : List SessionCall)
    (i : Fin ((sessionMachine L).final s es).basket.orders.length) :
    let o' := ((sessionMachine L).final s es).basket.orders[i]
    ∃ o, CameIn L s es i o ∧
      Heard (∀ c ∈ es, c.spares) o (toldOf i (sessionLog L s es)) o' := by
  intro o'
  have hrun := run_carried (L := L) s (fun c hc (hown : ∀ c ∈ es, c.spares) => hown c hc)
  obtain ⟨o, hcame, hcourse⟩ := hrun.2 i _ (List.getElem?_eq_getElem i.isLt)
  exact ⟨o, hcame, hcourse.heard⟩

end Omsrs.Basket
