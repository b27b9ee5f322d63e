import Omsrs.Basket.Strategy
import Omsrs.Basket.Theorems.Conversation

/-!
# A strategy interleaves sessions

Whatever is called on a strategy, each of its baskets goes through a session of its own: it makes of it,
and tells of its orders, what the calls that reach it would alone. So what the broker hears of each order
of each basket is one conversation.
-/

namespace Omsrs.Basket
open Omsrs.Lib

variable {W : Type} {L : Formats}

/-- What one basket replied. -/
def repliesOf (k : Nat) (replies : List (Nat × SessionReply)) : List SessionReply :=
  replies.filterMap fun e => if e.1 = k then some e.2 else none

/-- A basket as it came into the strategy: it was there, or the last of these calls brought it. -/
inductive BroughtIn (L : Formats) (s : Strategy W) : List (StrategyCall W) → Nat → Child W → Prop
  | there {k : Nat} {co : Child W} (h : s.orders[k]? = some co) : BroughtIn L s [] k co
  | ordered {k : Nat} {co : Child W} (es : List (StrategyCall W)) (orders : List (Child W))
      (h : orders[k]? = some co) : BroughtIn L s (es ++ [.withOrders orders]) k co.setClock
  | added (es : List (StrategyCall W)) (compound : Child W) :
      BroughtIn L s (es ++ [.add compound]) ((strategyMachine L).final s es).orders.length
        (((strategyMachine L).final s es).taking compound)

/-- The prices that a call brings to every basket. -/
def StrategyCall.prices : StrategyCall W → Option (OrdMap String ℚ)
  | .updateLtp lastPrice => some lastPrice
  | _ => none

/-! ## Replies of one basket -/

@[simp] theorem repliesOf_nil (k : Nat) : repliesOf k [] = [] := rfl

@[simp] theorem repliesOf_append (k : Nat) (rs rs' : List (Nat × SessionReply)) :
    repliesOf k (rs ++ rs') = repliesOf k rs ++ repliesOf k rs' := by simp [repliesOf]

theorem repliesOf_map (k n : Nat) (rs : List SessionReply) :
    repliesOf k (rs.map (Prod.mk n)) = if n = k then rs else [] := by
  by_cases h : n = k <;> simp [repliesOf, h]

theorem repliesOf_eq_nil {k : Nat} {rs : List (Nat × SessionReply)} (h : ∀ e ∈ rs, e.1 ≠ k) :
    repliesOf k rs = [] := by
  simpa [repliesOf] using h

/-! ## Programs -/

/-- Whatever the state of the basket, the call does not panic. -/
def Calm (L : Formats) (c : SessionCall) : Prop := ∀ s : Session, (s.step L c).1.panicked = false

/-- A program goes through its calls, or through those before a panic. -/
theorem work_calls (s : Session) (cs : List SessionCall) :
    ∃ done, s.work L cs = ((sessionMachine L).outputs s done, (sessionMachine L).final s done) ∧
      ((∀ c ∈ cs, Calm L c) → done = cs ∧ (s.work L cs).1.any (·.panicked) = false) := by
  induction cs generalizing s with
  | nil => exact ⟨[], rfl, fun _ => ⟨rfl, rfl⟩⟩
  | cons c cs ih =>
      obtain ⟨done, hwork, hall⟩ := ih (s.step L c).2
      by_cases hp : (s.step L c).1.panicked = true
      · refine ⟨[c], by simp [Session.work, hp, sessionMachine], fun h => ?_⟩
        rw [h c (by simp) s] at hp
        cases hp
      · refine ⟨c :: done, by simp [Session.work, hp, hwork, sessionMachine], fun h => ?_⟩
        obtain ⟨hdone, hnone⟩ := hall fun c' hc' => h c' (by simp [hc'])
        exact ⟨by rw [hdone], by simpa [Session.work, hp] using hnone⟩

/-- A basket after calls of its own, and what it replied to them. -/
def Worked (L : Formats) (co : Child W) (cs : List SessionCall) (rs : List SessionReply)
    (co' : Child W) : Prop :=
  co' = { co with session := (sessionMachine L).final co.session cs } ∧
    rs = (sessionMachine L).outputs co.session cs

theorem Worked.nil (co : Child W) : Worked L co [] [] co := ⟨rfl, rfl⟩

theorem Worked.append {co co₁ co₂ : Child W} {cs cs' : List SessionCall} {rs rs' : List SessionReply}
    (h : Worked L co cs rs co₁) (h' : Worked L co₁ cs' rs' co₂) :
    Worked L co (cs ++ cs') (rs ++ rs') co₂ := by
  obtain ⟨rfl, rfl⟩ := h
  obtain ⟨rfl, rfl⟩ := h'
  exact ⟨by rw [Machine.final_append], by rw [Machine.outputs_append]⟩

/-- Each basket in turn goes through calls of its own, all those of its program where none can panic. -/
theorem fanOut_worked (does : Nat → Child W → List SessionCall) (n : Nat) (cos : List (Child W)) :
    (fanOut L does n cos).2.length = cos.length ∧
      (∀ e ∈ (fanOut L does n cos).1, n ≤ e.1) ∧
      ∀ i co, cos[i]? = some co → ∃ cs co', (fanOut L does n cos).2[i]? = some co' ∧
        Worked L co cs (repliesOf (n + i) (fanOut L does n cos).1) co' ∧
        ((∀ k co, ∀ c ∈ does k co, Calm L c) → cs = does (n + i) co) := by
  induction cos generalizing n with
  | nil => simp [fanOut]
  | cons co cos ih =>
      obtain ⟨done, hwork, hall⟩ := work_calls (L := L) co.session (does n co)
      have hhead : Worked L co done (co.session.work L (does n co)).1
          { co with session := (co.session.work L (does n co)).2 } := by
        rw [hwork]
        exact ⟨rfl, rfl⟩
      by_cases hp : (co.session.work L (does n co)).1.any (·.panicked) = true
      · have hfan : fanOut L does n (co :: cos) =
            ((co.session.work L (does n co)).1.map (Prod.mk n),
              { co with session := (co.session.work L (does n co)).2 } :: cos) := by
          simp [fanOut, hp]
        have hpanic : ¬ ∀ k co, ∀ c ∈ does k co, Calm L c := by
          intro h
          rw [(hall (h n co)).2] at hp
          cases hp
        rw [hfan]
        refine ⟨by simp, fun e he => ?_, fun i co' hi => ?_⟩
        · obtain ⟨r, -, rfl⟩ := List.mem_map.mp he
          exact le_rfl
        · cases i with
          | zero =>
              cases hi
              exact ⟨done, _, rfl, by simpa [repliesOf_map] using hhead, fun h => absurd h hpanic⟩
          | succ i =>
              refine ⟨[], co', hi, ?_, fun h => absurd h hpanic⟩
              rw [repliesOf_map, if_neg (by omega)]
              exact .nil co'
      · obtain ⟨hlen, hfrom, hrest⟩ := ih (n + 1)
        have hfan : fanOut L does n (co :: cos) =
            ((co.session.work L (does n co)).1.map (Prod.mk n) ++ (fanOut L does (n + 1) cos).1,
              { co with session := (co.session.work L (does n co)).2 } :: (fanOut L does (n + 1) cos).2) := by
          simp [fanOut, hp]
        rw [hfan]
        refine ⟨by simp [hlen], fun e he => ?_, fun i co' hi => ?_⟩
        · rcases List.mem_append.mp he with he | he
          · obtain ⟨r, -, rfl⟩ := List.mem_map.mp he
            exact le_rfl
          · exact Nat.le_of_succ_le (hfrom e he)
        · rw [repliesOf_append, repliesOf_map]
          cases i with
          | zero =>
              cases hi
              have hlater : repliesOf (n + 0) (fanOut L does (n + 1) cos).1 = [] :=
                repliesOf_eq_nil fun e he => by have := hfrom e he; omega
              refine ⟨done, _, rfl, ?_, fun h => (hall (h n co)).1⟩
              rw [hlater, List.append_nil]
              simpa using hhead
          | succ i =>
              rw [if_neg (by omega), List.nil_append, show n + (i + 1) = n + 1 + i by omega]
              exact hrest i co' hi

/-! ## One call -/

/-- A call that brings no basket in: each basket goes through calls of its own, the prices among them. -/
structure Turned (L : Formats) (c : StrategyCall W) (cos : List (Child W))
    (replies : List (Nat × SessionReply)) (cos' : List (Child W)) : Prop where
  length : cos'.length = cos.length
  worked : ∀ k co, cos[k]? = some co → ∃ cs co', cos'[k]? = some co' ∧
    Worked L co cs (repliesOf k replies) co' ∧ ∀ p, c.prices = some p → cs = [.updateLtp p]

theorem Turned.fan {c : StrategyCall W} (s : Strategy W) (does : Nat → Child W → List SessionCall)
    (hc : ∀ p, c.prices = some p → ∀ k co, does k co = [.updateLtp p]) :
    Turned L c s.orders (s.fan L does).1 (s.fan L does).2.orders := by
  obtain ⟨hlen, -, hworked⟩ := fanOut_worked (L := L) does 0 s.orders
  refine ⟨hlen, fun k co hk => ?_⟩
  obtain ⟨cs, co', h', hw, hfull⟩ := hworked k co hk
  rw [Nat.zero_add] at hw hfull
  refine ⟨cs, co', h', hw, fun p hp => ?_⟩
  rw [hfull ?_, hc p hp]
  intro k co c' hc'
  rw [hc p hp k co, List.mem_singleton] at hc'
  subst hc'
  exact fun s => rfl

theorem Turned.idle {c : StrategyCall W} (cos : List (Child W)) (hc : c.prices = none) :
    Turned L c cos [] cos := by
  refine ⟨rfl, fun k co hk => ⟨[], co, hk, .nil co, fun p hp => ?_⟩⟩
  rw [hc] at hp
  cases hp

theorem Turned.single {c : StrategyCall W} {cos : List (Child W)} {n : Nat} {co : Child W}
    (hn : cos[n]? = some co) (hc : c.prices = none) (call : SessionCall) :
    Turned L c cos [(n, (co.session.step L call).1)]
      (cos.set n { co with session := (co.session.step L call).2 }) := by
  obtain ⟨hlt, -⟩ := List.getElem?_eq_some_iff.mp hn
  refine ⟨by simp, fun k co' hk => ?_⟩
  by_cases h : n = k
  · subst h
    rw [hn] at hk
    cases hk
    refine ⟨[call], { co with session := (co.session.step L call).2 }, by simp [hlt], ⟨rfl, ?_⟩,
      fun p hp => ?_⟩
    · simp [repliesOf, sessionMachine]
    · rw [hc] at hp
      cases hp
  · refine ⟨[], co', by rw [List.getElem?_set_ne h]; exact hk, ?_, fun p hp => ?_⟩
    · rw [repliesOf_eq_nil (by simpa using h)]
      exact .nil co'
    · rw [hc] at hp
      cases hp

/-- What the baskets replied in a run, which basket each. -/
def strategyReplies (L : Formats) (s : Strategy W) (es : List (StrategyCall W)) :
    List (Nat × SessionReply) :=
  ((strategyMachine L).outputs s es).flatMap (·.replies)

theorem strategyReplies_concat (s : Strategy W) (es : List (StrategyCall W)) (c : StrategyCall W) :
    strategyReplies L s (es ++ [c]) =
      strategyReplies L s es ++ ((strategyMachine L).step ((strategyMachine L).final s es) c).1.replies := by
  simp [strategyReplies, Machine.outputs_append]

/-- A basket came in after `pre` and went through these calls since. -/
structure Since (L : Formats) (s : Strategy W) (pre post : List (StrategyCall W)) (k : Nat)
    (co : Child W) (cs : List SessionCall) (co' : Child W) : Prop where
  broughtIn : BroughtIn L s pre k co
  worked : Worked L co cs (repliesOf k (strategyReplies L ((strategyMachine L).final s pre) post)) co'
  priced : ((post.filterMap StrategyCall.prices).map SessionCall.updateLtp).Sublist cs

theorem Since.now {s : Strategy W} {pre : List (StrategyCall W)} {k : Nat} {co : Child W}
    (h : BroughtIn L s pre k co) : Since L s pre [] k co [] co :=
  ⟨h, .nil co, .slnil⟩

/-- Another call, in which the basket goes through calls of its own. -/
theorem Since.later {s : Strategy W} {pre post : List (StrategyCall W)} {k : Nat} {co co₁ co' : Child W}
    {cs cs' : List SessionCall} (h : Since L s pre post k co cs co₁) (c : StrategyCall W)
    (hw : Worked L co₁ cs' (repliesOf k
      ((strategyMachine L).step ((strategyMachine L).final s (pre ++ post)) c).1.replies) co')
    (hp : ∀ p, c.prices = some p → cs' = [.updateLtp p]) :
    Since L s pre (post ++ [c]) k co (cs ++ cs') co' := by
  refine ⟨h.broughtIn, ?_, ?_⟩
  · rw [strategyReplies_concat, repliesOf_append, ← Machine.final_append]
    exact h.worked.append hw
  · rw [List.filterMap_append, List.map_append]
    refine h.priced.append ?_
    cases hc : c.prices with
    | none => simp [hc]
    | some p => simp [hc, hp p hc]

end Omsrs.Basket
