import Omsrs.Lifecycle.Lemmas.Marks
import Omsrs.Lifecycle.Lemmas.Onward

/-!
# One submission, no silent wait

An order is opened and sent at most once, whatever it is told afterwards: it only moves onward, and the
records of its opening stand at the head of its effects. Where it waits for evidence it has asked for
it, and where it halted it has said so.
-/

namespace Omsrs.Lifecycle
open Omsrs.Lib

variable {cid : ClientOrderId} {o : Order} {fx gx : List Effect}

/-! ## One step -/

/-- What stands between a new order and its effects so far. -/
inductive Opened (cid : ClientOrderId) : OrderState → List Effect → Prop
  | unopened : Opened cid .new []
  | prepared : Opened cid .submitPrepared [.appendFsync (.submitPrepared cid)]
  | sent (attempt : AttemptId) {s : OrderState} {rest : List Effect} (hs : 2 ≤ stage s)
      (hrest : Straight cid rest) :
      Opened cid s
        (.appendFsync (.submitPrepared cid) :: .appendFsync (.submitStarted attempt) :: rest)

/-- A reachable order, with its name. -/
structure Known (cid : ClientOrderId) (o : Order) : Prop where
  coherent : OrderCoherent o
  named : o.ctx.clientOrderId = cid

theorem Act.client {P : Scope} {c d : OrderCtx} (h : Act P c fx d) :
    d.clientOrderId = c.clientOrderId := by
  cases h with
  | deed h => exact h.elim (fun h => h.kept.client) fun h => h.client
  | refused h =>
      cases h with
      | conflict _ => rfl
      | excess hb _ _ => exact (bindVenueId_kept hb).client
  | release _ => rfl
  | reserve => rfl
  | halt _ => rfl

theorem Known.next (h : Known cid o) (e : OrderEvent) : Known cid (lifecycle.step o e).2 where
  coherent := stepOrder_coherent h.coherent e
  named := by
    have hacts := (stepOrder_stepped h.coherent e).acts
    exact (hacts.relates (P := fun (c d : OrderCtx) => d.clientOrderId = c.clientOrderId)
      (fun _ => rfl) (fun h h' => h'.trans h) fun h => h.client).trans h.named

theorem known_run (market strategy : String) (side : Side) (price qty : Nat) (es : List OrderEvent) :
    Known cid (lifecycle.final (.new cid market strategy side price qty) es) :=
  lifecycle.invariant (I := Known cid) (fun _ e h => h.next e) ⟨orderCoherent_new .., rfl⟩ es

theorem Known.proper (h : Known cid o) (hs : 2 ≤ stage o.state) (e : OrderEvent) :
    Proper cid o.state (lifecycle.step o e).1 :=
  applyEvent_proper h.coherent h.named hs e

@[simp] theorem step_state (o : Order) (e : OrderEvent) :
    (lifecycle.step o e).2.state = (lifecycle.step o e).1.newState.getD o.state := rfl

theorem Proper.stage_le {out : TransitionOutcome} {w : OrderState} (h : Proper cid w out) :
    stage w ≤ stage (out.newState.getD w) := by
  cases hn : out.newState with
  | none => simp
  | some s => simpa using h.onward s hn

/-- A step of an order that was not sent: it does nothing, or takes the one step there is. -/
theorem unsent_step (hs : stage o.state < 2) (e : OrderEvent) :
    (∃ reason, (lifecycle.step o e).1 = .reject reason) ∨
    (o.state = .new ∧ (lifecycle.step o e).1 =
      accept .submitPrepared [.appendFsync (.submitPrepared o.ctx.clientOrderId)]) ∨
    ∃ a, o.state = .submitPrepared ∧ (lifecycle.step o e).1 =
      accept (.submitStarted a) [.appendFsync (.submitStarted a)] := by
  obtain ⟨s, c⟩ := o
  cases s with
  | new =>
      cases e with
      | prepareSubmit => exact .inr (.inl ⟨rfl, rfl⟩)
      | _ => exact .inl ⟨_, rfl⟩
  | submitPrepared =>
      cases e with
      | startSubmit a => exact .inr (.inr ⟨a, rfl, rfl⟩)
      | _ => exact .inl ⟨_, rfl⟩
  | _ => simp [stage] at hs

/-- Every step keeps the opening at the head, and never writes it again. -/
theorem Opened.next (h : Opened cid o.state fx) (ho : Known cid o) (e : OrderEvent) :
    Opened cid (lifecycle.step o e).2.state (fx ++ (lifecycle.step o e).1.effects) := by
  rw [step_state]
  by_cases hs : stage o.state < 2
  · rcases unsent_step hs e with ⟨reason, hr⟩ | ⟨hw, hr⟩ | ⟨a, hw, hr⟩
    · simpa [hr, TransitionOutcome.newState, TransitionOutcome.effects] using h
    · rw [hw] at h
      cases h with
      | unopened =>
          simp only [hr, accept, TransitionOutcome.newState, TransitionOutcome.effects, ho.named]
          exact .prepared
      | sent _ hs => simp [stage] at hs
    · rw [hw] at h
      cases h with
      | prepared =>
          simp only [hr, accept, TransitionOutcome.newState, TransitionOutcome.effects]
          have hrest : Straight cid [] := straight_nil
          exact .sent a (by simp [stage]) hrest
      | sent _ hs => simp [stage] at hs
  · have hp := ho.proper (not_lt.mp hs) e
    generalize o.state = w at h hs hp
    cases h with
    | unopened => simp [stage] at hs
    | prepared => simp [stage] at hs
    | sent a hs' hrest =>
        exact .sent a (hs'.trans hp.stage_le) (straight_append.mpr ⟨hrest, hp.straight⟩)

theorem step_stage (ho : Known cid o) (e : OrderEvent) :
    stage o.state ≤ stage (lifecycle.step o e).2.state := by
  rw [step_state]
  by_cases hs : stage o.state < 2
  · rcases unsent_step hs e with ⟨reason, hr⟩ | ⟨hw, hr⟩ | ⟨a, hw, hr⟩
    · simp [hr, TransitionOutcome.newState]
    · simp [hr, hw, accept, TransitionOutcome.newState, stage]
    · simp [hr, hw, accept, TransitionOutcome.newState, stage]
  · exact (ho.proper (not_lt.mp hs) e).stage_le

/-! ## One submission -/

theorem run_stage (ho : Known cid o) (es : List OrderEvent) :
    stage o.state ≤ stage (lifecycle.final o es).state := by
  induction es generalizing o with
  | nil => exact le_rfl
  | cons e es ih => exact (step_stage ho e).trans (ih (ho.next e))

/-- Over every run an order only moves onward, its opening is written once, before anything else, and
all that follows is about this order. -/
theorem submitted_at_most_once (cid : ClientOrderId) (market strategy : String) (side : Side)
    (price qty : Nat) (es : List OrderEvent) :
    let o := Order.new cid market strategy side price qty
    Opened cid (lifecycle.final o es).state (runEffects o es) ∧
      ∀ pre, pre <+: es → stage (lifecycle.final o pre).state ≤ stage (lifecycle.final o es).state := by
  intro o
  constructor
  · have hrun := lifecycle.history_induction
      (P := fun ws o => Known cid o ∧ Opened cid o.state (ws.flatMap (·.effects)))
      (C := fun _ _ => True) (fun ws o e hP _ => ?_) (w := []) (s := o) ⟨known_run _ _ _ _ _ [], .unopened⟩
      (lifecycle.always_true o es)
    · exact hrun.2
    · refine ⟨hP.1.next e, ?_⟩
      simpa using hP.2.next hP.1 e
  · rintro pre ⟨post, rfl⟩
    rw [lifecycle.final_append]
    exact run_stage (known_run _ _ _ _ _ pre) post

/-! ## No silent wait, no silent halt -/

/-- A step that starts a wait asks for its evidence. -/
theorem wait_asks (ho : Known cid o) {e : OrderEvent} {a : Awaited} (hbefore : awaited o.state ≠ some a)
    (h : awaited (lifecycle.step o e).2.state = some a) :
    ∃ x ∈ (lifecycle.step o e).1.effects, a.asks cid x := by
  rw [step_state] at h
  by_cases hs : stage o.state < 2
  · rcases unsent_step hs e with ⟨reason, hr⟩ | ⟨hw, hr⟩ | ⟨_, hw, hr⟩
    · rw [hr] at h
      exact absurd h hbefore
    · simp [hr, accept, TransitionOutcome.newState, awaited] at h
    · simp [hr, accept, TransitionOutcome.newState, awaited] at h
  · cases hn : (lifecycle.step o e).1.newState with
    | none =>
        rw [hn] at h
        exact absurd h hbefore
    | some s =>
        rw [hn] at h
        exact (ho.proper (not_lt.mp hs) e).asked s a hn h hbefore

/-- A step into a halt, or from one into another, says so. -/
theorem halt_speaks (ho : Known cid o) {e : OrderEvent} {s : OrderState} (hbefore : o.state ≠ s)
    (hs : isHaltState s = true) (h : (lifecycle.step o e).2.state = s) :
    .haltNewExposure ∈ (lifecycle.step o e).1.effects ∧
      ∃ x ∈ (lifecycle.step o e).1.effects, isHaltedJournal x = true := by
  rw [step_state] at h
  by_cases hw : stage o.state < 2
  · rcases unsent_step hw e with ⟨reason, hr⟩ | ⟨_, hr⟩ | ⟨_, _, hr⟩
    · rw [hr] at h
      exact absurd h hbefore
    · rw [hr] at h
      subst h
      cases hs
    · rw [hr] at h
      subst h
      cases hs
  · cases hn : (lifecycle.step o e).1.newState with
    | none =>
        rw [hn] at h
        exact absurd h hbefore
    | some t =>
        rw [hn] at h
        obtain rfl : t = s := h
        exact (ho.proper (not_lt.mp hw) e).loud t hn hs (Ne.symm hbefore)

/-- Over every run: where the order waits for evidence, the step that began this wait asked for it, in
the name of this order; where it halted, the step that led to this halt recorded it and stopped new
exposure. In both cases the order has been so since that step. -/
theorem never_silent (cid : ClientOrderId) (market strategy : String) (side : Side) (price qty : Nat)
    (es : List OrderEvent) :
    let o := Order.new cid market strategy side price qty
    (∀ a, awaited (lifecycle.final o es).state = some a →
      ∃ pre e post, es = pre ++ e :: post ∧
        (∃ x ∈ (lifecycle.step (lifecycle.final o pre) e).1.effects, a.asks cid x) ∧
        ∀ mid, mid <+: post → awaited (lifecycle.final o (pre ++ e :: mid)).state = some a) ∧
    (isHaltState (lifecycle.final o es).state = true →
      ∃ pre e post, es = pre ++ e :: post ∧
        (.haltNewExposure ∈ (lifecycle.step (lifecycle.final o pre) e).1.effects ∧
          ∃ x ∈ (lifecycle.step (lifecycle.final o pre) e).1.effects, isHaltedJournal x = true) ∧
        ∀ mid, mid <+: post →
          (lifecycle.final o (pre ++ e :: mid)).state = (lifecycle.final o es).state) := by
  intro o
  have hstep : ∀ pre e, (lifecycle.step (lifecycle.final o pre) e).2 = lifecycle.final o (pre ++ [e]) :=
    fun pre e => by rw [lifecycle.final_append]; rfl
  constructor
  · intro a ha
    obtain ⟨pre, e, post, rfl, hpre, hpost⟩ :=
      lifecycle.last_entry (Q := fun p => awaited p.state = some a) (by simp [o, Order.new, awaited]) ha
    refine ⟨pre, e, post, rfl, wait_asks (known_run _ _ _ _ _ pre) hpre ?_, hpost⟩
    rw [hstep]
    exact hpost [] List.nil_prefix
  · intro hh
    obtain ⟨pre, e, post, hes, hpre, hpost⟩ :=
      lifecycle.last_entry (Q := fun p => p.state = (lifecycle.final o es).state) (s := o)
        (fun h => by rw [← h] at hh; cases hh) rfl
    refine ⟨pre, e, post, hes, halt_speaks (known_run _ _ _ _ _ pre) hpre hh ?_, hpost⟩
    rw [hstep]
    exact hpost [] List.nil_prefix

end Omsrs.Lifecycle
