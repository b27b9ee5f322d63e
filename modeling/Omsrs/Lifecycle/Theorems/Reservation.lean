import Omsrs.Lifecycle.Lemmas.Steps

/-!
# The reservation ledger

A run releases the reservation at most once and takes it back at most once, and the state alone says
which of the two came last. Closing a submission releases without an effect, and only a submission
without any evidence from the venue is closed.
-/

namespace Omsrs.Lifecycle
open Omsrs.Lib

variable {P : Scope} {c d : OrderCtx} {log fx : List Effect}

/-! ## Which moves touch the reservation -/

theorem unreserved_idle {e : Effect} (h : e.isIdle = true) : e.isReservation = false := by
  cases e <;> first | rfl | cases h

theorem Completion.unreserved (h : Completion c fx d) : ∀ e ∈ fx, e.isReservation = false := by
  obtain ⟨f, prev, _, rfl, _⟩ := h
  unfold completeEffects
  split <;> simp [Effect.isReservation]

theorem Settles.unreserved {F : FillRecord → Prop} (h : Settles F c fx d) :
    ∀ e ∈ fx, e.isReservation = false := by
  cases h with
  | book f _ _ =>
      unfold bookEffects fillEffects
      split <;> simp [Effect.isReservation]
  | latch => simp [Effect.isReservation]

theorem Move.unreserved (h : Move P c fx d) : ∀ e ∈ fx, e.isReservation = false := by
  cases h with
  | idle he => simpa using unreserved_idle he
  | complete h => exact h.unreserved
  | settle h => exact h.unreserved
  | observeSettled _ _ hc hs =>
      intro e he
      rcases List.mem_cons.mp he with rfl | he
      · rfl
      · exact (List.mem_append.mp he).elim (hc.writes (fun h => Completion.unreserved h) e)
          (hs.unreserved e)
  | _ => simp [Effect.isReservation, observedEffect]

theorem Answer.unreserved (h : Answer c fx d) : ∀ e ∈ fx, e.isReservation = false := by
  cases h with
  | @empty _ _ _ _ _ _ jr _ => cases jr <;> simp [pushJournal, Effect.isReservation]
  | @counted _ _ _ _ _ _ _ _ jr _ _ _ =>
      cases jr <;> (unfold raiseEffects; split <;> split <;> simp [pushJournal, Effect.isReservation])

theorem Refused.unreserved {r : OrderEvent} {reason : HaltReason} (h : Refused c r reason fx d) :
    ∀ e ∈ fx, e.isReservation = false := by
  cases h with
  | conflict _ => simp [Effect.isReservation]
  | @excess _ _ _ _ _ _ jr _ _ _ _ => cases jr <;> simp [pushJournal, Effect.isReservation]

theorem Deeds.unreserved (h : Trail (Deed P) c fx d) : ∀ e ∈ fx, e.isReservation = false :=
  h.writes fun h => h.elim (fun h => Move.unreserved h) fun h => Answer.unreserved h

/-! ## Counting -/

def releases (fx : List Effect) : Nat := fx.count .releaseReservation

def reserves (fx : List Effect) : Nat := fx.count .reserveFull

/-- An outcome that enters, or stays in, a closed submission. -/
def entersClosed (out : TransitionOutcome) : Bool :=
  match out.newState with
  | some (.submissionClosed _) => true
  | _ => false

/-- Whether a run has entered a closed submission, as a count. -/
def closures (outs : List TransitionOutcome) : Nat := if outs.any entersClosed then 1 else 0

/-- The reservation is back with the account. -/
def isReleased (s : OrderState) : Nat := if reservationHeld s = .released then 1 else 0

theorem counts_unreserved (h : ∀ e ∈ fx, e.isReservation = false) :
    releases fx = 0 ∧ reserves fx = 0 := by
  refine ⟨List.count_eq_zero.mpr fun hmem => ?_, List.count_eq_zero.mpr fun hmem => ?_⟩
  · cases h _ hmem
  · cases h _ hmem

/-- What one step adds to the counts, and the state it leads to. -/
inductive Settlement (o : Order) (e : OrderEvent) (out : TransitionOutcome) (s : OrderState) : Prop
  | stays (hr : releases out.effects = 0) (hv : reserves out.effects = 0) (hs : s = o.state)
      (hc : entersClosed out = true → isRestartFrozen s = true)
      (hf : isRestartFrozen s = true → out.effects = [] ∨ ∃ f, e = .fill f)
  | opens (ho : isRestartFrozen o.state = false) (hr : releases out.effects = 0)
      (hv : reserves out.effects = 0) (hs : isRestartFrozen s = false) (hc : entersClosed out = false)
  | halts (ho : isReleased o.state = 0) (hr : releases out.effects = 0)
      (hv : reserves out.effects = 0) (hs : isHaltState s = true) (hc : entersClosed out = false)
      (hf : isRestartFrozen o.state = true → (∃ f, e = .fill f) ∧ ∃ reason, s = .halted reason)
  | releases (ho : isRestartFrozen o.state = false) (hr : releases out.effects = 1)
      (hv : reserves out.effects = 0) {k : TerminalKind} (hs : s = terminalState k)
      (hc : entersClosed out = false)
  | closes (ho : closesFrom o.state = true) (he : out.effects = [])
      {reason : SubmissionCloseReason} (hs : s = .submissionClosed reason)
      (hc : entersClosed out = true)
  | reserves (ho : isReleased o.state = 1) (hr : releases out.effects = 0)
      (hv : reserves out.effects = 1) {f : FillRecord} (he : e = .fill f) {reason : HaltReason}
      (hs : s = .halted reason) (hc : entersClosed out = false)

theorem Settlement.releases_le {o : Order} {e : OrderEvent} {out : TransitionOutcome}
    {s : OrderState} (h : Settlement o e out s) : Lifecycle.releases out.effects ≤ 1 := by
  cases h with
  | stays hr _ _ _ _ => omega
  | opens _ hr _ _ _ => omega
  | halts _ hr _ _ _ _ => omega
  | releases _ hr _ _ _ => omega
  | closes _ he _ _ => rw [he]; exact Nat.zero_le _
  | reserves _ hr _ _ _ _ => omega

theorem released_of_open {s : OrderState} (h : isRestartFrozen s = false) : isReleased s = 0 := by
  cases s <;> first | rfl | cases h

theorem counts_halt (hx : ∀ e ∈ fx, e.isReservation = false) (reason : HaltReason) :
    releases (haltWithReason reason fx).effects = 0 ∧
      reserves (haltWithReason reason fx).effects = 0 := by
  refine counts_unreserved fun e he => ?_
  rcases List.mem_append.mp he with he | he
  · exact hx e he
  · have : ∀ g ∈ [Effect.appendFsync (.halted reason), .haltNewExposure], g.isReservation = false := by
      simp [Effect.isReservation]
    exact this e he

theorem Stepped.settlement {o : Order} {e : OrderEvent} {out : TransitionOutcome}
    (h : Stepped P o e out d) : Settlement o e out (out.newState.getD o.state) := by
  cases h with
  | rejected reason => exact .stays rfl rfl rfl (fun h => by cases h) fun _ => .inl rfl
  | landed ho h =>
      cases h with
      | @accepted s fx _ hs ht _ =>
          obtain ⟨hr, hv⟩ := counts_unreserved (Deeds.unreserved ht)
          refine .opens ho hr hv hs ?_
          cases s <;> first | rfl | cases hs
      | halted ht reason =>
          obtain ⟨hr, hv⟩ := counts_halt (Deeds.unreserved ht) reason
          refine .halts (released_of_open ho) hr hv rfl rfl fun hf => ?_
          rw [ho] at hf
          cases hf
      | @released kind fx _ _ ht _ =>
          obtain ⟨hr, hv⟩ := counts_unreserved (Deeds.unreserved ht)
          refine .releases (k := kind) ho ?_ ?_ rfl ?_
          · simp only [TransitionOutcome.effects, Lifecycle.releases, List.count_append] at hr ⊢
            rw [hr]
            rfl
          · simp only [TransitionOutcome.effects, Lifecycle.reserves, List.count_append] at hv ⊢
            rw [hv]
            rfl
          · cases kind <;> rfl
  | refused ho h =>
      obtain ⟨hr, hv⟩ := counts_halt h.unreserved _
      refine .halts (released_of_open ho) hr hv rfl rfl fun hf => ?_
      rw [ho] at hf
      cases hf
  | @stranded s _ _ h =>
      obtain ⟨ho, _, hs⟩ := h.halts
      refine .halts (released_of_open ho) ?_ ?_ hs ?_ fun hf => ?_
      · simp [TransitionOutcome.effects, Lifecycle.releases]
      · simp [TransitionOutcome.effects, Lifecycle.reserves]
      · cases s <;> first | rfl | cases hs
      · rw [ho] at hf
        cases hf
  | closed reason hs _ => exact .closes hs rfl rfl rfl
  | @frozen fx _ ho he ht =>
      obtain ⟨hr, hv⟩ := counts_unreserved (ht.writes fun h => Completion.unreserved h)
      exact .stays hr hv rfl (fun _ => ho) fun _ => he.elim .inr fun he => .inl he.1
  | @thawed f reason fx _ ho he ht =>
      have hu := Deeds.unreserved (Moves.deeds ht)
      by_cases hrel : reservationHeld o.state = .released
      · have hfx : reserveIfReleased o.state fx = fx ++ [.reserveFull] := by
          simp [reserveIfReleased, hrel]
        obtain ⟨hr, hv⟩ := counts_unreserved hu
        refine .reserves (by simp [isReleased, hrel]) ?_ ?_ he rfl rfl
        · simp only [haltWithReason, TransitionOutcome.effects, hfx, Lifecycle.releases,
            List.count_append] at hr ⊢
          rw [hr]
          rfl
        · simp only [haltWithReason, TransitionOutcome.effects, hfx, Lifecycle.reserves,
            List.count_append] at hv ⊢
          rw [hv]
          rfl
      · have hfx : reserveIfReleased o.state fx = fx := by simp [reserveIfReleased, hrel]
        rw [hfx]
        obtain ⟨hr, hv⟩ := counts_halt hu reason
        exact .halts (by simp [isReleased, hrel]) hr hv rfl rfl fun _ => ⟨⟨f, he⟩, reason, rfl⟩

/-! ## The balance -/

/-- Releases and closures are matched by reserves, up to the one that the state still shows. Open
orders and those that may still be closed have settled nothing. -/
structure Balance (outs : List TransitionOutcome) (s : OrderState) : Prop where
  once : releases (outs.flatMap (·.effects)) + closures outs ≤ 1
  balance : releases (outs.flatMap (·.effects)) + closures outs =
    reserves (outs.flatMap (·.effects)) + isReleased s
  unsettled : isRestartFrozen s = false ∨ closesFrom s = true →
    releases (outs.flatMap (·.effects)) + closures outs = 0
  closed : ∀ reason, s = .submissionClosed reason → closures outs = 1

theorem closures_snoc (outs : List TransitionOutcome) (out : TransitionOutcome) :
    closures (outs ++ [out]) = if entersClosed out then 1 else closures outs := by
  simp only [closures, List.any_append, List.any_cons, List.any_nil, Bool.or_false]
  cases entersClosed out <;> simp

theorem releases_snoc (outs : List TransitionOutcome) (out : TransitionOutcome) :
    releases ((outs ++ [out]).flatMap (·.effects)) =
      releases (outs.flatMap (·.effects)) + releases out.effects := by
  simp [Lifecycle.releases]

theorem reserves_snoc (outs : List TransitionOutcome) (out : TransitionOutcome) :
    reserves ((outs ++ [out]).flatMap (·.effects)) =
      reserves (outs.flatMap (·.effects)) + reserves out.effects := by
  simp [Lifecycle.reserves]

/-- An outcome that enters a closed submission leads to one. -/
theorem closed_of_entersClosed {out : TransitionOutcome} {s : OrderState}
    (h : entersClosed out = true) :
    ∃ reason, out.newState.getD s = .submissionClosed reason := by
  unfold entersClosed at h
  split at h
  · rename_i reason he
    exact ⟨reason, by rw [he]; rfl⟩
  · cases h

theorem haltState_settled {s : OrderState} (h : isHaltState s = true) :
    isReleased s = 0 ∧ isRestartFrozen s = true ∧ ∀ reason, s ≠ .submissionClosed reason := by
  cases s <;> first | exact ⟨rfl, rfl, by simp⟩ | cases h

theorem Balance.step {outs : List TransitionOutcome} {o : Order} {e : OrderEvent}
    {out : TransitionOutcome} (hb : Balance outs o.state)
    (h : Settlement o e out (out.newState.getD o.state)) :
    Balance (outs ++ [out]) (out.newState.getD o.state) := by
  obtain ⟨honce, hbal, hun, hcl⟩ := hb
  cases h with
  | stays hr hv hs hc _ =>
      have hclosures : closures (outs ++ [out]) = closures outs := by
        rw [closures_snoc]
        split
        · rename_i hent
          obtain ⟨reason, he⟩ := closed_of_entersClosed (s := o.state) hent
          exact (hcl reason (hs ▸ he)).symm
        · rfl
      refine ⟨?_, ?_, ?_, ?_⟩
      all_goals simp only [releases_snoc, reserves_snoc, hclosures, hr, hv, hs, Nat.add_zero]
      · exact honce
      · exact hbal
      · exact hun
      · exact hcl
  | opens ho hr hv hs hc =>
      have hzero := hun (.inl ho)
      have hrel := released_of_open hs
      have hrelo := released_of_open ho
      refine ⟨?_, ?_, ?_, ?_⟩
      all_goals simp only [releases_snoc, reserves_snoc, closures_snoc, hc, hr, hv, Nat.add_zero,
        Bool.false_eq_true, if_false]
      · exact honce
      · omega
      · exact fun _ => hzero
      · intro reason he
        rw [he] at hs
        cases hs
  | halts ho hr hv hs hc hf =>
      obtain ⟨hrel, hfrozen, hne⟩ := haltState_settled hs
      refine ⟨?_, ?_, ?_, ?_⟩
      all_goals simp only [releases_snoc, reserves_snoc, closures_snoc, hc, hr, hv, Nat.add_zero,
        Bool.false_eq_true, if_false]
      · exact honce
      · omega
      · intro hq
        by_cases hopen : isRestartFrozen o.state = false
        · exact hun (.inl hopen)
        · -- a frozen order halts as `Halted`, from which nothing closes
          obtain ⟨_, reason, he⟩ := hf (by simpa using hopen)
          rw [he] at hq
          rcases hq with hq | hq <;> cases hq
      · exact fun reason he => absurd he (hne reason)
  | @releases ho hr hv kind hs hc =>
      have hzero := hun (.inl ho)
      have hrelo := released_of_open ho
      have hkind : isReleased (terminalState kind) = 1 ∧
          isRestartFrozen (terminalState kind) = true ∧ closesFrom (terminalState kind) = false ∧
          ∀ reason, terminalState kind ≠ .submissionClosed reason := by
        cases kind <;> exact ⟨rfl, rfl, rfl, by simp [terminalState]⟩
      obtain ⟨hrel, hfrozen, hclose, hne⟩ := hkind
      rw [hs]
      refine ⟨?_, ?_, ?_, ?_⟩
      all_goals simp only [releases_snoc, reserves_snoc, closures_snoc, hc, hr, hv,
        Bool.false_eq_true, if_false]
      · omega
      · omega
      · rw [hfrozen, hclose]
        simp
      · exact fun reason he => absurd he (hne reason)
  | @closes ho he reason hs hc =>
      have hzero := hun (.inr ho)
      have hrelo : isReleased o.state = 0 := by
        cases hst : o.state <;> first | rfl | (rw [hst] at ho; cases ho)
      have hcl0 : closures outs = 0 := by omega
      have hr0 : releases out.effects = 0 ∧ reserves out.effects = 0 := by rw [he]; exact ⟨rfl, rfl⟩
      rw [hs]
      have hrel : isReleased (.submissionClosed reason) = 1 := rfl
      refine ⟨?_, ?_, ?_, ?_⟩
      all_goals simp only [releases_snoc, reserves_snoc, closures_snoc, hc, if_true]
      · omega
      · omega
      · rintro (hq | hq) <;> cases hq
      · exact fun _ _ => trivial
  | @reserves ho hr hv f he reason hs hc =>
      rw [hs]
      have hrel : isReleased (.halted reason) = 0 := rfl
      refine ⟨?_, ?_, ?_, ?_⟩
      all_goals simp only [releases_snoc, reserves_snoc, closures_snoc, hc, hr, hv, Nat.add_zero,
        Bool.false_eq_true, if_false]
      · exact honce
      · omega
      · rintro (hq | hq) <;> cases hq
      · intro _ hq
        cases hq

/-! ## Evidence -/

/-- No venue is bound, no obligation raised, no fill booked. -/
structure Bare (c : OrderCtx) : Prop where
  venue : c.venueOrderId = none
  obligation : c.fillObligation = 0
  fills : c.appliedFills.isEmpty = true

theorem unevidenced_idle {e : Effect} (h : e.isIdle = true) : e.isEvidence = false := by
  cases e with
  | appendFsync r => cases r <;> first | rfl | cases h
  | _ => first | rfl | cases h

theorem insert_nonempty (m : OrdMap FillId FillPayload) (k : FillId) (p : FillPayload) :
    (m.insert k p).isEmpty = false := by
  cases h : (m.insert k p).isEmpty with
  | false => rfl
  | true =>
      have := OrdMap.get?_insert_self m k p
      rw [OrdMap.isEmpty_iff.mp h] at this
      cases this

/-- A move that ends bare began bare and wrote no evidence. -/
theorem Move.bare (h : Move P c fx d) (hd : Bare d) :
    Bare c ∧ ∀ e ∈ fx, e.isEvidence = false := by
  have hk := h.kept
  have hnone : ∀ v, c.venueOrderId ≠ some v := fun v hv => by
    have := hk.venue v hv
    rw [hd.venue] at this
    cases this
  have hvenue : c.venueOrderId = none := Option.eq_none_iff_forall_ne_some.mpr hnone
  have hobl : c.fillObligation = 0 := Nat.eq_zero_of_le_zero (hd.obligation ▸ hk.obligation)
  cases h with
  | idle he => exact ⟨hd, by simpa using unevidenced_idle he⟩
  | echo he _ _ => exact ⟨hd, by simpa using he⟩
  | invalidate => exact ⟨⟨hvenue, hobl, hd.fills⟩, by simp [Effect.isEvidence]⟩
  | bind _ _ => cases hd.venue
  | raise hlt _ =>
      have := (raisedCtx_obligation c _).symm.trans hd.obligation
      omega
  | complete hc =>
      obtain ⟨f, prev, _, _, rfl⟩ := hc
      cases (insert_nonempty c.appliedFills f.fillId _).symm.trans hd.fills
  | settle hs =>
      cases hs with
      | book f _ _ =>
          have := hd.fills
          rw [(bookedCtx_books c f).1, insert_nonempty] at this
          cases this
      | latch => exact ⟨⟨hvenue, hobl, hd.fills⟩, by simp [Effect.isEvidence]⟩
  | remaining _ => exact ⟨⟨hvenue, hobl, hd.fills⟩, by simp⟩
  | observe hs _ _ => exact absurd hs.venue (hnone _)
  | observeSettled hs _ _ _ => exact absurd hs.venue (hnone _)
  | observeRaise hs _ _ => exact absurd hs.venue (hnone _)
  | observeOver hs _ => exact absurd hs.venue (hnone _)

/-- A response leaves its order bound. -/
theorem Answer.bound (h : Answer c fx d) : d.venueOrderId ≠ none := by
  cases h with
  | empty hb =>
      intro hn
      cases (bindVenueId_bound hb).symm.trans hn
  | counted hb _ hr =>
      rw [recomputeResponseDomain_eq]
      intro hn
      have hv := bindVenueId_bound hb
      obtain ⟨_, ⟨_, rfl⟩ | ⟨_, rfl⟩⟩ := raiseFillObligation_ok hr
      · cases hv.symm.trans hn
      · have hn' : (raisedCtx _ _).venueOrderId = none := hn
        rw [raisedCtx_venue] at hn'
        cases hv.symm.trans hn'

theorem Act.bare (h : Act P c fx d) (hd : Bare d) :
    Bare c ∧ ∀ e ∈ fx, e.isEvidence = false := by
  cases h with
  | deed h => exact h.elim (fun h => h.bare hd) fun h => absurd hd.venue h.bound
  | refused h =>
      cases h with
      | conflict _ => exact ⟨hd, by simp [Effect.isEvidence]⟩
      | excess hb _ _ => cases (bindVenueId_bound hb).symm.trans hd.venue
  | release _ => exact ⟨hd, by simp [terminalEffects, Effect.isEvidence]⟩
  | reserve => exact ⟨hd, by simp [Effect.isEvidence]⟩
  | halt => exact ⟨hd, by simp [Effect.isEvidence]⟩

/-- A bare order with its whole history has written no evidence. -/
theorem run_bare (o : Order) (ho : OrderCoherent o) (es : List OrderEvent)
    (h : Bare (lifecycle.final o es).ctx) : ∀ e ∈ runEffects o es, e.isEvidence = false :=
  run_preserves (I := fun log c => Bare c → ∀ e ∈ log, e.isEvidence = false) (C := fun _ => True)
    (fun _ hlog _ hm hd e he => by
      obtain ⟨hc, hx⟩ := hm.bare hd
      exact (List.mem_append.mp he).elim (hlog hc e) (hx e))
    ho (by simp) (fun _ _ => trivial) h

theorem bare_of_closable (h : submissionCloseBlocked c = false) : Bare c := by
  simp only [submissionCloseBlocked, Bool.or_eq_false_iff, decide_eq_false_iff_not,
    Option.isSome_eq_false_iff, Option.isNone_iff_eq_none, Bool.not_eq_false'] at h
  exact ⟨by simp_all, by omega, by simp_all⟩

/-- Completing a known fill is impossible without fills. -/
theorem Completions.of_bare (h : Trail Completion c fx d) (hc : Bare c) : d = c := by
  cases h with
  | nil => rfl
  | cons hm _ =>
      obtain ⟨f, prev, hcomp, _, _⟩ := hm
      have := hcomp.known
      rw [OrdMap.isEmpty_iff.mp hc.fills] at this
      cases this

theorem Stepped.closedBare {o : Order} {e : OrderEvent} {out : TransitionOutcome}
    (h : Stepped P o e out d) (ho : ∀ reason, o.state = .submissionClosed reason → Bare o.ctx)
    (reason : SubmissionCloseReason) (hs : out.newState.getD o.state = .submissionClosed reason) :
    Bare d := by
  cases h with
  | rejected _ => exact ho reason hs
  | landed _ h =>
      cases h with
      | accepted hopen _ _ =>
          obtain rfl : _ = OrderState.submissionClosed reason := hs
          cases hopen
      | halted _ _ => cases hs
      | @released kind _ _ _ _ _ => cases kind <;> cases hs
  | refused _ _ => cases hs
  | @stranded s _ _ h =>
      obtain rfl : s = OrderState.submissionClosed reason := hs
      cases h.halts.2.2
  | closed _ _ hb => exact bare_of_closable hb
  | frozen _ _ ht =>
      have hbare := ho reason hs
      exact Completions.of_bare ht hbare ▸ hbare
  | thawed _ _ _ => cases hs

/-! ## Along a run -/

theorem step_settlement {o : Order} (ho : OrderCoherent o) (e : OrderEvent) :
    Settlement o e (lifecycle.step o e).1 (lifecycle.step o e).2.state :=
  (stepOrder_stepped ho e).settlement

theorem run_balance {o : Order} (ho : OrderCoherent o) (hb : Balance [] o.state)
    (hc : ∀ reason, o.state = .submissionClosed reason → Bare o.ctx) (es : List OrderEvent) :
    Balance (lifecycle.outputs o es) (lifecycle.final o es).state ∧
      ∀ reason, (lifecycle.final o es).state = .submissionClosed reason →
        Bare (lifecycle.final o es).ctx := by
  have hrun := lifecycle.history_induction
    (P := fun outs o => OrderCoherent o ∧ Balance outs o.state ∧
      ∀ reason, o.state = .submissionClosed reason → Bare o.ctx)
    (C := fun _ _ => True) (fun outs o e h _ => ?_) (w := []) ⟨ho, hb, hc⟩ (lifecycle.always_true o es)
  · exact hrun.2
  · obtain ⟨ho, hb, hc⟩ := h
    have hstep := stepOrder_stepped ho e
    exact ⟨stepOrder_coherent ho e, hb.step hstep.settlement, hstep.closedBare hc⟩

/-- What a frozen order can do: nothing, halt on a fill, or close when it is unmatched. -/
theorem frozen_step {o : Order} (ho : OrderCoherent o) (hf : isRestartFrozen o.state = true)
    (e : OrderEvent) :
    ((lifecycle.step o e).1.effects ≠ [] → ∃ f, e = .fill f) ∧
      ((lifecycle.step o e).2.state = o.state ∨
        (∃ f reason, e = .fill f ∧ (lifecycle.step o e).2.state = .halted reason) ∨
        (o.state = .unknownNoMatch ∧
          ∃ reason, (lifecycle.step o e).2.state = .submissionClosed reason)) := by
  have hs := step_settlement ho e
  cases hs with
  | stays _ _ hs _ hfill =>
      exact ⟨fun hne => (hfill (hs ▸ hf)).resolve_left hne, .inl hs⟩
  | opens ho' _ _ _ _ => rw [ho'] at hf; cases hf
  | halts _ _ _ _ _ hfill =>
      obtain ⟨⟨f, hf⟩, reason, hr⟩ := hfill hf
      exact ⟨fun _ => ⟨f, hf⟩, .inr (.inl ⟨f, reason, hf, hr⟩)⟩
  | releases ho' _ _ _ _ => rw [ho'] at hf; cases hf
  | @closes hclose he reason hs _ =>
      refine ⟨fun hne => absurd he hne, .inr (.inr ⟨?_, reason, hs⟩)⟩
      cases hst : o.state <;> rw [hst] at hclose hf <;>
        first | rfl | (cases hclose; done) | cases hf
  | @reserves _ _ _ f he reason hs _ =>
      exact ⟨fun _ => ⟨f, he⟩, .inr (.inl ⟨f, reason, he, hs⟩)⟩

theorem frozen_run {o : Order} (ho : OrderCoherent o) (hf : isRestartFrozen o.state = true)
    (es : List OrderEvent) : isRestartFrozen (lifecycle.final o es).state = true := by
  refine (lifecycle.invariant (I := fun o => OrderCoherent o ∧ isRestartFrozen o.state = true)
    (fun o e h => ⟨stepOrder_coherent h.1 e, ?_⟩) ⟨ho, hf⟩ es).2
  rcases (frozen_step h.1 h.2 e).2 with hs | ⟨f, reason, _, hs⟩ | ⟨_, reason, hs⟩ <;> rw [hs]
  · exact h.2
  · rfl
  · rfl

/-! ## The theorem -/

/-- Along every run the releases, the reserves and the closure balance with the state; a frozen order
stays frozen and answers a fill only; and a closed submission has met no evidence. -/
theorem reservation_balances (cid : ClientOrderId) (market strategy : String) (side : Side)
    (price qty : Nat) (es : List OrderEvent) :
    let o := Order.new cid market strategy side price qty
    let fx := runEffects o es
    let last := lifecycle.final o es
    releases fx ≤ 1 ∧ reserves fx ≤ 1 ∧
    (reservationHeld last.state = .released ↔
      ((releases fx : Int) + closures (lifecycle.outputs o es)) - reserves fx = 1) ∧
    (isRestartFrozen last.state = true →
      (∀ fs, isRestartFrozen (lifecycle.final o (es ++ fs)).state = true) ∧
      ∀ e, ((lifecycle.step last e).1.effects ≠ [] → ∃ f, e = .fill f) ∧
        ((lifecycle.step last e).2.state = last.state ∨
          (∃ f reason, e = .fill f ∧ (lifecycle.step last e).2.state = .halted reason) ∨
          (last.state = .unknownNoMatch ∧
            ∃ reason, (lifecycle.step last e).2.state = .submissionClosed reason))) ∧
    (∀ reason, last.state = .submissionClosed reason →
      last.ctx.appliedFills.isEmpty = true ∧ last.ctx.venueOrderId = none ∧
        last.ctx.fillObligation = 0 ∧ ∀ e ∈ fx, e.isEvidence = false) := by
  intro o fx last
  have ho : OrderCoherent o := orderCoherent_new cid market strategy side price qty
  have hlast : OrderCoherent last := run_coherent ho es
  obtain ⟨⟨honce, hbal, _, _⟩, hclosed⟩ := run_balance (o := o) ho
    ⟨Nat.zero_le _, rfl, fun _ => rfl, fun _ h => by cases h⟩ (fun _ h => by cases h) es
  have hfx : (lifecycle.outputs o es).flatMap (·.effects) = fx := rfl
  rw [hfx] at honce hbal
  have hrel : isReleased last.state ≤ 1 := by unfold isReleased; split <;> omega
  refine ⟨by omega, by omega, ?_, fun hf => ⟨fun fs => ?_, frozen_step hlast hf⟩, fun reason hr => ?_⟩
  · have hbal' : releases fx + closures (lifecycle.outputs o es) =
        reserves fx + isReleased last.state := hbal
    unfold isReleased at hbal'
    split at hbal' <;> rename_i h
    · exact ⟨fun _ => by omega, fun _ => h⟩
    · exact ⟨fun h' => absurd h' h, fun _ => by omega⟩
  · rw [lifecycle.final_append]
    exact frozen_run hlast hf fs
  · have hbare := hclosed reason hr
    exact ⟨hbare.fills, hbare.venue, hbare.obligation, run_bare o ho es hbare⟩

end Omsrs.Lifecycle
