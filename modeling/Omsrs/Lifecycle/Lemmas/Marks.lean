import Omsrs.Lifecycle.Lemmas.Replay

/-!
# The marks a step leaves in the journal

A step binds its order to a venue order at most once. What it leaves over, it ends with one record; a
wait that is stranded is the exception.
-/

namespace Omsrs.Lifecycle
open Omsrs.Lib

/-! ## The marks of a trail -/

def marksOf (fx : List Effect) : List JournalRecord := (journalOf fx).filter (·.isMark)

/-- The marks on the way from `c` to `d`: none, or the one that bound the order. -/
inductive Binds (c : OrderCtx) : List JournalRecord → OrderCtx → Prop
  | same {d : OrderCtx} (h : d.venueOrderId = c.venueOrderId) : Binds c [] d
  | bound {d : OrderCtx} {v : VenueOrderId} (hc : c.venueOrderId = none)
      (hd : d.venueOrderId = some v) : Binds c [.venueBoundCid c.clientOrderId v] d

variable {P : Scope} {R : Prop} {c d e : OrderCtx} {fx gx : List Effect} {rs ss : List JournalRecord}

theorem marksOf_append (fx gx : List Effect) : marksOf (fx ++ gx) = marksOf fx ++ marksOf gx := by
  simp only [marksOf, journalOf_append, List.filter_append]

theorem Binds.venue_iff (h : Binds c rs d) (v : VenueOrderId) : d.venueOrderId = some v ↔
    c.venueOrderId = some v ∨ c.venueOrderId = none ∧ d.venueOrderId = some v := by
  cases h with
  | same h => rw [h]; exact ⟨.inl, fun h => h.elim id And.right⟩
  | bound hc _ => simp [hc]

/-- The marks stand between the same venue orders. -/
theorem Binds.congr {c' d' : OrderCtx} (h : Binds c rs d) (hcid : c'.clientOrderId = c.clientOrderId)
    (hc : c'.venueOrderId = c.venueOrderId) (hd : d'.venueOrderId = d.venueOrderId) : Binds c' rs d' := by
  cases h with
  | same h => exact .same (hd.trans (h.trans hc.symm))
  | bound hn hs =>
      rw [← hcid]
      exact .bound (hc.trans hn) (hd.trans hs)

theorem Binds.trans (h : Binds c rs d) (hcid : d.clientOrderId = c.clientOrderId)
    (h' : Binds d ss e) : Binds c (rs ++ ss) e := by
  cases h with
  | same h =>
      cases h' with
      | same h' => exact .same (h'.trans h)
      | bound hc hd =>
          rw [hcid]
          exact .bound (h.symm.trans hc) hd
  | bound hc hd =>
      cases h' with
      | same h' => exact .bound hc (h'.trans hd)
      | bound hc' _ =>
          rw [hd] at hc'
          cases hc'

theorem marksOf_idle {g : Effect} (h : g.isIdle = true) : marksOf [g] = [] := by
  cases g with
  | appendFsync r => cases r <;> first | rfl | cases h
  | _ => rfl

theorem marksOf_complete (f : FillRecord) (prev : FillPayload) : marksOf (completeEffects c f prev) = [] := by
  unfold completeEffects
  split <;> rfl

theorem Completion.binds (h : Completion c fx d) : Binds c (marksOf fx) d := by
  obtain ⟨f, prev, _, rfl, rfl⟩ := h
  rw [marksOf_complete]
  exact .same rfl

/-- Completing known fills marks nothing and binds nothing. -/
theorem Completions.unmarked (h : Trail Completion c fx d) :
    marksOf fx = [] ∧ d.venueOrderId = c.venueOrderId := by
  induction h with
  | nil => exact ⟨rfl, rfl⟩
  | cons hm _ ih =>
      obtain ⟨f, prev, _, rfl, rfl⟩ := hm
      rw [marksOf_append, marksOf_complete]
      exact ih

theorem Settles.binds {F : FillRecord → Prop} (h : Settles F c fx d) : Binds c (marksOf fx) d := by
  cases h with
  | book f hf h =>
      have hm : marksOf (bookEffects c f) = [] := by
        unfold bookEffects
        split <;> rfl
      rw [hm]
      obtain ⟨q, n, g, he⟩ :=
        accumulateResponseDomain_eq (bookedBase c f) f.qty f.priceCents f.feeCents f.tsNs
      rw [bookedCtx, he]
      exact .same rfl
  | latch => exact .same rfl

theorem bindVenueId_binds {v : VenueOrderId} {jr : Option JournalRecord}
    (h : bindVenueId c v = .ok (jr, d)) : Binds c (marksOf (pushJournal [] jr)) d := by
  rcases bindVenueId_ok h with ⟨_, rfl, rfl⟩ | ⟨hn, _, rfl, rfl⟩
  · exact .same rfl
  · exact .bound hn rfl

theorem raisedCtx_bound (c : OrderCtx) (n : Nat) : (raisedCtx c n).venueOrderId = c.venueOrderId := by
  unfold raisedCtx
  split <;> rfl

theorem marksOf_cons {g : Effect} (h : marksOf [g] = []) (fx : List Effect) :
    marksOf (g :: fx) = marksOf fx := by
  have := marksOf_append [g] fx
  rw [h] at this
  exact this

theorem Move.binds (h : Move P c fx d) : Binds c (marksOf fx) d := by
  cases h with
  | idle h =>
      rw [marksOf_idle h]
      exact .same rfl
  | @echo r _ hmark _ =>
      have hm : marksOf [.appendFsync r] = [] := by simp [marksOf, journalOf, Effect.journalRecord?, hmark]
      rw [hm]
      exact .same rfl
  | invalidate => exact .same rfl
  | bind hn _ => exact .bound hn rfl
  | raise _ _ => exact .same (raisedCtx_bound c _)
  | complete h => exact Completion.binds h
  | settle h => exact h.binds
  | remaining _ => exact .same rfl
  | observe _ _ _ => exact .same rfl
  | observeSettled _ _ hc hd =>
      obtain ⟨hm, hv⟩ := Completions.unmarked hc
      have hcid := (hc.relates Kept.refl Kept.trans fun h => Completion.kept h).client
      rw [marksOf_cons rfl, marksOf_append, hm, List.nil_append]
      exact hd.binds.congr hcid.symm hv.symm rfl
  | observeRaise _ _ _ => exact .same (raisedCtx_bound _ _)
  | observeOver _ _ => exact .same rfl

theorem Answer.binds (h : Answer c fx d) : Binds c (marksOf fx) d := by
  cases h with
  | empty hb =>
      rw [marksOf_cons rfl]
      exact (bindVenueId_binds hb).congr rfl rfl rfl
  | counted hb _ hr =>
      have hm : ∀ c d, marksOf (raiseEffects c d) = [] := fun c d => by
        unfold raiseEffects
        split <;> split <;> rfl
      rw [marksOf_cons rfl, marksOf_append, hm, List.append_nil, recomputeResponseDomain_eq]
      refine (bindVenueId_binds hb).congr rfl rfl ?_
      obtain ⟨_, ⟨_, rfl⟩ | ⟨_, rfl⟩⟩ := raiseFillObligation_ok hr
      · rfl
      · exact raisedCtx_bound _ _

theorem Answer.client (h : Answer c fx d) : d.clientOrderId = c.clientOrderId := by
  cases h with
  | empty hb => exact (bindVenueId_kept hb).client
  | counted hb _ hr =>
      rw [recomputeResponseDomain_eq]
      obtain ⟨_, ⟨_, rfl⟩ | ⟨hlt, rfl⟩⟩ := raiseFillObligation_ok hr
      · exact (bindVenueId_kept hb).client
      · exact (Kept.raised hlt).client.trans (bindVenueId_kept hb).client

/-- A trail marks a binding only. -/
theorem Deeds.binds (h : Trail (Deed P) c fx d) : Binds c (marksOf fx) d :=
  (h.preserves (I := fun log e => Binds c (marksOf log) e ∧ e.clientOrderId = c.clientOrderId) (l := [])
    (fun hi hm => by
      rw [marksOf_append]
      rcases hm with hm | hm
      · exact ⟨hi.1.trans hi.2 hm.binds, hm.kept.client.trans hi.2⟩
      · exact ⟨hi.1.trans hi.2 hm.binds, hm.client.trans hi.2⟩)
    ⟨.same rfl, rfl⟩).1

theorem Refused.binds {ev : OrderEvent} {reason : HaltReason} (h : Refused c ev reason fx d) :
    Binds c (marksOf fx) d := by
  cases h with
  | conflict _ => exact .same rfl
  | excess hb _ _ =>
      rw [marksOf_cons rfl]
      exact (bindVenueId_binds hb).congr rfl rfl rfl

/-! ## The marks of a step -/

/-- Records that say the order is over. -/
def JournalRecord.isEnd : JournalRecord → Bool
  | .orderTerminal .. | .halted _ => true
  | _ => false

/-- How a step marks the order it leads to the state `s`: the order stays as it is, it goes on, it is
ended by a record, it is stranded without one, or it is not bound. -/
inductive Marked (o : Order) (ev : OrderEvent) : List JournalRecord → OrderState → OrderCtx → Prop
  | stays {d : OrderCtx} (hv : d.venueOrderId = o.ctx.venueOrderId) : Marked o ev [] o.state d
  | goesOn {rs : List JournalRecord} {s : OrderState} {d : OrderCtx} (hb : Binds o.ctx rs d)
      (ho : isRestartFrozen o.state = false) (hs : isRestartFrozen s = false) : Marked o ev rs s d
  | ends {rs : List JournalRecord} {r : JournalRecord} {s : OrderState} {d : OrderCtx}
      (hb : Binds o.ctx rs d) (hr : r.isEnd = true)
      (hs : (∃ reason, s = .halted reason) ∨ ∃ kind, s = terminalState kind) :
      Marked o ev (rs ++ [r]) s d
  | stranded {v : VenueOrderId} {count remaining : Nat} {avg fee : Option Nat} 
      (hs : o.state = .immediateFillUnattributed v count remaining avg fee)
      (he : ev = .backfillDeadlineElapsed) : Marked o ev [] .immediateFillUnresolved o.ctx
  | unbound {s : OrderState} (hv : o.ctx.venueOrderId = none) : Marked o ev [] s o.ctx

theorem marked_halted {o : Order} {ev : OrderEvent} (hb : Binds o.ctx (marksOf fx) d)
    (reason : HaltReason) :
    Marked o ev (marksOf (haltWithReason reason fx).effects) (.halted reason) d := by
  simp only [haltWithReason, TransitionOutcome.effects, marksOf_append]
  exact .ends (r := .halted reason) hb rfl (.inl ⟨reason, rfl⟩)

theorem Stepped.marked {o : Order} {ev : OrderEvent} {out : TransitionOutcome}
    (h : Stepped P o ev out d) (ho : OrderCoherent o) :
    Marked o ev (marksOf out.effects) (out.newState.getD o.state) d := by
  cases h with
  | rejected _ => exact .stays rfl
  | landed ho h =>
      cases h with
      | accepted hs ht _ => exact .goesOn (Deeds.binds ht) ho hs
      | halted ht reason => exact marked_halted (Deeds.binds ht) reason
      | @released kind _ _ _ ht _ =>
          simp only [TransitionOutcome.effects, marksOf_append]
          exact .ends (Deeds.binds ht) rfl (.inr ⟨kind, rfl⟩)
  | refused _ h _ => exact marked_halted h.binds _
  | stranded h =>
      obtain ⟨s, c⟩ := o
      cases h with
      | unresolved _ => exact .stranded rfl rfl
      | unmatched _ => exact .unbound (ho.coherent rfl).agrees.unbound
  | closed _ _ hb =>
      refine .unbound ?_
      by_contra hne
      simp [submissionCloseBlocked, Option.isSome_iff_ne_none.mpr hne] at hb
  | frozen _ _ ht =>
      obtain ⟨hm, hv⟩ := Completions.unmarked ht
      have hs : Marked o ev [] o.state d := .stays hv
      rw [← hm] at hs
      exact hs
  | thawed _ _ ht =>
      refine marked_halted ?_ _
      have hm : ∀ s (fx : List Effect), marksOf (reserveIfReleased s fx) = marksOf fx := by
        intro s fx
        unfold reserveIfReleased
        split
        · rw [marksOf_append]
          exact List.append_nil _
        · rfl
      rw [hm]
      exact Deeds.binds (Moves.deeds ht)

end Omsrs.Lifecycle
