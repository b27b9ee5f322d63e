import Omsrs.Lib.Trail
import Omsrs.Lifecycle.Rebuild
import Omsrs.Lifecycle.Lemmas.Account

/-!
# The moves a transition is made of

Every handler changes the context by a few kinds of move and writes effects as it goes. What holds of
each kind holds of every transition, so the invariants are proved over the kinds.
-/

namespace Omsrs.Lifecycle
open Omsrs.Lib

/-! ## Kinds of effects -/

/-- Effects that neither touch the money nor change what a fold of the journal restores. -/
def Effect.isIdle : Effect → Bool
  | .backfillFills _ | .backfillUnknown _ | .reconcileCancel _ | .requestAuthorityReconcile ..
  | .haltNewExposure => true
  | .appendFsync (.submitStarted _) | .appendFsync (.submitUnknownCid _)
  | .appendFsync (.immediateFillUnresolvedCid _) | .appendFsync (.unknownNoMatchCid _)
  | .appendFsync (.ownActionCid ..) => true
  | _ => false

/-- Proof that the order reached the venue: a fill, a bound identity, a raised obligation. -/
def Effect.isEvidence : Effect → Bool
  | .accountFill .. | .appendFsync (.venueBoundCid ..) | .appendFsync (.obligationRaised ..) => true
  | _ => false

def Effect.isReservation : Effect → Bool
  | .releaseReservation | .reserveFull => true
  | _ => false

/-- Records that bind the order to one of the venue, or say that it is over. -/
def JournalRecord.isMark : JournalRecord → Bool
  | .venueBoundCid .. | .orderTerminal .. | .halted _ => true
  | _ => false

/-! ## Moves -/

/-- What the moves of one event may rely on: the condition under which their journal carries all that
they change, and the fills the event offers. -/
structure Scope where
  carried : Prop
  offers : FillRecord → Prop

/-- Nothing is promised. -/
def Scope.any : Scope := ⟨False, fun _ => True⟩

/-- The obligation is raised to `n`; a lag opens a new generation. -/
def raisedCtx (c : OrderCtx) (n : Nat) : OrderCtx :=
  if c.attributedFillQty < n then { c with fillObligation := n }.invalidateAuthority
  else { c with fillObligation := n }

/-- A known fill is completed. -/
def Completion (c : OrderCtx) (fx : List Effect) (c' : OrderCtx) : Prop :=
  ∃ f prev, Completes c f prev ∧ fx = completeEffects c f prev ∧ c' = completedCtx c f prev

/-- A move that writes the latch, whatever it was before. -/
inductive Settles (F : FillRecord → Prop) (c : OrderCtx) : List Effect → OrderCtx → Prop
  | book (f : FillRecord) (hf : F f) (h : Bookable c f) :
      Settles F c (bookEffects c f) (bookedCtx c f)
  | latch : Settles F c [.appendFsync (.authorityLatched c.authorityEpoch)] c.latchAuthorityComplete

/-- A venue row of the bound order, in this member's frame. -/
structure Observed (c : OrderCtx) (v : VenueOrderId) (filled others memberFilled : Nat) : Prop where
  venue : c.venueOrderId = some v
  member : ∃ capacity, backfillMemberQuantities c filled others = .ok (memberFilled, capacity)

/-- The latch is held although the attribution lags; the record of a venue row clears it. -/
def LatchedBehind (c : OrderCtx) : Prop :=
  c.authorityComplete = true ∧ c.attributedFillQty < c.fillObligation

inductive Move (P : Scope) : OrderCtx → List Effect → OrderCtx → Prop
  | idle {c : OrderCtx} {e : Effect} (h : e.isIdle = true) : Move P c [e] c
  | echo {c : OrderCtx} {r : JournalRecord} (he : (Effect.appendFsync r).isEvidence = false)
      (hmark : r.isMark = false) (h : c.fillObligation ≤ c.qty → foldRecord c r = .ok c) : Move P c [.appendFsync r] c
  | invalidate {c : OrderCtx} :
      Move P c [.appendFsync (.authorityInvalidated c.invalidateAuthority.authorityEpoch)]
        c.invalidateAuthority
  | bind {c : OrderCtx} {v : VenueOrderId} (hn : c.venueOrderId = none)
      (hv : boundElsewhere v c.appliedFills.entries = none) :
      Move P c [.appendFsync (.venueBoundCid c.clientOrderId v)] { c with venueOrderId := some v }
  | raise {c : OrderCtx} {n : Nat} (hlt : c.fillObligation < n) (hq : n ≤ c.qty) :
      Move P c [.appendFsync (.obligationRaised n (raisedCtx c n).authorityEpoch)] (raisedCtx c n)
  | complete {c c' : OrderCtx} {fx : List Effect} (h : Completion c fx c') : Move P c fx c'
  | settle {c c' : OrderCtx} {fx : List Effect} (h : Settles P.offers c fx c') :
      Move P c fx c'
  | remaining {c : OrderCtx} {r : Nat} (h : P.carried → c.lastVenueRemainingQty = some r) :
      Move P c [] (c.noteVenueRemaining r)
  | observe {c : OrderCtx} {v : VenueOrderId} {filled r others m : Nat}
      (hs : Observed c v filled others m) (hm : m ≤ c.fillObligation)
      (h : P.carried → ¬ LatchedBehind c) :
      Move P c [observedEffect c v filled r others false] (c.noteVenueRemaining r)
  | observeSettled {c c' d : OrderCtx} {v : VenueOrderId} {filled r others m : Nat}
      {fx gx : List Effect} (hs : Observed c v filled others m) (hm : m ≤ c.fillObligation)
      (hc : Trail Completion (c.noteVenueRemaining r) fx c') 
      (hd : Settles P.offers c' gx d) :
      Move P c (observedEffect c v filled r others false :: (fx ++ gx)) d
  | observeRaise {c : OrderCtx} {v : VenueOrderId} {filled r others m : Nat}
      (hs : Observed c v filled others m) (hlt : c.fillObligation < m) (hq : m ≤ c.qty) :
      Move P c [observedEffect c v filled r others false,
          .appendFsync (.obligationRaised m (raisedCtx (c.noteVenueRemaining r) m).authorityEpoch)]
        (raisedCtx (c.noteVenueRemaining r) m)
  | observeOver {c : OrderCtx} {v : VenueOrderId} {filled r others m : Nat}
      (hs : Observed c v filled others m) (hq : c.qty < m) :
      Move P c [observedEffect c v filled r others false] (c.noteVenueRemaining r)

/-- The create response is taken in; `counted` is one that reports fills. -/
inductive Answer : OrderCtx → List Effect → OrderCtx → Prop
  | empty {c d : OrderCtx} {v : VenueOrderId} {remaining : Nat} {avg fee : Option Nat}
      {b : Option SnapshotBoundary} {jr : Option JournalRecord} (hb : bindVenueId c v = .ok (jr, d)) :
      Answer c (.appendFsync (.submitResponse v 0 remaining avg fee b) :: pushJournal [] jr)
        (d.noteVenueRemaining remaining)
  | counted {c d d' : OrderCtx} {v : VenueOrderId} {count remaining : Nat} {avg fee : Option Nat}
      {b : Option SnapshotBoundary} {jr : Option JournalRecord} (hb : bindVenueId c v = .ok (jr, d))
      (hc : 0 < count)
      (hr : (setResponse (d.noteVenueRemaining remaining) count remaining avg fee
        b).raiseFillObligation count = .ok d') :
      Answer c
        (.appendFsync (.submitResponse v count remaining avg fee b) :: (pushJournal [] jr ++
          raiseEffects (setResponse (d.noteVenueRemaining remaining) count remaining avg fee b) d'))
        (recomputeResponseDomain d')

def Deed (P : Scope) (c : OrderCtx) (fx : List Effect) (c' : OrderCtx) : Prop :=
  Move P c fx c' ∨ Answer c fx c'

/-! ## What a move leaves alone -/

/-- The create response as the context keeps it. -/
def OrderCtx.response (c : OrderCtx) :
    Option Nat × Option Nat × Option Nat × Option Nat × Option SnapshotBoundary :=
  (c.responseFillCount, c.responseRemainingCount, c.responseAvgPriceCents, c.responseFeeCents,
    c.responseSnapshotBoundary)

/-- Identity and response stay, a bound venue stays bound, the obligation does not fall. -/
structure Kept (c c' : OrderCtx) : Prop where
  client : c'.clientOrderId = c.clientOrderId
  qty : c'.qty = c.qty
  response : c'.response = c.response
  venue : ∀ v, c.venueOrderId = some v → c'.venueOrderId = some v
  obligation : c.fillObligation ≤ c'.fillObligation

theorem Kept.refl (c : OrderCtx) : Kept c c := ⟨rfl, rfl, rfl, fun _ h => h, le_rfl⟩

theorem Kept.trans {c d e : OrderCtx} (h : Kept c d) (h' : Kept d e) : Kept c e :=
  ⟨h'.client.trans h.client, h'.qty.trans h.qty, h'.response.trans h.response,
    fun v hv => h'.venue v (h.venue v hv), h.obligation.trans h'.obligation⟩

theorem Kept.note (c : OrderCtx) (r : Nat) : Kept c (c.noteVenueRemaining r) :=
  ⟨rfl, rfl, rfl, fun _ h => h, le_rfl⟩

theorem Kept.invalidate (c : OrderCtx) : Kept c c.invalidateAuthority :=
  ⟨rfl, rfl, rfl, fun _ h => h, le_rfl⟩

theorem Kept.latch (c : OrderCtx) : Kept c c.latchAuthorityComplete :=
  ⟨rfl, rfl, rfl, fun _ h => h, le_rfl⟩

theorem Kept.raised {c : OrderCtx} {n : Nat} (h : c.fillObligation < n) : Kept c (raisedCtx c n) := by
  unfold raisedCtx
  split <;> exact ⟨rfl, rfl, rfl, fun _ h => h, h.le⟩

/-- The response domain's accumulators are all that accumulation changes. -/
theorem accumulateResponseDomain_eq (c : OrderCtx) (qty price : Nat) (fee : Option Nat) (ts : Int) :
    ∃ q n f, accumulateResponseDomain c qty price fee ts =
      { c with responseDomainQty := q, responseDomainNotionalCents := n, responseDomainFeeCents := f } := by
  unfold accumulateResponseDomain
  split
  · exact ⟨_, _, _, rfl⟩
  · split
    · exact ⟨_, _, _, rfl⟩
    · split
      · exact ⟨_, _, _, rfl⟩
      · exact ⟨_, _, _, rfl⟩

theorem Kept.booked (c : OrderCtx) (f : FillRecord) : Kept c (bookedCtx c f) := by
  obtain ⟨q, n, g, he⟩ :=
    accumulateResponseDomain_eq (bookedBase c f) f.qty f.priceCents f.feeCents f.tsNs
  rw [bookedCtx, he]
  exact ⟨rfl, rfl, rfl, fun _ h => h, le_max_left _ _⟩

theorem Completion.kept {c c' : OrderCtx} {fx : List Effect} (h : Completion c fx c') :
    Kept c c' := by
  obtain ⟨f, prev, _, _, rfl⟩ := h
  exact ⟨rfl, rfl, rfl, fun _ h => h, le_rfl⟩

theorem Settles.kept {F : FillRecord → Prop} {c c' : OrderCtx} {fx : List Effect}
    (h : Settles F c fx c') : Kept c c' := by
  cases h with
  | book f _ _ => exact .booked c f
  | latch => exact .latch c

variable {P : Scope}

theorem Move.kept {c c' : OrderCtx} {fx : List Effect} (h : Move P c fx c') : Kept c c' := by
  cases h with
  | idle _ => exact .refl c
  | echo _ _ _ => exact .refl c
  | invalidate => exact .invalidate c
  | bind hn _ => exact ⟨rfl, rfl, rfl, fun v hv => by simp [hn] at hv, le_rfl⟩
  | raise hlt _ => exact .raised hlt
  | complete h => exact h.kept
  | settle h => exact h.kept
  | remaining _ => exact .note c _
  | observe _ _ _ => exact .note c _
  | observeSettled _ _ hc hd =>
      exact (Kept.note c _).trans
        ((hc.relates Kept.refl Kept.trans fun h => Completion.kept h).trans hd.kept)
  | observeRaise _ hlt _ => exact (Kept.note c _).trans (.raised hlt)
  | observeOver _ _ => exact .note c _

theorem Moves.kept {c c' : OrderCtx} {fx : List Effect} (h : Trail (Move P) c fx c') : Kept c c' :=
  h.relates Kept.refl Kept.trans fun h => h.kept

end Omsrs.Lifecycle
