import Omsrs.Lifecycle.Lemmas.Steps

/-!
# Every fill is booked once

The effects of a run are a ledger: one booking for each applied fill, and corrections for the fees
that came later. The context's totals are the sums of this ledger.
-/

namespace Omsrs.Lifecycle
open Omsrs.Lib

/-! ## The ledger in the effects -/

/-- An `AccountFill` effect. -/
structure Booking where
  fillId : FillId
  qty : Nat
  priceCents : Nat
  feeCents : Nat
deriving DecidableEq, Repr

def Effect.booking? : Effect → Option Booking
  | .accountFill fillId qty priceCents _ feeCents => some ⟨fillId, qty, priceCents, feeCents⟩
  | _ => none

def Effect.correction? : Effect → Option Nat
  | .accountFeeCorrection _ delta => some delta
  | _ => none

def bookings (fx : List Effect) : List Booking := fx.filterMap Effect.booking?

def corrections (fx : List Effect) : List Nat := fx.filterMap Effect.correction?

/-- Effects that are no part of the ledger. -/
def Unbooked (fx : List Effect) : Prop := bookings fx = [] ∧ corrections fx = []

/-- The ledger of `log` is the one the context was booked with. -/
structure Ledger (log : List Effect) (c : OrderCtx) : Prop where
  nodup : ((bookings log).map (·.fillId)).Nodup
  keys : ∀ fid, fid ∈ (bookings log).map (·.fillId) ↔ fid ∈ c.appliedFills.keys
  stored : ∀ b ∈ bookings log, ∃ p, c.appliedFills.get? b.fillId = some p ∧ p.qty = b.qty ∧
    p.priceCents = b.priceCents
  qty : ((bookings log).map (·.qty)).sum = c.attributedFillQty
  fee : ((bookings log).map (·.feeCents)).sum + (corrections log).sum = c.attributedFeeCents

variable {P : Scope} {c d : OrderCtx} {log fx : List Effect}

theorem bookings_append (fx gx : List Effect) : bookings (fx ++ gx) = bookings fx ++ bookings gx :=
  List.filterMap_append

theorem corrections_append (fx gx : List Effect) :
    corrections (fx ++ gx) = corrections fx ++ corrections gx := List.filterMap_append

theorem ledger_new (cid : ClientOrderId) (market strategy : String) (side : Side)
    (price qty : Nat) : Ledger [] (.new cid market strategy side price qty) :=
  ⟨.nil, fun fid => by simp [bookings, OrderCtx.new, OrdMap.keys], by simp [bookings], rfl, rfl⟩

/-- Effects outside the ledger, and a context with the same books. -/
theorem Ledger.frame (h : Ledger log c) (hu : Unbooked fx) (hf : d.appliedFills = c.appliedFills)
    (ha : d.attributedFillQty = c.attributedFillQty)
    (he : d.attributedFeeCents = c.attributedFeeCents) : Ledger (log ++ fx) d := by
  have hb : bookings (log ++ fx) = bookings log := by rw [bookings_append, hu.1, List.append_nil]
  have hc : corrections (log ++ fx) = corrections log := by
    rw [corrections_append, hu.2, List.append_nil]
  constructor
  · rw [hb]; exact h.nodup
  · rw [hb, hf]; exact h.keys
  · rw [hb, hf]; exact h.stored
  · rw [hb, ha]; exact h.qty
  · rw [hb, hc, he]; exact h.fee

theorem bookEffects_ledger (c : OrderCtx) (f : FillRecord) :
    bookings (bookEffects c f) = [⟨f.fillId, f.qty, f.priceCents, f.feeCents.getD 0⟩] ∧
      corrections (bookEffects c f) = [] := by
  unfold bookEffects fillEffects
  split <;> exact ⟨rfl, rfl⟩

/-- A new fill adds one line under a new id. -/
theorem Ledger.booked {f : FillRecord} (h : Ledger log c) (hb : Bookable c f) :
    Ledger (log ++ bookEffects c f) (bookedCtx c f) := by
  obtain ⟨hbk, hcr⟩ := bookEffects_ledger c f
  obtain ⟨hf, ha, he⟩ := bookedCtx_books c f
  have hnew : f.fillId ∉ (bookings log).map (·.fillId) := by
    rw [h.keys, OrdMap.mem_keys]
    simp [hb.fresh]
  constructor
  · rw [bookings_append, hbk, List.map_append]
    refine List.nodup_append.mpr ⟨h.nodup, by simp, ?_⟩
    intro a ha b hb he
    obtain rfl : b = f.fillId := by simpa using hb
    exact hnew (he ▸ ha)
  · intro fid
    rw [bookings_append, hbk, List.map_append, List.mem_append, h.keys, hf, OrdMap.mem_keys,
      OrdMap.mem_keys]
    by_cases hfid : fid = f.fillId
    · subst hfid; simp
    · simp [OrdMap.get?_insert_ne _ _ hfid, hfid]
  · intro b hmem
    rw [bookings_append, hbk, List.mem_append, List.mem_singleton] at hmem
    rw [hf]
    rcases hmem with hmem | rfl
    · obtain ⟨p, hp, hq⟩ := h.stored b hmem
      have hne : b.fillId ≠ f.fillId := by
        intro heq
        rw [heq, hb.fresh] at hp
        cases hp
      exact ⟨p, by rw [OrdMap.get?_insert_ne _ _ hne]; exact hp, hq⟩
    · exact ⟨f.payload, OrdMap.get?_insert_self _ _ _, rfl, rfl⟩
  · rw [bookings_append, hbk, ha, ← h.qty]
    simp
  · rw [bookings_append, corrections_append, hbk, hcr, he, ← h.fee]
    simp
    omega

/-- A completed payload keeps its line; a fee that came later is a correction. -/
theorem Ledger.completed {f : FillRecord} {prev : FillPayload} (h : Ledger log c)
    (hc : Completes c f prev) : Ledger (log ++ completeEffects c f prev) (completedCtx c f prev) := by
  have hbk : bookings (completeEffects c f prev) = [] := by
    unfold completeEffects
    split <;> rfl
  have hcr : (corrections (completeEffects c f prev)).sum = (feeDelta prev f).getD 0 := by
    unfold completeEffects
    split
    · rename_i delta hd
      rw [hd]
      exact Nat.add_zero _
    · rename_i hd
      rw [hd]
      rfl
  constructor
  · rw [bookings_append, hbk, List.append_nil]
    exact h.nodup
  · intro fid
    rw [bookings_append, hbk, List.append_nil, h.keys, OrdMap.mem_keys, OrdMap.mem_keys]
    by_cases hfid : fid = f.fillId
    · subst hfid; simp [completedCtx, hc.known]
    · simp [completedCtx, OrdMap.get?_insert_ne _ _ hfid]
  · intro b hmem
    rw [bookings_append, hbk, List.append_nil] at hmem
    obtain ⟨p, hp, hq, hpr⟩ := h.stored b hmem
    by_cases hfid : b.fillId = f.fillId
    · have hpp : prev = p := by
        rw [hfid, hc.known] at hp
        exact Option.some.inj hp
      subst hpp
      exact ⟨completedPayload prev f, by simp [completedCtx, hfid], hq, hpr⟩
    · exact ⟨p, by simpa [completedCtx, OrdMap.get?_insert_ne _ _ hfid] using hp, hq, hpr⟩
  · rw [bookings_append, hbk, List.append_nil]
    exact h.qty
  · rw [bookings_append, corrections_append, hbk, List.append_nil, List.sum_append, hcr,
      ← Nat.add_assoc, h.fee]
    rfl

theorem Completion.ledger (hm : Completion c fx d) (h : Ledger log c) : Ledger (log ++ fx) d := by
  obtain ⟨f, prev, hc, rfl, rfl⟩ := hm
  exact h.completed hc

theorem Settles.ledger {F : FillRecord → Prop} (hm : Settles F c fx d) (h : Ledger log c) :
    Ledger (log ++ fx) d := by
  cases hm with
  | book f _ hb => exact h.booked hb
  | latch => exact h.frame ⟨rfl, rfl⟩ rfl rfl rfl

theorem unbooked_idle {e : Effect} (h : e.isIdle = true) : Unbooked [e] := by
  cases e <;> first | exact ⟨rfl, rfl⟩ | cases h

theorem Move.ledger (hm : Move P c fx d) (h : Ledger log c) : Ledger (log ++ fx) d := by
  cases hm with
  | idle he => exact h.frame (unbooked_idle he) rfl rfl rfl
  | echo _ _ _ => exact h.frame ⟨rfl, rfl⟩ rfl rfl rfl
  | invalidate => exact h.frame ⟨rfl, rfl⟩ rfl rfl rfl
  | bind _ _ => exact h.frame ⟨rfl, rfl⟩ rfl rfl rfl
  | raise _ _ =>
      obtain ⟨hf, ha, he⟩ := raisedCtx_books c _
      exact h.frame ⟨rfl, rfl⟩ hf ha he
  | complete hc => exact hc.ledger h
  | settle hs => exact hs.ledger h
  | remaining _ => exact h.frame ⟨rfl, rfl⟩ rfl rfl rfl
  | observe _ _ _ => exact h.frame ⟨rfl, rfl⟩ rfl rfl rfl
  | @observeSettled _ _ v filled r others _ _ _ _ _ hc hs =>
      have hobs : Ledger (log ++ [observedEffect c v filled r others false])
          (c.noteVenueRemaining r) := h.frame ⟨rfl, rfl⟩ rfl rfl rfl
      have := hs.ledger (hc.preserves (fun h hm => Completion.ledger hm h) hobs)
      simpa only [List.append_assoc, List.cons_append, List.nil_append] using this
  | observeRaise _ _ _ =>
      obtain ⟨hf, ha, he⟩ := raisedCtx_books (c.noteVenueRemaining _) _
      exact h.frame ⟨rfl, rfl⟩ hf ha he
  | observeOver _ _ => exact h.frame ⟨rfl, rfl⟩ rfl rfl rfl

theorem pushJournal_unbooked {r : JournalRecord} (jr : Option JournalRecord) :
    Unbooked (.appendFsync r :: pushJournal [] jr) := by
  cases jr <;> exact ⟨rfl, rfl⟩

theorem Answer.ledger (hm : Answer c fx d) (h : Ledger log c) : Ledger (log ++ fx) d := by
  cases hm with
  | empty hb =>
      obtain ⟨hf, ha, he⟩ := bindVenueId_books hb
      exact h.frame (pushJournal_unbooked _) hf ha he
  | @counted b d' _ count r avg fee sb jr hb _ hr =>
      obtain ⟨hf, ha, he⟩ := bindVenueId_books hb
      have hraised : d'.appliedFills = b.appliedFills ∧
          d'.attributedFillQty = b.attributedFillQty ∧
          d'.attributedFeeCents = b.attributedFeeCents := by
        obtain ⟨_, ⟨_, rfl⟩ | ⟨_, rfl⟩⟩ := raiseFillObligation_ok hr
        · exact ⟨rfl, rfl, rfl⟩
        · exact raisedCtx_books (setResponse _ _ _ _ _ _) _
      rw [recomputeResponseDomain_eq]
      refine h.frame ?_ (hraised.1.trans hf) (hraised.2.1.trans ha) (hraised.2.2.trans he)
      cases jr <;> (unfold raiseEffects; split <;> split <;> exact ⟨rfl, rfl⟩)

theorem Act.ledger (hm : Act P c fx d) (h : Ledger log c) : Ledger (log ++ fx) d := by
  cases hm with
  | deed hm => exact hm.elim (fun hm => hm.ledger h) fun hm => hm.ledger h
  | refused hm =>
      cases hm with
      | conflict _ => exact h.frame ⟨rfl, rfl⟩ rfl rfl rfl
      | excess hb _ _ =>
          obtain ⟨hf, ha, he⟩ := bindVenueId_books hb
          exact h.frame (pushJournal_unbooked _) hf ha he
  | release _ => exact h.frame ⟨rfl, rfl⟩ rfl rfl rfl
  | reserve => exact h.frame ⟨rfl, rfl⟩ rfl rfl rfl
  | halt => exact h.frame ⟨rfl, rfl⟩ rfl rfl rfl

/-! ## No saturation -/

/-- The integers of an event are machine words. -/
def OrderEvent.InRange (e : OrderEvent) : Prop :=
  ∀ f ∈ e.fills, f.qty ≤ u64Max ∧ f.priceCents ≤ u64Max ∧ f.feeCents.getD 0 ≤ u64Max

instance (e : OrderEvent) : Decidable e.InRange :=
  inferInstanceAs (Decidable (∀ f ∈ e.fills, _))

/-- Every booked price is a machine word. -/
def Priced (c : OrderCtx) : Prop := ∀ fid p, c.appliedFills.get? fid = some p → p.priceCents ≤ u64Max

theorem Completion.priced (hm : Completion c fx d) (h : Priced c) : Priced d := by
  obtain ⟨f, prev, hc, rfl, rfl⟩ := hm
  intro fid p hp
  simp only [completedCtx, OrdMap.get?_insert] at hp
  split at hp
  · cases hp
    exact h _ prev hc.known
  · exact h _ _ hp

theorem Settles.priced {F : FillRecord → Prop} (hm : Settles F c fx d)
    (hF : ∀ f, F f → f.priceCents ≤ u64Max) (h : Priced c) : Priced d := by
  cases hm with
  | book f hf hb =>
      intro fid p hp
      rw [(bookedCtx_books c f).1, OrdMap.get?_insert] at hp
      split at hp
      · cases hp
        exact hF f hf
      · exact h _ _ hp
  | latch => exact h

theorem Priced.congr (h : Priced c) (hf : d.appliedFills = c.appliedFills) : Priced d := by
  unfold Priced
  rw [hf]
  exact h

theorem Act.priced (hm : Act P c fx d) (hF : ∀ f, P.offers f → f.priceCents ≤ u64Max)
    (h : Priced c) : Priced d := by
  cases hm with
  | deed hm =>
      rcases hm with hm | hm
      · cases hm with
        | raise _ _ => exact h.congr (raisedCtx_books c _).1
        | complete hc => exact hc.priced h
        | settle hs => exact hs.priced hF h
        | observeSettled _ _ hc hs =>
            exact hs.priced hF (hc.preserves (I := fun _ c => Priced c) (l := [])
              (fun h hm => Completion.priced hm h) h)
        | observeRaise _ _ _ => exact h.congr (raisedCtx_books (c.noteVenueRemaining _) _).1
        | _ => exact h
      · cases hm with
        | empty hb => exact h.congr (bindVenueId_books hb).1
        | counted hb _ hr =>
            have hb' := (bindVenueId_books hb).1
            rw [recomputeResponseDomain_eq]
            obtain ⟨_, ⟨_, rfl⟩ | ⟨_, rfl⟩⟩ := raiseFillObligation_ok hr
            · exact h.congr hb'
            · exact h.congr ((raisedCtx_books (setResponse _ _ _ _ _ _) _).1.trans hb')
  | refused hm =>
      cases hm with
      | conflict _ => exact h
      | excess hb _ _ => exact h.congr (bindVenueId_books hb).1
  | release _ => exact h
  | reserve => exact h
  | halt => exact h

/-- Quantities within a machine word times prices within one stay within the notional's. -/
theorem notional_le (ha : Accounted c) (hp : Priced c) :
    (c.appliedFills.sumBy fun p => p.qty * p.priceCents) ≤ u128Max := by
  have hle : (c.appliedFills.sumBy fun p => p.qty * p.priceCents) ≤
      c.appliedFills.sumBy fun p => p.qty * u64Max := by
    refine OrdMap.sumBy_le_sumBy fun p hmem => ?_
    obtain ⟨fid, hfid⟩ := OrdMap.mem_values.mp hmem
    exact Nat.mul_le_mul_left _ (hp fid p hfid)
  have hmul : (c.appliedFills.sumBy fun p => p.qty * u64Max) = c.attributedFillQty * u64Max := by
    rw [ha.qty]
    exact OrdMap.sumBy_mul_right _ _ _
  calc (c.appliedFills.sumBy fun p => p.qty * p.priceCents)
      ≤ c.attributedFillQty * u64Max := hle.trans hmul.le
    _ ≤ u64Max * u64Max := Nat.mul_le_mul_right _ ha.qtyWord
    _ ≤ u128Max := by decide

/-! ## The theorem -/

/-- Along every run, halting steps and late fills included, the bookings are the applied fills, each
once, and their sums are the context's totals. The notional never saturates. -/
theorem fills_booked_exactly_once (cid : ClientOrderId) (market strategy : String) (side : Side)
    (price qty : Nat) (es : List OrderEvent) (hes : ∀ e ∈ es, e.InRange) :
    let o := Order.new cid market strategy side price qty
    let fx := runEffects o es
    let c := (lifecycle.final o es).ctx
    ((bookings fx).map (·.fillId)).Nodup ∧
    (∀ fid, fid ∈ (bookings fx).map (·.fillId) ↔ fid ∈ c.appliedFills.keys) ∧
    (∀ b ∈ bookings fx, ∃ p, c.appliedFills.get? b.fillId = some p ∧ p.qty = b.qty ∧
      p.priceCents = b.priceCents) ∧
    ((bookings fx).map (·.qty)).sum = c.attributedFillQty ∧
    c.attributedFillQty = c.appliedFills.sumBy (·.qty) ∧ c.attributedFillQty ≤ c.qty ∧
    (c.appliedFills.sumBy fun p => p.qty * p.priceCents) = c.attributedNotionalCents ∧
    c.attributedNotionalCents ≤ u128Max ∧
    ((bookings fx).map (·.feeCents)).sum + (corrections fx).sum = c.attributedFeeCents ∧
    c.attributedFeeCents = c.appliedFills.sumBy (·.fee.getD 0) := by
  intro o fx c
  have ho : OrderCoherent o := orderCoherent_new cid market strategy side price qty
  have hledger : Ledger fx c :=
    run_preserves (C := OrderEvent.InRange) (fun _ h _ hm => hm.ledger h) ho
      (ledger_new cid market strategy side price qty) hes
  have hacc : Accounted c := (run_coherent ho es).accounted
  have hpriced : Priced c :=
    run_preserves (I := fun _ c => Priced c) (C := OrderEvent.InRange)
      (fun hC h _ hm => hm.priced (fun f hf => (hC f hf).2.1) h) ho (by intro _ _ h; cases h) hes
  have hnot := notional_le hacc hpriced
  refine ⟨hledger.nodup, hledger.keys, hledger.stored, hledger.qty, hacc.qty,
    hacc.covered.trans hacc.bounded, ?_, ?_, hledger.fee, hacc.fee⟩
  · rw [hacc.notional, Nat.min_eq_left hnot]
  · rw [hacc.notional]
    exact Nat.min_le_right _ _

/-- A fill whose fee comes late: one booking, one correction. -/
theorem fills_booked_exactly_once_late_fee :
    let o := Order.new ⟨"c"⟩ "m" "s" .buyYes 40 10
    let es := restingRun 10 ++
      [.fill ⟨⟨"f"⟩, 3, 40, 7, some ⟨"V"⟩, none⟩, .fill ⟨⟨"f"⟩, 3, 40, 7, some ⟨"V"⟩, some 1⟩]
    ((bookings (runEffects o es)).map (·.fillId)).Nodup ∧
      (corrections (runEffects o es)).sum = 1 ∧
      ((bookings (runEffects o es)).map (·.feeCents)).sum + (corrections (runEffects o es)).sum =
        (lifecycle.final o es).ctx.attributedFeeCents := by
  intro o es
  obtain ⟨hnodup, _, _, _, _, _, _, _, hfee, _⟩ :=
    fills_booked_exactly_once ⟨"c"⟩ "m" "s" .buyYes 40 10 es (by decide)
  exact ⟨hnodup, by decide, hfee⟩

end Omsrs.Lifecycle
