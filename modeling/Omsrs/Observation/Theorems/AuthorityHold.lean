import Omsrs.Observation.Lemmas.Desk
import Omsrs.Observation.Theorems.KnownRemaining

/-!
# A hold is discharged by newer evidence

The end of an order compares its frame with the hold of its wire. A round does not: it clears the hold
it finds at its finish, and its transaction brings back the wire of that moment. Holds stand where the
rounds that were open or waiting at the hold are not applied after it to discharge it, and where no page
proves the wire by the outcome of such a round.
-/

namespace Omsrs.Observation
open Omsrs.Lib Omsrs.Lifecycle Omsrs.Execution

/-! ## Proofs of a wire -/

/-- What a wire remembers of a record at this position. -/
def revision (pos : Nat) : Nat := saturatingAdd u64Max pos 1

/-- The round discharges a hold of its wire: it is fresh, or it has closed all the members. -/
def discharges (t : ObservationTxnRecord) : Bool :=
  decide (t.outcome = .consistent true) ||
    (isConsistent t.outcome && isClosed t.row.status && !t.wireAfter.tracked &&
      !t.wireAfter.members.isEmpty && t.wireAfter.members.all fun m => decide (m.role = .terminal))

/-- The same of a transaction that waits. One without a record leaves its wire as it was. -/
def roundDischarges (t : ObservationTransaction) : Bool :=
  match t.journal with
  | some (.observationTxn rec) => discharges rec
  | _ => false

/-- The record ends its order on the wire, by the wire's latest frame. -/
def endsOn (l : LedgerId) (w : VenueOrderId) (ws : WireState) (o : OrderTxnRecord) : Bool :=
  decide (o.ledger = l) && decide (WireRegistry.endedWire o = some w) &&
    WireRegistry.provesEnd o w ws

/-- The record is a proof on which a hold of the wire is discharged. -/
def provesWire (l : LedgerId) (w : VenueOrderId) (ws : WireState) : Record → Bool
  | .observationTxn t => decide (t.ledger = l) && decide (t.wire = w) && discharges t
  | .restOrderProofTxn t => decide (t.ledger = l) && decide (t.wire = w)
  | .orderTxn o => endsOn l w ws o
  | .executionTxn e => e.order.any (endsOn l w ws)
  | _ => false

namespace Desk

def wire (d : Desk) (l : LedgerId) (w : VenueOrderId) : WireState := d.shell.registry.ensure l w

/-- The records a step appends. -/
def appended (d : Desk) (a : DeskAction) : List Record :=
  (desk.step d a).2.shell.journal.drop d.now

/-- Where the round that was last applied to the wire was finished. -/
def lastFinished (d : Desk) (l : LedgerId) (w : VenueOrderId) : Nat :=
  (d.stamps.get? ⟨l, w⟩).getD 0

/-- Where the evidence of an action was taken: at the begin of its round, at the finish of the round a
page rests on, or now. -/
def captured (d : Desk) (a : DeskAction) : Nat :=
  match a with
  | .apply i _ => ((d.waiting[i]?).map (·.begun)).getD d.now
  | a =>
      match a.shellAct with
      | some (.restProof l w ..) => d.lastFinished l w
      | _ => d.now

/-- The evidence of the record was taken behind the position `p`. The end of an order rests on a frame. -/
def newer (p : Nat) (l : LedgerId) (w : VenueOrderId) (d : Desk) (a : DeskAction) (rec : Record) :
    Bool :=
  match WireRegistry.orderPart rec with
  | some _ => decide (revision p < (d.wire l w).latestUserOrderRevision)
  | none => decide (p < d.captured a)

/-- The step proves the wire by evidence newer than the position `p`. -/
def newlyProved (p : Nat) (l : LedgerId) (w : VenueOrderId) (d : Desk) (a : DeskAction) : Bool :=
  (d.appended a).any fun rec => provesWire l w (d.wire l w) rec && d.newer p l w a rec

/-- No step applies a transaction that was finished before the position `p`, or discharges the wire by a
round begun before it, or by a page that rests on a round finished before it. -/
def timely (p : Nat) (l : LedgerId) (w : VenueOrderId) (d : Desk) (a : DeskAction) : Bool :=
  match a with
  | .apply i _ =>
      (d.waiting[i]?).all fun x =>
        !(decide (x.txn.ledger = l) && decide (x.txn.wire = w)) ||
          (decide (p < x.finished) && (!roundDischarges x.txn || decide (p < x.begun)))
  | a =>
      match a.shellAct with
      | some (.restProof l' w' ..) =>
          !(decide (l' = l) && decide (w' = w) && decide ((d.wire l w).last = some (.consistent false))) ||
            decide (p < d.lastFinished l w)
      | _ => true

end Desk

/-! ## A wire under a hold -/

/-- The wire stands under a hold from the position `p` or behind it. -/
structure Carried (p : Nat) (ws : WireState) : Prop where
  hold : ws.authorityHold = true
  since : revision p ≤ ws.authorityHoldRevision

variable {p pos : Nat} {ws ws' : WireState} {l : LedgerId} {w : VenueOrderId}

theorem revision_mono {q : Nat} (h : p ≤ q) : revision p ≤ revision q := by
  simp only [revision, saturatingAdd]
  omega

theorem holdAuthority_carried (ws : WireState) (h : p ≤ pos) : Carried p (ws.holdAuthority pos) :=
  ⟨rfl, revision_mono h⟩

/-- A frame that ends an order under the hold is newer than it. -/
theorem Carried.newFrame {o : OrderTxnRecord} (h : Carried p ws) (he : endsOn l w ws o = true) :
    revision p < ws.latestUserOrderRevision := by
  simp only [endsOn, WireRegistry.provesEnd, Bool.and_eq_true, decide_eq_true_eq] at he
  have hlater := he.2.1.1.1.2
  exact lt_of_le_of_lt h.since hlater

/-- The record of an order leaves the hold where it does not end it on the wire. -/
theorem Carried.foldOrder {o : OrderTxnRecord} (h : Carried p ws) (he : endsOn l w ws o = false) :
    Carried p (ws.foldOrder pos o l w) := by
  refine ⟨?_, ?_⟩
  · rw [WireState.foldOrder, if_neg]
    · rw [WireState.cores_authorityHold]
      exact h.hold
    · rintro ⟨rfl, hw, hp⟩
      simp [endsOn, hw, hp] at he
  · rw [(ws.foldOrder_sameEvidence pos o l w).authorityHoldRevision]
    exact h.since

theorem hold_authorityHoldRevision (ws : WireState) (id : FillId) (entry : InventoryEntry) :
    (ws.hold id entry).authorityHoldRevision = ws.authorityHoldRevision := by
  simp only [WireState.hold]
  split
  · split <;> rfl
  · rfl

theorem foldExecutions_authorityHoldRevision (os : List ExecutionOutcome) (ledger l : LedgerId)
    (w : VenueOrderId) (ws : WireState) :
    (os.foldl (WireState.foldExecution ledger l w) ws).authorityHoldRevision =
      ws.authorityHoldRevision := by
  induction os generalizing ws with
  | nil => rfl
  | cons o os ih =>
      rw [List.foldl_cons, ih, WireState.foldExecution]
      split
      · split
        · apply hold_authorityHoldRevision
        · rfl
      · rfl

theorem Carried.foldExecutions (h : Carried p ws) (os : List ExecutionOutcome) (ledger l : LedgerId)
    (w : VenueOrderId) : Carried p (os.foldl (WireState.foldExecution ledger l w) ws) := by
  refine ⟨?_, ?_⟩
  · rw [(foldExecutions_sameBut os ledger l w ws).authorityHold]
    exact h.hold
  · rw [foldExecutions_authorityHoldRevision]
    exact h.since

/-- A noted record of the wire leaves the hold, or is a page that proves the wire. -/
theorem Carried.noted {inv : MarketInventory} {rec : Record} (h : Carried p ws) (hp : p ≤ pos)
    (hn : WireNoted pos inv l w ws rec ws') (hno : ∀ t, rec ≠ .restOrderProofTxn t) :
    Carried p ws' := by
  cases hn with
  | amended _ => exact ⟨h.hold, h.since⟩
  | received _ _ => exact ⟨h.hold, h.since⟩
  | held => exact holdAuthority_carried ws hp
  | rests hr _ _ =>
      have hhold := h.hold
      rw [hr.free] at hhold
      cases hhold
  | paged _ _ _ _ => exact absurd rfl (hno _)

/-- A round clears the hold it finds where its record discharges it. -/
theorem observeWire_authorityHold {rec : ObservationTxnRecord} {after : List MemberAfter}
    {pending : Bool} (h : ws.authorityHold = true)
    (hws : rec.wireAfter = observeWire ws rec.row rec.outcome after pending) :
    rec.wireAfter.authorityHold = !discharges rec := by
  have hfields : rec.wireAfter.tracked = (!isConsistent rec.outcome || pending) ∧
      rec.wireAfter.members = closeRoles after ws.members := by
    rw [hws]
    exact ⟨rfl, rfl⟩
  rw [discharges, hfields.1, hfields.2, hws]
  simp only [observeWire, closeWire, allClosed, h, Bool.true_and, decide_not, Bool.not_or]
  cases hc : isConsistent rec.outcome <;> cases isClosed rec.row.status <;> simp

/-- A round carries the hold it finds on, or discharges it. -/
theorem Carried.finish {round : ObservationRound} {r : WireRegistry} {inv : MarketInventory}
    {rows : List OrderRow} {ev : RowEvidence} {t : ObservationTransaction}
    (h : Carried p (r.ensure round.ledger round.wire)) (hfin : round.finish r inv rows ev = .ok t) :
    Carried p t.wireAfter ∨ roundDischarges t = true := by
  have hf := ObservationRound.finish_ok hfin
  have hj := hf.journal
  split at hj
  · rename_i hsame
    rw [hsame.2]
    exact .inl h
  · obtain ⟨rec, hrec, ho, hrow, hws⟩ : ∃ rec, t.journal = some (.observationTxn rec) ∧
        rec.outcome = t.outcome ∧ rec.row = ev ∧ rec.wireAfter = t.wireAfter :=
      ⟨_, hj, rfl, rfl, rfl⟩
    have hhold := observeWire_authorityHold h.hold (by rw [hws, ho, hrow]; exact hf.wireAfter)
    rw [hws] at hhold
    rw [roundDischarges, hrec]
    cases hd : discharges rec with
    | true => exact .inr hd
    | false =>
        refine .inl ⟨by rw [hhold, hd]; rfl, ?_⟩
        rw [hf.wireAfter]
        exact h.since

/-- A round that discharges its wire appends a proof of it. -/
theorem finish_proves {round : ObservationRound} {r : WireRegistry} {inv : MarketInventory}
    {rows : List OrderRow} {ev : RowEvidence} {t : ObservationTransaction}
    (hfin : round.finish r inv rows ev = .ok t) (hd : roundDischarges t = true) (ws : WireState) :
    ∃ rec ∈ t.journal.toList, WireRegistry.orderPart rec = none ∧
      provesWire t.ledger t.wire ws rec = true := by
  have hf := ObservationRound.finish_ok hfin
  rw [roundDischarges] at hd
  split at hd
  · rename_i rec hrec
    refine ⟨.observationTxn rec, by simp [hrec], rfl, ?_⟩
    have hj := hf.journal
    rw [hrec] at hj
    split at hj
    · cases hj
    · cases hj
      simp [provesWire, hf.ledger, hf.wire, hd]
  · cases hd

/-! ## A step of the shell -/

variable {s s' : Shell} {act : ShellAction} {d : Desk} {a : DeskAction} {rec : Record}

/-- A step that appends no proof of the wire leaves its hold. -/
theorem Moved.carried (h : Moved s act s') (hc : Carried p (s.registry.ensure l w))
    (hp : p ≤ s.journal.length)
    (hno : ∀ rec ∈ s'.journal.drop s.journal.length,
      provesWire l w (s.registry.ensure l w) rec = false) : Carried p (s'.registry.ensure l w) := by
  cases h with
  | idle => exact hc
  | created _ => exact hc
  | @ordered key row event tr o a registry _ _ _ _ hfold =>
      rcases WireRegistry.foldOrderPart_ok hfold with ⟨-, rfl⟩ | ⟨-, -, hw⟩
      · exact hc
      · rw [hw]
        exact hc.foldOrder (hno (.orderTxn o) (by simp))
  | @executed l' target t part _ _ _ h =>
      rw [h.wires]
      refine Carried.foldExecutions ?_ _ _ _ _
      cases part with
      | none => exact hc
      | some x =>
          rcases h.journaled with ⟨-, hpart, -⟩ | hj
          · cases hpart
          · have hends := hno (.executionTxn ⟨l', (s.inventory l').generation, t.outcomes, some x.1⟩)
              (by simp [h.journal, hj])
            exact hc.foldOrder hends
  | @observed l' w' _ _ _ _ _ round t _ _ _ hround hfin h =>
      rw [h.registry, WireRegistry.ensure_set]
      split
      · rename_i hw
        obtain ⟨rfl, rfl⟩ := hw
        have hf := ObservationRound.finish_ok hfin
        obtain ⟨rfl, rfl⟩ := hround
        rcases hc.finish hfin with hc | hd
        · exact hc
        · obtain ⟨rec, hrec, -, hproof⟩ := finish_proves hfin hd (s.registry.ensure round.ledger round.wire)
          rw [hf.ledger, hf.wire, hno rec (by simpa [h.journal] using hrec)] at hproof
          cases hproof
      · exact hc
  | @noted rec registry hrec hfold =>
      by_cases hpage : ∃ t, rec = .restOrderProofTxn t
      · obtain ⟨t, rfl⟩ := hpage
        cases hfold
        rw [WireRegistry.ensure_set]
        split
        · rename_i hw
          have hproof := hno (.restOrderProofTxn t) (by simp)
          simp [provesWire, hw] at hproof
        · exact hc
      · obtain ⟨l', w', ws', hnoted, hw⟩ := hrec.wire hfold
        rw [hw]
        split
        · rename_i heq
          obtain ⟨rfl, rfl⟩ := heq
          exact hc.noted hp hnoted fun t he => hpage ⟨t, he⟩
        · exact hc

theorem captured_now (ha : a.shellAct = some act) (h : ∀ l w c f r i, act ≠ .restProof l w c f r i) :
    d.captured a = d.now := by
  have hmatch : (match some act with
      | some (.restProof l w ..) => d.lastFinished l w
      | _ => d.now) = d.now := by
    cases act with
    | restProof l w c f r i => exact absurd rfl (h l w c f r i)
    | _ => rfl
  cases a with
  | apply _ _ => cases ha
  | _ => rw [← ha] at hmatch; exact hmatch

/-- A timely page rests on a round that was finished behind the position. -/
theorem captured_page {c : ClientOrderId} {f r i : Nat} (ha : a.shellAct = some (.restProof l w c f r i))
    (ht : d.timely p l w a = true) (hlast : (d.wire l w).last = some (.consistent false)) :
    p < d.captured a := by
  have hpage : (!(decide (l = l) && decide (w = w) &&
      decide ((d.wire l w).last = some (.consistent false))) || decide (p < d.lastFinished l w)) =
        true → p < d.lastFinished l w := by
    simp [hlast]
  cases a with
  | shell act => cases ha; exact hpage ht
  | applyRestProof t => cases ha; exact hpage ht
  | _ => cases ha

/-- A proof that a timely step of the shell appends is newer than the hold. -/
theorem Moved.newer (h : Moved d.shell act s') (ha : a.shellAct = some act)
    (hc : Carried p (d.wire l w)) (hp : p < d.now) (ht : d.timely p l w a = true)
    (hrec : rec ∈ s'.journal.drop d.now) (hproof : provesWire l w (d.wire l w) rec = true) :
    d.newer p l w a rec = true := by
  have hcaptured : WireRegistry.orderPart rec = none → p < d.captured a := by
    intro hpart
    cases h with
    | idle => simp [Desk.now] at hrec
    | created _ => simp [Desk.now, Shell.setOrder] at hrec
    | ordered _ _ _ _ _ =>
        obtain rfl : rec = _ := by simpa [Desk.now] using hrec
        cases hpart
    | executed _ _ h =>
        rw [h.journal, Desk.now, List.drop_left] at hrec
        rcases h.journaled with ⟨hj, -⟩ | hj
        · simp [hj] at hrec
        · obtain rfl : rec = _ := by simpa [hj] using hrec
          simp only [WireRegistry.orderPart] at hpart
          simp [provesWire, hpart] at hproof
    | observed hact _ _ _ _ =>
        rw [captured_now ha (by simp [hact])]
        exact hp
    | noted hnoted _ =>
        obtain rfl : rec = _ := by simpa [Desk.now] using hrec
        cases hnoted with
        | amend h =>
            obtain ⟨rfl, -⟩ := WireRegistry.prepareAmendLineage_ok h
            cases hproof
        | frame h =>
            obtain ⟨rfl, -⟩ := WireRegistry.prepareUserOrderReceived_some.mp h
            cases hproof
        | state _ => cases hproof
        | hold => cases hproof
        | page h =>
            obtain ⟨hpage, rfl, rfl, -⟩ := WireRegistry.prepareRestOrderProof_ok h
            simp only [provesWire, Bool.and_eq_true, decide_eq_true_eq] at hproof
            obtain ⟨rfl, rfl⟩ := hproof
            exact captured_page ha ht hpage.last
  cases rec with
  | orderTxn o => exact decide_eq_true (hc.newFrame hproof)
  | executionTxn e =>
      cases he : e.order with
      | none => simp [provesWire, he] at hproof
      | some o =>
          simp only [provesWire, he, Option.any_some] at hproof
          simp [Desk.newer, WireRegistry.orderPart, he, hc.newFrame hproof]
  | _ => exact decide_eq_true (hcaptured rfl)

theorem Moved.journal_grows (h : Moved s act s') : s.journal.length ≤ s'.journal.length := by
  cases h with
  | idle => exact Nat.le_refl _
  | created _ => exact Nat.le_refl _
  | ordered _ _ _ _ _ => simp
  | executed _ _ h => simp [h.journal]
  | observed _ _ _ _ h => simp [h.journal]
  | noted _ _ => simp

/-! ## A run of the desk -/

/-- The hold stands, and what was finished behind it carries the hold on or discharges it. -/
structure Standing (p : Nat) (l : LedgerId) (w : VenueOrderId) (d : Desk) : Prop where
  orderly : d.Orderly
  now : p < d.now
  wire : Carried p (d.wire l w)
  waiting : ∀ x ∈ d.waiting, x.txn.ledger = l → x.txn.wire = w → p < x.finished →
    Carried p x.txn.wireAfter ∨ roundDischarges x.txn = true

variable {d' : Desk}

/-- What is applied in time carries the hold on, unless it proves the wire anew. -/
theorem Standing.apply {i : Nat} {x : Waiting} {keys : List OrderKey} (hs : Standing p l w d)
    (hx : d.waiting[i]? = some x) (ht : d.timely p l w (.apply i keys) = true)
    (hn : ∀ rec ∈ x.txn.journal.toList, provesWire l w (d.wire l w) rec = true →
      d.newer p l w (.apply i keys) rec = false)
    (hl : x.txn.ledger = l) (hw : x.txn.wire = w) : Carried p x.txn.wireAfter := by
  simp only [Desk.timely, hx, Option.all_some, hl, hw, decide_true, Bool.and_self, Bool.not_true,
    Bool.false_or, Bool.and_eq_true, Bool.or_eq_true, Bool.not_eq_true', decide_eq_true_eq] at ht
  have hmem := List.mem_of_getElem? hx
  rcases hs.waiting x hmem hl hw ht.1 with hc | hd
  · exact hc
  · -- a round that discharges the hold was begun behind it
    have hbegun : p < x.begun := ht.2.resolve_left (by simp [hd])
    obtain ⟨_, _, _, _, _, hfin⟩ := hs.orderly.finished x hmem
    obtain ⟨rec, hrec, hpart, hproof⟩ := finish_proves hfin hd (d.wire l w)
    rw [hl, hw] at hproof
    have hold := hn rec hrec hproof
    simp only [Desk.newer, hpart, Desk.captured, hx, Option.map_some, Option.getD_some,
      decide_eq_false_iff_not] at hold
    exact absurd hbegun hold

theorem Turned.standing (h : Turned d a d') (hs : Standing p l w d) (ht : d.timely p l w a = true)
    (hn : ∀ rec ∈ d'.shell.journal.drop d.now, provesWire l w (d.wire l w) rec = true →
      d.newer p l w a rec = false) : Standing p l w d' := by
  have horderly := h.orderly hs.orderly
  cases h with
  | @acted act stamps ha =>
      have hm := Shell.step_moved hs.orderly.sound act
      refine ⟨horderly, Nat.lt_of_lt_of_le hs.now hm.journal_grows, ?_, hs.waiting⟩
      refine hm.carried hs.wire (Nat.le_of_lt hs.now) fun rec hrec => ?_
      cases hproof : provesWire l w (d.shell.registry.ensure l w) rec with
      | false => rfl
      | true =>
          have hnew := hm.newer ha hs.wire hs.now ht hrec hproof
          rw [hn rec hrec hproof] at hnew
          cases hnew
  | arranged hw =>
      refine ⟨horderly, hs.now, hs.wire, fun x hx hl hw' hp => ?_⟩
      rcases hw x hx with hx | ⟨-, round, _, rows, ev, _, hfin⟩
      · exact hs.waiting x hx hl hw' hp
      · have hf := ObservationRound.finish_ok hfin
        refine Carried.finish ?_ hfin
        rw [← hf.ledger, ← hf.wire, hl, hw']
        exact hs.wire
  | @applied i x keys _ _ _ s' waiting stamps ha hx _ _ hc hw =>
      subst ha
      refine ⟨horderly, ?_, ?_, fun y hy => hs.waiting y (hw y hy)⟩
      · have hnow := hs.now
        simp only [Desk.now, hc.journal, List.length_append] at hnow ⊢
        omega
      · rw [Desk.wire, hc.registry, WireRegistry.ensure_set]
        split
        · rename_i heq
          refine hs.apply hx ht (fun rec hrec => hn rec ?_) heq.1.symm heq.2.symm
          simpa [Desk.now, hc.journal] using hrec
        · exact hs.wire

/-- Nothing waits that was finished behind the end of the journal. -/
def Desk.Finished (d : Desk) : Prop := ∀ x ∈ d.waiting, x.finished ≤ d.now

theorem Turned.finished (h : Turned d a d') (hs : Sound d.shell) (hd : d.Finished) : d'.Finished := by
  cases h with
  | acted _ =>
      exact fun x hx => Nat.le_trans (hd x hx) (Shell.step_moved hs _).journal_grows
  | arranged hw =>
      intro x hx
      rcases hw x hx with hx | ⟨hnow, -⟩
      · exact hd x hx
      · exact Nat.le_of_eq hnow
  | applied _ _ _ _ hc hw =>
      intro y hy
      have hle := hd y (hw y hy)
      simp only [Desk.now, hc.journal, List.length_append] at hle ⊢
      omega

theorem desk_finished (acts : List DeskAction) :
    (desk.final .new acts).Orderly ∧ (desk.final .new acts).Finished :=
  desk.invariant (I := fun d => d.Orderly ∧ d.Finished)
    (fun d a hd => ⟨d.step_orderly hd.1 a, (d.step_turned a).finished hd.1.sound hd.2⟩)
    ⟨Desk.orderly_new, fun _ h => nomatch h⟩ acts

/-- The hold stands right after it is folded. -/
theorem hold_standing (hd : d.Orderly) (hf : d.Finished) (l : LedgerId) (w : VenueOrderId) :
    Standing d.now l w (desk.step d (.shell (.hold l w))).2 := by
  have hstep : (desk.step d (.shell (.hold l w))).2 =
      { d with shell := { d.shell with
          registry := d.shell.registry.set l w ((d.wire l w).holdAuthority d.now)
          journal := d.shell.journal ++ [.orderAuthorityHold l w] } } := rfl
  refine ⟨d.step_orderly hd _, ?_, ?_, ?_⟩
  · simp [hstep, Desk.now]
  · rw [hstep, Desk.wire, WireRegistry.ensure_set_self]
    exact holdAuthority_carried _ (Nat.le_refl _)
  · rw [hstep]
    exact fun x hx _ _ hp => absurd (hf x hx) (Nat.not_le.mpr hp)

theorem Standing.held (h : Standing p l w d) :
    (d.wire l w).authorityHold = true ∧ d.shell.registry.workingView l w = .unresolved := by
  refine ⟨h.wire.hold, ?_⟩
  have hhold := h.wire.hold
  simp only [Desk.wire, WireRegistry.ensure] at hhold
  simp only [WireRegistry.workingView]
  cases hget : d.shell.registry.get l w with
  | none => rfl
  | some ws =>
      rw [hget, Option.getD_some] at hhold
      simp [WireRegistry.wireView, hhold]

theorem Standing.run {mid : List DeskAction} (hs : Standing p l w d)
    (ht : desk.Always (fun d a => d.timely p l w a = true) d mid)
    (hn : desk.Always (fun d a => d.newlyProved p l w a = false) d mid) :
    Standing p l w (desk.final d mid) := by
  induction mid generalizing d with
  | nil => exact hs
  | cons a mid ih =>
      refine ih ((d.step_turned a).standing hs ht.1 fun rec hrec hproof => ?_) ht.2 hn.2
      have hold := List.any_eq_false.mp hn.1 rec hrec
      simpa [hproof] using hold

/-- In a run whose steps are all timely, a hold stands until newer evidence proves its wire. -/
theorem hold_stands_until_newer_proof (pre mid : List DeskAction) (l : LedgerId) (w : VenueOrderId)
    (ht : desk.Always (fun d a => d.timely (desk.final .new pre).now l w a = true)
      (desk.final .new (pre ++ [.shell (.hold l w)])) mid)
    (hn : desk.Always (fun d a => d.newlyProved (desk.final .new pre).now l w a = false)
      (desk.final .new (pre ++ [.shell (.hold l w)])) mid) :
    ((desk.final .new (pre ++ .shell (.hold l w) :: mid)).wire l w).authorityHold = true ∧
      (desk.final .new (pre ++ .shell (.hold l w) :: mid)).shell.registry.workingView l w =
        .unresolved := by
  obtain ⟨hd, hf⟩ := desk_finished pre
  have hstart : Standing (desk.final .new pre).now l w
      (desk.final .new (pre ++ [.shell (.hold l w)])) := by
    rw [desk.final_append]
    exact hold_standing hd hf l w
  have hend := hstart.run ht hn
  rw [← desk.final_append, List.append_assoc, List.singleton_append] at hend
  exact hend.held

/-! ## A round that was open at the hold -/

/-- An order of three rests, and a round is open over a page. -/
def openRound (exhaustive : Bool) : List DeskAction :=
  (placed ⟨"c"⟩).map .shell ++ [.begin knownLedger ⟨"v"⟩, .page 0 ⟨exhaustive, 0⟩]

/-- The round is closed over the order, and applied. -/
def closeRound : List DeskAction :=
  [.finish 0 [⟨knownLedger, ⟨"c"⟩⟩] ⟨knownLedger, ⟨"v"⟩, .openOrder, 0, 3, none, 0⟩,
    .apply 0 [⟨knownLedger, ⟨"c"⟩⟩]]

/-- The desk after the round, with a hold of the wire folded before its close. -/
def heldRound (exhaustive : Bool) : Desk :=
  desk.final .new (openRound exhaustive ++ .shell (.hold knownLedger ⟨"v"⟩) :: closeRound)

/-- A round that proves nothing leaves the hold, even though it was begun before it. -/
theorem hold_stands_incomplete : ((heldRound false).wire knownLedger ⟨"v"⟩).authorityHold = true ∧
    (heldRound false).shell.registry.workingView knownLedger ⟨"v"⟩ = .unresolved :=
  hold_stands_until_newer_proof (openRound false) closeRound knownLedger ⟨"v"⟩ (by decide) (by decide)

/-- A round that was begun before the hold clears it. -/
theorem hold_cleared_by_open_round : ¬ ∀ (pre mid : List DeskAction) (l : LedgerId) (w : VenueOrderId),
    desk.Always (fun d a => d.newlyProved (desk.final .new pre).now l w a = false)
      (desk.final .new (pre ++ [.shell (.hold l w)])) mid →
    ((desk.final .new (pre ++ .shell (.hold l w) :: mid)).wire l w).authorityHold = true ∧
      (desk.final .new (pre ++ .shell (.hold l w) :: mid)).shell.registry.workingView l w =
        .unresolved := by
  intro h
  have hhold := (h (openRound true) closeRound knownLedger ⟨"v"⟩ (by decide)).1
  exact absurd hhold (by decide)

end Omsrs.Observation
