import Omsrs.Observation.Lemmas.Proof
import Omsrs.Observation.Lemmas.Round
import Omsrs.Observation.Shell

/-!
# What a step of the shell can do

A step leaves the shell alone, or takes in one transaction whole: the orders, the inventory, the journal
and the registry. No record is folded twice or refused.
-/

namespace Omsrs.Observation
open Omsrs.Lib Omsrs.Lifecycle Omsrs.Execution

/-! ## The order part of a transaction -/

/-- The core's answer to an order: that to an event of the recorded kind, or one halt for a batch that
is all of the other side. -/
inductive CoreAnswer (row : OrderRow) (event : OrderEvent) : TransitionOutcome → OrderCtx → Prop
  | event {e : OrderEvent} (hname : eventName e = eventName event) :
      CoreAnswer row event (applyEvent row.state row.ctx e).1 (applyEvent row.state row.ctx e).2
  | sides (hf : isRestartFrozen row.state = false) :
      CoreAnswer row event
        (haltWithReason (.crossCheckMismatch "execution side mismatch with order ctx.side") []) row.ctx

/-- The record `o` advances the row to `a`, on the core's answer. -/
structure Advances (row : OrderRow) (event : OrderEvent) (t : TransitionOutcome) (o : OrderTxnRecord)
    (a : OrderAfter) : Prop where
  answer : CoreAnswer row event t a.ctx
  state : a.state = stateAfterTransition t row.state
  next : row.cursor.next = .ok a.seq
  record : o = orderRecord row event t a.seq a.state a.ctx

variable {row : OrderRow} {event : OrderEvent} {tr : TransitionOutcome} {o : OrderTxnRecord}
  {a : OrderAfter}

theorem CoreAnswer.ids {d : OrderCtx} (h : CoreAnswer row event tr d) :
    d.clientOrderId = row.ctx.clientOrderId ∧ d.market = row.ctx.market := by
  cases h with
  | @event e _ => exact ⟨(applyEvent_takes _ _ e).client, (applyEvent_takes _ _ e).market⟩
  | sides _ => exact ⟨rfl, rfl⟩

theorem next_ok {c : OrderCursor} {seq : Nat} (h : c.next = .ok seq) : seq = c.seq + 1 := by
  simp only [OrderCursor.next] at h
  cases hc : checkedAdd u64Max c.seq 1 with
  | none => simp [hc] at h
  | some n =>
      rw [hc] at h
      cases h
      exact (checkedAdd_eq_some.mp hc).2

theorem prepareOrderEvent_ok {t : OrderTransaction} (h : prepareOrderEvent row event = .ok t) :
    t.prepared = row ∧ row.ctx.market = row.ledger.market ∧ ((t.journal = none ∧ t.after = none) ∨
      ∃ tr o a, t.journal = some (.orderTxn o) ∧ t.after = some a ∧ Advances row event tr o a) := by
  simp only [prepareOrderEvent] at h
  split at h
  · cases h
  · rename_i hmarket
    have hmarket : row.ctx.market = row.ledger.market := not_not.mp hmarket
    split at h
    · cases h
    · split at h
      · cases h
        exact ⟨rfl, hmarket, .inl ⟨rfl, rfl⟩⟩
      · split at h
        · cases h
          exact ⟨rfl, hmarket, .inl ⟨rfl, rfl⟩⟩
        · simp only [bind, Except.bind] at h
          split at h
          · cases h
          · rename_i seq hseq
            cases h
            exact ⟨rfl, hmarket, .inr ⟨_, _, _, rfl, rfl, .event rfl, rfl, hseq, rfl⟩⟩

theorem eventName_rebuild (event : OrderEvent) (admitted : List (FillId × StagedPayload))
    (positions : List Nat) :
    eventName (rebuildEventWithFills event admitted positions) = eventName event := by
  cases event <;> rfl

/-- The event brings fills, or is of a kind that may bring none. -/
def bringsFills (event : OrderEvent) : Bool := !event.fills.isEmpty || isStructured event

/-- A batch without executions asks the core of a structured event only. -/
theorem batchCore_brings {inv : MarketInventory} {es : List ExecutionEvidence}
    {pre : List (ExecutionEvidence × PreCore)} {staging : Staging} {r : TransitionOutcome × OrderCtx}
    (hfills : checkEvidenceMatchesFills event.fills es = .ok ())
    (hpre : adjudicate row inv es = (pre, staging))
    (h : batchCore row inv event pre staging = some r) : bringsFills event = true := by
  cases es with
  | nil =>
      have hnil : pre = [] := by
        simp only [adjudicate] at hpre
        split at hpre <;> (cases hpre; rfl)
      subst hnil
      simp only [batchCore, allSideMismatch, admittedFills] at h
      simp only [List.all_nil, List.any_nil, Bool.true_and, List.filterMap_nil, List.isEmpty_nil,
        Bool.not_true, Bool.false_or, Bool.false_eq_true, if_false] at h
      split at h
      · cases h
      · split at h
        · rename_i hstruct
          simp [bringsFills, hstruct]
        · cases h
  | cons e es =>
      simp only [checkEvidenceMatchesFills] at hfills
      split at hfills
      · cases hfills
      · rename_i hlen
        cases hf : event.fills with
        | nil => simp [hf] at hlen
        | cons f fs => simp [bringsFills, hf]

/-- The order part of a batch advances a row of the inventory's own ledger. -/
theorem batchParts_advances {inv : MarketInventory} {es : List ExecutionEvidence}
    {t : ExecutionTransaction} (b : BatchParts row inv event es t)
    (hfills : checkEvidenceMatchesFills event.fills es = .ok ()) (h : b.part = some (o, a)) :
    rowForeign row inv = false ∧ bringsFills event = true ∧ ∃ tr, Advances row event tr o a := by
  have hbrings : bringsFills event = true := by
    cases hcore : batchCore row inv event (adjudicate row inv es).1 (adjudicate row inv es).2 with
    | some r => exact batchCore_brings hfills rfl hcore
    | none =>
        have hpart := b.part_eq
        rw [h, b.core_eq, hcore] at hpart
        cases hpart
  have hpart := b.part_eq
  rw [h, b.core_eq] at hpart
  simp only [batchCore] at hpart
  split at hpart
  · cases hpart
  · rename_i hforeign
    refine ⟨by simpa using hforeign, hbrings, ?_⟩
    have hanswer : ∀ {tr : TransitionOutcome} {d : OrderCtx}, CoreAnswer row event tr d →
        orderPart row event (some (tr, d)) = .ok (some (o, a)) → ∃ tr, Advances row event tr o a := by
      intro tr d hd hp
      simp only [orderPart, bind, Except.bind] at hp
      split at hp
      · split at hp
        · cases hp
        · rename_i seq hseq
          cases hp
          exact ⟨tr, hd, rfl, hseq, rfl⟩
      · cases hp
    split at hpart
    · split at hpart
      · cases hpart
      · rename_i hfrozen
        exact hanswer (.sides (by simpa using hfrozen)) hpart
    · split at hpart
      · exact hanswer (.event (eventName_rebuild _ _ _)) hpart
      · cases hpart

/-! ## Steps -/

/-- The evidence an action brings. -/
def ShellAction.evidences : ShellAction → List ExecutionEvidence
  | .execution _ _ e => [e]
  | .batch _ _ _ es => es
  | _ => []

/-- What an action appends of a wire. -/
inductive Noted (s : Shell) : ShellAction → Record → Prop
  | amend {l : LedgerId} {w : VenueOrderId} {lineage : AmendLineage} {rec : Record}
      (h : s.registry.prepareAmendLineage l w lineage = .ok rec) :
      Noted s (.amendLineage l w lineage) rec
  | frame {l : LedgerId} {w : VenueOrderId} {e : UserOrderEvidence} {rec : Record}
      (h : s.registry.prepareUserOrderReceived l w e = .ok (some rec)) : Noted s (.userOrder l w e) rec
  | state {l : LedgerId} {w : VenueOrderId} {t : OrderStateTxnRecord}
      (h : s.registry.prepareOrderStateResting l w (s.inventory l) = .ok t) :
      Noted s (.orderState l w) (.orderStateTxn t)
  | page {l : LedgerId} {w : VenueOrderId} {cid : ClientOrderId} {filled remaining initial : Nat}
      {t : RestOrderProofTxnRecord}
      (h : s.registry.prepareRestOrderProof l w cid filled remaining initial (s.inventory l) = .ok t) :
      Noted s (.restProof l w cid filled remaining initial) (.restOrderProofTxn t)
  | hold {l : LedgerId} {w : VenueOrderId} : Noted s (.hold l w) (.orderAuthorityHold l w)

/-- What the transaction of an action's evidence was prepared from. -/
inductive PreparedFor (s : Shell) (l : LedgerId) :
    ShellAction → Option (OrderKey × OrderRow) → ExecutionTransaction → Prop
  | norow {e : ExecutionEvidence} {t : ExecutionTransaction}
      (h : prepareExecutionNorow (s.inventory l) e = .ok t) :
      PreparedFor s l (.execution none l e) none t
  | batch {act : ShellAction} {key : OrderKey} {row : OrderRow} {event : OrderEvent}
      {t : ExecutionTransaction} (hrow : s.orders.get? key = some row)
      (hact : (∃ e, act = .execution (some key) l e) ∨
        act = .batch key l event act.evidences)
      (h : prepareExecutionBatch row (s.inventory l) event act.evidences = .ok t) :
      PreparedFor s l act (some (key, row)) t

theorem PreparedFor.prepared {s : Shell} {l : LedgerId} {act : ShellAction}
    {target : Option (OrderKey × OrderRow)} {t : ExecutionTransaction}
    (h : PreparedFor s l act target t) : Prepared (s.inventory l) (target.map (·.2)) t := by
  cases h with
  | @norow e _ h => exact .single (e := e) (show prepareExecution none _ e = .ok _ from h)
  | batch _ _ h => exact .batch h

/-- The row under a key, once the target has advanced. -/
def rowAfter (s : Shell) (target : Option (OrderKey × OrderRow)) (after : Option OrderAfter)
    (key' : OrderKey) : Option OrderRow :=
  match target with
  | some (key, row) => if key' = key then some (row.advance after) else s.orders.get? key'
  | none => s.orders.get? key'

/-- The order part of a record, on the wire `l`, `w`. -/
def foldPart (pos : Nat) (part : Option (OrderTxnRecord × OrderAfter)) (l : LedgerId) (w : VenueOrderId)
    (ws : WireState) : WireState :=
  match part with
  | some (o, _) => ws.foldOrder pos o l w
  | none => ws

def seePart (part : Option (OrderTxnRecord × OrderAfter)) (seen : OrdMap TxnKey OrderTxnRecord) :
    OrdMap TxnKey OrderTxnRecord :=
  match part with
  | some (o, _) => seen.insert (WireRegistry.txnKey o) o
  | none => seen

/-- The transaction `t` is installed whole: the inventory of `l`, the row of the target, the journal and
the wires. `part` is its order part. -/
structure Installed (s : Shell) (l : LedgerId) (target : Option (OrderKey × OrderRow))
    (t : ExecutionTransaction) (part : Option (OrderTxnRecord × OrderAfter)) (s' : Shell) : Prop where
  inventory : ∀ l', s'.inventory l' =
    if l' = l then (s.inventory l).install t.plannedEntries t.plannedConflicts else s.inventory l'
  orders : ∀ key, s'.orders.get? key = rowAfter s target (part.map (·.2)) key
  wires : ∀ l' w, s'.registry.ensure l' w =
    t.outcomes.foldl (WireState.foldExecution l l' w)
      (foldPart s.journal.length part l' w (s.registry.ensure l' w))
  seen : s'.registry.seenOrder = seePart part s.registry.seenOrder
  journal : s'.journal = s.journal ++ t.journal.toList
  journaled : (t.journal = none ∧ part = none ∧ t.outcomes.filterMap (·.write) = []) ∨
    t.journal = some (.executionTxn ⟨l, (s.inventory l).generation, t.outcomes, part.map (·.1)⟩)

/-- The round of an observation is applied to its members and its wire. -/
structure Closed (s : Shell) (l : LedgerId) (w : VenueOrderId) (keys : List OrderKey)
    (t : ObservationTransaction) (s' : Shell) : Prop where
  orders : ∀ key, s'.orders.get? key =
    (s.orders.get? key).map fun row => if key ∈ keys then t.advance row else row
  inventories : s'.inventories = s.inventories
  registry : s'.registry = s.registry.set l w t.wireAfter
  journal : s'.journal = s.journal ++ t.journal.toList

/-- What a step does. -/
inductive Moved (s : Shell) (act : ShellAction) : Shell → Prop
  | idle : Moved s act s
  | created {key : OrderKey} {market strategy : String} {side : Side} {priceCents qty : Nat}
      (hnew : s.orders.get? key = none) : Moved s act (s.setOrder key
        ⟨key.ledger, ⟨0⟩, .new, .new key.cid market strategy side priceCents qty⟩)
  | ordered {key : OrderKey} {row : OrderRow} {event : OrderEvent} {tr : TransitionOutcome}
      {o : OrderTxnRecord} {a : OrderAfter} {registry : WireRegistry} (hact : act = .order key event)
      (hrow : s.orders.get? key = some row) (hmarket : row.ctx.market = row.ledger.market) (hadv : Advances row event tr o a)
      (hfold : s.registry.foldOrderPart s.journal.length o = .ok registry) :
      Moved s act ⟨s.orders.insert key (row.advance (some a)), s.inventories, registry,
        s.journal ++ [.orderTxn o]⟩
  | executed {l : LedgerId} {target : Option (OrderKey × OrderRow)} {t : ExecutionTransaction}
      {part : Option (OrderTxnRecord × OrderAfter)} {s' : Shell} (hprep : PreparedFor s l act target t)
      (hpart : ∀ o a, part = some (o, a) → ∃ key row event tr, target = some (key, row) ∧
        row.ledger = l ∧ bringsFills event = true ∧ Advances row event tr o a)
      (h : Installed s l target t part s') : Moved s act s'
  | observed {l : LedgerId} {w : VenueOrderId} {outcomes : List ExecutionOutcome}
      {page : Option PageMeta} {keys : List OrderKey} {rows : List OrderRow} {row : RowEvidence}
      {round : ObservationRound} {t : ObservationTransaction} {s' : Shell}
      (hact : act = .observe l w outcomes page keys row) (hrows : keys.mapM s.orders.get? = some rows)
      (hround : round.ledger = l ∧ round.wire = w)
      (hfin : round.finish s.registry (s.inventory l) rows row = .ok t) (h : Closed s l w keys t s') :
      Moved s act s'
  | noted {rec : Record} {registry : WireRegistry} (hrec : Noted s act rec)
      (hfold : s.registry.fold s.journal.length rec = .ok registry) :
      Moved s act { s with registry := registry, journal := s.journal ++ [rec] }

/-- The rows stand under their own ids, the inventories under their own ledgers, and every record of an
order that was folded is behind its cursor. -/
structure Sound (s : Shell) : Prop where
  ledger : ∀ key row, s.orders.get? key = some row → row.ledger = key.ledger
  client : ∀ key row, s.orders.get? key = some row → row.ctx.clientOrderId = key.cid
  inventory : ∀ l, (s.inventory l).ledger = l
  seen : ∀ k o, s.registry.seenOrder.get? k = some o →
    ∃ row, s.orders.get? ⟨k.ledger, k.clientOrderId⟩ = some row ∧ k.seq ≤ row.cursor.seq

namespace Shell

theorem sound_new : Sound new :=
  ⟨fun _ _ h => (nomatch h), fun _ _ h => (nomatch h), fun _ => rfl, fun _ _ h => (nomatch h)⟩

end Shell

/-! ## No record is refused -/

theorem foldOrderPart_new {r : WireRegistry} (pos : Nat)
    (h : r.seenOrder.get? (WireRegistry.txnKey o) = none) :
    ∃ registry, r.foldOrderPart pos o = .ok registry := by
  simp only [WireRegistry.txnKey] at h
  simp only [WireRegistry.foldOrderPart, h]
  split <;> exact ⟨_, rfl⟩

variable {s : Shell}

theorem Advances.txnKey (h : Advances row event tr o a) :
    WireRegistry.txnKey o = ⟨row.ledger, row.ctx.clientOrderId, row.cursor.seq + 1⟩ := by
  rw [WireRegistry.txnKey, h.record, orderRecord, next_ok h.next]

/-- The record of a row's next transaction was not seen. -/
theorem Sound.unseen (hs : Sound s) {key : OrderKey} (hrow : s.orders.get? key = some row)
    (h : Advances row event tr o a) : s.registry.seenOrder.get? (WireRegistry.txnKey o) = none := by
  cases hseen : s.registry.seenOrder.get? (WireRegistry.txnKey o) with
  | none => rfl
  | some prev =>
      obtain ⟨row', hrow', hle⟩ := hs.seen _ _ hseen
      rw [h.txnKey] at hrow' hle
      dsimp only at hrow' hle
      rw [hs.ledger key row hrow, hs.client key row hrow, show (⟨key.ledger, key.cid⟩ : OrderKey) = key
        from rfl, hrow] at hrow'
      cases hrow'
      omega

theorem Shell.append_ok (rec : Record) {registry : WireRegistry}
    (h : s.registry.fold s.journal.length rec = .ok registry) :
    (s.append rec).2 = { s with registry := registry, journal := s.journal ++ [rec] } := by
  simp only [Shell.append, h]

/-- The order part of a transaction, and its journal. -/
theorem PreparedFor.part {l : LedgerId} {act : ShellAction} {target : Option (OrderKey × OrderRow)}
    {t : ExecutionTransaction} (hs : Sound s) (h : PreparedFor s l act target t) :
    ∃ part : Option (OrderTxnRecord × OrderAfter), t.after = part.map (·.2) ∧
      (∀ o a, part = some (o, a) → ∃ key row event tr, target = some (key, row) ∧ row.ledger = l ∧
        bringsFills event = true ∧ Advances row event tr o a) ∧
      ((t.journal = none ∧ part = none ∧ t.outcomes.filterMap (·.write) = []) ∨
        t.journal =
          some (.executionTxn ⟨l, (s.inventory l).generation, t.outcomes, part.map (·.1)⟩)) := by
  have hplan := h.prepared.wellPlanned
  have hjournal : ∀ part : Option OrderTxnRecord,
      t.journal = executionJournal (s.inventory l) t.outcomes part →
      (t.journal = none ∧ part = none ∧ t.outcomes.filterMap (·.write) = []) ∨
        t.journal = some (.executionTxn ⟨l, (s.inventory l).generation, t.outcomes, part⟩) := by
    intro part hj
    rw [executionJournal] at hj
    split at hj
    · exact .inr (by rw [hj, hs.inventory])
    · rename_i hno
      simp only [Bool.or_eq_true, not_or, Bool.not_eq_true, Option.isSome_eq_false_iff,
        Option.isNone_iff_eq_none] at hno
      rcases hplan.journaled with ⟨_, hw, _⟩ | ⟨_, hsome⟩
      · exact .inl ⟨hj, hno.1, hw⟩
      · rw [hj] at hsome
        cases hsome
  cases h with
  | @norow e _ h =>
      refine ⟨none, ?_, by simp, ?_⟩
      · simp only [prepareExecutionNorow] at h
        split at h
        · cases h
        · cases h
          rfl
      · have := hjournal none (by
          simp only [prepareExecutionNorow] at h
          split at h
          · cases h
          · cases h
            rfl)
        simpa using this
  | @batch _ key row event _ hrow hact h =>
      obtain ⟨b⟩ := prepareExecutionBatch_parts h
      refine ⟨b.part, b.after, fun o a hp => ?_, ?_⟩
      · obtain ⟨hf, hbrings, tr, hadv⟩ := batchParts_advances b (prepared_checks h).1 hp
        refine ⟨key, row, event, tr, rfl, ?_, hbrings, hadv⟩
        simp only [rowForeign, Bool.or_eq_false_iff, decide_eq_false_iff_not, not_not] at hf
        rw [hf.1, hs.inventory]
      · have := hjournal (b.part.map (·.1)) b.journal
        simpa using this

/-! ## Each action -/

namespace Shell

theorem order_moved (hs : Sound s) (key : OrderKey) (event : OrderEvent) :
    Moved s (.order key event) (s.order key event).2 := by
  simp only [order]
  split
  · exact .idle
  · rename_i row hrow
    split
    · exact .idle
    · rename_i t ht
      obtain ⟨hprep, hmarket, hcases⟩ := prepareOrderEvent_ok ht
      have happly : t.apply row = .ok (row.advance t.after) := by
        simp [OrderTransaction.apply, hprep, checkTarget, bind, Except.bind]
      rw [happly]
      rcases hcases with ⟨hj, ha⟩ | ⟨tr, o, a, hj, ha, hadv⟩
      · rw [hj, ha]
        dsimp only [appendAny, OrderRow.advance]
        rw [setOrder, OrdMap.insert_get? hrow]
        exact .idle
      · rw [hj, ha]
        dsimp only [appendAny]
        obtain ⟨registry, hfold⟩ := foldOrderPart_new s.journal.length (hs.unseen hrow hadv)
        rw [append_ok (s := s.setOrder key (row.advance (some a))) (.orderTxn o) hfold]
        exact .ordered rfl hrow hmarket hadv hfold

theorem install_inventory (s : Shell) (l l' : LedgerId) (inv : MarketInventory)
    (target : Option (OrderKey × OrderRow)) (row : Option OrderRow) :
    (s.install l inv target row).inventory l' = if l' = l then inv else s.inventory l' := by
  have hset : ∀ orders : OrdMap OrderKey OrderRow,
      Shell.inventory ⟨orders, s.inventories.insert l inv, s.registry, s.journal⟩ l' =
        if l' = l then inv else s.inventory l' := by
    intro orders
    simp only [inventory, OrdMap.get?_insert]
    split <;> rfl
  cases target <;> cases row <;> exact hset _

theorem install_orders (s : Shell) (l : LedgerId) (inv : MarketInventory)
    (target : Option (OrderKey × OrderRow)) (after : Option OrderAfter) (key : OrderKey) :
    (s.install l inv target ((target.map (·.2)).map (·.advance after))).orders.get? key =
      rowAfter s target after key := by
  cases target with
  | none => rfl
  | some kr =>
      obtain ⟨key', row⟩ := kr
      by_cases h : key = key' <;> simp [install, setOrder, rowAfter, OrdMap.get?_insert, h]

theorem install_registry (s : Shell) (l : LedgerId) (inv : MarketInventory)
    (target : Option (OrderKey × OrderRow)) (row : Option OrderRow) :
    (s.install l inv target row).registry = s.registry := by
  cases target <;> cases row <;> rfl

theorem install_journal (s : Shell) (l : LedgerId) (inv : MarketInventory)
    (target : Option (OrderKey × OrderRow)) (row : Option OrderRow) :
    (s.install l inv target row).journal = s.journal := by
  cases target <;> cases row <;> rfl

/-- Outcomes that write nothing leave every wire alone. -/
theorem foldExecutions_silent {os : List ExecutionOutcome} (h : os.filterMap (·.write) = [])
    (ledger l : LedgerId) (w : VenueOrderId) (ws : WireState) :
    os.foldl (WireState.foldExecution ledger l w) ws = ws := by
  induction os with
  | nil => rfl
  | cons o os ih =>
      have hw : o.write = none := by
        cases hw : o.write with
        | none => rfl
        | some x => simp [hw] at h
      rw [List.foldl_cons, WireState.foldExecution, hw]
      exact ih (by simpa [hw] using h)

/-- Folding the record of a transaction whose order part is new. -/
theorem fold_executionTxn {r : WireRegistry} (pos : Nat) (l : LedgerId) (g : Nat)
    (os : List ExecutionOutcome) {part : Option (OrderTxnRecord × OrderAfter)}
    (hnew : ∀ o a, part = some (o, a) → r.seenOrder.get? (WireRegistry.txnKey o) = none) :
    ∃ registry, r.fold pos (.executionTxn ⟨l, g, os, part.map (·.1)⟩) = .ok registry ∧
      registry.seenOrder = seePart part r.seenOrder ∧
      ∀ l' w, registry.ensure l' w =
        os.foldl (WireState.foldExecution l l' w) (foldPart pos part l' w (r.ensure l' w)) := by
  have hseen : ∀ r : WireRegistry, (r.foldExecutions l os).seenOrder = r.seenOrder := by
    intro r
    rw [WireRegistry.foldExecutions]
    induction os generalizing r with
    | nil => rfl
    | cons o os ih =>
        rw [List.foldl_cons, ih]
        simp only [WireRegistry.foldExecution, WireRegistry.indexExecution]
        split <;> split <;> (try split) <;> rfl
  cases part with
  | none => exact ⟨_, rfl, hseen r, fun l' w => WireRegistry.ensure_foldExecutions r l os l' w⟩
  | some x =>
      obtain ⟨o, a⟩ := x
      obtain ⟨r₁, hr₁⟩ := foldOrderPart_new pos (hnew o a rfl)
      refine ⟨r₁.foldExecutions l os, ?_, ?_, fun l' w => ?_⟩
      · simp only [WireRegistry.fold, Option.map_some, hr₁]
        rfl
      · rcases WireRegistry.foldOrderPart_ok hr₁ with ⟨hs, _⟩ | ⟨_, hs, _⟩
        · rw [hnew o a rfl] at hs
          cases hs
        · exact (hseen r₁).trans hs
      · rcases WireRegistry.foldOrderPart_ok hr₁ with ⟨hs, _⟩ | ⟨_, _, hw⟩
        · rw [hnew o a rfl] at hs
          cases hs
        · rw [WireRegistry.ensure_foldExecutions, hw]
          rfl

/-- A transaction that is applied to what it was prepared from is installed whole. -/
theorem applyExecution_installed (hs : Sound s) {l : LedgerId} {act : ShellAction}
    {target : Option (OrderKey × OrderRow)} {t : ExecutionTransaction}
    (h : PreparedFor s l act target t) :
    ∃ part : Option (OrderTxnRecord × OrderAfter),
      (∀ o a, part = some (o, a) → ∃ key row event tr, target = some (key, row) ∧ row.ledger = l ∧
        bringsFills event = true ∧ Advances row event tr o a) ∧
      Installed s l target t part (s.applyExecution target l t).2 := by
  obtain ⟨part, hafter, hpart, hjournal⟩ := h.part hs
  refine ⟨part, hpart, ?_⟩
  have hplan := h.prepared.wellPlanned
  have happly := apply_own h.prepared.preparedOrder hplan.ledger hplan.generation
  simp only [applyExecution, happly]
  generalize hs' : s.install l ((s.inventory l).install t.plannedEntries t.plannedConflicts) target
    ((target.map (·.2)).map (·.advance t.after)) = s'
  have hregistry : s'.registry = s.registry := hs' ▸ install_registry ..
  have hlog : s'.journal = s.journal := hs' ▸ install_journal ..
  have hinv : ∀ l', s'.inventory l' = if l' = l then
      (s.inventory l).install t.plannedEntries t.plannedConflicts else s.inventory l' :=
    fun l' => hs' ▸ install_inventory ..
  have horders : ∀ key, s'.orders.get? key = rowAfter s target (part.map (·.2)) key := fun key => by
    rw [← hs', install_orders, hafter]
  have hnew : ∀ o a, part = some (o, a) →
      s'.registry.seenOrder.get? (WireRegistry.txnKey o) = none := by
    intro o a hp
    obtain ⟨key, row, event, tr, htarget, -, -, hadv⟩ := hpart o a hp
    cases h with
    | norow _ => cases htarget
    | batch hrow _ _ =>
        cases htarget
        rw [hregistry]
        exact hs.unseen hrow hadv
  rcases hjournal with ⟨hj, rfl, hwrites⟩ | hj
  · rw [hj]
    refine ⟨hinv, horders, fun l' w => ?_, ?_, ?_, .inl ⟨hj, rfl, hwrites⟩⟩
    · rw [foldExecutions_silent hwrites]
      exact congrArg (WireRegistry.ensure · l' w) hregistry
    · exact congrArg _ hregistry
    · rw [hj]
      simpa [appendAny] using hlog
  · obtain ⟨registry, hfold, hseen, hwires⟩ := fold_executionTxn s'.journal.length l
      (s.inventory l).generation t.outcomes hnew
    rw [hregistry, hlog] at hwires
    rw [hregistry] at hseen
    rw [hj]
    dsimp only [appendAny]
    rw [append_ok _ hfold]
    refine ⟨hinv, horders, hwires, hseen, ?_, .inr hj⟩
    rw [hj, hlog]
    rfl

theorem applyExecution_moved (hs : Sound s) {l : LedgerId} {act : ShellAction}
    {target : Option (OrderKey × OrderRow)} {t : ExecutionTransaction}
    (h : PreparedFor s l act target t) : Moved s act (s.applyExecution target l t).2 := by
  obtain ⟨part, hpart, hinst⟩ := applyExecution_installed hs h
  exact .executed h hpart hinst

theorem execution_moved (hs : Sound s) (target : Option OrderKey) (l : LedgerId)
    (e : ExecutionEvidence) :
    Moved s (.execution target l e) (s.execution target l e).2 := by
  simp only [execution, findTarget]
  cases target with
  | none =>
      dsimp only [Option.map_none]
      split
      · exact .idle
      · rename_i t ht
        exact applyExecution_moved hs (.norow ht)
  | some key =>
      dsimp only
      cases hrow : s.orders.get? key with
      | none => exact .idle
      | some row =>
          dsimp only [Option.map_some]
          split
          · exact .idle
          · rename_i t ht
            exact applyExecution_moved hs (.batch hrow (.inl ⟨e, rfl⟩) ht)

theorem batch_moved (hs : Sound s) (key : OrderKey) (l : LedgerId) (event : OrderEvent)
    (es : List ExecutionEvidence) : Moved s (.batch key l event es) (s.batch key l event es).2 := by
  simp only [batch]
  split
  · exact .idle
  · rename_i row hrow
    split
    · exact .idle
    · rename_i t ht
      exact applyExecution_moved hs (.batch hrow (.inr rfl) ht)

theorem gather_ids {l : LedgerId} {w : VenueOrderId} {outcomes : List ExecutionOutcome}
    {page : Option PageMeta} {round : ObservationRound}
    (h : ObservationRound.gather l w outcomes page = .ok round) : round.ledger = l ∧ round.wire = w := by
  have hrecord : ∀ (os : List ExecutionOutcome) (r r' : ObservationRound),
      os.foldlM ObservationRound.record r = .ok r' → r'.ledger = r.ledger ∧ r'.wire = r.wire := by
    intro os
    induction os with
    | nil =>
        intro r r' h
        cases h
        exact ⟨rfl, rfl⟩
    | cons o os ih =>
        intro r r' h
        rw [List.foldlM_cons] at h
        cases ho : r.record o with
        | error err => simp [ho, bind, Except.bind] at h
        | ok r₁ =>
            simp only [ho, bind, Except.bind] at h
            obtain ⟨hl, hw⟩ := ih r₁ r' h
            simp only [ObservationRound.record] at ho
            split at ho
            · cases ho
              exact ⟨hl, hw⟩
            · cases ho
  simp only [ObservationRound.gather, bind, Except.bind] at h
  split at h
  · cases h
  · rename_i r₁ hr₁
    obtain ⟨hl, hw⟩ := hrecord outcomes _ _ hr₁
    cases page <;> cases h <;> exact ⟨hl, hw⟩

/-- The rows of a list of keys, in its order. -/
theorem mapM_rows {keys : List OrderKey} {rows : List OrderRow}
    (h : keys.mapM s.orders.get? = some rows) :
    rows.length = keys.length ∧ ∀ key row, (key, row) ∈ keys.zip rows → s.orders.get? key = some row := by
  induction keys generalizing rows with
  | nil =>
      simp only [List.mapM_nil, Option.pure_def, Option.some.injEq] at h
      subst h
      exact ⟨rfl, fun _ _ h => (nomatch h)⟩
  | cons key keys ih =>
      simp only [List.mapM_cons, Option.pure_def, Option.bind_eq_bind, Option.bind_eq_some_iff,
        Option.some.injEq] at h
      obtain ⟨row, hrow, rest, hrest, rfl⟩ := h
      obtain ⟨hlen, hmem⟩ := ih hrest
      refine ⟨by simp [hlen], fun k r hkr => ?_⟩
      simp only [List.zip_cons_cons, List.mem_cons, Prod.mk.injEq] at hkr
      rcases hkr with ⟨rfl, rfl⟩ | hkr
      · exact hrow
      · exact hmem k r hkr

theorem mem_rows_of_key {keys : List OrderKey} {rows : List OrderRow}
    (h : keys.mapM s.orders.get? = some rows) {key : OrderKey} (hk : key ∈ keys) {row : OrderRow}
    (hr : s.orders.get? key = some row) : row ∈ rows := by
  obtain ⟨hlen, hmem⟩ := mapM_rows h
  have hmap : (keys.zip rows).map Prod.fst = keys := List.map_fst_zip (by omega)
  rw [← hmap] at hk
  obtain ⟨⟨k, row₁⟩, hz, rfl⟩ := List.mem_map.mp hk
  have hr₁ := hmem k row₁ hz
  rw [hr] at hr₁
  cases hr₁
  exact (List.of_mem_zip hz).2

/-- Rows that are written back under their keys, each changed in the same way. -/
theorem get?_writeBack {keys : List OrderKey} {rows : List OrderRow}
    (h : keys.mapM s.orders.get? = some rows) (f : OrderRow → OrderRow) (key : OrderKey) :
    (s.orders.insertAll (keys.zip (rows.map f))).get? key =
      (s.orders.get? key).map fun row => if key ∈ keys then f row else row := by
  obtain ⟨hlen, hmem⟩ := mapM_rows h
  have hkeys : (keys.zip (rows.map f)).map Prod.fst = keys := List.map_fst_zip (by simp [hlen])
  rw [OrdMap.get?_insertAll]
  cases hg : (OrdMap.empty.insertAll (keys.zip (rows.map f))).get? key with
  | none =>
      rw [OrdMap.get?_insertAll_none, hkeys] at hg
      simp [hg]
  | some row' =>
      have hz := OrdMap.mem_of_get?_insertAll hg
      rw [List.zip_map_right] at hz
      obtain ⟨⟨k, r⟩, hkr, heq⟩ := List.mem_map.mp hz
      cases heq
      have hk : k ∈ keys := (List.of_mem_zip hkr).1
      simp [hmem k r hkr, hk]

theorem observe_moved (l : LedgerId) (w : VenueOrderId) (outcomes : List ExecutionOutcome)
    (page : Option PageMeta) (keys : List OrderKey) (row : RowEvidence) :
    Moved s (.observe l w outcomes page keys row) (s.observe l w outcomes page keys row).2 := by
  simp only [observe]
  split
  · exact .idle
  · rename_i rows hrows
    split
    · exact .idle
    · rename_i round hround
      obtain ⟨hl, hw⟩ := gather_ids hround
      split
      · exact .idle
      · rename_i t hfin
        have hf := ObservationRound.finish_ok hfin
        rw [hf.apply_own]
        dsimp only
        refine .observed rfl hrows ⟨hl, hw⟩ hfin
          ⟨get?_writeBack hrows t.advance, rfl, by rw [hl, hw], rfl⟩

theorem prove_moved {act : ShellAction} {p : Except OrderStateProofError (Option Record)}
    (h : ∀ rec, p = .ok (some rec) → Noted s act rec) : Moved s act (s.prove p).2 := by
  cases p with
  | error err => exact .idle
  | ok rec? =>
      cases rec? with
      | none => exact .idle
      | some rec =>
          have hrec := h rec rfl
          obtain ⟨registry, hfold⟩ : ∃ registry, s.registry.fold s.journal.length rec = .ok registry := by
            cases hrec with
            | amend h =>
                rw [(WireRegistry.prepareAmendLineage_ok h).1]
                exact ⟨_, rfl⟩
            | frame h =>
                rw [(WireRegistry.prepareUserOrderReceived_some.mp h).1]
                exact ⟨_, rfl⟩
            | state _ => exact ⟨_, rfl⟩
            | page _ => exact ⟨_, rfl⟩
            | hold => exact ⟨_, rfl⟩
          rw [prove, appendAny, append_ok _ hfold]
          exact .noted hrec hfold

theorem step_moved (hs : Sound s) (act : ShellAction) : Moved s act (shell.step s act).2 := by
  cases act with
  | create key market strategy side price qty =>
      simp only [shell, step, create]
      split
      · exact .idle
      · rename_i hk
        exact .created (OrdMap.contains_eq_false.mp (by simpa using hk))
  | order key event => exact order_moved hs key event
  | execution target l e => exact execution_moved hs target l e
  | batch key l event es => exact batch_moved hs key l event es
  | observe l w outcomes page keys row => exact observe_moved l w outcomes page keys row
  | amendLineage l w lineage =>
      refine prove_moved fun rec h => ?_
      obtain ⟨rec', hrec, heq⟩ := exceptMap_ok.mp h
      cases heq
      exact .amend hrec
  | userOrder l w e => exact prove_moved fun rec h => .frame h
  | orderState l w =>
      refine prove_moved fun rec h => ?_
      obtain ⟨t, ht, heq⟩ := exceptMap_ok.mp h
      cases heq
      exact .state ht
  | restProof l w cid filled remaining initial =>
      refine prove_moved fun rec h => ?_
      obtain ⟨t, ht, heq⟩ := exceptMap_ok.mp h
      cases heq
      exact .page ht
  | hold l w =>
      have hfold : s.registry.fold s.journal.length (.orderAuthorityHold l w) = .ok _ := rfl
      simp only [shell, step, append_ok _ hfold]
      exact .noted .hold hfold

end Shell

/-! ## Soundness is kept -/

variable {s' : Shell} {act : ShellAction}

theorem Advances.ids (h : Advances row event tr o a) :
    a.ctx.clientOrderId = row.ctx.clientOrderId ∧ a.ctx.market = row.ctx.market := h.answer.ids

/-- A row that advances leaves its record at its new cursor. -/
theorem Sound.advance (hs : Sound s) {key : OrderKey} (hrow : s.orders.get? key = some row)
    (hadv : Advances row event tr o a) (orders : OrdMap OrderKey OrderRow)
    (horders : ∀ k, orders.get? k = if k = key then some (row.advance (some a)) else s.orders.get? k)
    {seen : OrdMap TxnKey OrderTxnRecord}
    (hseen : seen = s.registry.seenOrder.insert (WireRegistry.txnKey o) o) :
    (∀ k r, orders.get? k = some r → r.ledger = k.ledger ∧ r.ctx.clientOrderId = k.cid) ∧
      ∀ k o', seen.get? k = some o' →
        ∃ r, orders.get? ⟨k.ledger, k.clientOrderId⟩ = some r ∧ k.seq ≤ r.cursor.seq := by
  have hkey : (⟨row.ledger, row.ctx.clientOrderId⟩ : OrderKey) = key := by
    rw [hs.ledger key row hrow, hs.client key row hrow]
  constructor
  · intro k r hr
    rw [horders] at hr
    split at hr
    · rename_i hk
      cases hr
      rw [hk]
      exact ⟨hs.ledger key row hrow, hadv.ids.1.trans (hs.client key row hrow)⟩
    · exact ⟨hs.ledger k r hr, hs.client k r hr⟩
  · intro k o' ho'
    rw [hseen, OrdMap.get?_insert, hadv.txnKey] at ho'
    split at ho'
    · rename_i hk
      rw [hk]
      dsimp only
      rw [horders, hkey, if_pos rfl]
      exact ⟨_, rfl, by rw [← next_ok hadv.next]; exact le_rfl⟩
    · obtain ⟨r, hr, hle⟩ := hs.seen k o' ho'
      rw [horders]
      split
      · rename_i hk
        rw [hk, hrow] at hr
        cases hr
        refine ⟨_, rfl, ?_⟩
        have hn := next_ok hadv.next
        simp only [OrderRow.advance]
        omega
      · exact ⟨r, hr, hle⟩

theorem Noted.seen {rec : Record} {registry : WireRegistry} (h : Noted s act rec)
    (hfold : s.registry.fold s.journal.length rec = .ok registry) :
    registry.seenOrder = s.registry.seenOrder := by
  cases h with
  | amend h =>
      rw [(WireRegistry.prepareAmendLineage_ok h).1] at hfold
      cases hfold
      rfl
  | frame h =>
      rw [(WireRegistry.prepareUserOrderReceived_some.mp h).1] at hfold
      cases hfold
      rfl
  | state _ => cases hfold; rfl
  | page _ => cases hfold; rfl
  | hold => cases hfold; rfl

/-- What became of the row of a key in a round. -/
theorem Closed.became {l : LedgerId} {w : VenueOrderId} {keys : List OrderKey} {rows : List OrderRow}
    {ev : RowEvidence} {round : ObservationRound} {t : ObservationTransaction}
    (hc : Closed s l w keys t s') (hrows : keys.mapM s.orders.get? = some rows)
    (hfin : round.finish s.registry (s.inventory l) rows ev = .ok t) {key : OrderKey} {r' : OrderRow}
    (h : s'.orders.get? key = some r') :
    ∃ r, s.orders.get? key = some r ∧ ((key ∉ keys ∧ r' = r) ∨ (key ∈ keys ∧ r ∈ rows ∧
      Became (closeMember round (s.registry.ensure round.ledger round.wire) ev t.outcome r)
        t.membersAfter r r')) := by
  rw [hc.orders, Option.map_eq_some_iff] at h
  obtain ⟨r, hr, rfl⟩ := h
  refine ⟨r, hr, ?_⟩
  by_cases hk : key ∈ keys
  · rw [if_pos hk]
    have hin := Shell.mem_rows_of_key hrows hk hr
    exact .inr ⟨hk, hin, (ObservationRound.finish_ok hfin).became hin⟩
  · rw [if_neg hk]
    exact .inl ⟨hk, rfl⟩

/-- What a transaction leaves of a row that takes it: the row goes on under its identity. -/
structure Succeeds (row row' : OrderRow) : Prop where
  ledger : row'.ledger = row.ledger
  client : row'.ctx.clientOrderId = row.ctx.clientOrderId
  seq : row.cursor.seq ≤ row'.cursor.seq

/-- A transaction over rows of the shell, each of which goes on, keeps the shell sound. -/
theorem Sound.closed {l : LedgerId} {w : VenueOrderId} {keys : List OrderKey}
    {t : ObservationTransaction} (hs : Sound s)
    (h : Closed s l w keys t s')
    (hrows : ∀ key ∈ keys, ∀ row, s.orders.get? key = some row → Succeeds row (t.advance row)) :
    Sound s' := by
  have hrow : ∀ key row', s'.orders.get? key = some row' →
      ∃ row, s.orders.get? key = some row ∧ Succeeds row row' := by
    intro key row' hr'
    rw [h.orders, Option.map_eq_some_iff] at hr'
    obtain ⟨row, hr, rfl⟩ := hr'
    refine ⟨row, hr, ?_⟩
    split
    · rename_i hk
      exact hrows key hk row hr
    · exact ⟨rfl, rfl, le_rfl⟩
  refine ⟨fun k r' hr' => ?_, fun k r' hr' => ?_, fun l' => ?_, fun k o ho => ?_⟩
  · obtain ⟨row, hr, hf⟩ := hrow k r' hr'
    rw [hf.ledger, hs.ledger k row hr]
  · obtain ⟨row, hr, hf⟩ := hrow k r' hr'
    rw [hf.client, hs.client k row hr]
  · rw [Shell.inventory, h.inventories]
    exact hs.inventory l'
  · rw [h.registry] at ho
    obtain ⟨row, hr, hle⟩ := hs.seen k o ho
    refine ⟨if _ then t.advance row else row, by rw [h.orders, hr]; rfl, hle.trans ?_⟩
    split
    · rename_i hk
      exact (hrows _ hk row hr).seq
    · exact le_rfl

theorem Became.succeeds {m : MemberScratch} {after : List MemberAfter} {order order' : OrderRow}
    (h : Became m after order order') (hc : m.ctx.clientOrderId = order.ctx.clientOrderId) :
    Succeeds order order' := by
  refine ⟨h.ledger, by rw [h.ctx, hc], ?_⟩
  cases h with
  | same _ _ _ => exact le_rfl
  | changed _ hn _ => rw [next_ok hn]; exact Nat.le_succ _

theorem Moved.sound (h : Moved s act s') (hs : Sound s) : Sound s' := by
  cases h with
  | idle => exact hs
  | @created key market strategy side price qty hnew =>
      refine ⟨fun k r hr => ?_, fun k r hr => ?_, hs.inventory, fun k o' ho' => ?_⟩
      · simp only [Shell.setOrder, OrdMap.get?_insert] at hr
        split at hr
        · rename_i hk
          cases hr
          rw [hk]
        · exact hs.ledger k r hr
      · simp only [Shell.setOrder, OrdMap.get?_insert] at hr
        split at hr
        · rename_i hk
          cases hr
          rw [hk]
          rfl
        · exact hs.client k r hr
      · obtain ⟨r, hr, hle⟩ := hs.seen k o' ho'
        refine ⟨r, ?_, hle⟩
        simp only [Shell.setOrder, OrdMap.get?_insert]
        split
        · rename_i hk
          rw [hk, hnew] at hr
          cases hr
        · exact hr
  | @ordered key row event tr o a registry hact hrow _ hadv hfold =>
      rcases WireRegistry.foldOrderPart_ok hfold with ⟨hseen, _⟩ | ⟨_, hseen, _⟩
      · rw [hs.unseen hrow hadv] at hseen
        cases hseen
      · obtain ⟨hids, hseen'⟩ := hs.advance hrow hadv
          (s.orders.insert key (row.advance (some a)))
          (fun k => by by_cases hk : k = key <;> simp [OrdMap.get?_insert, hk]) hseen
        exact ⟨fun k r hr => (hids k r hr).1, fun k r hr => (hids k r hr).2, hs.inventory, hseen'⟩
  | @executed l target t part _ hprep hpart h =>
      have hinv : ∀ l', (s'.inventory l').ledger = l' := by
        intro l'
        rw [h.inventory]
        split
        · rename_i hl
          rw [MarketInventory.install_ledger, hs.inventory, hl]
        · exact hs.inventory l'
      cases part with
      | none =>
          have horders : ∀ k, s'.orders.get? k = s.orders.get? k := by
            intro k
            rw [h.orders]
            cases hprep with
            | norow _ => rfl
            | @batch _ key row _ _ hrow _ _ =>
                simp only [rowAfter, Option.map_none, OrderRow.advance]
                split
                · rename_i hk
                  rw [hk, hrow]
                · rfl
          refine ⟨fun k r hr => hs.ledger k r (horders k ▸ hr),
            fun k r hr => hs.client k r (horders k ▸ hr), hinv, fun k o' ho' => ?_⟩
          rw [h.seen] at ho'
          rw [horders]
          exact hs.seen k o' ho'
      | some x =>
          obtain ⟨o, a⟩ := x
          obtain ⟨key, row, event, tr, rfl, _, _, hadv⟩ := hpart o a rfl
          cases hprep with
          | batch hrow _ _ =>
              obtain ⟨hids, hseen'⟩ := hs.advance hrow hadv s'.orders
                (fun k => h.orders k) h.seen
              exact ⟨fun k r hr => (hids k r hr).1, fun k r hr => (hids k r hr).2, hinv, hseen'⟩
  | @observed l w outcomes page keys rows ev round t _ hact hrows hround hfin h =>
      refine hs.closed h fun key hk r hr => ?_
      exact ((ObservationRound.finish_ok hfin).became (Shell.mem_rows_of_key hrows hk hr)).succeeds
        (closeMember_books ..).1
  | @noted rec registry hrec hfold =>
      refine ⟨hs.ledger, hs.client, hs.inventory, fun k o' ho' => ?_⟩
      rw [hrec.seen hfold] at ho'
      exact hs.seen k o' ho'

theorem step_sound (hs : Sound s) (act : ShellAction) : Sound (shell.step s act).2 :=
  (Shell.step_moved hs act).sound hs

theorem run_sound (acts : List ShellAction) : Sound (shell.final .new acts) :=
  shell.invariant (I := Sound) (fun _ act hs => step_sound hs act) Shell.sound_new acts

end Omsrs.Observation
