import Omsrs.Observation.Lemmas.Registry

/-!
# Ledgers stay apart

One journal serves many ledgers. What it makes of one of them is made by the records about this ledger
alone, each at its place in the journal: whatever is written about the others, in whatever order, no
question about this ledger is answered differently.
-/

namespace Omsrs.Observation
open Omsrs.Lib Omsrs.Lifecycle Omsrs.Execution

variable {ledger l : LedgerId} {r r' r₁ r₂ : WireRegistry} {pos : Nat} {o : OrderTxnRecord}
  {f g : WireRegistry → WireRegistry}

/-- A chain succeeds where both of its parts do. -/
theorem bind_ok_iff {ε α β : Type} {x : Except ε α} {k : α → Except ε β} {b : β} :
    (x >>= k) = .ok b ↔ ∃ a, x = .ok a ∧ k a = .ok b := by
  cases x with
  | error e => simp [bind, Except.bind]
  | ok a => simp [bind, Except.bind]

/-! ## Records about a ledger -/

def Record.touches (ledger : LedgerId) : Record → Bool
  | .core _ => false
  | .orderTxn o => decide (o.ledger = ledger)
  | .executionTxn e => decide (e.ledger = ledger) || e.order.any fun o => decide (o.ledger = ledger)
  | .observationTxn t => decide (t.ledger = ledger)
  | .orderStateTxn t => decide (t.ledger = ledger)
  | .restOrderProofTxn t => decide (t.ledger = ledger)
  | .amendLineage l .. | .userOrderReceived l .. | .userOrderQuarantined l .. | .orderAuthorityHold l _
  | .userOrderStaged l .. => decide (l = ledger)

namespace WireRegistry

/-- Fold records, each at its place. -/
def foldJournal (r : WireRegistry) (entries : List (Record × Nat)) : Except RebuildError WireRegistry :=
  entries.foldlM (fun r e => r.fold e.2 e.1) r

/-! ## Registries that agree on a ledger -/

def Agree (ledger : LedgerId) (r₁ r₂ : WireRegistry) : Prop := ∀ w, r₁.get ledger w = r₂.get ledger w

theorem Agree.ensure (h : Agree ledger r₁ r₂) (w : VenueOrderId) : r₁.ensure ledger w = r₂.ensure ledger w := by
  simp only [WireRegistry.ensure, h w]

theorem Agree.entries (h : Agree ledger r₁ r₂) :
    (r₁.wires.entries.filter fun e => decide (e.1.ledger = ledger)) =
      r₂.wires.entries.filter fun e => decide (e.1.ledger = ledger) := by
  refine OrdMap.filter_entries_congr (p := fun k : WireKey => decide (k.ledger = ledger)) fun k hk => ?_
  have hl : k.ledger = ledger := by simpa using hk
  have := h k.wire
  rw [← hl] at this
  exact this

/-- The answers a registry gives about a ledger. -/
structure SameAnswers (ledger : LedgerId) (r₁ r₂ : WireRegistry) : Prop where
  wire : ∀ w, r₁.get ledger w = r₂.get ledger w
  working : ∀ w, r₁.workingView ledger w = r₂.workingView ledger w
  member : ∀ cid, r₁.memberWorkingView ledger cid = r₂.memberWorkingView ledger cid
  route : ∀ w id inv, r₁.route ledger w id inv = r₂.route ledger w id inv
  client : ∀ cid, r₁.wireForClient ledger cid = r₂.wireForClient ledger cid
  ready : ∀ lookup inv, r₁.readiness ledger lookup inv = r₂.readiness ledger lookup inv

theorem Agree.answers (h : Agree ledger r₁ r₂) : SameAnswers ledger r₁ r₂ where
  wire := h
  working w := by simp only [workingView, h w]
  member cid := by
    have hfind : ∀ r : WireRegistry, (r.wires.entries.find? fun e =>
        decide (e.1.ledger = ledger) && e.2.hasMember cid) =
          (r.wires.entries.filter fun e => decide (e.1.ledger = ledger)).find? fun e =>
            e.2.hasMember cid := by
      intro r
      simp [List.find?_filter]
    unfold memberWorkingView
    rw [hfind r₁, hfind r₂, h.entries]
    cases hf : List.find? (fun e : WireKey × WireState => e.2.hasMember cid)
        (r₂.wires.entries.filter fun e => decide (e.1.ledger = ledger)) with
    | none => rfl
    | some e =>
        have hl : e.1.ledger = ledger := by
          simpa using (List.mem_filter.mp (List.mem_of_find?_eq_some hf)).2
        have hv : r₁.workingView e.1.ledger e.1.wire = r₂.workingView e.1.ledger e.1.wire := by
          rw [hl]
          simp only [workingView, h e.1.wire]
        dsimp only
        rw [hv]
  route w id inv := by simp only [route, h w]
  client cid := by
    have hfilter : ∀ r : WireRegistry, (r.wires.entries.filter fun e =>
        decide (e.1.ledger = ledger) && matchesClient cid e.2) =
          (r.wires.entries.filter fun e => decide (e.1.ledger = ledger)).filter fun e =>
            matchesClient cid e.2 := by
      intro r
      rw [List.filter_filter]
      exact List.filter_congr fun _ _ => Bool.and_comm _ _
    unfold wireForClient
    rw [hfilter r₁, hfilter r₂, h.entries]
  ready lookup inv := by
    have hw : r₁.wiresOf ledger = r₂.wiresOf ledger := congrArg (List.map Prod.snd) h.entries
    simp only [readiness, tally, hw]

/-! ## Operations within a ledger -/

/-- An operation that reads and writes the wires of one ledger. -/
structure Within (ledger : LedgerId) (f : WireRegistry → WireRegistry) : Prop where
  off : ∀ l r, l ≠ ledger → Agree l (f r) r
  on : ∀ r₁ r₂, Agree ledger r₁ r₂ → Agree ledger (f r₁) (f r₂)
  seen : ∀ r, (f r).seenOrder = r.seenOrder

namespace Within

theorem comp (hf : Within ledger f) (hg : Within ledger g) : Within ledger fun r => g (f r) where
  off l r hl w := (hg.off l (f r) hl w).trans (hf.off l r hl w)
  on r₁ r₂ h := hg.on _ _ (hf.on r₁ r₂ h)
  seen r := (hg.seen _).trans (hf.seen r)

/-- An operation on what is no wire. -/
theorem aside (hw : ∀ r, (f r).wires = r.wires) (hs : ∀ r, (f r).seenOrder = r.seenOrder) :
    Within ledger f where
  off l r _ w := by simp only [get, hw]
  on r₁ r₂ h w := by simpa only [get, hw] using h w
  seen := hs

theorem foldl {α : Type} {step : WireRegistry → α → WireRegistry}
    (h : ∀ a, Within ledger fun r => step r a) (as : List α) : Within ledger fun r => as.foldl step r := by
  induction as with
  | nil => exact aside (fun _ => rfl) fun _ => rfl
  | cons a as ih => exact (h a).comp ih

theorem update (wire : VenueOrderId) (f : WireState → WireState) :
    Within ledger fun r => r.set ledger wire (f (r.ensure ledger wire)) where
  off l r hl w := by simp [hl]
  on r₁ r₂ h w := by
    rw [get_set, get_set, h w, h.ensure]
  seen _ := rfl

theorem modify (wire : VenueOrderId) (f : WireState → WireState) :
    Within ledger fun r => { r with wires := r.wires.modify ⟨ledger, wire⟩ f } where
  off l r hl w := by simp [get, OrdMap.get?_modify, hl]
  on r₁ r₂ h w := by
    have hw := h w
    unfold get at hw
    by_cases hk : w = wire
    · subst hk
      simp [get, OrdMap.get?_modify, hw]
    · simp [get, OrdMap.get?_modify, hk, hw]
  seen _ := rfl

theorem mapValues (f : WireState → WireState) (p : WireState → Bool) :
    Within ledger fun r =>
      { r with wires := r.wires.mapValues fun k ws => if k.ledger = ledger && p ws then f ws else ws } where
  off l r hl w := by simp [get, hl]
  on r₁ r₂ h w := by
    have hw := h w
    unfold get at hw
    simp only [get, OrdMap.get?_mapValues, hw]
  seen _ := rfl

end Within

theorem foldCore_within (pos : Nat) (o : OrderTxnRecord) (rec : JournalRecord) :
    Within o.ledger fun r => foldCore pos o r rec := by
  have hend : Within o.ledger fun r => r.terminalizeCid o.ledger o.clientOrderId := by
    have hall : Within o.ledger _ := .mapValues (·.terminalize o.clientOrderId) fun _ => true
    simpa [terminalizeCid] using hall
  cases rec with
  | venueBoundCid cid wire => exact .update wire (·.bind pos cid)
  | orderTerminal => exact hend
  | halted => exact hend
  | ownActionCid cid _ => exact .mapValues (·.bump) (·.hasMember cid)
  | _ => exact .aside (fun _ => rfl) fun _ => rfl

theorem foldExecution_within (ledger : LedgerId) (o : ExecutionOutcome) :
    Within ledger fun r => foldExecution ledger r o := by
  have hindex : Within ledger fun r => r.indexExecution o := by
    refine .aside (fun r => ?_) fun r => ?_
    · unfold indexExecution
      split <;> rfl
    · unfold indexExecution
      split <;> rfl
  unfold foldExecution
  cases o.inventory <;> cases o.entryAfter
  case ingested.some entry | upgraded.some entry =>
    dsimp only
    cases entry.venueOrderId with
    | none => exact hindex
    | some wire => exact hindex.comp (.update wire (·.hold o.evidence.executionId entry))
  all_goals exact hindex

theorem foldObservation_within (t : ObservationTxnRecord) : Within t.ledger fun r => r.foldObservation t := by
  unfold foldObservation
  refine (Within.update t.wire fun _ => t.wireAfter).comp (.foldl (fun m => ?_) t.membersAfter)
  by_cases hm : isTerminalState m.stateAfter = true
  · simp only [hm, if_true]
    exact .modify t.wire (·.terminalize m.clientOrderId)
  · simp only [hm]
    exact .aside (fun _ => rfl) fun _ => rfl

/-! ## A registry and its shadow -/

/-- The second registry knows of the ledger what the first one does, and of the others nothing else. -/
structure Shadow (ledger : LedgerId) (r₁ r₂ : WireRegistry) : Prop where
  wires : Agree ledger r₁ r₂
  own : ∀ k, k.ledger = ledger → r₂.seenOrder.get? k = r₁.seenOrder.get? k
  others : ∀ k o, r₂.seenOrder.get? k = some o → r₁.seenOrder.get? k = some o

theorem Shadow.refl (ledger : LedgerId) (r : WireRegistry) : Shadow ledger r r :=
  ⟨fun _ => rfl, fun _ _ => rfl, fun _ _ h => h⟩

/-- Both do an operation of any ledger. -/
theorem Shadow.both (h : Shadow ledger r₁ r₂) (hf : Within l f) : Shadow ledger (f r₁) (f r₂) where
  wires := by
    by_cases hl : ledger = l
    · subst hl
      exact hf.on _ _ h.wires
    · exact fun w => (hf.off ledger r₁ hl w).trans ((h.wires w).trans (hf.off ledger r₂ hl w).symm)
  own k hk := by
    rw [hf.seen, hf.seen]
    exact h.own k hk
  others k o ho := by
    rw [hf.seen] at ho ⊢
    exact h.others k o ho

/-- The first one does an operation of another ledger. -/
theorem Shadow.ahead (h : Shadow ledger r₁ r₂) (hf : Within l f) (hl : l ≠ ledger) :
    Shadow ledger (f r₁) r₂ where
  wires w := (hf.off ledger r₁ (Ne.symm hl) w).trans (h.wires w)
  own k hk := by
    rw [hf.seen]
    exact h.own k hk
  others k o ho := by
    rw [hf.seen]
    exact h.others k o ho

/-- What folding the records of a new transaction does, once it is noted. -/
def foldNew (pos : Nat) (o : OrderTxnRecord) (hold : Option VenueOrderId) (r : WireRegistry) :
    WireRegistry :=
  let r := o.coreRecords.foldl (foldCore pos o) r
  match hold with
  | some wire => { r with wires := r.wires.modify ⟨o.ledger, wire⟩ (dischargeEnd o) }
  | none => r

theorem foldNew_within (pos : Nat) (o : OrderTxnRecord) (hold : Option VenueOrderId) :
    Within o.ledger (foldNew pos o hold) := by
  have hcores : Within o.ledger fun r => o.coreRecords.foldl (foldCore pos o) r :=
    .foldl (foldCore_within pos o) o.coreRecords
  cases hold with
  | none => exact hcores
  | some wire => exact hcores.comp (.modify wire (dischargeEnd o))

def note (o : OrderTxnRecord) (r : WireRegistry) : WireRegistry :=
  { r with seenOrder := r.seenOrder.insert ⟨o.ledger, o.clientOrderId, o.seq⟩ o }

theorem foldOrderPart_eq (r : WireRegistry) (pos : Nat) (o : OrderTxnRecord) :
    r.foldOrderPart pos o =
      match r.seenOrder.get? ⟨o.ledger, o.clientOrderId, o.seq⟩ with
      | some prev => if prev ≠ o then .error (.divergent o.clientOrderId o.seq) else .ok r
      | none => .ok (foldNew pos o (r.terminalHoldWire o) (r.note o)) := by
  unfold foldOrderPart
  cases r.seenOrder.get? ⟨o.ledger, o.clientOrderId, o.seq⟩ with
  | some prev => rfl
  | none =>
      dsimp only
      split
      · rename_i wire hwire
        have hhold : r.terminalHoldWire o = some wire := hwire
        rw [hhold]
        rfl
      · rename_i hwire
        have hhold : r.terminalHoldWire o = none := hwire
        rw [hhold]
        rfl

theorem foldOrderPart_cases (h : r.foldOrderPart pos o = .ok r') :
    (r.seenOrder.get? ⟨o.ledger, o.clientOrderId, o.seq⟩ = some o ∧ r' = r) ∨
      (r.seenOrder.get? ⟨o.ledger, o.clientOrderId, o.seq⟩ = none ∧
        r' = foldNew pos o (r.terminalHoldWire o) (r.note o)) := by
  rw [foldOrderPart_eq] at h
  cases hs : r.seenOrder.get? ⟨o.ledger, o.clientOrderId, o.seq⟩ with
  | some prev =>
      rw [hs] at h
      by_cases hp : prev = o
      · subst hp
        exact .inl ⟨rfl, by simpa using h.symm⟩
      · simp [hp] at h
  | none =>
      rw [hs] at h
      exact .inr ⟨rfl, (Except.ok.inj h).symm⟩

theorem terminalHoldWire_congr (h : Agree o.ledger r₁ r₂) : r₁.terminalHoldWire o = r₂.terminalHoldWire o := by
  unfold terminalHoldWire
  refine if_congr Iff.rfl ?_ rfl
  refine congrArg (fun p => Option.filter p o.ctxAfter.venueOrderId) (funext fun wire => ?_)
  rw [h wire]

theorem Shadow.orderAhead (h : Shadow ledger r r₂) (hl : o.ledger ≠ ledger)
    (hf : r.foldOrderPart pos o = .ok r') : Shadow ledger r' r₂ := by
  rcases foldOrderPart_cases hf with ⟨-, rfl⟩ | ⟨hnone, rfl⟩
  · exact h
  · refine Shadow.ahead ⟨h.wires, fun k hk => ?_, fun k o' ho' => ?_⟩ (foldNew_within pos o _) hl
    · have hne : k ≠ ⟨o.ledger, o.clientOrderId, o.seq⟩ := fun he => hl (by rw [← hk, he])
      rw [note, OrdMap.get?_insert_ne _ _ hne]
      exact h.own k hk
    · have hk := h.others k o' ho'
      have hne : k ≠ ⟨o.ledger, o.clientOrderId, o.seq⟩ := fun he => by rw [he, hnone] at hk; cases hk
      rw [note, OrdMap.get?_insert_ne _ _ hne]
      exact hk

theorem Shadow.orderBoth (h : Shadow ledger r r₂) (hf : r.foldOrderPart pos o = .ok r') :
    ∃ r₂', r₂.foldOrderPart pos o = .ok r₂' ∧ Shadow ledger r' r₂' := by
  rcases foldOrderPart_cases hf with ⟨hsome, rfl⟩ | ⟨hnone, rfl⟩
  · cases hs : r₂.seenOrder.get? ⟨o.ledger, o.clientOrderId, o.seq⟩ with
    | some prev =>
        have hprev := h.others _ _ hs
        rw [hsome] at hprev
        cases hprev
        exact ⟨r₂, by simp [foldOrderPart_eq, hs], h⟩
    | none =>
        -- seen by the first one alone: the record is about another ledger
        have hl : o.ledger ≠ ledger := fun he => by
          rw [h.own _ he, hsome] at hs
          cases hs
        have hoff := (foldNew_within pos o (r₂.terminalHoldWire o)).off ledger (r₂.note o) (Ne.symm hl)
        refine ⟨_, by rw [foldOrderPart_eq, hs], ?_⟩
        refine ⟨fun w => (h.wires w).trans (hoff w).symm, fun k hk => ?_, fun k o' ho' => ?_⟩
        · have hne : k ≠ ⟨o.ledger, o.clientOrderId, o.seq⟩ := fun he => hl (by rw [← hk, he])
          rw [(foldNew_within pos o _).seen, note, OrdMap.get?_insert_ne _ _ hne]
          exact h.own k hk
        · rw [(foldNew_within pos o _).seen, note, OrdMap.get?_insert] at ho'
          split at ho'
          · rename_i hk
            cases ho'
            rw [hk]
            exact hsome
          · exact h.others k o' ho'
  · have hs : r₂.seenOrder.get? ⟨o.ledger, o.clientOrderId, o.seq⟩ = none := by
      cases hs : r₂.seenOrder.get? ⟨o.ledger, o.clientOrderId, o.seq⟩ with
      | none => rfl
      | some prev =>
          have := h.others _ _ hs
          rw [hnone] at this
          cases this
    have hnoted : Shadow ledger (r.note o) (r₂.note o) := by
      refine ⟨h.wires, fun k hk => ?_, fun k o' ho' => ?_⟩
      · simp only [note, OrdMap.get?_insert]
        split
        · rfl
        · exact h.own k hk
      · simp only [note, OrdMap.get?_insert] at ho' ⊢
        split
        · rename_i hk
          rwa [if_pos hk] at ho'
        · rename_i hk
          rw [if_neg hk] at ho'
          exact h.others k o' ho'
    refine ⟨_, by rw [foldOrderPart_eq, hs], ?_⟩
    by_cases hl : o.ledger = ledger
    · rw [terminalHoldWire_congr (by rw [hl]; exact h.wires)]
      exact hnoted.both (foldNew_within pos o _)
    · have hoff := (foldNew_within pos o (r₂.terminalHoldWire o)).off ledger (r₂.note o) (Ne.symm hl)
      have hahead := hnoted.ahead (foldNew_within pos o (r.terminalHoldWire o)) hl
      refine ⟨fun w => (hahead.wires w).trans (hoff w).symm, fun k hk => ?_, fun k o' ho' => ?_⟩
      · rw [(foldNew_within pos o _).seen]
        exact hahead.own k hk
      · rw [(foldNew_within pos o _).seen] at ho'
        exact hahead.others k o' ho'

/-! ## One record, any record -/

/-- A record about other ledgers, folded by the first one alone. -/
theorem Shadow.foldAhead {rec : Record} (h : Shadow ledger r r₂) (ht : rec.touches ledger = false)
    (hf : r.fold pos rec = .ok r') : Shadow ledger r' r₂ := by
  have hset : ∀ {l : LedgerId} (wire : VenueOrderId) (f : WireState → WireState), l ≠ ledger →
      Shadow ledger (r.set l wire (f (r.ensure l wire))) r₂ :=
    fun wire f hl => h.ahead (.update wire f) hl
  cases rec with
  | orderTxn o => exact h.orderAhead (by simpa [Record.touches] using ht) hf
  | executionTxn e =>
      simp only [Record.touches, Bool.or_eq_false_iff, decide_eq_false_iff_not] at ht
      obtain ⟨hl, ho⟩ := ht
      have hexec : ∀ {r₁ : WireRegistry}, Shadow ledger r₁ r₂ →
          Shadow ledger (r₁.foldExecutions e.ledger e.executions) r₂ := fun h₁ =>
        h₁.ahead (.foldl (foldExecution_within e.ledger) e.executions) hl
      simp only [fold] at hf
      cases horder : e.order with
      | none =>
          rw [horder] at hf
          cases hf
          exact hexec h
      | some o =>
          rw [horder] at hf ho
          obtain ⟨r₁, h₁, hr⟩ := bind_ok_iff.mp hf
          cases hr
          exact hexec (h.orderAhead (by simpa using ho) h₁)
  | observationTxn t =>
      cases hf
      exact h.ahead (foldObservation_within t) (by simpa [Record.touches] using ht)
  | amendLineage l wire lineage =>
      cases hf
      exact hset wire (·.setLineage lineage) (by simpa [Record.touches] using ht)
  | userOrderReceived l wire evidence =>
      cases hf
      exact hset wire (·.receive pos evidence) (by simpa [Record.touches] using ht)
  | orderAuthorityHold l wire =>
      cases hf
      exact hset wire (·.holdAuthority pos) (by simpa [Record.touches] using ht)
  | orderStateTxn t =>
      cases hf
      exact hset t.wire (fun _ => t.wireAfter) (by simpa [Record.touches] using ht)
  | restOrderProofTxn t =>
      cases hf
      exact hset t.wire (fun _ => t.wireAfter) (by simpa [Record.touches] using ht)
  | core | userOrderQuarantined | userOrderStaged =>
      cases hf
      exact h

/-- Any record, folded by both. -/
theorem Shadow.foldBoth {rec : Record} (h : Shadow ledger r r₂) (hf : r.fold pos rec = .ok r') :
    ∃ r₂', r₂.fold pos rec = .ok r₂' ∧ Shadow ledger r' r₂' := by
  cases rec with
  | orderTxn o => exact h.orderBoth hf
  | executionTxn e =>
      have hexec : ∀ {r₁ r₂ : WireRegistry}, Shadow ledger r₁ r₂ →
          Shadow ledger (r₁.foldExecutions e.ledger e.executions) (r₂.foldExecutions e.ledger e.executions) :=
        fun h₁ => h₁.both (.foldl (foldExecution_within e.ledger) e.executions)
      simp only [fold] at hf ⊢
      cases horder : e.order with
      | none =>
          rw [horder] at hf
          cases hf
          exact ⟨_, rfl, hexec h⟩
      | some o =>
          rw [horder] at hf
          obtain ⟨r₁, h₁, hr⟩ := bind_ok_iff.mp hf
          cases hr
          obtain ⟨r₂', h₂, hs⟩ := h.orderBoth h₁
          exact ⟨_, bind_ok_iff.mpr ⟨r₂', h₂, rfl⟩, hexec hs⟩
  | observationTxn t =>
      cases hf
      exact ⟨_, rfl, h.both (foldObservation_within t)⟩
  | amendLineage l wire lineage =>
      cases hf
      exact ⟨_, rfl, h.both (.update wire (·.setLineage lineage))⟩
  | userOrderReceived l wire evidence =>
      cases hf
      exact ⟨_, rfl, h.both (.update wire (·.receive pos evidence))⟩
  | orderAuthorityHold l wire =>
      cases hf
      exact ⟨_, rfl, h.both (.update wire (·.holdAuthority pos))⟩
  | orderStateTxn t =>
      cases hf
      exact ⟨_, rfl, h.both (.update t.wire fun _ => t.wireAfter)⟩
  | restOrderProofTxn t =>
      cases hf
      exact ⟨_, rfl, h.both (.update t.wire fun _ => t.wireAfter)⟩
  | core | userOrderQuarantined | userOrderStaged =>
      cases hf
      exact ⟨_, rfl, h⟩

/-- The entries of a journal about a ledger. -/
def ownPart (ledger : LedgerId) (entries : List (Record × Nat)) : List (Record × Nat) :=
  entries.filter fun e => e.1.touches ledger

theorem Shadow.run (h : Shadow ledger r r₂) {entries : List (Record × Nat)}
    (hf : r.foldJournal entries = .ok r') :
    ∃ r₂', r₂.foldJournal (ownPart ledger entries) = .ok r₂' ∧ Shadow ledger r' r₂' := by
  induction entries generalizing r r₂ with
  | nil =>
      cases hf
      exact ⟨r₂, rfl, h⟩
  | cons e entries ih =>
      simp only [foldJournal, List.foldlM_cons] at hf
      obtain ⟨r₁, h₁, hrest⟩ := bind_ok_iff.mp hf
      cases ht : e.1.touches ledger with
      | false =>
          have hown : ownPart ledger (e :: entries) = ownPart ledger entries :=
            List.filter_cons_of_neg (by simp [ht])
          rw [hown]
          exact ih (h.foldAhead ht h₁) hrest
      | true =>
          have hown : ownPart ledger (e :: entries) = e :: ownPart ledger entries :=
            List.filter_cons_of_pos (by simp [ht])
          obtain ⟨r₃, h₃, hs⟩ := h.foldBoth h₁
          obtain ⟨r₂', hr₂, hs'⟩ := ih hs hrest
          refine ⟨r₂', ?_, hs'⟩
          rw [hown, foldJournal, List.foldlM_cons]
          exact bind_ok_iff.mpr ⟨r₃, h₃, hr₂⟩

/-! ## The theorem -/

theorem SameAnswers.trans {r₃ : WireRegistry} (h : SameAnswers ledger r₁ r₂) (h' : SameAnswers ledger r₂ r₃) :
    SameAnswers ledger r₁ r₃ :=
  Agree.answers fun w => (h.wire w).trans (h'.wire w)

theorem SameAnswers.symm (h : SameAnswers ledger r₁ r₂) : SameAnswers ledger r₂ r₁ :=
  Agree.answers fun w => (h.wire w).symm

/-- Where a journal folds, its records about one ledger fold alone, and answer every question about
this ledger alike; so does every other journal with these records, whatever it writes between them. -/
theorem ledgers_stay_apart (r : WireRegistry) (ledger : LedgerId) (entries : List (Record × Nat))
    {r' : WireRegistry} (hf : r.foldJournal entries = .ok r') :
    (∃ own, r.foldJournal (ownPart ledger entries) = .ok own ∧ SameAnswers ledger r' own) ∧
      ∀ entries' r'', r.foldJournal entries' = .ok r'' →
        ownPart ledger entries' = ownPart ledger entries → SameAnswers ledger r' r'' := by
  obtain ⟨own, hown, hs⟩ := (Shadow.refl ledger r).run hf
  refine ⟨⟨own, hown, hs.wires.answers⟩, fun entries' r'' hf' hsame => ?_⟩
  obtain ⟨own', hown', hs'⟩ := (Shadow.refl ledger r).run hf'
  rw [hsame, hown] at hown'
  cases hown'
  exact hs.wires.answers.trans hs'.wires.answers.symm

end WireRegistry

/-! ## A sample -/

namespace Sample

def deskLedger (market : String) : LedgerId := ⟨⟨"desk"⟩, market⟩

/-- A hold and a lineage on two ledgers with one wire name, in two orders. -/
def holdThenAmend : List (Record × Nat) :=
  [(.orderAuthorityHold (deskLedger "a") ⟨"w"⟩, 0), (.amendLineage (deskLedger "b") ⟨"w"⟩ none, 1)]

end Sample

open Sample in
theorem ledgers_stay_apart_held :
    ∃ r', WireRegistry.new.foldJournal holdThenAmend = .ok r' ∧
      r'.workingView (deskLedger "b") ⟨"w"⟩ = .unresolved ∧
      ∀ entries' r'', WireRegistry.new.foldJournal entries' = .ok r'' →
        WireRegistry.ownPart (deskLedger "a") entries' = [(.orderAuthorityHold (deskLedger "a") ⟨"w"⟩, 0)] →
        WireRegistry.SameAnswers (deskLedger "a") r' r'' :=
  ⟨_, rfl, rfl, (WireRegistry.ledgers_stay_apart .new (deskLedger "a") holdThenAmend rfl).2⟩

end Omsrs.Observation
