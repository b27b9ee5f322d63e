import Omsrs.Observation.Lemmas.Desk
import Omsrs.Observation.Lemmas.Held
import Omsrs.Observation.Lemmas.Noted

/-!
# A ledger that is ready

A ledger is ready where no wire of it is flagged, and a wire that is not flagged holds all that the venue
reported of it. The one flag that is lost is that of a wire whose executions are reported and not there,
when its first order is bound to it.
-/

namespace Omsrs.Observation
open Omsrs.Lib Omsrs.Lifecycle Omsrs.Execution

/-- Where the ledger is ready, the executions a wire holds and the debts of its members explain all that
the venue reported of it, and the residuals sum up to nothing. -/
def ReadyExplained (d : Desk) : Prop :=
  ∀ ledger lookup,
    d.shell.registry.readiness ledger lookup (d.shell.inventory ledger) = .ok .ready →
      (∀ wire ws, d.shell.registry.get ledger wire = some ws →
        ∃ debts, WireRegistry.memberDebts ledger lookup ws = .ok debts ∧
          ws.filledHw ≤ heldSum ws (d.shell.inventory ledger) + debts.sum) ∧
      ∃ t, d.shell.registry.tally ledger lookup (d.shell.inventory ledger) = .ok t ∧ t.wireResidual = 0

/-! ## The condition -/

/-- The venue reported executions of a wire nobody is bound to, and none of them is there. -/
def unexplained (ws : WireState) : Bool :=
  ws.members.isEmpty && ws.held.isEmpty && !ws.resolved && decide (0 < ws.filledHw)

/-- The wires to which a record binds its order. -/
def bindings (rec : Record) : List (LedgerId × VenueOrderId) :=
  match WireRegistry.orderPart rec with
  | some o => o.coreRecords.filterMap fun
      | .venueBoundCid _ wire => some (o.ledger, wire)
      | _ => none
  | none => []

/-- No record of the step binds an order to an unexplained wire. -/
def Explained (d d' : Desk) : Prop :=
  ∀ rec ∈ d'.shell.journal.drop d.now, ∀ b ∈ bindings rec,
    unexplained (d.shell.registry.ensure b.1 b.2) = false

def BindsExplained (d : Desk) (a : DeskAction) : Prop := Explained d (desk.step d a).2

instance (d : Desk) (a : DeskAction) : Decidable (BindsExplained d a) :=
  inferInstanceAs (Decidable (∀ rec ∈ (desk.step d a).2.shell.journal.drop d.now,
    ∀ b ∈ bindings rec, unexplained (d.shell.registry.ensure b.1 b.2) = false))

/-! ## Wires that are not flagged -/

/-- What keeps the ledger of a wire from being ready. -/
def flagged (ws : WireState) : Bool :=
  match ws.kind with
  | .venueOnly => !ws.resolved
  | .scoped => ws.tracked

/-- A wire that is not flagged holds all that the venue reported of it. -/
structure Covered (inv : MarketInventory) (ws : WireState) : Prop where
  kind : ws.members = [] ↔ ws.kind = .venueOnly
  filled : flagged ws = false → ws.filledHw ≤ ws.heldQty inv

/-- The flags of the wire and what they stand for are the same. -/
structure SameFlags (ws ws' : WireState) : Prop where
  held : ws'.held = ws.held
  filledHw : ws'.filledHw = ws.filledHw
  kind : ws'.kind = ws.kind
  tracked : ws'.tracked = ws.tracked
  resolved : ws'.resolved = ws.resolved
  members : ws'.members = [] ↔ ws.members = []

variable {inv inv' : MarketInventory} {ws ws' : WireState} {pos : Nat} {o : OrderTxnRecord}
  {l : LedgerId} {w : VenueOrderId}

theorem covered_venueOnly (inv : MarketInventory) : Covered inv .venueOnly :=
  ⟨iff_of_true rfl rfl, fun h => nomatch h⟩

theorem Covered.mono (h : Covered inv ws) (hinv : KeepsQty inv inv') : Covered inv' ws :=
  ⟨h.kind, fun hf => (h.filled hf).trans (heldQty_mono hinv fun _ hid => hid)⟩

theorem heldQty_congr (h : ws'.held = ws.held) : ws'.heldQty inv = ws.heldQty inv := by
  rw [WireState.heldQty, WireState.heldQty, h]

theorem Covered.same (h : Covered inv ws) (hs : SameFlags ws ws') : Covered inv ws' := by
  refine ⟨by rw [hs.members, hs.kind, h.kind], fun hf => ?_⟩
  rw [hs.filledHw, heldQty_congr hs.held]
  refine h.filled ?_
  rwa [flagged, hs.kind, hs.tracked, hs.resolved] at hf

theorem setRole_eq_nil {role : MemberRole} {cid : ClientOrderId} {ms : List Member} :
    WireState.setRole role cid ms = [] ↔ ms = [] := by
  cases ms with
  | nil => rfl
  | cons m ms =>
      simp only [WireState.setRole]
      split <;> simp

theorem terminalize_sameFlags (ws : WireState) (cid : ClientOrderId) :
    SameFlags ws (ws.terminalize cid) :=
  ⟨rfl, rfl, rfl, rfl, rfl, setRole_eq_nil⟩

theorem bump_sameFlags (ws : WireState) : SameFlags ws ws.bump := ⟨rfl, rfl, rfl, rfl, rfl, .rfl⟩

theorem dischargeEnd_sameFlags (o : OrderTxnRecord) (ws : WireState) :
    SameFlags ws (WireRegistry.dischargeEnd o ws) := by
  simp only [WireRegistry.dischargeEnd]
  split <;> exact ⟨rfl, rfl, rfl, rfl, rfl, .rfl⟩

/-- The first order of a wire that is not unexplained leaves it covered. -/
theorem Covered.bind (h : Covered inv ws) (cid : ClientOrderId) (hx : unexplained ws = false) :
    Covered inv (ws.bind pos cid) := by
  simp only [WireState.bind]
  split
  · exact h
  · refine ⟨by simp, fun hf => ?_⟩
    dsimp only [flagged] at hf
    rw [heldQty_congr rfl]
    dsimp only
    cases hm : ws.members with
    | nil =>
        have hk := h.kind.mp hm
        simp only [hm, List.isEmpty_nil, if_true, Bool.and_eq_false_iff, Bool.not_eq_false'] at hf
        by_cases hr : ws.resolved = true
        · exact h.filled (by simp [flagged, hk, hr])
        · have hempty : ws.held.isEmpty = true := by
            rcases hf with hf | hf
            · exact hf
            · exact absurd hf hr
          simp only [unexplained, hm, hempty, hr, List.isEmpty_nil, Bool.and_self, Bool.not_false,
            Bool.true_and, decide_eq_false_iff_not, Nat.not_lt, Nat.le_zero_eq] at hx
          rw [hx]
          exact Nat.zero_le _
    | cons m ms =>
        have hk : ws.kind = .scoped := by
          cases hk : ws.kind with
          | venueOnly => simp [h.kind.mpr hk] at hm
          | _ => rfl
        simp only [hm, List.isEmpty_cons, Bool.false_eq_true, if_false] at hf
        exact h.filled (by simp [flagged, hk, hf])

theorem Covered.core (h : Covered inv ws) {rec : JournalRecord}
    (hx : ∀ cid, rec = .venueBoundCid cid w → l = o.ledger → unexplained ws = false) :
    Covered inv (ws.core pos o l w rec) := by
  cases rec with
  | venueBoundCid cid wire =>
      simp only [WireState.core]
      split
      · rename_i hw
        exact h.bind cid (hx cid (by rw [hw.2]) hw.1)
      · exact h
  | orderTerminal _ _ _ _ _ _ _ =>
      simp only [WireState.core]
      split
      · exact h.same (terminalize_sameFlags _ _)
      · exact h
  | halted _ =>
      simp only [WireState.core]
      split
      · exact h.same (terminalize_sameFlags _ _)
      · exact h
  | ownActionCid _ _ =>
      simp only [WireState.core]
      split
      · exact h.same (bump_sameFlags _)
      · exact h
  | _ => exact h

/-- A core record makes no wire unexplained. -/
theorem unexplained_core (rec : JournalRecord) (h : unexplained ws = false) :
    unexplained (ws.core pos o l w rec) = false := by
  have he := ws.core_sameEvidence pos o l w rec
  have hm : (ws.core pos o l w rec).members.isEmpty = true → ws.members.isEmpty = true := by
    simp only [List.isEmpty_iff]
    cases rec with
    | venueBoundCid cid wire =>
        simp only [WireState.core, WireState.bind]
        split
        · split
          · exact id
          · simp
        · exact id
    | orderTerminal _ _ _ _ _ _ _ =>
        simp only [WireState.core]
        split
        · exact setRole_eq_nil.mp
        · exact id
    | halted _ =>
        simp only [WireState.core]
        split
        · exact setRole_eq_nil.mp
        · exact id
    | ownActionCid _ _ => simp only [WireState.core]; split <;> exact id
    | _ => exact id
  rw [Bool.eq_false_iff] at h ⊢
  refine fun hu => h ?_
  simp only [unexplained, he.held, he.resolved, he.filledHw, Bool.and_eq_true] at hu ⊢
  exact ⟨⟨⟨hm hu.1.1.1, hu.1.1.2⟩, hu.1.2⟩, hu.2⟩

theorem Covered.foldOrder (h : Covered inv ws)
    (hx : ∀ cid, .venueBoundCid cid w ∈ o.coreRecords → l = o.ledger → unexplained ws = false) :
    Covered inv (ws.foldOrder pos o l w) := by
  have hcores : ∀ (recs : List JournalRecord) (ws : WireState), Covered inv ws →
      (∀ cid, .venueBoundCid cid w ∈ recs → l = o.ledger → unexplained ws = false) →
      Covered inv (recs.foldl (WireState.core pos o l w) ws) := by
    intro recs
    induction recs with
    | nil => exact fun _ h _ => h
    | cons rec recs ih =>
        intro ws h hx
        refine ih _ (h.core fun cid hrec => hx cid (by simp [hrec])) fun cid hmem hl => ?_
        exact unexplained_core rec (hx cid (by simp [hmem]) hl)
  simp only [WireState.foldOrder]
  split
  · exact (hcores _ ws h hx).same (dischargeEnd_sameFlags _ _)
  · exact hcores _ ws h hx

/-- A wire that comes to hold an execution nobody owns is flagged. -/
theorem Covered.hold (h : Covered inv ws) (id : FillId) (entry : InventoryEntry) :
    Covered inv (ws.hold id entry) := by
  have hgrow : ws.heldQty inv ≤ WireState.heldQty { ws with held := ws.held.insert id () } inv := by
    refine heldQty_mono (.refl _) fun id' hid' => ?_
    rw [OrdMap.contains, OrdMap.get?_insert]
    split
    · rfl
    · exact hid'
  simp only [WireState.hold]
  split
  · cases hk : ws.kind with
    | venueOnly => exact ⟨by simpa [hk] using h.kind, fun hf => by simp [flagged] at hf⟩
    | _ => exact ⟨by simpa [hk] using h.kind, fun hf => by simp [flagged] at hf⟩
  · exact ⟨h.kind, fun hf => (h.filled hf).trans hgrow⟩

theorem Covered.foldExecutions (h : Covered inv ws) (ledger : LedgerId) (os : List ExecutionOutcome) :
    Covered inv (os.foldl (WireState.foldExecution ledger l w) ws) := by
  induction os generalizing ws with
  | nil => exact h
  | cons o os ih =>
      refine ih ?_
      simp only [WireState.foldExecution]
      split
      · split
        · exact h.hold _ _
        · exact h
      · exact h

/-! ## Rounds -/

/-- Only a consistent verdict leaves a wire without a flag, and it holds then what was reported. -/
theorem ObservationRound.Finished.covered {round : ObservationRound} {r : WireRegistry}
    {members : List OrderRow} {row : RowEvidence} {t : ObservationTransaction}
    (h : Finished round r inv members row t)
    (hk : (r.ensure round.ledger round.wire).members = [] ↔
      (r.ensure round.ledger round.wire).kind = .venueOnly) : Covered inv t.wireAfter := by
  have hout := h.outcome
  rw [h.wireAfter]
  generalize r.ensure round.ledger round.wire = ws at hk hout
  generalize List.any _ _ = pending
  refine ⟨by simpa [observeWire, closeWire, closeRoles] using hk, fun hf => ?_⟩
  have hc : isConsistent t.outcome = true := by
    dsimp only [flagged, observeWire, closeWire] at hf
    cases hkind : ws.kind with
    | venueOnly =>
        simp only [hkind, if_true, Bool.not_eq_false', Bool.and_eq_true] at hf
        exact hf.2
    | _ =>
        simp only [hkind, Bool.or_eq_false_iff, Bool.not_eq_false'] at hf
        exact hf.1
  have hle : ¬ ws.heldQty inv < venueFilled ws row := by
    intro hlt
    simp only [hout, verdict, hlt, if_true] at hc
    split at hc
    · cases hc
    · split at hc
      · cases hc
      · split at hc <;> cases hc
  exact not_lt.mp hle

/-! ## Steps -/

theorem WireNoted.sameFlags {rec : Record} (h : WireNoted pos inv l w ws rec ws') : SameFlags ws ws' := by
  cases h <;> exact ⟨rfl, rfl, rfl, rfl, rfl, .rfl⟩

/-- Every wire of the shell is covered. -/
def AllCovered (s : Shell) : Prop := ∀ l w, Covered (s.inventory l) (s.registry.ensure l w)

variable {s s' : Shell} {act : ShellAction}

theorem mem_bindings {rec : Record} {cid : ClientOrderId} (h : WireRegistry.orderPart rec = some o)
    (hm : .venueBoundCid cid w ∈ o.coreRecords) : (o.ledger, w) ∈ bindings rec := by
  simp only [bindings, h]
  exact List.mem_filterMap.mpr ⟨_, hm, rfl⟩

theorem Moved.allCovered (h : Moved s act s') (hs : AllCovered s)
    (hx : ∀ rec ∈ s'.journal.drop s.journal.length, ∀ b ∈ bindings rec,
      unexplained (s.registry.ensure b.1 b.2) = false) : AllCovered s' := by
  have hkeep := h.keepsQty
  have hbefore : ∀ l w, Covered (s'.inventory l) (s.registry.ensure l w) :=
    fun l w => (hs l w).mono (hkeep l)
  cases h with
  | idle => exact hs
  | created _ => exact hs
  | @ordered _ _ _ _ o _ _ _ _ _ _ hfold =>
      intro l w
      rcases WireRegistry.foldOrderPart_ok hfold with ⟨_, rfl⟩ | ⟨_, _, hwires⟩
      · exact hs l w
      · rw [hwires]
        refine (hs l w).foldOrder fun cid hmem hl => ?_
        rw [hl]
        exact hx (.orderTxn o) (by simp) _ (mem_bindings rfl hmem)
  | @executed ledger target t part _ _ _ h =>
      intro l w
      rw [h.wires]
      refine Covered.foldExecutions ?_ _ _
      cases part with
      | none => exact hbefore l w
      | some x =>
          refine (hbefore l w).foldOrder fun cid hmem hl => ?_
          rcases h.journaled with ⟨_, hno, _⟩ | hj
          · cases hno
          · rw [hl]
            rw [h.journal, hj] at hx
            refine hx (.executionTxn ⟨ledger, (s.inventory ledger).generation, t.outcomes, some x.1⟩) ?_ _
              (mem_bindings rfl hmem)
            rw [List.drop_left]
            exact List.mem_singleton_self _
  | @observed l w outcomes page keys rows ev round t _ _ _ hround hfin h =>
      intro l' w'
      rw [h.registry, WireRegistry.ensure_set]
      split
      · rename_i heq
        have hf := ObservationRound.finish_ok hfin
        rw [heq.1]
        refine (hf.covered ?_).mono (hkeep l)
        rw [hround.1, hround.2]
        exact (hs l w).kind
      · exact hbefore l' w'
  | noted hrec hfold =>
      obtain ⟨l, w, ws', hws, hwires⟩ := hrec.wire hfold
      intro l' w'
      refine (congrArg (Covered _) (hwires l' w')).mpr ?_
      split
      · rename_i heq
        rw [heq.1]
        exact (hs l w).same hws.sameFlags
      · exact hs l' w'

/-- Every wire is covered, also those that wait to be applied. -/
structure DeskCovered (d : Desk) : Prop where
  orderly : d.Orderly
  wires : AllCovered d.shell
  waiting : ∀ x ∈ d.waiting, Covered (d.shell.inventory x.txn.ledger) x.txn.wireAfter

variable {d d' : Desk} {a : DeskAction}

theorem deskCovered_new : DeskCovered .new :=
  ⟨Desk.orderly_new, fun _ _ => covered_venueOnly _, fun _ h => nomatch h⟩

theorem Turned.covered (h : Turned d a d') (hd : DeskCovered d) (hx : Explained d d') :
    DeskCovered d' := by
  refine ⟨h.orderly hd.orderly, ?_, ?_⟩
  · cases h with
    | acted _ => exact (Shell.step_moved hd.orderly.sound _).allCovered hd.wires hx
    | arranged _ => exact hd.wires
    | @applied i x keys _ _ _ _ _ _ _ hget _ _ hc _ =>
        intro l w
        rw [Shell.inventory, hc.inventories, hc.registry, WireRegistry.ensure_set]
        split
        · rename_i heq
          rw [heq.1]
          exact hd.waiting x (List.mem_of_getElem? hget)
        · exact hd.wires l w
  · cases h with
    | acted _ =>
        exact fun x hx => (hd.waiting x hx).mono ((Shell.step_moved hd.orderly.sound _).keepsQty _)
    | arranged hw =>
        intro x hx
        rcases hw x hx with hx | ⟨-, round, _, rows, ev, _, hfin⟩
        · exact hd.waiting x hx
        · have hf := ObservationRound.finish_ok hfin
          rw [hf.ledger]
          exact hf.covered (hd.wires _ _).kind
    | applied _ _ _ _ hc hw =>
        intro x hx
        simp only [Shell.inventory, hc.inventories]
        exact hd.waiting x (hw x hx)

/-! ## The verdict over a ledger -/

namespace WireRegistry

variable {ledger : LedgerId} {lookup : ClientOrderId → Option OrderRow} {t t₀ : Tally}

theorem add_unresolved (t : Tally) (ws : WireState) (inv : MarketInventory) (debts : List Nat) :
    (t.add ws inv debts).unresolved = (t.unresolved || flagged ws) := by
  simp only [Tally.add, flagged]
  cases ws.kind with
  | venueOnly => cases ws.resolved <;> simp
  | _ => cases ws.tracked <;> simp

theorem add_wireResidual (t : Tally) (ws : WireState) (inv : MarketInventory) (debts : List Nat) :
    (t.add ws inv debts).wireResidual =
      saturatingAdd u64Max t.wireResidual (residual ws inv debts) := by
  simp only [Tally.add]
  split <;> split <;> rfl

theorem residual_eq_zero (h : ws.filledHw ≤ ws.heldQty inv) (debts : List Nat) :
    residual ws inv debts = 0 := by
  simp only [residual, saturatingSub]
  omega

/-- A tally that finds nothing unresolved has found no wire flagged, and looked up every member. -/
theorem tally_resolved {wires : List WireState}
    (h : wires.foldlM (fun t ws => do
      let debts ← memberDebts ledger lookup ws
      .ok (t.add ws inv debts)) t₀ = .ok t)
    (hu : t.unresolved = false) : t₀.unresolved = false ∧ ∀ ws ∈ wires, flagged ws = false ∧
      ∃ debts, memberDebts ledger lookup ws = .ok debts := by
  induction wires generalizing t₀ with
  | nil =>
      cases h
      exact ⟨hu, fun _ h => nomatch h⟩
  | cons ws wires ih =>
      rw [List.foldlM_cons] at h
      obtain ⟨t₁, ht₁, h⟩ := exceptBind_ok.mp h
      obtain ⟨debts, hdebts, ht₁⟩ := exceptBind_ok.mp ht₁
      cases ht₁
      obtain ⟨hu₁, hrest⟩ := ih h
      rw [add_unresolved, Bool.or_eq_false_iff] at hu₁
      refine ⟨hu₁.1, fun ws' hws' => ?_⟩
      rcases List.mem_cons.mp hws' with rfl | hws'
      · exact ⟨hu₁.2, debts, hdebts⟩
      · exact hrest ws' hws'

/-- Wires that hold what was reported leave no residual. -/
theorem tally_residual {wires : List WireState}
    (h : wires.foldlM (fun t ws => do
      let debts ← memberDebts ledger lookup ws
      .ok (t.add ws inv debts)) t₀ = .ok t)
    (hw : ∀ ws ∈ wires, ws.filledHw ≤ ws.heldQty inv) (h₀ : t₀.wireResidual = 0) :
    t.wireResidual = 0 := by
  induction wires generalizing t₀ with
  | nil =>
      cases h
      exact h₀
  | cons ws wires ih =>
      rw [List.foldlM_cons] at h
      obtain ⟨t₁, ht₁, h⟩ := exceptBind_ok.mp h
      obtain ⟨debts, -, ht₁⟩ := exceptBind_ok.mp ht₁
      cases ht₁
      refine ih h (fun ws' hws' => hw ws' (by simp [hws'])) ?_
      rw [add_wireResidual, h₀, residual_eq_zero (hw ws (by simp))]
      rfl

theorem readiness_ready {r : WireRegistry} (h : r.readiness ledger lookup inv = .ok .ready) :
    ∃ t, r.tally ledger lookup inv = .ok t ∧ t.unresolved = false := by
  simp only [readiness] at h
  split at h
  · cases h
  · obtain ⟨t, ht, h⟩ := exceptBind_ok.mp h
    split at h
    · cases h
    · rename_i hu
      exact ⟨t, ht, by simpa using hu⟩

theorem mem_wiresOf {r : WireRegistry} :
    ws ∈ r.wiresOf ledger ↔ ∃ wire, r.get ledger wire = some ws := by
  simp only [wiresOf, List.mem_map, List.mem_filter, Prod.exists, decide_eq_true_eq,
    exists_eq_right, OrdMap.mem_entries, get]
  constructor
  · rintro ⟨⟨l, w⟩, hk, rfl⟩
    exact ⟨w, hk⟩
  · rintro ⟨w, hw⟩
    exact ⟨⟨ledger, w⟩, hw, rfl⟩

end WireRegistry

theorem DeskCovered.ready (h : DeskCovered d) : ReadyExplained d := by
  intro ledger lookup hready
  obtain ⟨t, ht, hu⟩ := WireRegistry.readiness_ready hready
  have hwires := (WireRegistry.tally_resolved ht hu).2
  have hle : ∀ ws ∈ d.shell.registry.wiresOf ledger,
      ws.filledHw ≤ ws.heldQty (d.shell.inventory ledger) := by
    intro ws hws
    obtain ⟨wire, hget⟩ := WireRegistry.mem_wiresOf.mp hws
    have hc := h.wires ledger wire
    rw [WireRegistry.ensure_of_get hget] at hc
    exact hc.filled (hwires ws hws).1
  refine ⟨fun wire ws hget => ?_, t, ht, WireRegistry.tally_residual ht hle rfl⟩
  have hmem := WireRegistry.mem_wiresOf.mpr ⟨wire, hget⟩
  obtain ⟨debts, hdebts⟩ := (hwires ws hmem).2
  refine ⟨debts, hdebts, (hle ws hmem).trans ?_⟩
  rw [heldQty_eq_min]
  exact (min_le_left _ _).trans (Nat.le_add_right _ _)

/-! ## Runs -/

/-- In a run that binds no order to an unexplained wire, a ledger that is ready has nothing unexplained. -/
theorem ready_explained (acts : List DeskAction) (h : desk.Always BindsExplained .new acts) :
    ReadyExplained (desk.final .new acts) := by
  have hrun := desk.history_induction (P := fun _ d => DeskCovered d) (w := [])
    (fun _ d a hd hx => (d.step_turned a).covered hd hx) deskCovered_new h
  exact hrun.ready

/-! ## An execution that is reported before the order is bound -/

def earlyKey : OrderKey := ⟨⟨⟨"s"⟩, "M"⟩, ⟨"c"⟩⟩

/-- The order goes out and its create response binds it to the wire `v`, with nothing filled. -/
def bindRun : List DeskAction :=
  [.shell (.create earlyKey "M" "x" .buyYes 40 3), .shell (.order earlyKey .prepareSubmit),
    .shell (.order earlyKey (.startSubmit ⟨"a"⟩)),
    .shell (.order earlyKey (.submitResponse ⟨"v"⟩ 0 3 none none none))]

/-- The venue reports five executed of the wire, none of which is listed. -/
def earlyReport : DeskAction :=
  .shell (.observe earlyKey.ledger ⟨"v"⟩ [] none []
    ⟨earlyKey.ledger, ⟨"v"⟩, .partialFill, 5, 0, none, 0⟩)

/-- Two of the order are executed and attributed to it. -/
def listedFill : ExecutionEvidence :=
  ⟨earlyKey.ledger.scope, "M", ⟨"f"⟩, .buyYes, 2, 40, 1, some ⟨"v"⟩, none, some 0, .wsFill⟩

/-- The order is bound, its execution arrives, and a round over the wire lists it. -/
def listedRun : List DeskAction :=
  bindRun ++
    [.shell (.execution (some earlyKey) earlyKey.ledger listedFill),
      .shell (.observe earlyKey.ledger ⟨"v"⟩
        [⟨listedFill, .attributed, .duplicate,
          some ⟨.buyYes, 2, 40, 1, some ⟨"v"⟩, none, some ⟨"c"⟩, some 0, .wsFill, .attributed⟩, none⟩]
        (some ⟨true, 0⟩) [earlyKey] ⟨earlyKey.ledger, ⟨"v"⟩, .partialFill, 2, 1, none, 0⟩)]

/-- The ledger is ready, the venue reported two of its wire, and they are explained. -/
theorem ready_explained_listed :
    ∃ ws debts, (desk.final .new listedRun).shell.registry.get earlyKey.ledger ⟨"v"⟩ = some ws ∧
      ws.filledHw = 2 ∧
      WireRegistry.memberDebts earlyKey.ledger
        (fun cid => (desk.final .new listedRun).shell.orders.get? ⟨earlyKey.ledger, cid⟩) ws = .ok debts ∧
      2 ≤ heldSum ws ((desk.final .new listedRun).shell.inventory earlyKey.ledger) + debts.sum := by
  obtain ⟨hwires, -⟩ := ready_explained listedRun (by decide) earlyKey.ledger
    (fun cid => (desk.final .new listedRun).shell.orders.get? ⟨earlyKey.ledger, cid⟩) (by decide)
  have hfilled : ((desk.final .new listedRun).shell.registry.get earlyKey.ledger ⟨"v"⟩).map
      (·.filledHw) = some 2 := by decide
  obtain ⟨ws, hget, htwo⟩ := Option.map_eq_some_iff.mp hfilled
  obtain ⟨debts, hdebts, hle⟩ := hwires ⟨"v"⟩ ws hget
  exact ⟨ws, debts, hget, htwo, hdebts, htwo ▸ hle⟩

/-- The ledger is ready, and five executed of its wire are unexplained. -/
theorem early_report_unexplained : ¬ ∀ acts, ReadyExplained (desk.final .new acts) := by
  intro h
  let s := (desk.final .new (earlyReport :: bindRun)).shell
  let lookup := fun cid => s.orders.get? ⟨earlyKey.ledger, cid⟩
  have hwire : (s.registry.get earlyKey.ledger ⟨"v"⟩).map (fun ws => (ws.filledHw,
      heldSum ws (s.inventory earlyKey.ledger),
      WireRegistry.memberDebts earlyKey.ledger lookup ws)) = some (5, 0, .ok [0]) := by decide
  obtain ⟨hwires, -⟩ := h (earlyReport :: bindRun) earlyKey.ledger lookup (by decide)
  obtain ⟨ws, hget, heq⟩ := Option.map_eq_some_iff.mp hwire
  obtain ⟨debts, hdebts, hle⟩ := hwires ⟨"v"⟩ ws hget
  simp only [Prod.mk.injEq] at heq
  obtain ⟨hfilled, hheld, hd⟩ := heq
  rw [hd] at hdebts
  cases hdebts
  rw [hfilled, hheld] at hle
  exact absurd hle (by decide)

end Omsrs.Observation
