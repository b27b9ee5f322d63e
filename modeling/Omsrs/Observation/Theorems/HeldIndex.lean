import Omsrs.Observation.Lemmas.Held
import Omsrs.Observation.Lemmas.Noted

/-!
# The executions a wire holds

A wire holds the executions whose entries name it. The registry learns of a write from the outcome that
made it, the inventory keeps the last one: the two agree as long as no batch of a foreign row completes
one entry with different venue orders.
-/

namespace Omsrs.Observation
open Omsrs.Lib Omsrs.Lifecycle Omsrs.Execution

/-- The executions whose entries name the wire are the ones it holds. -/
def Indexed (s : Shell) : Prop :=
  ∀ l w id, (s.registry.ensure l w).held.contains id = true ↔
    ∃ p, (s.inventory l).get id = some p ∧ p.venueOrderId = some w

/-- The executed quantity of a wire, by the inventory. -/
def executedQty (inv : MarketInventory) (w : VenueOrderId) : Nat :=
  ((inv.entries.values.filter fun p => decide (p.venueOrderId = some w)).map (·.qty)).sum

/-- What the registry holds is what the inventory has: the ids of every wire, each under one wire, with
all their quantity. -/
structure HeldAgrees (s : Shell) : Prop where
  held : Indexed s
  once : ∀ l w w' id, (s.registry.ensure l w).held.contains id = true →
    (s.registry.ensure l w').held.contains id = true → w = w'
  covered : ∀ l w, (s.registry.ensure l w).heldQty (s.inventory l) =
    min (executedQty (s.inventory l) w) u64Max

/-! ## The condition -/

/-- The evidence completes an entry that names no venue order yet. -/
def completes (inv : MarketInventory) (e : ExecutionEvidence) : Bool :=
  match inv.get e.executionId with
  | some p =>
      decide (e.qty ≠ 0) && p.venueOrderId.isNone && !disagreesEntry e p &&
        !feeConflict e.feeCents p.feeCents &&
        (e.venueOrderId.isSome || fillsIn p.feeCents e.feeCents)
  | none => false

/-- The venue order named by the last evidence that completes the entry of an execution. -/
def lastVenue (inv : MarketInventory) (es : List ExecutionEvidence) (id : FillId) :
    Option VenueOrderId :=
  ((es.filter fun e => decide (e.executionId = id) && completes inv e).getLast?).bind (·.venueOrderId)

/-- No evidence completes an entry with another venue order than the last one does. -/
def Unanimous (inv : MarketInventory) (es : List ExecutionEvidence) : Prop :=
  ∀ e ∈ es, completes inv e = true → ∀ w, e.venueOrderId = some w →
    lastVenue inv es e.executionId = some w

/-- A batch that a foreign row lets through is unanimous. -/
def ForeignUnanimous (s : Shell) : ShellAction → Prop
  | .batch key l event es => ∀ row, s.orders.get? key = some row →
      rowForeign row (s.inventory l) = true → checkEvidenceMatchesFills event.fills es = .ok () →
      checkBatchLedger (s.inventory l) es = .ok () → Unanimous (s.inventory l) es
  | _ => True

/-! ## The quantity of a wire -/

theorem heldQty_eq {ws : WireState} {inv : MarketInventory} {w : VenueOrderId}
    (h : ∀ id, ws.held.contains id = true ↔ ∃ p, inv.get id = some p ∧ p.venueOrderId = some w) :
    ws.heldQty inv = min (executedQty inv w) u64Max := by
  have hperm : ws.held.keys.Perm
      ((inv.entries.entries.filter fun e => decide (e.2.venueOrderId = some w)).map Prod.fst) := by
    refine (List.perm_ext_iff_of_nodup ws.held.keys_nodup ?_).mpr fun id => ?_
    · exact inv.entries.keys_nodup.sublist (List.filter_sublist.map Prod.fst)
    · rw [OrdMap.mem_keys, ← OrdMap.contains_iff, h]
      simp only [List.mem_map, List.mem_filter, Prod.exists, OrdMap.mem_entries, decide_eq_true_eq,
        exists_and_right, exists_eq_right]
      rfl
  have hqty : (ws.held.keys.map fun id => ((inv.get id).map (·.qty)).getD 0).sum =
      executedQty inv w := by
    rw [(hperm.map _).sum_eq, List.map_map, executedQty, OrdMap.values, List.filter_map, List.map_map]
    refine congrArg _ (List.map_congr_left fun e he => ?_)
    have hget : inv.get e.1 = some e.2 := OrdMap.mem_entries.mp (List.mem_filter.mp he).1
    simp [hget]
  rw [← hqty, WireState.heldQty]
  simpa only [Nat.zero_min, Nat.zero_add] using foldl_saturatingAdd u64Max _ 0

theorem Indexed.agrees {s : Shell} (h : Indexed s) : HeldAgrees s := by
  refine ⟨h, fun l w w' id hw hw' => ?_, fun l w => heldQty_eq (h l w)⟩
  obtain ⟨p, hp, hv⟩ := (h l w id).mp hw
  obtain ⟨p', hp', hv'⟩ := (h l w' id).mp hw'
  rw [hp] at hp'
  cases hp'
  rw [hv] at hv'
  exact Option.some.inj hv'

/-! ## Folding the writes of a transaction -/

/-- Every write that names a wire is followed by a last one that names it too. -/
def Lasting (writes : List (FillId × InventoryEntry)) : Prop :=
  ∀ id x w, (id, x) ∈ writes → x.venueOrderId = some w →
    ∀ y, (OrdMap.empty.insertAll writes).get? id = some y → y.venueOrderId = some w

theorem lasting_of_once {writes : List (FillId × InventoryEntry)}
    (h : ∀ id x y, (id, x) ∈ writes → (id, y) ∈ writes → x = y) : Lasting writes :=
  fun id x _ hx hv y hy => h id x y hx (OrdMap.mem_of_get?_insertAll hy) ▸ hv

variable {s s' : Shell} {act : ShellAction} {l : LedgerId} {target : Option (OrderKey × OrderRow)}
  {t : ExecutionTransaction} {part : Option (OrderTxnRecord × OrderAfter)}

/-- An installed transaction keeps the index exactly when its writes last. -/
theorem Installed.indexed_iff (h : Installed s l target t part s')
    (hprep : Prepared (s.inventory l) (target.map (·.2)) t) (hi : Indexed s) :
    Indexed s' ↔ Lasting t.writes := by
  have hheld : ∀ l' w id, (s'.registry.ensure l' w).held.contains id = true ↔
      (∃ p, (s.inventory l').get id = some p ∧ p.venueOrderId = some w) ∨
        l' = l ∧ ∃ x, (id, x) ∈ t.writes ∧ x.venueOrderId = some w := by
    intro l' w id
    rw [h.wires, foldExecutions_held, foldPart_held, hi]
    rfl
  have hget : ∀ id, (s'.inventory l).get id =
      ((OrdMap.empty.insertAll t.writes).get? id).or ((s.inventory l).get id) := by
    intro id
    rw [h.inventory, if_pos rfl, MarketInventory.install_get, hprep.wellPlanned.entries]
    rfl
  constructor
  · intro hi' id x w hx hv y hy
    obtain ⟨p, hp, hpv⟩ := (hi' l w id).mp ((hheld l w id).mpr (.inr ⟨rfl, x, hx, hv⟩))
    rw [hget, hy] at hp
    cases hp
    exact hpv
  · intro hl l' w id
    rw [hheld]
    by_cases hll : l' = l
    · subst hll
      rw [hget]
      cases hy : (OrdMap.empty.insertAll t.writes).get? id with
      | none =>
          simp only [Option.none_or, true_and, or_iff_left_iff_imp]
          rintro ⟨x, hx, -⟩
          exact absurd (List.mem_map_of_mem hx) (OrdMap.get?_insertAll_none.mp hy)
      | some y =>
          simp only [Option.some_or, Option.some.injEq, exists_eq_left', true_and]
          have hy' := OrdMap.mem_of_get?_insertAll hy
          constructor
          · rintro (⟨p, hp, hv⟩ | ⟨x, hx, hv⟩)
            · exact (hprep.extends_ hy' hp).venue w hv
            · exact hl id x w hx hv y hy
          · exact fun hv => .inr ⟨y, hy', hv⟩
    · simp only [hll, false_and, or_false, h.inventory, if_false]

/-! ## Which writes last -/

/-- The last write of a foreign batch under an execution that is there. -/
theorem completed_venue {inv : MarketInventory} {p : InventoryEntry} {e : ExecutionEvidence}
    (hp : inv.get e.executionId = some p) (hv : p.venueOrderId = none) :
    ((completed p e).isSome = completes inv e) ∧
      ∀ x, completed p e = some x → x.venueOrderId = e.venueOrderId := by
  simp only [completed, completes, hp, hv, fillsIn, fillIn]
  by_cases hq : e.qty = 0
  · simp [hq]
  · by_cases hd : disagreesEntry e p = true
    · simp [hq, hd]
    · by_cases hf : feeConflict e.feeCents p.feeCents = true
      · simp [hq, hd, hf]
      · simp only [hq, hd, hf, decide_false, Bool.or_self, Bool.false_eq_true, if_false]
        split
        · rename_i hfill
          simp only [Option.isNone_none, Bool.true_and] at hfill
          simp [hfill, hq]
        · rename_i hfill
          simp only [Option.isNone_none, Bool.true_and] at hfill
          simp [hfill]

theorem completed_keeps {p x : InventoryEntry} {e : ExecutionEvidence} {w : VenueOrderId}
    (hv : p.venueOrderId = some w) (h : completed p e = some x) : x.venueOrderId = some w := by
  simp only [completed] at h
  split at h
  · cases h
  · split at h
    · cases h
      exact fillIn_eq_some hv
    · cases h

/-- The writes of a batch of a foreign row last exactly when the batch is unanimous. -/
theorem foreign_lasting_iff {order : OrderRow} {inv : MarketInventory} {event : OrderEvent}
    {es : List ExecutionEvidence} (b : BatchParts order inv event es t)
    (hf : rowForeign order inv = true) : Lasting t.writes ↔ Unanimous inv es := by
  have hlast : ∀ {id : FillId} {p : InventoryEntry}, inv.get id = some p →
      p.venueOrderId = none → ((OrdMap.empty.insertAll t.writes).get? id).bind (·.venueOrderId) =
        lastVenue inv es id := by
    intro id p hp hv
    have hes : ((es.filter fun e => decide (e.executionId = id)).filterMap fun e =>
        (completed p e).map fun x => (id, x)).map (·.2.venueOrderId) =
        (es.filter fun e => decide (e.executionId = id) && completes inv e).map (·.venueOrderId) := by
      clear b
      induction es with
      | nil => rfl
      | cons e es ih =>
          by_cases hid : e.executionId = id
          · obtain ⟨hs, hx⟩ := completed_venue (e := e) (hid ▸ hp) hv
            simp only [List.filter_cons, hid, decide_true, if_true, Bool.true_and,
              List.filterMap_cons, ← hs]
            cases hc : completed p e with
            | none => simpa using ih
            | some x => simpa [hx x hc] using ih
          · simpa [List.filter_cons, hid] using ih
    rw [OrdMap.get?_insertAll_getLast? (p := fun w => decide (w.1 = id)) (by simp),
      b.foreign_writes hf hp, lastVenue]
    have := congrArg List.getLast? hes
    rw [List.getLast?_map, List.getLast?_map] at this
    revert this
    cases (List.getLast? _ : Option (FillId × InventoryEntry)) <;>
      cases (List.getLast? _ : Option ExecutionEvidence) <;> simp
  have hmem : ∀ {id : FillId} {p x : InventoryEntry}, inv.get id = some p →
      ((id, x) ∈ t.writes ↔ ∃ e ∈ es, e.executionId = id ∧ completed p e = some x) := by
    intro id p x hp
    have : (id, x) ∈ t.writes ↔ (id, x) ∈ t.writes.filter (fun w => decide (w.1 = id)) := by simp
    rw [this, b.foreign_writes hf hp]
    simp [and_assoc]
  constructor
  · intro h e he hc w hw
    cases hp : inv.get e.executionId with
    | none => simp [completes, hp] at hc
    | some p =>
        have hv : p.venueOrderId = none := by
          simp only [completes, hp, Bool.and_eq_true, Option.isNone_iff_eq_none] at hc
          exact hc.1.1.1.2
        obtain ⟨hs, hx⟩ := completed_venue hp hv
        rw [hc] at hs
        obtain ⟨x, hcx⟩ := Option.isSome_iff_exists.mp hs
        have hin := (hmem hp).mpr ⟨e, he, rfl, hcx⟩
        rw [← hlast hp hv]
        cases hy : (OrdMap.empty.insertAll t.writes).get? e.executionId with
        | none => exact absurd (List.mem_map_of_mem hin) (OrdMap.get?_insertAll_none.mp hy)
        | some y => exact h _ x w hin ((hx x hcx).trans hw) y hy
  · intro h id x w hx hv y hy
    cases hp : inv.get id with
    | none => exact b.writes_once (.inr hp) hx (OrdMap.mem_of_get?_insertAll hy) ▸ hv
    | some p =>
        obtain ⟨e, he, rfl, hcx⟩ := (hmem hp).mp hx
        cases hpv : p.venueOrderId with
        | some v =>
            obtain ⟨e', _, _, hcy⟩ := (hmem hp).mp (OrdMap.mem_of_get?_insertAll hy)
            rw [completed_keeps hpv hcx] at hv
            rw [completed_keeps hpv hcy, hv]
        | none =>
            obtain ⟨hs, hxv⟩ := completed_venue hp hpv
            rw [hcx] at hs
            have := h e he hs.symm w ((hxv x hcx).symm.trans hv)
            rwa [← hlast hp hpv, hy] at this

/-! ## Steps and runs -/

theorem indexed_new : Indexed Shell.new := fun _ _ _ =>
  iff_of_false (fun h => nomatch h) fun ⟨_, h, _⟩ => nomatch h

theorem Indexed.of_held (hi : Indexed s) (hinv : s'.inventories = s.inventories)
    (hheld : ∀ l w, (s'.registry.ensure l w).held = (s.registry.ensure l w).held) : Indexed s' := by
  intro l w id
  rw [hheld, Shell.inventory, hinv]
  exact hi l w id

/-- A step whose writes last keeps the index. -/
theorem Moved.indexed (h : Moved s act s') (hi : Indexed s)
    (hw : ∀ l target t, PreparedFor s l act target t → Lasting t.writes) : Indexed s' := by
  cases h with
  | idle => exact hi
  | created _ => exact hi
  | ordered _ _ _ _ hfold =>
      refine hi.of_held rfl fun l w => ?_
      rcases WireRegistry.foldOrderPart_ok hfold with ⟨_, rfl⟩ | ⟨_, _, hwires⟩
      · rfl
      · exact hwires l w ▸ (WireState.foldOrder_sameEvidence _ _ _ _ _).held
  | @executed l target t _ _ hprep _ h =>
      exact (h.indexed_iff hprep.prepared hi).mpr (hw l target t hprep)
  | @observed l w _ _ _ _ _ _ t _ _ _ hround hfin h =>
      have hheld : t.wireAfter.held = (s.registry.ensure l w).held := by
        rw [(ObservationRound.finish_ok hfin).wireAfter, hround.1, hround.2]
        rfl
      refine hi.of_held h.inventories fun l' w' => ?_
      rw [h.registry, WireRegistry.ensure_set]
      split
      · rename_i heq
        rw [hheld, heq.1, heq.2]
      · rfl
  | noted hrec hfold =>
      obtain ⟨l, w, ws', hws, hwires⟩ := hrec.wire hfold
      refine hi.of_held rfl fun l' w' => (congrArg _ (hwires l' w')).trans ?_
      split
      · rename_i heq
        rw [hws.held_eq, heq.1, heq.2]
      · rfl

/-- A single evidence is unanimous. -/
theorem unanimous_single (inv : MarketInventory) (e : ExecutionEvidence) : Unanimous inv [e] := by
  intro e' he hc w hw
  obtain rfl := List.mem_singleton.mp he
  simp [lastVenue, hc, hw]

/-- Nothing is asked of the core for a foreign row, so nothing but the checks refuses its batch. -/
theorem foreign_prepared {order : OrderRow} {inv : MarketInventory} {event : OrderEvent}
    {es : List ExecutionEvidence} (hrow : rowForeign order inv = true)
    (hf : checkEvidenceMatchesFills event.fills es = .ok ()) (hl : checkBatchLedger inv es = .ok ()) :
    ∃ t, prepareExecutionBatch order inv event es = .ok t := by
  simp [prepareExecutionBatch, hf, hl, batchCore, hrow, orderPart, bind, Except.bind]

theorem PreparedFor.lasting (h : PreparedFor s l act target t) (hc : ForeignUnanimous s act) :
    Lasting t.writes := by
  cases h with
  | norow h => exact lasting_of_once fun id x y hx hy => (norow_write h hy).2 x hx
  | @batch _ key row event _ hrow hact h =>
      obtain ⟨b⟩ := prepareExecutionBatch_parts h
      cases hf : rowForeign row (s.inventory l) with
      | false => exact lasting_of_once fun _ _ _ => b.writes_once (.inl hf)
      | true =>
          rw [foreign_lasting_iff b hf]
          rcases hact with ⟨e, rfl⟩ | hact
          · exact unanimous_single _ e
          · rw [hact] at hc
            obtain ⟨hfills, hledger⟩ := prepared_checks h
            exact hc row hrow hf hfills hledger

/-- A step keeps the index exactly when a batch that a foreign row lets through is unanimous. -/
theorem step_indexed_iff (hs : Sound s) (hi : Indexed s) (act : ShellAction) :
    Indexed (shell.step s act).2 ↔ ForeignUnanimous s act := by
  constructor
  · intro hi'
    cases act with
    | batch key l event es =>
        intro row hrow hf hfills hledger
        obtain ⟨t, ht⟩ := foreign_prepared hf hfills hledger
        obtain ⟨b⟩ := prepareExecutionBatch_parts ht
        have hprep : PreparedFor s l (.batch key l event es) (some (key, row)) t :=
          .batch hrow (.inr rfl) ht
        obtain ⟨part, _, hinst⟩ := Shell.applyExecution_installed hs hprep
        have hstep : (shell.step s (.batch key l event es)).2 =
            (s.applyExecution (some (key, row)) l t).2 := by
          simp only [shell, Shell.step, Shell.batch, hrow, ht]
        rw [hstep, hinst.indexed_iff hprep.prepared hi, foreign_lasting_iff b hf] at hi'
        exact hi'
    | _ => exact trivial
  · exact fun hc => (Shell.step_moved hs act).indexed hi fun _ _ _ h => h.lasting hc

/-- The held ids agree with the inventory all along a run exactly when every batch that a foreign row
lets through is unanimous. -/
theorem held_agrees_iff (acts : List ShellAction) :
    (∀ pre, pre <+: acts → HeldAgrees (shell.final .new pre)) ↔
      shell.Always ForeignUnanimous .new acts := by
  rw [← shell.kept_iff_always (I := Indexed) (J := Sound) (fun _ act hs => step_sound hs act)
    (fun _ act hs hi => step_indexed_iff hs hi act) Shell.sound_new indexed_new]
  exact ⟨fun h pre hp => (h pre hp).held, fun h pre hp => (h pre hp).agrees⟩

/-! ## A batch that is not unanimous -/

def strayLedger : LedgerId := ⟨⟨"s"⟩, "M"⟩

/-- One execution as the venue reports it, first of no venue order, then of two. -/
def strayEvidence (wire : Option String) : ExecutionEvidence :=
  ⟨⟨"s"⟩, "M", ⟨"f"⟩, .buyYes, 3, 40, 1, wire.map .mk, none, none, .restFill⟩

def strayFill (wire : String) : FillRecord := ⟨⟨"f"⟩, 3, 40, 1, some ⟨wire⟩, none⟩

/-- The order of another market is asked to take the execution. -/
def strayBatch : List ShellAction :=
  [.create ⟨⟨⟨"s"⟩, "N"⟩, ⟨"c"⟩⟩ "N" "x" .buyYes 40 3,
    .execution none strayLedger (strayEvidence none),
    .batch ⟨⟨⟨"s"⟩, "N"⟩, ⟨"c"⟩⟩ strayLedger
      (.immediateFillBackfillResult [strayFill "v", strayFill "w"])
      [strayEvidence (some "v"), strayEvidence (some "w")]]

/-- Both wires hold the execution; its entry names the last one only. -/
theorem stray_batch_held_twice : ¬ ∀ acts, HeldAgrees (shell.final .new acts) := by
  intro h
  have honce := (h strayBatch).once strayLedger ⟨"v"⟩ ⟨"w"⟩ ⟨"f"⟩ (by decide) (by decide)
  exact absurd honce (by decide)

end Omsrs.Observation
