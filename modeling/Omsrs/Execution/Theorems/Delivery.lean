import Omsrs.Execution.Lemmas.Deliver

/-!
# Executions in any order

Deliveries of one order and of no order build the same inventory in every order, as far as each
evidence is taken over into what is known. A known execution of the other side is compared only, so
there the order of the deliveries may decide which conflicts are seen.
-/

namespace Omsrs.Execution
open Omsrs.Lib Omsrs.Lifecycle Omsrs.Observation

variable {row : OrderRow} {ledger : LedgerId} {ds ds' : List Delivery} {s : Holding} {d : Delivery}

/-- The deliveries of one execution. -/
def ofExecution (id : FillId) (ds : List Delivery) : List Delivery :=
  ds.filter fun d => decide (d.evidence.executionId = id)

def Delivery.report (d : Delivery) : Report := d.evidence.report

/-- Whether a delivery's evidence is taken over into a known entry. -/
def takesOver (row : OrderRow) (ledger : LedgerId) (d : Delivery) : Bool :=
  !d.forRow || rowTakes row (.new ledger) d.evidence

/-- Evidence of the ledger that books something. -/
def Delivery.Valid (ledger : LedgerId) (d : Delivery) : Prop :=
  evidenceLedger d.evidence = ledger ∧ 0 < d.evidence.qty

instance (ledger : LedgerId) (d : Delivery) : Decidable (d.Valid ledger) :=
  inferInstanceAs (Decidable (_ ∧ _))

/-! ## Along the deliveries -/

/-- What stands after the deliveries `ds` to `row` and an empty inventory. -/
structure Posted (row : OrderRow) (ledger : LedgerId) (ds : List Delivery) (s : Holding) : Prop where
  inventory : s.inventory.ledger = ledger
  rowLedger : s.row.ledger = row.ledger
  market : s.row.ctx.market = row.ctx.market
  side : s.row.ctx.side = row.ctx.side
  seq : s.row.cursor.seq ≤ row.cursor.seq + ds.length
  covers : ∀ id, Covers s.row s.inventory id
  view : ∀ id, s.inventory.view id =
    reporting.gatherAll Delivery.report (takesOver row ledger) (ofExecution id ds)

theorem posted_nil (h : row.ctx.appliedFills = .empty) :
    Posted row ledger [] ⟨row, .new ledger⟩ := by
  refine ⟨rfl, rfl, rfl, rfl, le_rfl, fun id => ⟨fun q hq => ?_, fun p o hp _ => ?_⟩, fun id => rfl⟩
  · dsimp only at hq
    rw [h] at hq
    cases hq
  · cases hp

theorem Posted.takes (h : Posted row ledger ds s) (hd : d.forRow = true) :
    takesOver row ledger d = rowTakes s.row s.inventory d.evidence := by
  simp only [takesOver, hd, Bool.not_true, Bool.false_or, rowTakes, rowForeign, h.inventory, h.rowLedger,
    h.market, h.side]
  rfl

theorem Posted.delivered {s' : Holding} (h : Posted row ledger ds s)
    (hd : Delivered s d (takesOver row ledger d) s') : Posted row ledger (ds ++ [d]) s' := by
  obtain ⟨o, entry, t, hj, hplan, hinv, howner, hbooked⟩ := hd.installed
  have hget := hj.get hplan
  rw [← hinv] at hget
  refine ⟨?_, hd.ledger.trans h.rowLedger, hd.intake.market.trans h.market,
    hd.intake.side.trans h.side, ?_, fun id => ⟨fun q hq => ?_, fun p w hp hw => ?_⟩, fun id => ?_⟩
  · rw [hinv, MarketInventory.install_ledger]
    exact h.inventory
  · have hs := hd.seq
    have hb := h.seq
    rw [List.length_append, List.length_singleton]
    omega
  · rw [hget]
    by_cases hid : id = d.evidence.executionId
    · subst hid
      rw [if_pos rfl]
      exact hbooked q hq
    · rw [if_neg hid]
      rcases hd.intake.fills id with hsame | ⟨f, _, hf, hfid, _, _⟩
      · exact (h.covers id).booked q (hsame ▸ hq)
      · exact absurd (hfid.symm.trans hf) hid
  · rw [hd.intake.client]
    rw [hget] at hp
    by_cases hid : id = d.evidence.executionId
    · subst hid
      rw [if_pos rfl] at hp
      cases entry with
      | none => exact (h.covers _).owned p w hp hw
      | some x =>
          obtain rfl := Option.some.inj hp
          rcases howner x rfl with ho | ho | ho
          · rw [hw] at ho
            obtain ⟨p', hp', hw'⟩ := Option.bind_eq_some_iff.mp ho.symm
            exact (h.covers _).owned p' w hp' hw'
          · exact Option.some.inj (hw.symm.trans ho)
          · rw [hw] at ho
            cases ho
    · rw [if_neg hid] at hp
      exact (h.covers id).owned p w hp hw
  · rw [hinv, hj.view hplan, h.view]
    by_cases hid : id = d.evidence.executionId
    · subst hid
      have hsnoc : ofExecution d.evidence.executionId (ds ++ [d]) =
          ofExecution d.evidence.executionId ds ++ [d] := by simp [ofExecution]
      rw [if_pos rfl, hsnoc, Reporting.gatherAll_append]
      rfl
    · have hsnoc : ofExecution id (ds ++ [d]) = ofExecution id ds := by
        simp [ofExecution, Ne.symm hid]
      rw [if_neg hid, hsnoc]

/-- A delivery is always prepared and taken. -/
theorem Posted.step (h : Posted row ledger ds s) (hd : d.Valid ledger)
    (hseq : row.cursor.seq + ds.length < u64Max) :
    (delivery.step s d).1 = .taken ∧ Posted row ledger (ds ++ [d]) (delivery.step s d).2 := by
  have hl : evidenceLedger d.evidence = s.inventory.ledger := hd.1.trans h.inventory.symm
  have hq : d.evidence.qty ≠ 0 := hd.2.ne'
  obtain ⟨forRow, e⟩ := d
  cases forRow with
  | false =>
      obtain ⟨hr, hdel⟩ := deliver_norow hl hq (h.covers _)
      exact ⟨hr, h.delivered hdel⟩
  | true =>
      have hs := h.seq
      obtain ⟨hr, hdel⟩ := deliver_row hl hq (h.covers _) (by omega)
      refine ⟨hr, h.delivered ?_⟩
      rw [h.takes rfl]
      exact hdel

theorem Posted.run (h : Posted row ledger ds s) (hds : ∀ d ∈ ds', d.Valid ledger)
    (hseq : row.cursor.seq + (ds ++ ds').length ≤ u64Max) :
    Posted row ledger (ds ++ ds') (delivery.final s ds') := by
  induction ds' generalizing ds s with
  | nil => simpa using h
  | cons d ds' ih =>
      have hlen : row.cursor.seq + ds.length < u64Max := by
        simp only [List.length_append, List.length_cons] at hseq
        omega
      have hstep := (h.step (hds d (by simp)) hlen).2
      have := ih hstep (fun d' hd' => hds d' (by simp [hd'])) (by simpa using hseq)
      simpa using this

/-! ## Orders of the deliveries -/

/-- The inventory after the deliveries. -/
def inventoryAfter (row : OrderRow) (ledger : LedgerId) (ds : List Delivery) : MarketInventory :=
  (delivery.final ⟨row, .new ledger⟩ ds).inventory

/-- The evidences of one execution agree on its side and quantity. -/
def SameSizes (ds : List Delivery) : Prop :=
  ∀ d ∈ ds, ∀ d' ∈ ds, d.evidence.executionId = d'.evidence.executionId →
    d.evidence.side = d'.evidence.side ∧ d.evidence.qty = d'.evidence.qty

/-- In every order the deliveries leave the same executions and conflicts, and the same net where the
sizes agree; an execution is in conflict exactly when two of its evidences disagree. -/
def OrderIrrelevant (row : OrderRow) (ledger : LedgerId) (ds : List Delivery) : Prop :=
  ∀ ds', ds.Perm ds' →
    (inventoryAfter row ledger ds').entries.keys = (inventoryAfter row ledger ds).entries.keys ∧
    (inventoryAfter row ledger ds').conflicts.keys = (inventoryAfter row ledger ds).conflicts.keys ∧
    (SameSizes ds → (inventoryAfter row ledger ds').net = (inventoryAfter row ledger ds).net) ∧
    ∀ id, (inventoryAfter row ledger ds').conflicts.contains id = true ↔
      reporting.Disagree Delivery.report (ofExecution id ds)

/-- What the deliveries have to meet: evidence of the ledger, an order without fills, and room for a
sequence number each. -/
structure Deliverable (row : OrderRow) (ledger : LedgerId) (ds : List Delivery) : Prop where
  fresh : row.ctx.appliedFills = .empty
  valid : ∀ d ∈ ds, d.Valid ledger
  room : row.cursor.seq + ds.length ≤ u64Max

theorem Deliverable.perm (h : Deliverable row ledger ds) (hp : ds.Perm ds') :
    Deliverable row ledger ds' :=
  ⟨h.fresh, fun d hd => h.valid d (hp.symm.subset hd), hp.length_eq ▸ h.room⟩

theorem Deliverable.view (h : Deliverable row ledger ds) (id : FillId) :
    (inventoryAfter row ledger ds).view id =
      reporting.gatherAll Delivery.report (takesOver row ledger) (ofExecution id ds) := by
  have hstart : Posted row ledger [] ⟨row, .new ledger⟩ := posted_nil h.fresh
  exact (hstart.run h.valid (by simpa using h.room)).view id

theorem Deliverable.contains (h : Deliverable row ledger ds) (id : FillId) :
    (inventoryAfter row ledger ds).entries.contains id = !(ofExecution id ds).isEmpty := by
  have hk : (reporting.gatherAll Delivery.report (takesOver row ledger)
      (ofExecution id ds)).known = none ↔ ofExecution id ds = [] := Reporting.gatherAll_known
  rw [← h.view] at hk
  simp only [MarketInventory.view, Option.map_eq_none_iff] at hk
  cases hl : ofExecution id ds with
  | nil => exact OrdMap.contains_eq_false.mpr (hk.mpr hl)
  | cons d rest =>
      have hne : (inventoryAfter row ledger ds).get id ≠ none := fun hn => by
        rw [hk.mp hn] at hl
        cases hl
      exact Option.isSome_iff_ne_none.mpr hne

theorem ofExecution_perm (hp : ds.Perm ds') (id : FillId) :
    (ofExecution id ds).Perm (ofExecution id ds') := hp.filter _

/-- The size of a known execution, when its evidences agree on it. -/
theorem Deliverable.size (h : Deliverable row ledger ds) {id : FillId} {p : InventoryEntry}
    (hp : (inventoryAfter row ledger ds).get id = some p) (hs : SameSizes ds) :
    ∃ d ∈ ofExecution id ds, p.side = d.evidence.side ∧ p.qty = d.evidence.qty := by
  have hview := h.view id
  simp only [MarketInventory.view, hp, Option.map_some] at hview
  cases hl : ofExecution id ds with
  | nil =>
      rw [hl] at hview
      cases congrArg Gathered.known hview
  | cons d rest =>
      have hmem : ∀ d' ∈ ofExecution id ds, d' ∈ ds ∧ d'.evidence.executionId = id := by
        intro d' hd'
        simpa [ofExecution] using hd'
      have hd := hmem d (by simp [hl])
      refine ⟨d, by simp, ?_⟩
      refine Reporting.known_of_forall
        (P := fun r => r.side = d.evidence.side ∧ r.qty = d.evidence.qty) (fun h => h) ?_ p.report
        (congrArg Gathered.known hview).symm
      intro d' hd'
      have hm := hmem d' hd'
      exact hs d' hm.1 d hd.1 (hm.2.trans hd.2.symm)

theorem Deliverable.net (h : Deliverable row ledger ds) (hp : ds.Perm ds') (hs : SameSizes ds)
    (hk : (inventoryAfter row ledger ds').entries.keys = (inventoryAfter row ledger ds).entries.keys) :
    (inventoryAfter row ledger ds').net = (inventoryAfter row ledger ds).net := by
  have hnet : ∀ inv : MarketInventory, inv.net =
      (inv.entries.values.map fun p => sideSign p.side * p.qty).foldl (· + ·) 0 := fun inv => by
    rw [MarketInventory.net, List.foldl_map]
  have hs' : SameSizes ds' := fun d hd d' hd' =>
    hs d (hp.symm.subset hd) d' (hp.symm.subset hd')
  rw [hnet, hnet, OrdMap.values_map _ _ 0, OrdMap.values_map _ _ 0, hk]
  congr 1
  refine List.map_congr_left fun id hid => ?_
  obtain ⟨p, hget⟩ := OrdMap.mem_keys.mp hid
  obtain ⟨p', hget'⟩ := OrdMap.mem_keys.mp (hk ▸ hid)
  obtain ⟨d, hd, hside, hqty⟩ := h.size hget hs
  obtain ⟨d', hd', hside', hqty'⟩ := (h.perm hp).size hget' hs'
  simp only [ofExecution, List.mem_filter, decide_eq_true_eq] at hd hd'
  obtain ⟨h₁, h₂⟩ := hs d' (hp.symm.subset hd'.1) d hd.1 (hd'.2.trans hd.2.symm)
  rw [hget, hget']
  simp only [Option.map_some, Option.getD_some, hside, hside', hqty, hqty', h₁, h₂]

/-- The order of the deliveries is irrelevant exactly when the evidences of every execution all agree,
or two of them that are taken over disagree, or each of them meets one it disagrees with. -/
theorem delivery_order_irrelevant (row : OrderRow) (ledger : LedgerId) (ds : List Delivery)
    (h : Deliverable row ledger ds) :
    OrderIrrelevant row ledger ds ↔
      ∀ id, reporting.Settled Delivery.report (takesOver row ledger) (ofExecution id ds) := by
  simp only [← Reporting.orderFree_iff]
  have hcon : ∀ {ds'}, ds.Perm ds' → ∀ id, (inventoryAfter row ledger ds').conflicts.contains id =
      (reporting.gatherAll Delivery.report (takesOver row ledger) (ofExecution id ds')).conflicted :=
    fun hp id => congrArg Gathered.conflicted ((h.perm hp).view id)
  constructor
  · intro hirr id as hp
    have hof : ofExecution id (as ++ ds.filter fun d => !decide (d.evidence.executionId = id)) = as := by
      have hall : ∀ d ∈ as, d.evidence.executionId = id := by
        intro d hd
        have := hp.symm.subset hd
        simp only [ofExecution, List.mem_filter, decide_eq_true_eq] at this
        exact this.2
      simp only [ofExecution, List.filter_append, List.filter_filter]
      rw [List.filter_eq_self.mpr fun d hd => by simpa using hall d hd]
      simp
    have hperm : ds.Perm (as ++ ds.filter fun d => !decide (d.evidence.executionId = id)) :=
      (List.filter_append_perm _ ds).symm.trans (hp.append_right _)
    have := (hirr _ hperm).2.2.2 id
    rwa [hcon hperm, hof] at this
  · intro hfree ds' hp
    have hkeys : (inventoryAfter row ledger ds').entries.keys =
        (inventoryAfter row ledger ds).entries.keys := by
      refine OrdMap.keys_congr fun id => ?_
      rw [(h.perm hp).contains, h.contains]
      have := (ofExecution_perm hp id).length_eq
      cases h₁ : ofExecution id ds <;> cases h₂ : ofExecution id ds' <;> simp_all
    have hid : ∀ {ds'}, ds.Perm ds' → ∀ id,
        ((inventoryAfter row ledger ds').conflicts.contains id = true ↔
          reporting.Disagree Delivery.report (ofExecution id ds)) := by
      intro ds' hp id
      rw [hcon hp]
      exact hfree id _ (ofExecution_perm hp id)
    refine ⟨hkeys, OrdMap.keys_congr fun id => ?_, fun hs => h.net hp hs hkeys, hid hp⟩
    rw [Bool.eq_iff_iff, hid hp, hid (.refl ds)]

/-! ## A known execution of the other side -/

namespace OtherSide

def theLedger : LedgerId := ⟨⟨"s"⟩, "M"⟩

/-- A buy order whose submission is under way. -/
def buyer : OrderRow :=
  ⟨theLedger, ⟨0⟩, .submitStarted ⟨"a"⟩, .new ⟨"c"⟩ "M" "s" .buyYes 50 10⟩

def brought (forRow : Bool) (side : Side) (venue : Option VenueOrderId) : Delivery :=
  ⟨forRow, ⟨⟨"s"⟩, "M", ⟨"f"⟩, side, 1, 50, 0, venue, none, none, .wsFill⟩⟩

/-- A sale reported without a venue, then for the buy order with one, then with another. -/
def sales : List Delivery :=
  [brought false .sellYes none, brought true .sellYes (some ⟨"V"⟩),
    brought false .sellYes (some ⟨"W"⟩)]

def purchases : List Delivery :=
  [brought false .buyYes none, brought true .buyYes (some ⟨"V"⟩), brought false .buyYes none]

end OtherSide

open OtherSide in
/-- The purchases agree, so their order is irrelevant. -/
theorem delivery_order_irrelevant_purchases : OrderIrrelevant buyer theLedger purchases :=
  (delivery_order_irrelevant buyer theLedger purchases ⟨rfl, by decide, by decide⟩).mpr fun _ =>
    .inl (Reporting.not_disagree.mpr fun a ha b hb =>
      (by decide : ∀ a ∈ purchases, ∀ b ∈ purchases,
        reporting.agrees a.report b.report = true) a (List.mem_of_mem_filter ha) b
          (List.mem_of_mem_filter hb))

open OtherSide in
/-- The row's venue is only compared, so nobody sees that the next report names another one. -/
theorem delivery_order_matters : ¬ OrderIrrelevant buyer theLedger sales := by
  intro h
  have hid := (h sales (.refl _)).2.2.2 ⟨"f"⟩
  have hdis : reporting.Disagree Delivery.report (ofExecution ⟨"f"⟩ sales) :=
    ⟨brought true .sellYes (some ⟨"V"⟩), by decide, brought false .sellYes (some ⟨"W"⟩),
      by decide, by decide⟩
  exact absurd (hid.mpr hdis) (by decide)

end Omsrs.Execution
