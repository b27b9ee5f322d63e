import Mathlib.Algebra.Order.Ring.Int
import Omsrs.Lib.Tally
import Omsrs.Execution.Lemmas.Attribute
import Omsrs.Execution.Lemmas.Market
import Omsrs.Execution.Shared
import Omsrs.Execution.Theorems.InventoryRebuild

/-!
# Every fill has one owner

Orders that share a market agree with its inventory: an order has booked a fill exactly when it owns
the fill's entry, whatever transactions are in flight and however they are interleaved.
-/

namespace Omsrs.Execution
open Omsrs.Lib Omsrs.Lifecycle Omsrs.Observation

variable {row other : OrderRow} {inv inv' : MarketInventory} {event : OrderEvent}
  {es : List ExecutionEvidence} {t : ExecutionTransaction} {e : ExecutionEvidence} {id : FillId}
  {m : SharedMarket} {ledger : LedgerId}

/-! ## Books and entries -/

/-- The order has booked the fill exactly when it owns the entry, and both say the same. -/
structure OwnsAt (inv : MarketInventory) (row : OrderRow) (id : FillId) : Prop where
  booked : ∀ q, row.ctx.appliedFills.get? id = some q → ∃ p, inv.get id = some p ∧
    p.owner = some row.ctx.clientOrderId ∧ p.side = row.ctx.side ∧ Matches p q
  owned : (inv.get id).bind (·.owner) = some row.ctx.clientOrderId →
    row.ctx.appliedFills.contains id = true

structure Owns (inv : MarketInventory) (row : OrderRow) : Prop where
  fills : ∀ id, OwnsAt inv row id
  total : row.ctx.attributedFillQty = row.ctx.appliedFills.sumBy (·.qty)

/-- The entry says no less, and has the same owner. -/
def KeepsAt (inv inv' : MarketInventory) (id : FillId) : Prop :=
  (∀ p, inv.get id = some p → ∃ p', inv'.get id = some p' ∧ Extends p p') ∧
    (inv'.get id).bind (·.owner) = (inv.get id).bind (·.owner)

/-- The order's side of the agreement may be that of a later context with the same fill. -/
theorem OwnsAt.keeps {later : OrderRow} (h : OwnsAt inv row id) (hk : KeepsAt inv inv' id)
    (hc : later.ctx.clientOrderId = row.ctx.clientOrderId) (hs : later.ctx.side = row.ctx.side)
    (hf : later.ctx.appliedFills.get? id = row.ctx.appliedFills.get? id) : OwnsAt inv' later id := by
  constructor
  · intro q hq
    obtain ⟨p, hp, ho, hside, hm⟩ := h.booked q (hf.symm.trans hq)
    obtain ⟨p', hp', hext⟩ := hk.1 p hp
    refine ⟨p', hp', ?_, hext.side.trans (hside.trans hs.symm), hm.extends hext⟩
    have := hk.2
    rw [hp', hp] at this
    rw [hc]
    exact Eq.trans this ho
  · intro ho
    rw [hk.2, hc] at ho
    rw [OrdMap.contains, hf]
    exact h.owned ho

theorem Owns.keeps (h : Owns inv row) (hk : ∀ id, KeepsAt inv inv' id) : Owns inv' row :=
  ⟨fun id => (h.fills id).keeps (hk id) rfl rfl rfl, h.total⟩

/-! ## A batch -/

/-- The verdicts either admit an execution or leave its entry's owner. -/
theorem BatchParts.admits_or_keeps (b : BatchParts row inv event es t) (id : FillId) :
    (∃ e s, Admits row inv (adjudicate row inv es).1 (adjudicate row inv es).2 e s ∧
      e.executionId = id) ∨
    (∀ e s₀, (e, .admitted s₀) ∈ (adjudicate row inv es).1 → e.executionId ≠ id) ∧
      KeepsAt inv (inv.install t.plannedEntries t.plannedConflicts) id := by
  by_cases h : ∃ e s₀, (e, .admitted s₀) ∈ (adjudicate row inv es).1 ∧ e.executionId = id
  · obtain ⟨e, s₀, hm, hid⟩ := h
    obtain ⟨s, hs⟩ := (adjudicate_judged row inv es).admits hm
    exact .inl ⟨e, s, hs, hid⟩
  · push Not at h
    exact .inr ⟨h, b.get_other h⟩

/-- The order of the batch books what it comes to own. -/
theorem BatchParts.owns_own (b : BatchParts row inv event es t) (h : Owns inv row) :
    Owns (inv.install t.plannedEntries t.plannedConflicts) (row.advance t.after) := by
  have ht := b.takes
  rw [← b.advance_ctx] at ht
  refine ⟨fun id => ?_, ht.total h.total⟩
  rcases b.admits_or_keeps id with ⟨e, s, hadm, rfl⟩ | ⟨hno, hkeep⟩
  · obtain ⟨p', hp', hset, howner⟩ := b.get_admitted hadm
    rw [← b.advance_ctx] at howner
    constructor
    · intro q hq
      have hin : (row.advance t.after).ctx.appliedFills.contains e.executionId = true :=
        OrdMap.contains_iff.mpr ⟨q, hq⟩
      rw [if_pos hin, ← ht.client] at howner
      refine ⟨p', hp', howner, ?_, ?_⟩
      · rw [hset.side, hadm.fits.side, ← hadm.side, ht.side]
      · rcases ht.fills e.executionId with hsame | ⟨f, q', ⟨e', s', hadm', rfl⟩, hid, hq', hcar⟩
        · obtain ⟨hqty, hprice, hvenue, hfee⟩ := hadm.fits.applied q (hsame.symm.trans hq)
          exact ⟨hqty.trans hset.qty.symm, hprice.trans hset.price.symm,
            fun v hv => hset.venue v (hvenue v hv), fun f hf => hset.fee f (hfee f hf)⟩
        · obtain rfl : q' = q := Option.some.inj (hq'.symm.trans hq)
          have hid' : e'.executionId = e.executionId := hid
          obtain rfl : s' = s := by
            have := hadm'.staged
            rw [hid', hadm.staged] at this
            exact (Option.some.inj this).symm
          exact ⟨hcar.qty.trans hset.qty.symm, hcar.price.trans hset.price.symm,
            fun v hv => hset.venue v (hcar.venue.symm.trans hv),
            fun f hf => hset.fee f (hcar.fee.symm.trans hf)⟩
    · intro ho
      rw [hp', Option.bind_some, howner, ht.client] at ho
      split at ho
      · assumption
      · exact ht.keeps ((h.fills e.executionId).owned ho)
  · refine (h.fills id).keeps hkeep ht.client ht.side ?_
    rcases ht.fills id with hsame | ⟨f, q, ⟨e, s, hadm, rfl⟩, hid, -, -⟩
    · exact hsame
    · obtain ⟨s₀, hm⟩ := hadm.admitted
      exact absurd hid (hno e s₀ hm)

/-- The other orders keep what they own. -/
theorem BatchParts.owns_other (b : BatchParts row inv event es t) (h : Owns inv other)
    (hne : other.ctx.clientOrderId ≠ row.ctx.clientOrderId) :
    Owns (inv.install t.plannedEntries t.plannedConflicts) other := by
  refine ⟨fun id => ?_, h.total⟩
  rcases b.admits_or_keeps id with ⟨e, s, hadm, rfl⟩ | ⟨-, hkeep⟩
  · obtain ⟨p', hp', -, howner⟩ := b.get_admitted hadm
    constructor
    · intro q hq
      obtain ⟨p, hp, ho, -⟩ := (h.fills e.executionId).booked q hq
      exact absurd (hadm.fits.owner p _ hp ho) hne
    · intro ho
      rw [hp', Option.bind_some, howner] at ho
      split at ho
      · exact absurd (Option.some.inj ho).symm hne
      · exact (h.fills e.executionId).owned ho
  · exact (h.fills id).keeps hkeep rfl rfl rfl

/-- No owner comes from nowhere. -/
theorem BatchParts.owner_origin (b : BatchParts row inv event es t) {o : ClientOrderId}
    (h : ((inv.install t.plannedEntries t.plannedConflicts).get id).bind (·.owner) = some o) :
    o = row.ctx.clientOrderId ∨ (inv.get id).bind (·.owner) = some o := by
  rcases b.admits_or_keeps id with ⟨e, s, hadm, rfl⟩ | ⟨-, hkeep⟩
  · obtain ⟨p', hp', -, howner⟩ := b.get_admitted hadm
    rw [hp', Option.bind_some, howner] at h
    split at h
    · exact .inl (Option.some.inj h).symm
    · exact .inr h
  · exact .inr (hkeep.2.symm.trans h)

/-! ## Evidence without a row -/

theorem norow_keeps (h : prepareExecutionNorow inv e = .ok t) (id : FillId) :
    KeepsAt inv (inv.install t.plannedEntries t.plannedConflicts) id := by
  have hwell := prepareExecutionNorow_wellPlanned h
  have howner : ∀ x, (id, x) ∈ t.writes → x.owner = (inv.get id).bind (·.owner) := by
    intro x hx
    obtain ⟨o, ho, -, -, -, hwrite⟩ := adjudicateNorow_spec inv e
    unfold prepareExecutionNorow at h
    split at h
    · cases h
    · rw [ho] at h
      cases h
      simp only [ExecutionTransaction.writes, List.mem_filterMap, List.mem_singleton,
        exists_eq_left] at hx
      exact (hwrite id x hx).2.2
  unfold KeepsAt
  rw [MarketInventory.install_get, hwell.entries]
  cases hg : (OrdMap.empty.insertAll (t.outcomes.filterMap (·.write))).get? id with
  | none => exact ⟨fun p hp => ⟨p, hp, .refl p⟩, rfl⟩
  | some x =>
      have hx : (id, x) ∈ t.writes := OrdMap.mem_of_get?_insertAll hg
      exact ⟨fun p hp => ⟨x, rfl, (norow_write h hx).1 p hp⟩, howner x hx⟩

/-! ## The market and its orders -/

/-- An event without fills leaves the books. -/
theorem prepareOrderEvent_takes {t : OrderTransaction} (h : prepareOrderEvent row event = .ok t) :
    t.prepared = row ∧ TakesIn (fun _ => False) row.ctx (row.advance t.after).ctx := by
  unfold prepareOrderEvent at h
  split at h
  · cases h
  · split at h
    · cases h
    · rename_i hfills
      have hnone : event.fills = [] := by
        have hkind : event.fills ≠ [] → eventHasIdentifiedFills event = true := by
          intro hne
          have hpos : 0 < event.fills.length := List.length_pos_of_ne_nil hne
          cases event <;> simp_all [eventHasIdentifiedFills, countEventFills, OrderEvent.fills]
        by_contra hne
        exact hfills (hkind hne)
      have ht := (applyEvent_takes row.state row.ctx event).mono (G := fun _ => False)
        fun f hf => by simp [hnone] at hf
      simp only at h
      split at h
      · cases h
        exact ⟨rfl, .refl _⟩
      · split at h
        · cases h
          exact ⟨rfl, .refl _⟩
        · simp only [bind, Except.bind] at h
          split at h
          · cases h
          · cases h
            exact ⟨rfl, ht⟩

theorem orderApply_ok {t : OrderTransaction} {row' : OrderRow} (h : t.apply row = .ok row') :
    row = t.prepared ∧ row' = row.advance t.after := by
  simp only [OrderTransaction.apply, bind, Except.bind] at h
  split at h
  · cases h
  · rename_i hc
    cases h
    exact ⟨checkTarget_ok hc, rfl⟩

/-- The orders are told apart by their client ids and agree with the inventory; what is in flight was
prepared from an order or an inventory as it stood. -/
structure Shares (ledger : LedgerId) (m : SharedMarket) : Prop where
  current : Current ledger m.market
  owns : ∀ row ∈ m.rows, Owns m.market.inventory row
  distinct : (m.rows.map (·.ctx.clientOrderId)).Nodup
  owners : ∀ id o, (m.market.inventory.get id).bind (·.owner) = some o →
    o ∈ m.rows.map (·.ctx.clientOrderId)
  events : ∀ t ∈ m.events, ∃ row event, prepareOrderEvent row event = .ok t

/-- Orders with one client id stand in one place. -/
theorem same_place {rows : List OrderRow} {i j : Nat}
    (hd : (rows.map (·.ctx.clientOrderId)).Nodup) (hi : rows[i]? = some row)
    (hj : rows[j]? = some other) (hc : other.ctx.clientOrderId = row.ctx.clientOrderId) : j = i := by
  have hlt : j < (rows.map (·.ctx.clientOrderId)).length := by
    simpa using (List.getElem?_eq_some_iff.mp hj).1
  exact (List.getElem?_inj hlt hd).mp (by simp [List.getElem?_map, hi, hj, hc])

/-- After an order is replaced by a later one of its own, the others are other orders. -/
theorem mem_set_row {rows : List OrderRow} {i : Nat} {row' : OrderRow}
    (hd : (rows.map (·.ctx.clientOrderId)).Nodup) (hi : rows[i]? = some row)
    (h : other ∈ rows.set i row') :
    other = row' ∨ other ∈ rows ∧ other.ctx.clientOrderId ≠ row.ctx.clientOrderId := by
  obtain ⟨j, hj⟩ := List.mem_iff_getElem?.mp h
  rw [List.getElem?_set] at hj
  split at hj
  · split at hj
    · exact .inl (Option.some.inj hj).symm
    · cases hj
  · rename_i hne
    exact .inr ⟨List.mem_of_getElem? hj, fun heq => hne (same_place hd hi hj heq).symm⟩

theorem map_set_row {rows : List OrderRow} {i : Nat} {row' : OrderRow} (hi : rows[i]? = some row)
    (hc : row'.ctx.clientOrderId = row.ctx.clientOrderId) :
    (rows.set i row').map (·.ctx.clientOrderId) = rows.map (·.ctx.clientOrderId) := by
  obtain ⟨hil, rfl⟩ := List.getElem?_eq_some_iff.mp hi
  rw [List.map_set, hc]
  exact List.ext_getElem (by simp) fun j h h' => by
    simp only [List.getElem_set, List.getElem_map]
    split
    · rename_i he
      subst he
      rfl
    · rfl

/-- Where the inventory keeps its entries and owners, so does the agreement. -/
theorem Shares.market_step (h : Shares ledger m) {market : Market} (hc : Current ledger market)
    (hk : ∀ id, KeepsAt m.market.inventory market.inventory id) :
    Shares ledger { m with market := market } :=
  ⟨hc, fun row hr => (h.owns row hr).keeps hk, h.distinct,
    fun id o ho => h.owners id o ((hk id).2.symm.trans ho), h.events⟩

theorem KeepsAt.refl (inv : MarketInventory) (id : FillId) : KeepsAt inv inv id :=
  ⟨fun p hp => ⟨p, hp, .refl p⟩, rfl⟩

theorem Shares.inMarket (h : Shares ledger m) {a : MarketAction}
    (ha : (m.market.step a).2.inventory = m.market.inventory) :
    Shares ledger (m.inMarket a).2 := by
  have hk : ∀ id, KeepsAt m.market.inventory (m.market.step a).2.inventory id := by
    intro id
    rw [ha]
    exact .refl _ id
  exact h.market_step (step_current h.current a) hk

theorem keep_inventory (m : Market) (r : Except PrepareError ExecutionTransaction) :
    (m.keep r).2.inventory = m.inventory := by
  cases r <;> rfl

/-! ## Steps -/

theorem shares_prepareEvent (h : Shares ledger m) (i : Nat) (event : OrderEvent) :
    Shares ledger (m.prepareEvent i event).2 := by
  unfold SharedMarket.prepareEvent
  split
  · exact h
  · split
    · rename_i t ht
      refine ⟨h.current, h.owns, h.distinct, h.owners, fun t' ht' => ?_⟩
      rcases List.mem_append.mp ht' with ht' | ht'
      · exact h.events t' ht'
      · obtain rfl := List.mem_singleton.mp ht'
        exact ⟨_, _, ht⟩
    · exact h

theorem shares_applyEvent (h : Shares ledger m) (k i : Nat) : Shares ledger (m.applyEvent k i).2 := by
  unfold SharedMarket.applyEvent
  split
  · rename_i t row ht hi
    have hevents : ∀ t' ∈ m.events.eraseIdx k, ∃ row event, prepareOrderEvent row event = .ok t' :=
      fun t' ht' => h.events t' (List.mem_of_mem_eraseIdx ht')
    dsimp only
    split
    · rename_i row' ha
      obtain ⟨hrow, rfl⟩ := orderApply_ok ha
      obtain ⟨from_, event, hp⟩ := h.events t (List.mem_of_getElem? ht)
      obtain ⟨hprep, htakes⟩ := prepareOrderEvent_takes hp
      obtain rfl : from_ = row := hprep.symm.trans hrow.symm
      have hmem := List.mem_of_getElem? hi
      refine ⟨h.current, fun other ho => ?_, ?_, ?_, hevents⟩
      · rcases mem_set_row h.distinct hi ho with rfl | ⟨ho, -⟩
        · refine ⟨fun id => ?_, htakes.total (h.owns _ hmem).total⟩
          refine ((h.owns _ hmem).fills id).keeps (.refl _ id) htakes.client htakes.side ?_
          rcases htakes.fills id with hsame | ⟨_, _, hfalse, _⟩
          · exact hsame
          · exact hfalse.elim
        · exact h.owns other ho
      · rw [map_set_row hi htakes.client]
        exact h.distinct
      · rw [map_set_row hi htakes.client]
        exact h.owners
    · exact ⟨h.current, h.owns, h.distinct, h.owners, hevents⟩
  · exact h

/-- Below the cap of the generation a transaction that is taken was prepared from the order and the
inventory it meets, so it attributes what it books. -/
theorem shares_applyExecution (h : Shares ledger m) (hg : m.market.inventory.generation < u64Max)
    (k : Nat) (order : Option Nat) : Shares ledger (m.applyExecution k order).2 := by
  unfold SharedMarket.applyExecution
  cases htarget : m.target order with
  | none => exact h
  | some target =>
      have hcur : Current ledger (m.market.step (.apply k target)).2 :=
        step_current h.current (.apply k target)
      simp only [Market.step, Market.applyPending] at hcur ⊢
      cases ht : m.market.pending[k]? with
      | none => exact ⟨h.current, h.owns, h.distinct, h.owners, h.events⟩
      | some t =>
          simp only [ht] at hcur ⊢
          cases ha : t.apply target m.market.inventory with
          | error err =>
              simp only [ha] at hcur ⊢
              exact ⟨hcur, h.owns, h.distinct, h.owners, h.events⟩
          | ok r =>
              obtain ⟨out, inv'⟩ := r
              simp only [ha] at hcur ⊢
              have hprep := h.current.prepared ht ha hg
              obtain ⟨-, -, -, rfl, rfl⟩ := apply_ok ha
              rcases hprep.cases with ⟨rfl, e, he⟩ | ⟨row, event, es, rfl, hb⟩
              · exact h.market_step hcur (norow_keeps he)
              · obtain ⟨b⟩ := prepareExecutionBatch_parts hb
                obtain ⟨i, rfl, hi⟩ : ∃ i, order = some i ∧ m.rows[i]? = some row := by
                  cases order with
                  | none => cases htarget
                  | some i =>
                      obtain ⟨row', hi, hrow⟩ := Option.map_eq_some_iff.mp htarget
                      exact ⟨i, rfl, Option.some.inj hrow ▸ hi⟩
                have hmem := List.mem_of_getElem? hi
                have hclient : (row.advance t.after).ctx.clientOrderId = row.ctx.clientOrderId := by
                  rw [b.advance_ctx]
                  exact b.takes.client
                refine ⟨hcur, fun other ho => ?_, ?_, fun id o ho => ?_, h.events⟩
                · rcases mem_set_row h.distinct hi ho with rfl | ⟨ho, hne⟩
                  · exact b.owns_own (h.owns row hmem)
                  · exact b.owns_other (h.owns other ho) hne
                · show ((m.rows.set i (row.advance t.after)).map (·.ctx.clientOrderId)).Nodup
                  rw [map_set_row hi hclient]
                  exact h.distinct
                · show o ∈ (m.rows.set i (row.advance t.after)).map (·.ctx.clientOrderId)
                  rw [map_set_row hi hclient]
                  rcases b.owner_origin ho with rfl | ho
                  · exact List.mem_map_of_mem hmem
                  · exact h.owners id o ho

/-- What a step that applies an execution may rely on: the generation still counts. -/
def Counts (m : SharedMarket) : SharedAction → Prop
  | .applyExecution _ _ => m.market.inventory.generation < u64Max
  | _ => True

instance (m : SharedMarket) (a : SharedAction) : Decidable (Counts m a) := by
  cases a <;> unfold Counts <;> infer_instance

theorem step_shares (h : Shares ledger m) (a : SharedAction) (hc : Counts m a) :
    Shares ledger (sharedMarket.step m a).2 := by
  cases a with
  | prepareEvent i event => exact shares_prepareEvent h i event
  | applyEvent k i => exact shares_applyEvent h k i
  | prepare order e =>
      simp only [sharedMarket, SharedMarket.step]
      split
      · exact h
      · exact h.inMarket (keep_inventory _ _)
  | prepareBatch i event es =>
      simp only [sharedMarket, SharedMarket.step]
      split
      · exact h
      · exact h.inMarket (keep_inventory _ _)
  | applyExecution k order => exact shares_applyExecution h hc k order

/-! ## The net position -/

/-- What an entry adds to the net. -/
def InventoryEntry.signed (p : InventoryEntry) : Int := sideSign p.side * p.qty

/-- The net of the entries with one owner, or with none. -/
def MarketInventory.netOf (inv : MarketInventory) (owner : Option ClientOrderId) : Int :=
  ((inv.entries.values.filter fun p => p.owner = owner).map (·.signed)).sum

theorem net_eq_sum (inv : MarketInventory) : inv.net = (inv.entries.values.map (·.signed)).sum := by
  rw [List.sum_eq_foldl, List.foldl_map]
  rfl

theorem sum_mul_cast {α : Type} (k : Int) (f : α → Nat) (l : List α) :
    (l.map fun a => k * (f a : Int)).sum = k * ((l.map f).sum : Nat) := by
  induction l with
  | nil => simp
  | cons a l ih =>
      rw [List.map_cons, List.sum_cons, List.map_cons, List.sum_cons, ih, Int.natCast_add, Int.mul_add]

/-- The entries an order owns add up to what it has booked. -/
theorem Owns.netOf (h : Owns inv row) :
    inv.netOf (some row.ctx.clientOrderId) = sideSign row.ctx.side * row.ctx.attributedFillQty := by
  let mine : List (FillId × InventoryEntry) :=
    inv.entries.entries.filter fun e => e.2.owner = some row.ctx.clientOrderId
  have hmine : ∀ {k p}, (k, p) ∈ mine ↔ inv.get k = some p ∧ p.owner = some row.ctx.clientOrderId := by
    intro k p
    simp only [mine, List.mem_filter, OrdMap.mem_entries, MarketInventory.get, decide_eq_true_eq]
  have hperm : (mine.map fun e => (e.1, e.2.qty)).Perm
      (row.ctx.appliedFills.entries.map fun e => (e.1, e.2.qty)) := by
    have hkeys : (mine.map Prod.fst).Nodup :=
      inv.entries.keys_nodup.sublist (List.filter_sublist.map Prod.fst)
    refine (List.perm_ext_iff_of_nodup ?_ ?_).mpr ?_
    · exact List.Nodup.of_map Prod.fst (by simpa [List.map_map, Function.comp_def] using hkeys)
    · exact List.Nodup.of_map Prod.fst
        (by simpa [List.map_map, Function.comp_def, OrdMap.keys] using row.ctx.appliedFills.keys_nodup)
    · rintro ⟨k, n⟩
      simp only [List.mem_map, Prod.mk.injEq, Prod.exists, OrdMap.mem_entries]
      constructor
      · rintro ⟨_, p, hp, rfl, rfl⟩
        obtain ⟨hget, ho⟩ := hmine.mp hp
        obtain ⟨q, hq⟩ := OrdMap.contains_iff.mp ((h.fills _).owned (by rw [hget]; exact ho))
        obtain ⟨p', hp', -, -, hm⟩ := (h.fills _).booked q hq
        obtain rfl := Option.some.inj (hget.symm.trans hp')
        exact ⟨_, q, hq, rfl, hm.qty⟩
      · rintro ⟨_, q, hq, rfl, rfl⟩
        obtain ⟨p, hp, ho, -, hm⟩ := (h.fills _).booked q hq
        exact ⟨_, p, hmine.mpr ⟨hp, ho⟩, rfl, hm.qty.symm⟩
  have hqty : (mine.map fun e => e.2.qty).sum = row.ctx.attributedFillQty := by
    have := (hperm.map Prod.snd).sum_eq
    simp only [List.map_map, Function.comp_def] at this
    rw [this, h.total]
    simp only [OrdMap.sumBy, OrdMap.values, List.map_map, Function.comp_def]
  have hside : ∀ e ∈ mine, e.2.signed = sideSign row.ctx.side * (e.2.qty : Int) := by
    rintro ⟨k, p⟩ he
    obtain ⟨hget, ho⟩ := hmine.mp he
    obtain ⟨q, hq⟩ := OrdMap.contains_iff.mp ((h.fills k).owned (by rw [hget]; exact ho))
    obtain ⟨p', hp', -, hs, -⟩ := (h.fills k).booked q hq
    obtain rfl := Option.some.inj (hget.symm.trans hp')
    simp only [InventoryEntry.signed, hs]
  calc inv.netOf (some row.ctx.clientOrderId)
      = (mine.map fun e => e.2.signed).sum := by
        simp only [MarketInventory.netOf, OrdMap.values, mine, List.filter_map, List.map_map,
          Function.comp_def]
    _ = (mine.map fun e => sideSign row.ctx.side * (e.2.qty : Int)).sum := by
        rw [List.map_congr_left hside]
    _ = sideSign row.ctx.side * ((mine.map fun e => e.2.qty).sum : Nat) := by
        rw [sum_mul_cast]
    _ = sideSign row.ctx.side * row.ctx.attributedFillQty := by rw [hqty]

/-- The net is what the orders have booked, and the entries of nobody. -/
theorem Shares.net (h : Shares ledger m) :
    m.market.inventory.net =
      (m.rows.map fun row => sideSign row.ctx.side * (row.ctx.attributedFillQty : Int)).sum +
        m.market.inventory.netOf none := by
  let ks : List (Option ClientOrderId) := none :: m.rows.map fun row => some row.ctx.clientOrderId
  have hn : ks.Nodup := by
    refine List.nodup_cons.mpr ⟨by simp, ?_⟩
    have := h.distinct.map (Option.some_injective ClientOrderId)
    rwa [List.map_map] at this
  have hall : ∀ p ∈ m.market.inventory.entries.values, p.owner ∈ ks := by
    intro p hp
    obtain ⟨k, hk⟩ := OrdMap.mem_values.mp hp
    cases ho : p.owner with
    | none => exact List.mem_cons_self
    | some o =>
        have hget : (m.market.inventory.get k).bind (·.owner) = some o := by
          rw [MarketInventory.get, hk]
          exact ho
        obtain ⟨row, hrow, rfl⟩ := List.mem_map.mp (h.owners k o hget)
        exact List.mem_cons_of_mem _ (List.mem_map_of_mem hrow)
  have hrows : m.rows.map (fun row => m.market.inventory.netOf (some row.ctx.clientOrderId)) =
      m.rows.map fun row => sideSign row.ctx.side * (row.ctx.attributedFillQty : Int) :=
    List.map_congr_left fun row hrow => (h.owns row hrow).netOf
  rw [net_eq_sum, OrdMap.sum_by_key hn InventoryEntry.owner InventoryEntry.signed hall, List.map_cons, List.sum_cons,
    List.map_map, ← hrows, Int.add_comm]
  rfl

/-! ## The theorem -/

/-- The order has a context of its own making and nothing booked. -/
def OrderRow.Fresh (row : OrderRow) : Prop :=
  row.ctx = .new row.ctx.clientOrderId row.ctx.market row.ctx.strategy row.ctx.side
    row.ctx.priceCents row.ctx.qty

instance (row : OrderRow) : Decidable row.Fresh := inferInstanceAs (Decidable (_ = _))

/-- Books and inventory agree, and every fill has at most one owner. -/
structure Attributed (inv : MarketInventory) (rows : List OrderRow) : Prop where
  exclusive : ∀ (i j : Nat) (row row' : OrderRow) (id : FillId), rows[i]? = some row →
    rows[j]? = some row' → i ≠ j → row.ctx.appliedFills.contains id = true →
    row'.ctx.appliedFills.contains id = false
  booked : ∀ row ∈ rows, ∀ id q, row.ctx.appliedFills.get? id = some q → ∃ p, inv.get id = some p ∧
    p.owner = some row.ctx.clientOrderId ∧ p.side = row.ctx.side ∧ Matches p q
  owned : ∀ row ∈ rows, ∀ id p, inv.get id = some p → p.owner = some row.ctx.clientOrderId →
    row.ctx.appliedFills.contains id = true
  net : inv.net = (rows.map fun row => sideSign row.ctx.side * (row.ctx.attributedFillQty : Int)).sum +
    inv.netOf none

theorem Shares.attributed (h : Shares ledger m) : Attributed m.market.inventory m.rows := by
  refine ⟨fun i j row row' id hi hj hne hin => ?_, fun row hr id q hq => ?_, fun row hr id p hp ho => ?_,
    h.net⟩
  · by_contra hin'
    obtain ⟨q, hq⟩ := OrdMap.contains_iff.mp hin
    obtain ⟨q', hq'⟩ := OrdMap.contains_iff.mp (by simpa using hin')
    obtain ⟨p, hp, ho, -⟩ := ((h.owns row (List.mem_of_getElem? hi)).fills id).booked q hq
    obtain ⟨p', hp', ho', -⟩ := ((h.owns row' (List.mem_of_getElem? hj)).fills id).booked q' hq'
    obtain rfl := Option.some.inj (hp.symm.trans hp')
    have hsame : row.ctx.clientOrderId = row'.ctx.clientOrderId :=
      Option.some.inj (ho.symm.trans ho')
    exact hne (same_place h.distinct hj hi hsame)
  · exact ((h.owns row hr).fills id).booked q hq
  · exact ((h.owns row hr).fills id).owned (by rw [hp]; exact ho)

theorem shares_new {rows : List OrderRow} (hfresh : ∀ row ∈ rows, row.Fresh)
    (hdistinct : (rows.map (·.ctx.clientOrderId)).Nodup) : Shares ledger (.new ledger rows) := by
  refine ⟨current_new ledger, fun row hr => ?_, hdistinct, fun id o ho => (nomatch ho),
    fun t ht => (nomatch ht)⟩
  have hf : row.ctx.appliedFills = .empty := by rw [hfresh row hr]; rfl
  refine ⟨fun id => ⟨fun q hq => ?_, fun ho => (nomatch ho)⟩, ?_⟩
  · rw [hf] at hq
    cases hq
  · rw [hf, hfresh row hr]
    rfl

/-- Whatever is prepared and in whatever order it is applied, stale transactions included: as long as
the generation counts, each fill is booked by the owner of its entry and by nobody else. -/
theorem attribution_agrees (ledger : LedgerId) (rows : List OrderRow)
    (hfresh : ∀ row ∈ rows, row.Fresh) (hdistinct : (rows.map (·.ctx.clientOrderId)).Nodup)
    (acts : List SharedAction) (h : sharedMarket.Always Counts (.new ledger rows) acts) :
    Attributed (sharedMarket.final (.new ledger rows) acts).market.inventory
      (sharedMarket.final (.new ledger rows) acts).rows := by
  have hrun : Shares ledger (sharedMarket.final (.new ledger rows) acts) :=
    sharedMarket.history_induction (P := fun _ m => Shares ledger m) (w := [])
      (fun _ _ a hm hc => step_shares hm a hc) (shares_new hfresh hdistinct) h
  exact hrun.attributed

namespace Race

open Saturated

def orderRow (id : String) : OrderRow :=
  ⟨theLedger, ⟨0⟩, .new, .new ⟨id⟩ "M" "s" .buyYes 50 5⟩

/-- Two orders are submitted. -/
def submitted : List SharedAction :=
  [.prepareEvent 0 .prepareSubmit, .applyEvent 0 0, .prepareEvent 0 (.startSubmit ⟨"a"⟩),
    .applyEvent 0 0, .prepareEvent 1 .prepareSubmit, .applyEvent 0 1,
    .prepareEvent 1 (.startSubmit ⟨"b"⟩), .applyEvent 0 1]

/-- Both orders race for the same execution. -/
def race : List SharedAction :=
  [.prepare (some 0) (report "f" 1), .prepare (some 1) (report "f" 1), .applyExecution 0 (some 0),
    .applyExecution 0 (some 1)]

end Race

open Saturated Race in
/-- One of the racers gets the fill, the other is told that its transaction is stale. -/
theorem attribution_agrees_race :
    Attributed
        (sharedMarket.final (.new theLedger [orderRow "a", orderRow "b"]) (submitted ++ race)).market.inventory
        (sharedMarket.final (.new theLedger [orderRow "a", orderRow "b"]) (submitted ++ race)).rows ∧
      (sharedMarket.final (.new theLedger [orderRow "a", orderRow "b"]) (submitted ++ race)).rows.map
        (·.ctx.attributedFillQty) = [1, 0] :=
  ⟨attribution_agrees theLedger [orderRow "a", orderRow "b"] (by decide) (by decide)
    (submitted ++ race) (by decide), by decide⟩

/-! ## The saturated generation -/

namespace Race

open Saturated

/-- The inventory is worn out by executions without an order. -/
def wearOut : Nat → List SharedAction
  | 0 => [.prepare none (report "x" 1), .applyExecution 0 none]
  | n + 1 => wearOut n ++ [.prepare none (report "x" 2), .applyExecution 0 none]

theorem keepRow_none (m : SharedMarket) (reply : MarketReply) : m.keepRow none reply = m.rows := by
  unfold SharedMarket.keepRow
  split <;> rfl

theorem norow_round (m : SharedMarket) (e : ExecutionEvidence) :
    sharedMarket.final m [.prepare none e, .applyExecution 0 none] =
      { m with market := market.final m.market [.prepare none e, .apply 0 none] } := by
  simp only [Machine.final_cons, Machine.final_nil, sharedMarket, SharedMarket.step, SharedMarket.target,
    SharedMarket.inMarket, SharedMarket.applyExecution, keepRow_none, market]

theorem wearOut_run (m : SharedMarket) (n : Nat) :
    sharedMarket.final m (wearOut n) = { m with market := market.final m.market (wear n) } := by
  induction n with
  | zero => exact norow_round m _
  | succ n ih => rw [wearOut, wear, Machine.final_append, Machine.final_append, ih, norow_round]

def startedRow (id : String) : OrderRow :=
  ⟨theLedger, ⟨2⟩, .submitStarted ⟨id⟩, .new ⟨id⟩ "M" "s" .buyYes 50 5⟩

theorem submitted_run :
    sharedMarket.final (.new theLedger [orderRow "a", orderRow "b"]) submitted =
      ⟨.new theLedger, [startedRow "a", startedRow "b"], []⟩ := by decide

/-- The order prepares to book the execution. -/
def Prepares (row : OrderRow) (n : Nat) (t : ExecutionTransaction) : Prop :=
  prepareExecution (some row) (worn n) (report "f" 1) = .ok t ∧ t.preparedOrder = some row ∧
    t.preparedInventoryLedger = theLedger ∧ t.expectedGeneration = n + 1 ∧
    (row.advance t.after).ctx.appliedFills.contains ⟨"f"⟩ = true

theorem prepares_a (n : Nat) : ∃ t, Prepares (startedRow "a") n t := ⟨_, rfl, rfl, rfl, rfl, rfl⟩

theorem prepares_b (n : Nat) : ∃ t, Prepares (startedRow "b") n t := ⟨_, rfl, rfl, rfl, rfl, rfl⟩

/-- A transaction is taken where ledger and generation are those it was prepared at. -/
theorem applyExecution_own {t : ExecutionTransaction} {rest : List ExecutionTransaction} {i : Nat}
    (hp : m.market.pending = t :: rest) (hi : m.rows[i]? = some row) (ho : t.preparedOrder = some row)
    (hl : t.preparedInventoryLedger = m.market.inventory.ledger)
    (hg : t.expectedGeneration = m.market.inventory.generation) :
    (sharedMarket.step m (.applyExecution 0 (some i))).2 =
      { m with
        market := ⟨m.market.inventory.install t.plannedEntries t.plannedConflicts, rest,
          m.market.journal ++ t.journal.toList⟩
        rows := m.rows.set i (row.advance t.after) } := by
  simp only [sharedMarket, SharedMarket.step, SharedMarket.applyExecution, SharedMarket.target, hi,
    Option.map_some, Market.step, Market.applyPending, hp, List.getElem?_cons_zero,
    apply_own ho hl hg, List.eraseIdx_cons_zero, SharedMarket.keepRow]

/-- At the cap both racers are taken. -/
theorem race_run {n : Nat} (hn : n + 1 = u64Max) (hinv : m.market.inventory = worn n)
    (hp : m.market.pending = []) (hrows : m.rows = [startedRow "a", startedRow "b"]) :
    (sharedMarket.final m race).rows.map (·.ctx.appliedFills.contains ⟨"f"⟩) = [true, true] := by
  obtain ⟨⟨inv, pending, journal⟩, rows, events⟩ := m
  obtain rfl : inv = worn n := hinv
  obtain rfl : pending = [] := hp
  obtain rfl : rows = [startedRow "a", startedRow "b"] := hrows
  obtain ⟨t, ht, hto, htl, htg, htf⟩ := prepares_a n
  obtain ⟨u, hu, huo, hul, hug, huf⟩ := prepares_b n
  have hprepared : sharedMarket.final ⟨⟨worn n, [], journal⟩, [startedRow "a", startedRow "b"], events⟩
      [.prepare (some 0) (report "f" 1), .prepare (some 1) (report "f" 1)] =
      ⟨⟨worn n, [t, u], journal⟩, [startedRow "a", startedRow "b"], events⟩ := by
    simp only [Machine.final_cons, Machine.final_nil, sharedMarket, SharedMarket.step,
      SharedMarket.target, SharedMarket.inMarket, Market.step, List.getElem?_cons_zero,
      List.getElem?_cons_succ, Option.map_some, ht, hu, Market.keep, List.nil_append,
      List.cons_append]
  have hled : ((worn n).install t.plannedEntries t.plannedConflicts).ledger = theLedger :=
    MarketInventory.install_ledger _ _
  have hgen : ((worn n).install t.plannedEntries t.plannedConflicts).generation = n + 1 := by
    rw [MarketInventory.install_generation _ _ (show n + 1 ≤ u64Max from hn.le)]
    show min (n + 1 + _) u64Max = n + 1
    omega
  rw [show race = [.prepare (some 0) (report "f" 1), .prepare (some 1) (report "f" 1)] ++
    [.applyExecution 0 (some 0), .applyExecution 0 (some 1)] from rfl, Machine.final_append, hprepared,
    Machine.final_cons, applyExecution_own rfl rfl hto htl htg, Machine.final_cons,
    applyExecution_own rfl rfl huo (hul.trans hled.symm)
      (hug.trans hgen.symm)]
  simp [htf, huf]

end Race

open Saturated Race in
/-- At the cap of the generation a stale transaction is taken, and a fill is booked twice. -/
theorem fill_owned_twice :
    (sharedMarket.final (.new theLedger [orderRow "a", orderRow "b"])
        (submitted ++ (wearOut (u64Max - 1) ++ race))).rows.map
      (·.ctx.appliedFills.contains ⟨"f"⟩) = [true, true] := by
  have hn : u64Max - 1 + 1 = u64Max :=
    Nat.sub_add_cancel (Nat.sub_pos_of_lt (Nat.one_lt_two_pow (by decide)))
  obtain ⟨-, hi, hp⟩ := wear_run (u64Max - 1) hn.le
  rw [Machine.final_append, submitted_run, Machine.final_append, wearOut_run]
  exact race_run hn hi hp rfl

end Omsrs.Execution
