import Omsrs.Execution.Lemmas.Market
import Omsrs.Execution.Lemmas.Writes

/-!
# The generation versions the inventory

While its mutations fit the counter, the generation tells every content of the inventory apart: what is
taken was prepared from the very content it meets. Entries only learn, and nothing is ever removed.
-/

namespace Omsrs.Execution
open Omsrs.Lib Omsrs.Lifecycle Omsrs.Observation

variable {ledger : LedgerId} {order : OrderRow} {inv : MarketInventory} {t : ExecutionTransaction}
  {event : OrderEvent} {es : List ExecutionEvidence} {id : FillId} {p x : InventoryEntry} {m : Market}

/-! ## Entries that only learn -/

/-- The entry `x` differs from `p` in what `p` does not know, if at all. -/
structure Learns (p x : InventoryEntry) : Prop where
  side : x.side = p.side
  qty : x.qty = p.qty
  price : x.priceCents = p.priceCents
  firstSeen : x.firstSeenTsNs = p.firstSeenTsNs
  source : x.source = p.source
  provenance : x.provenance = p.provenance
  venue : ∀ v, p.venueOrderId = some v → x.venueOrderId = some v
  fee : ∀ f, p.feeCents = some f → x.feeCents = some f
  owner : ∀ o, p.owner = some o → x.owner = some o
  claimed : ∀ c, p.claimedClientOrderId = some c → x.claimedClientOrderId = some c

theorem Learns.refl (p : InventoryEntry) : Learns p p :=
  ⟨rfl, rfl, rfl, rfl, rfl, rfl, fun _ h => h, fun _ h => h, fun _ h => h, fun _ h => h⟩

theorem complete_learns (p : InventoryEntry) (e : ExecutionEvidence) : Learns p (complete p e) :=
  ⟨rfl, rfl, rfl, rfl, rfl, rfl, fun _ h => fillIn_eq_some h, fun _ h => fillIn_eq_some h,
    fun _ h => h, fun _ h => h⟩

/-- Row-less evidence completes what is there, the claimed order included. -/
theorem norow_learns {e : ExecutionEvidence} (h : prepareExecutionNorow inv e = .ok t)
    (hw : (id, x) ∈ t.writes) (hp : inv.get id = some p) : Learns p x := by
  obtain ⟨o, ho, he, -, -, hwrite⟩ := adjudicateNorow_spec inv e
  unfold prepareExecutionNorow at h
  split at h
  · cases h
  · rw [ho] at h
    cases h
    simp only [ExecutionTransaction.writes, List.mem_filterMap, List.mem_singleton,
      exists_eq_left] at hw
    obtain ⟨rfl, -, -⟩ := hwrite id x hw
    have hout : (adjudicateNorow inv e).1 = o := by rw [ho]
    subst hout
    simp only [adjudicateNorow, hp] at hw
    split at hw
    · cases hw
    · split at hw
      · cases hw
      · split at hw
        · cases hw
        · split at hw
          · cases hw
            exact ⟨rfl, rfl, rfl, rfl, rfl, rfl, fun _ h => fillIn_eq_some h,
              fun _ h => fillIn_eq_some h, fun _ h => h, fun _ h => fillIn_eq_some h⟩
          · cases hw

/-- An admitted evidence completes what is there, and gives it an owner if it has none. -/
theorem settleAdmitted_learns {st : Settlement} {e : ExecutionEvidence} {s : StagedPayload}
    (hp : st.inv.get e.executionId = some p) (h : (settleAdmitted st e s).2 = some x) :
    Learns p x := by
  simp only [settleAdmitted, hp] at h
  split at h
  · cases h
    refine ⟨rfl, rfl, rfl, rfl, rfl, rfl, fun _ h => fillIn_eq_some h, fun _ h => fillIn_eq_some h,
      fun o ho => ?_, fun _ h => h⟩
    simp [ho]
  · cases h

theorem BatchParts.learns (b : BatchParts order inv event es t) (hw : (id, x) ∈ t.writes)
    (hp : inv.get id = some p) : Learns p x := by
  cases hf : rowForeign order inv with
  | true =>
      obtain ⟨e, -, -, -, rfl⟩ := (b.foreign_mem hf hp).mp hw
      exact complete_learns p e
  | false =>
      obtain ⟨⟨e, pc⟩, ha, hof, hwrite⟩ := b.writeOf hw
      obtain rfl : id = e.executionId := hof.key
      rw [← settle_write] at hwrite
      obtain ⟨entry, hentry, heq⟩ := Option.map_eq_some_iff.mp hwrite
      obtain ⟨-, rfl⟩ := Prod.mk.inj heq
      cases pc with
      | ignoredZero => cases hentry
      | admitted s => exact settleAdmitted_learns hp hentry
      | refused od i ea cf =>
          have hpass := (adjudicate_judged order inv es).refused e od i ea cf ha
          simp only [settle] at hentry
          split at hentry
          · rename_i hwrites
            cases i with
            | ingested pv =>
                rw [hpass.fresh ⟨pv, rfl⟩] at hp
                cases hp
            | upgraded =>
                rw [(hpass.upgraded rfl).1] at hf
                cases hf
            | _ => cases hwrites
          · cases hentry

theorem Prepared.learns {row : Option OrderRow} (h : Prepared inv row t) (hw : (id, x) ∈ t.writes)
    (hp : inv.get id = some p) : Learns p x := by
  rcases h.cases with ⟨_, e, he⟩ | ⟨row, event, es, _, hb⟩
  · exact norow_learns he hw hp
  · obtain ⟨b⟩ := prepareExecutionBatch_parts hb
    exact b.learns hw hp

/-! ## Applying -/

/-- Applied in place, a transaction is taken as a whole or leaves everything as it was. -/
theorem applyInPlace_eq (t : ExecutionTransaction) (target : Option OrderRow) (inv : MarketInventory) :
    t.applyInPlace ⟨target, inv⟩ =
      match t.apply target inv with
      | .ok (row, inv') => (.ok t.outcomes, ⟨row, inv'⟩)
      | .error err => (.error err, ⟨target, inv⟩) := by
  simp only [ExecutionTransaction.applyInPlace, ExecutionTransaction.apply, bind, ExceptT.bind,
    ExceptT.bindCont, ExceptT.mk, get, getThe, MonadStateOf.get, liftM, monadLift, MonadLift.monadLift,
    ExceptT.lift, StateT.get, StateT.bind, Functor.map, StateT.map, pure, Id]
  split
  · rfl
  · rename_i hsome
    split
    · rfl
    · split
      · rfl
      · cases hp : t.preparedOrder with
        | none =>
            cases target with
            | none => rfl
            | some row => simp [hp] at hsome
        | some prepared =>
            cases target with
            | none => rfl
            | some row =>
                dsimp only
                cases checkTarget prepared row <;> rfl

/-! ## Mutations -/

/-- The mutations of the inventory in one step. -/
def Market.mutations (m : Market) : MarketAction → Nat
  | .apply i target =>
      match m.pending[i]? with
      | none => 0
      | some t =>
          match t.apply target m.inventory with
          | .error _ => 0
          | .ok _ => t.plannedEntries.size + t.plannedConflicts.size
  | .prepare .. | .prepareBatch .. | .append _ => 0

/-- The mutations of a run. -/
def Market.mutationsOver (m : Market) : List MarketAction → Nat
  | [] => 0
  | a :: acts => m.mutations a + (market.step m a).2.mutationsOver acts

theorem mutationsOver_append (m : Market) (acts acts' : List MarketAction) :
    m.mutationsOver (acts ++ acts') =
      m.mutationsOver acts + (market.final m acts).mutationsOver acts' := by
  induction acts generalizing m with
  | nil => simp [Market.mutationsOver]
  | cons a acts ih => simp only [List.cons_append, Market.mutationsOver, Machine.final_cons, ih]; omega

/-- What a step does to the inventory: nothing, or a transaction is taken. -/
theorem step_inventory (m : Market) (a : MarketAction) :
    (market.step m a).2.inventory = m.inventory ∧ m.mutations a = 0 ∨
      ∃ i target t row inv', a = .apply i target ∧ m.pending[i]? = some t ∧
        t.apply target m.inventory = .ok (row, inv') ∧ (market.step m a).1 = .applied row ∧
        (market.step m a).2.inventory = inv' ∧
        m.mutations a = t.plannedEntries.size + t.plannedConflicts.size := by
  have hkeep : ∀ r : Except PrepareError ExecutionTransaction, (m.keep r).2.inventory = m.inventory := by
    intro r
    cases r <;> rfl
  cases a with
  | prepare order e => exact .inl ⟨hkeep _, rfl⟩
  | prepareBatch order event es => exact .inl ⟨hkeep _, rfl⟩
  | append r => exact .inl ⟨rfl, rfl⟩
  | apply i target =>
      simp only [market, Market.step, Market.applyPending, Market.mutations]
      cases ht : m.pending[i]? with
      | none => exact .inl ⟨rfl, rfl⟩
      | some t =>
          dsimp only
          cases ha : t.apply target m.inventory with
          | error err => exact .inl ⟨rfl, rfl⟩
          | ok r => exact .inr ⟨i, target, t, r.1, r.2, rfl, ht, ha, rfl, rfl, rfl⟩

/-- A step adds its mutations to the generation. -/
theorem step_generation (m : Market) (a : MarketAction)
    (h : m.inventory.generation + m.mutations a ≤ u64Max) :
    (market.step m a).2.inventory.generation = m.inventory.generation + m.mutations a := by
  rcases step_inventory m a with ⟨hi, hm⟩ | ⟨i, target, t, row, inv', -, -, ha, -, hi, hm⟩
  · rw [hi, hm, Nat.add_zero]
  · obtain ⟨-, -, -, rfl, -⟩ := apply_ok ha
    rw [hi, hm, MarketInventory.install_generation _ _ (by omega)]
    omega

theorem step_since (m : Market) (a : MarketAction)
    (h : m.inventory.generation + m.mutations a ≤ u64Max) :
    Since (u64Max + 1) (·.generation) m.inventory (market.step m a).2.inventory := by
  refine Since.of_bump (n := m.mutations a) ?_ (by omega) fun hn => ?_
  · rw [step_generation m a h]
    omega
  · rcases step_inventory m a with ⟨hi, -⟩ | ⟨i, target, t, row, inv', -, -, ha, -, hi, hm⟩
    · exact hi
    · obtain ⟨-, -, -, rfl, -⟩ := apply_ok ha
      have he : t.plannedEntries.entries = [] :=
        List.length_eq_zero_iff.mp (show t.plannedEntries.size = 0 by omega)
      have hc : t.plannedConflicts.entries = [] :=
        List.length_eq_zero_iff.mp (show t.plannedConflicts.size = 0 by omega)
      simp only [hi, MarketInventory.install, he, hc, List.foldl_nil]

/-! ## Runs -/

/-- The transaction was prepared by the step `b` of the run `acts`, after `before`. -/
structure PreparedAt (ledger : LedgerId) (acts before : List MarketAction) (b : MarketAction)
    (t : ExecutionTransaction) : Prop where
  during : before ++ [b] <+: acts
  reply : (market.step (market.final (.new ledger) before) b).1 = .prepared
  kept : (market.step (market.final (.new ledger) before) b).2.pending =
    (market.final (.new ledger) before).pending ++ [t]

/-- Every transaction in flight was prepared in the run, and the generation has counted since. -/
structure InFlight (ledger : LedgerId) (acts : List MarketAction) (m : Market) : Prop where
  generation : m.inventory.generation = (Market.new ledger).mutationsOver acts
  pending : ∀ t ∈ m.pending, ∃ before b, PreparedAt ledger acts before b t ∧
    Prepared (market.final (.new ledger) before).inventory t.preparedOrder t ∧
    Since (u64Max + 1) (·.generation) (market.final (.new ledger) before).inventory m.inventory

theorem PreparedAt.extend {acts before : List MarketAction} {a b : MarketAction}
    (h : PreparedAt ledger acts before b t) : PreparedAt ledger (acts ++ [a]) before b t :=
  ⟨h.during.trans (List.prefix_append _ _), h.reply, h.kept⟩

/-- A step adds one prepared transaction at most. -/
theorem step_pending (m : Market) (a : MarketAction) :
    (∀ t ∈ (market.step m a).2.pending, t ∈ m.pending) ∨
      ∃ t, (market.step m a).1 = .prepared ∧ (market.step m a).2.pending = m.pending ++ [t] ∧
        Prepared m.inventory t.preparedOrder t := by
  have hkeep : ∀ (order : Option OrderRow) (r : Except PrepareError ExecutionTransaction),
      (∀ t, r = .ok t → Prepared m.inventory order t) →
      (∀ t ∈ (m.keep r).2.pending, t ∈ m.pending) ∨
        ∃ t, (m.keep r).1 = .prepared ∧ (m.keep r).2.pending = m.pending ++ [t] ∧
          Prepared m.inventory t.preparedOrder t := by
    intro order r hr
    cases r with
    | error err => exact .inl fun _ h => h
    | ok t =>
        have hp := hr t rfl
        exact .inr ⟨t, rfl, rfl, hp.preparedOrder ▸ hp⟩
  cases a with
  | prepare order e => exact hkeep order _ fun t ht => .single ht
  | prepareBatch order event es => exact hkeep (some order) _ fun t ht => .batch ht
  | append r => exact .inl fun _ h => h
  | apply i target =>
      left
      simp only [market, Market.step, Market.applyPending]
      split
      · exact fun _ h => h
      · split <;> exact fun t ht => List.mem_of_mem_eraseIdx ht

theorem run_inFlight (ledger : LedgerId) (acts : List MarketAction)
    (h : (Market.new ledger).mutationsOver acts ≤ u64Max) :
    InFlight ledger acts (market.final (.new ledger) acts) := by
  induction acts using List.reverseRecOn with
  | nil => exact ⟨rfl, fun t ht => nomatch ht⟩
  | append_singleton acts a ih =>
      rw [mutationsOver_append] at h
      simp only [Market.mutationsOver, Nat.add_zero] at h
      have hi := ih (by omega)
      have hroom : (market.final (.new ledger) acts).inventory.generation +
          (market.final (.new ledger) acts).mutations a ≤ u64Max := by
        rw [hi.generation]
        exact h
      rw [Machine.final_append, Machine.final_cons, Machine.final_nil]
      have hold : ∀ t ∈ (market.final (.new ledger) acts).pending, ∃ before b,
          PreparedAt ledger (acts ++ [a]) before b t ∧
          Prepared (market.final (.new ledger) before).inventory t.preparedOrder t ∧
          Since (u64Max + 1) (·.generation) (market.final (.new ledger) before).inventory
            (market.step (market.final (.new ledger) acts) a).2.inventory := by
        intro t ht
        obtain ⟨before, b, hat, hp, hs⟩ := hi.pending t ht
        exact ⟨before, b, hat.extend, hp, hs.trans (step_since _ a hroom)⟩
      refine ⟨?_, fun t ht => ?_⟩
      · rw [step_generation _ _ hroom, hi.generation, mutationsOver_append]
        simp [Market.mutationsOver]
      · rcases step_pending (market.final (.new ledger) acts) a with hsub | ⟨t', hr, hpend, hp⟩
        · exact hold t (hsub t ht)
        · rw [hpend] at ht
          rcases List.mem_append.mp ht with ht | ht
          · exact hold t ht
          · obtain rfl := List.mem_singleton.mp ht
            exact ⟨acts, a, ⟨List.prefix_rfl, hr, hpend⟩, hp, step_since _ a hroom⟩

/-! ## The property -/

theorem Learns.trans {y : InventoryEntry} (h : Learns p x) (h' : Learns x y) : Learns p y where
  side := h'.side.trans h.side
  qty := h'.qty.trans h.qty
  price := h'.price.trans h.price
  firstSeen := h'.firstSeen.trans h.firstSeen
  source := h'.source.trans h.source
  provenance := h'.provenance.trans h.provenance
  venue := fun v hv => h'.venue v (h.venue v hv)
  fee := fun f hf => h'.fee f (h.fee f hf)
  owner := fun o ho => h'.owner o (h.owner o ho)
  claimed := fun c hc => h'.claimed c (h.claimed c hc)

/-- The inventory `inv'` has what `inv` has, and the entries have learnt at most. -/
structure Grown (inv inv' : MarketInventory) : Prop where
  entries : ∀ id p, inv.get id = some p → ∃ x, inv'.get id = some x ∧ Learns p x
  conflicts : ∀ id, inv.conflicts.contains id = true → inv'.conflicts.contains id = true

theorem Grown.refl (inv : MarketInventory) : Grown inv inv :=
  ⟨fun _ p h => ⟨p, h, .refl p⟩, fun _ h => h⟩

theorem Grown.trans {inv' inv'' : MarketInventory} (h : Grown inv inv') (h' : Grown inv' inv'') :
    Grown inv inv'' := by
  refine ⟨fun id p hp => ?_, fun id hid => h'.conflicts id (h.conflicts id hid)⟩
  obtain ⟨x, hx, hl⟩ := h.entries id p hp
  obtain ⟨y, hy, hl'⟩ := h'.entries id x hx
  exact ⟨y, hy, hl.trans hl'⟩

/-- Installing what was prepared from the inventory. -/
theorem Prepared.grown {row : Option OrderRow} (h : Prepared inv row t) :
    Grown inv (inv.install t.plannedEntries t.plannedConflicts) := by
  refine ⟨fun id p hp => ?_, fun id hid => ?_⟩
  · rw [MarketInventory.install_get]
    cases hx : t.plannedEntries.get? id with
    | none => exact ⟨p, by simpa using hp, .refl p⟩
    | some x =>
        have hw : (id, x) ∈ t.writes := OrdMap.mem_of_get?_insertAll (h.wellPlanned.entries ▸ hx)
        exact ⟨x, rfl, h.learns hw hp⟩
  · rw [MarketInventory.install_conflicts, OrdMap.contains, OrdMap.get?_insertAll]
    rw [OrdMap.contains] at hid
    cases (OrdMap.empty.insertAll t.plannedConflicts.entries).get? id with
    | none => exact hid
    | some c => rfl

/-- The generation is a version of the inventory along the run, and its contents only grow. -/
structure Versioned (ledger : LedgerId) (acts : List MarketAction) : Prop where
  /-- A step changes the contents only together with the generation. -/
  bumped : ∀ pre a post, acts = pre ++ a :: post →
    let m := market.final (.new ledger) pre
    let m' := (market.step m a).2
    m'.inventory.entries ≠ m.inventory.entries ∨ m'.inventory.conflicts ≠ m.inventory.conflicts →
      m.inventory.generation < m'.inventory.generation
  /-- A transaction that is taken meets the inventory it was prepared from. -/
  seen : ∀ pre i target post, acts = pre ++ .apply i target :: post →
    let m := market.final (.new ledger) pre
    ∀ t row inv', m.pending[i]? = some t → t.apply target m.inventory = .ok (row, inv') →
      ∃ before b, PreparedAt ledger pre before b t ∧
        (market.final (.new ledger) before).inventory = m.inventory
  grown : ∀ pre mid post, acts = pre ++ mid ++ post →
    Grown (market.final (.new ledger) pre).inventory (market.final (.new ledger) (pre ++ mid)).inventory
  /-- A transaction that is refused leaves inventory and row alone. -/
  refused : ∀ pre i target post, acts = pre ++ .apply i target :: post →
    let m := market.final (.new ledger) pre
    ∀ t err s, m.pending[i]? = some t → t.applyInPlace ⟨target, m.inventory⟩ = (.error err, s) →
      s = ⟨target, m.inventory⟩ ∧ (market.step m (.apply i target)).2.inventory = m.inventory

/-- What is taken was prepared from the inventory it meets. -/
theorem InFlight.taken {acts : List MarketAction} (h : InFlight ledger acts m)
    (hroom : m.inventory.generation ≤ u64Max) {i : Nat} {target row : Option OrderRow}
    {inv' : MarketInventory} (ht : m.pending[i]? = some t)
    (ha : t.apply target m.inventory = .ok (row, inv')) :
    ∃ before b, PreparedAt ledger acts before b t ∧
      (market.final (.new ledger) before).inventory = m.inventory ∧
      Prepared m.inventory t.preparedOrder t := by
  obtain ⟨before, b, hat, hp, hs⟩ := h.pending t (List.mem_of_getElem? ht)
  obtain ⟨-, -, hgen, -, -⟩ := apply_ok ha
  have hsame := hs.same (hgen.trans hp.wellPlanned.generation) (by omega)
  exact ⟨before, b, hat, hsame.symm, hsame ▸ hp⟩

/-- A step of a run that fits the counter grows the inventory. -/
theorem InFlight.grown {acts : List MarketAction} (h : InFlight ledger acts m)
    (hroom : m.inventory.generation ≤ u64Max) (a : MarketAction) :
    Grown m.inventory (market.step m a).2.inventory := by
  rcases step_inventory m a with ⟨hi, -⟩ | ⟨i, target, t, row, inv', -, ht, ha, -, hi, -⟩
  · rw [hi]
    exact .refl _
  · obtain ⟨before, b, -, -, hp⟩ := h.taken hroom ht ha
    obtain ⟨-, -, -, rfl, -⟩ := apply_ok ha
    rw [hi]
    exact hp.grown

/-- While its mutations fit the counter, the generation is a faithful version of the inventory. -/
theorem generation_versions_inventory (ledger : LedgerId) (acts : List MarketAction)
    (h : (Market.new ledger).mutationsOver acts < 2 ^ 64) : Versioned ledger acts := by
  have hfits : ∀ pre post, acts = pre ++ post → (Market.new ledger).mutationsOver pre +
      (market.final (.new ledger) pre).mutationsOver post ≤ u64Max := by
    rintro pre post rfl
    rw [mutationsOver_append] at h
    exact Nat.le_sub_one_of_lt h
  have hin : ∀ pre post, acts = pre ++ post →
      InFlight ledger pre (market.final (.new ledger) pre) ∧
        (market.final (.new ledger) pre).inventory.generation ≤ u64Max := by
    intro pre post hacts
    have hle := hfits pre post hacts
    have hi := run_inFlight ledger pre (by omega)
    exact ⟨hi, by rw [hi.generation]; omega⟩
  refine ⟨fun pre a post hacts => ?_, fun pre i target post hacts => ?_,
    fun pre mid post hacts => ?_, fun pre i target post hacts => ?_⟩
  · intro m m' hne
    have hle : (Market.new ledger).mutationsOver pre + (m.mutations a + m'.mutationsOver post) ≤
        u64Max := hfits pre (a :: post) hacts
    have hroom : m.inventory.generation + m.mutations a ≤ u64Max := by
      rw [(hin pre _ hacts).1.generation]
      omega
    have hs := step_since m a hroom
    refine lt_of_le_of_ne hs.le fun he => ?_
    have hsame := hs.same he.symm (by rw [step_generation m a hroom]; omega)
    rcases hne with hne | hne
    · exact hne (congrArg _ hsame)
    · exact hne (congrArg _ hsame)
  · intro m t row inv' ht ha
    obtain ⟨hi, hg⟩ := hin pre _ hacts
    obtain ⟨before, b, hat, hsame, -⟩ := hi.taken hg ht ha
    exact ⟨before, b, hat, hsame⟩
  · clear h
    induction mid using List.reverseRecOn generalizing post with
    | nil => simpa using Grown.refl _
    | append_singleton mid a ih =>
        have hstep := hin (pre ++ mid) (a :: post) (by simpa using hacts)
        rw [← List.append_assoc, Machine.final_append, Machine.final_cons, Machine.final_nil]
        exact (ih (a :: post) (by simpa using hacts)).trans (hstep.1.grown hstep.2 a)
  · intro m t err s ht hs
    rw [applyInPlace_eq] at hs
    cases ha : t.apply target m.inventory with
    | ok r =>
        rw [ha] at hs
        cases hs
    | error err' =>
        rw [ha] at hs
        cases hs
        refine ⟨rfl, ?_⟩
        simp [market, Market.step, Market.applyPending, ht, ha]

/-- An execution is told twice, the second time with its venue order. -/
theorem generation_versions_told_twice :
    let report (v : Option VenueOrderId) : ExecutionEvidence :=
      ⟨⟨"s"⟩, "M", ⟨"f"⟩, .buyYes, 3, 40, 1, v, none, none, .restFill⟩
    Versioned ⟨⟨"s"⟩, "M"⟩
      [.prepare none (report none), .apply 0 none, .prepare none (report (some ⟨"v"⟩)), .apply 0 none] :=
  generation_versions_inventory _ _ (by decide)

end Omsrs.Execution
