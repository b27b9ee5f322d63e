import Omsrs.Execution.Batch

/-!
# What adjudication lets through

An admitted evidence agrees with everything known of its execution, and is the only one of its
execution in the batch. A refused one writes an entry only where it completes what is there or where
nothing is there.
-/

namespace Omsrs.Execution
open Omsrs.Lib Omsrs.Lifecycle Omsrs.Observation

/-! ## Reports that do not disagree -/

theorem bothUnequal_eq_false {α : Type} [DecidableEq α] {a b : Option α} :
    bothUnequal a b = false ↔ ∀ x y, a = some x → b = some y → x = y := by
  cases a <;> cases b <;> simp [bothUnequal]

theorem coreDisagree_eq_false {q q' p p' : Nat} {v v' : Option VenueOrderId} :
    coreDisagreeQtyPriceVenue q p v q' p' v' = false ↔
      q = q' ∧ p = p' ∧ ∀ x y, v = some x → v' = some y → x = y := by
  simp [coreDisagreeQtyPriceVenue, bothUnequal_eq_false, and_assoc]

theorem fillIn_eq_some {α : Type} {known new : Option α} {x : α} (h : known = some x) :
    fillIn known new = some x := by rw [h]; rfl

theorem option_any_eq_false {α : Type} {f : α → Bool} {a : Option α} :
    a.any f = false ↔ ∀ x, a = some x → f x = false := by cases a <;> simp

theorem anyPair_eq_false {α β : Type} {f : α → β → Bool} {a : Option α} {b : Option β} :
    anyPair f a b = false ↔ ∀ x y, a = some x → b = some y → f x y = false := by
  cases a <;> cases b <;> simp [anyPair]

/-! ## Payloads and entries that only grow -/

/-- `s'` says what `s` says, and possibly more. -/
structure Grows (s s' : StagedPayload) : Prop where
  side : s'.side = s.side
  qty : s'.qty = s.qty
  price : s'.priceCents = s.priceCents
  venue : ∀ v, s.venueOrderId = some v → s'.venueOrderId = some v
  fee : ∀ f, s.feeCents = some f → s'.feeCents = some f

theorem Grows.refl (s : StagedPayload) : Grows s s := ⟨rfl, rfl, rfl, fun _ h => h, fun _ h => h⟩

theorem Grows.trans {s t u : StagedPayload} (h : Grows s t) (h' : Grows t u) : Grows s u :=
  ⟨h'.side.trans h.side, h'.qty.trans h.qty, h'.price.trans h.price,
    fun v hv => h'.venue v (h.venue v hv), fun f hf => h'.fee f (h.fee f hf)⟩

theorem Grows.merge (s : StagedPayload) (e : ExecutionEvidence) : Grows s (s.merge e) :=
  ⟨rfl, rfl, rfl, fun _ h => fillIn_eq_some h, fun _ h => fillIn_eq_some h⟩

/-- The entry `p'` keeps what `p` says; the owner is another matter. -/
structure Extends (p p' : InventoryEntry) : Prop where
  side : p'.side = p.side
  qty : p'.qty = p.qty
  price : p'.priceCents = p.priceCents
  venue : ∀ v, p.venueOrderId = some v → p'.venueOrderId = some v
  fee : ∀ f, p.feeCents = some f → p'.feeCents = some f

theorem Extends.refl (p : InventoryEntry) : Extends p p :=
  ⟨rfl, rfl, rfl, fun _ h => h, fun _ h => h⟩

/-- An evidence that was staged as `s`: it agrees with the entry and with the booked payload of its
execution, takes over what they know, and no other order owns the execution. -/
structure StagedFor (order : OrderRow) (inv : MarketInventory) (e : ExecutionEvidence)
    (s : StagedPayload) : Prop where
  side : s.side = e.side
  qty : s.qty = e.qty
  price : s.priceCents = e.priceCents
  entry : ∀ p, inv.get e.executionId = some p → p.side = s.side ∧ p.qty = s.qty ∧
    p.priceCents = s.priceCents ∧ (∀ v, p.venueOrderId = some v → s.venueOrderId = some v) ∧
    ∀ f, p.feeCents = some f → s.feeCents = some f
  applied : ∀ q, order.ctx.appliedFills.get? e.executionId = some q → q.qty = s.qty ∧
    q.priceCents = s.priceCents ∧ (∀ v, q.venueOrderId = some v → s.venueOrderId = some v) ∧
    ∀ f, q.fee = some f → s.feeCents = some f
  owner : ∀ p o, inv.get e.executionId = some p → p.owner = some o → o = order.ctx.clientOrderId

variable {order : OrderRow} {inv : MarketInventory} {e : ExecutionEvidence} {s s' : StagedPayload}
  {σ σ' : Staging} {pre pre' : List (ExecutionEvidence × PreCore)}

theorem StagedFor.grow (h : StagedFor order inv e s) (hg : Grows s s') :
    StagedFor order inv e s' := by
  refine ⟨hg.side.trans h.side, hg.qty.trans h.qty, hg.price.trans h.price, ?_, ?_, h.owner⟩
  · intro p hp
    obtain ⟨hs, hq, hpr, hv, hf⟩ := h.entry p hp
    exact ⟨hs.trans hg.side.symm, hq.trans hg.qty.symm, hpr.trans hg.price.symm,
      fun v h => hg.venue v (hv v h), fun f h => hg.fee f (hf f h)⟩
  · intro q hq
    obtain ⟨hqty, hpr, hv, hf⟩ := h.applied q hq
    exact ⟨hqty.trans hg.qty.symm, hpr.trans hg.price.symm, fun v h => hg.venue v (hv v h),
      fun f h => hg.fee f (hf f h)⟩

/-- A first evidence that meets no conflict is staged for its execution. -/
theorem stageEvidence_stagedFor
    (hc : coreHit e none (inv.get e.executionId) (order.ctx.appliedFills.get? e.executionId) = false)
    (ho : otherOwner order.ctx.clientOrderId (inv.get e.executionId) = none)
    (hf : feeHit e none (inv.get e.executionId) (order.ctx.appliedFills.get? e.executionId) = false) :
    StagedFor order inv e
      (stageEvidence e (inv.get e.executionId) (order.ctx.appliedFills.get? e.executionId)) := by
  generalize hp : inv.get e.executionId = p at *
  generalize hq : order.ctx.appliedFills.get? e.executionId = q at *
  simp only [coreHit, Bool.or_eq_false_iff, option_any_eq_false, anyPair_eq_false] at hc
  obtain ⟨⟨⟨⟨⟨_, hep⟩, heq⟩, _⟩, _⟩, hpq⟩ := hc
  simp only [feeHit, feeConflict, Bool.or_eq_false_iff, bothUnequal_eq_false] at hf
  obtain ⟨⟨⟨⟨⟨_, _⟩, _⟩, _⟩, _⟩, hfee⟩ := hf
  refine ⟨rfl, rfl, rfl, ?_, ?_, ?_⟩
  · intro p' hp'
    have hd := hep p' (hp.symm.trans hp')
    simp only [disagreesEntry, Bool.or_eq_false_iff, coreDisagree_eq_false,
      decide_eq_false_iff_not, not_not] at hd
    obtain ⟨hside, hqty, hprice, _⟩ := hd
    have hpp : p = some p' := hp.symm.trans hp'
    exact ⟨hside.symm, hqty.symm, hprice.symm, fun v hv => by simp [stageEvidence, hpp, hv],
      fun f hf => by simp [stageEvidence, hpp, hf]⟩
  · intro q' hq'
    have hqq : q = some q' := hq.symm.trans hq'
    have hd := heq q' hqq
    simp only [disagreesApplied, coreDisagree_eq_false] at hd
    obtain ⟨hqty, hprice, _⟩ := hd
    refine ⟨hqty.symm, hprice.symm, fun v hv => ?_, fun f hf => ?_⟩
    · cases hpv : p.bind (·.venueOrderId) with
      | none => simp [stageEvidence, hqq, hpv, hv]
      | some w =>
          obtain ⟨p', hpp, hw⟩ := Option.bind_eq_some_iff.mp hpv
          have hd' := hpq p' q' hpp hqq
          simp only [entryDisagreesApplied, coreDisagree_eq_false] at hd'
          obtain rfl : w = v := hd'.2.2 w v hw hv
          simp [stageEvidence, hpv]
    · cases hpf : p.bind (·.feeCents) with
      | none => simp [stageEvidence, hqq, hpf, hf]
      | some g =>
          obtain rfl : g = f := hfee g f hpf (by simp [hqq, hf])
          simp [stageEvidence, hpf]
  · intro p' o hp' howner
    have hpp : p = some p' := hp.symm.trans hp'
    simpa [otherOwner, hpp, howner, Option.filter] using ho

/-! ## One verdict -/

/-- Verdicts that may bring a new execution into the inventory. -/
def PreCore.claims : PreCore → Bool
  | .admitted _ | .refused _ (.ingested _) _ _ => true
  | _ => false

/-- A refusal that completes the entry, brings in an execution that is not there, or writes nothing. -/
structure Passes (order : OrderRow) (inv : MarketInventory) (e : ExecutionEvidence)
    (inventory : InventoryDisposition) (entryAfter : Option InventoryEntry)
    (conflict : Option ConflictFact) : Prop where
  entry : inventory.writes = true → ∀ entry, entryAfter = some entry →
    (∀ p, inv.get e.executionId = some p → Extends p entry) ∧
      entry.owner = (inv.get e.executionId).bind (·.owner)
  fresh : (∃ p, inventory = .ingested p) → inv.get e.executionId = none
  marked : conflict.isSome = true → ∃ c, inventory = .conflict c
  upgraded : inventory = .upgraded →
    rowForeign order inv = true ∧ ∃ p, inv.get e.executionId = some p

theorem Passes.quiet {i : InventoryDisposition} (h : i.writes = false) (ea : Option InventoryEntry) :
    Passes order inv e i ea none := by
  refine ⟨fun hw => ?_, ?_, fun hc => ?_, ?_⟩
  · rw [h] at hw
    cases hw
  · rintro ⟨p, rfl⟩
    cases h
  · cases hc
  · rintro rfl
    cases h

theorem Passes.conflict (c : ConflictClass) (ea : Option InventoryEntry) (cf : Option ConflictFact) :
    Passes order inv e (.conflict c) ea cf :=
  ⟨fun h => (nomatch h), fun ⟨_, h⟩ => (nomatch h), fun _ => ⟨c, rfl⟩, fun h => (nomatch h)⟩

/-- A verdict of a row: nothing new, a repetition in the batch, or an admission. -/
theorem adjudicateRow_cases (order : OrderRow) (inv : MarketInventory) (σ : Staging)
    (e : ExecutionEvidence) :
    (∃ pc, adjudicateRow order inv σ e = (pc, σ) ∧ (pc = .ignoredZero ∨
      ∃ od fact, pc = refuseConflict od (inv.get e.executionId) fact)) ∨
    (∃ sp, σ.get? e.executionId = some sp ∧ adjudicateRow order inv σ e =
      (.refused (.refused .inBatchDuplicate) .duplicate (inv.get e.executionId) none,
        σ.insert e.executionId (sp.merge e))) ∨
    ∃ s, σ.get? e.executionId = none ∧ StagedFor order inv e s ∧
      adjudicateRow order inv σ e = (.admitted s, σ.insert e.executionId s) := by
  unfold adjudicateRow
  dsimp only
  split
  · exact .inl ⟨_, rfl, .inl rfl⟩
  · split
    · exact .inl ⟨_, rfl, .inr ⟨_, _, rfl⟩⟩
    · rename_i hcore
      split
      · exact .inl ⟨_, rfl, .inr ⟨_, _, rfl⟩⟩
      · rename_i hother
        split
        · exact .inl ⟨_, rfl, .inr ⟨_, _, rfl⟩⟩
        · rename_i hfee
          split
          · rename_i sp hsp
            exact .inr (.inl ⟨sp, hsp, rfl⟩)
          · rename_i hsp
            refine .inr (.inr ⟨_, hsp, ?_, rfl⟩)
            rw [hsp] at hcore hfee
            refine stageEvidence_stagedFor (by simpa using hcore) ?_ (by simpa using hfee)
            cases ho : otherOwner order.ctx.clientOrderId (inv.get e.executionId) with
            | none => rfl
            | some o =>
                cases hp : inv.get e.executionId with
                | none => simp [otherOwner, hp] at ho
                | some p => exact absurd hp (hother o p ho)

/-- A verdict against a foreign row: nothing new, an entry completed, a repetition in the batch, or an
execution that is not there. -/
theorem adjudicateForeign_cases (hrow : rowForeign order inv = true) (refusal : RefusalReason)
    (σ : Staging) (e : ExecutionEvidence) :
    (∃ pc, adjudicateForeign refusal inv σ e = (pc, σ) ∧ (pc = .ignoredZero ∨
      ∃ i ea cf, pc = .refused (.refused refusal) i ea cf ∧ Passes order inv e i ea cf ∧
        pc.claims = false)) ∨
    (∃ sp ea, σ.get? e.executionId = some sp ∧ adjudicateForeign refusal inv σ e =
      (.refused (.refused refusal) .duplicate ea none, σ.insert e.executionId (sp.merge e))) ∨
    ∃ s, σ.get? e.executionId = none ∧ inv.get e.executionId = none ∧
      adjudicateForeign refusal inv σ e =
        (.refused (.refused refusal) (.ingested .rowForeign) (some (s.toEntry none .rowForeign)) none,
          σ.insert e.executionId s) := by
  unfold adjudicateForeign
  dsimp only
  split
  · exact .inl ⟨_, rfl, .inl rfl⟩
  · split
    · exact .inl ⟨_, rfl, .inr ⟨_, _, _, rfl, .conflict _ _ _, rfl⟩⟩
    · split
      · exact .inl ⟨_, rfl, .inr ⟨_, _, _, rfl, .conflict _ _ _, rfl⟩⟩
      · split
        · rename_i sp hsp
          exact .inr (.inl ⟨sp, _, hsp, rfl⟩)
        · rename_i p hs hp
          refine .inl ?_
          split
          · refine ⟨_, rfl, .inr ⟨_, _, _, rfl, ⟨fun _ entry he => ?_, ?_, ?_,
              fun _ => ⟨hrow, p, hp⟩⟩, rfl⟩⟩
            · obtain rfl := Option.some.inj he
              refine ⟨fun p' hp' => ?_, ?_⟩
              · obtain rfl := Option.some.inj (hp.symm.trans hp')
                exact ⟨rfl, rfl, rfl, fun _ h => fillIn_eq_some h, fun _ h => fillIn_eq_some h⟩
              · rw [hp]
                rfl
            · rintro ⟨q, hq⟩
              cases hq
            · intro hc
              cases hc
          · exact ⟨_, rfl, .inr ⟨_, _, _, rfl, .quiet rfl _, rfl⟩⟩
        · rename_i hs hp
          exact .inr (.inr ⟨_, hs, hp, rfl⟩)

/-! ## The passes -/

/-- Of two verdicts that claim an execution, each claims its own. -/
def Apart (a b : ExecutionEvidence × PreCore) : Prop :=
  a.2.claims = true → b.2.claims = true → a.1.executionId ≠ b.1.executionId

/-- A pass keeps what is staged, claims executions that were not staged, each once, and refuses with
`Passes`. -/
structure Passed (order : OrderRow) (inv : MarketInventory) (σ : Staging)
    (pre : List (ExecutionEvidence × PreCore)) (σ' : Staging) : Prop where
  grows : ∀ id s, σ.get? id = some s → ∃ s', σ'.get? id = some s' ∧ Grows s s'
  claimed : ∀ a ∈ pre, a.2.claims = true → σ.get? a.1.executionId = none
  apart : pre.Pairwise Apart
  admitted : ∀ e s, (e, .admitted s) ∈ pre → ∃ s', σ'.get? e.executionId = some s' ∧
    StagedFor order inv e s'
  refused : ∀ e od i ea cf, (e, .refused od i ea cf) ∈ pre → Passes order inv e i ea cf

theorem Passed.nil (σ : Staging) : Passed order inv σ [] σ :=
  ⟨fun _ s h => ⟨s, h, .refl s⟩, by simp, .nil, by simp, by simp⟩

/-- A verdict that claims nothing and leaves or merges the staging. -/
theorem Passed.cons_quiet {pc : PreCore} {σ₁ : Staging} (hpc : pc.claims = false)
    (hpass : ∀ od i ea cf, pc = .refused od i ea cf → Passes order inv e i ea cf)
    (hg : ∀ id s, σ.get? id = some s → ∃ s', σ₁.get? id = some s' ∧ Grows s s')
    (h : Passed order inv σ₁ pre σ') : Passed order inv σ ((e, pc) :: pre) σ' := by
  refine ⟨?_, ?_, ?_, ?_, ?_⟩
  · intro id s hs
    obtain ⟨s₁, hs₁, hg₁⟩ := hg id s hs
    obtain ⟨s₂, hs₂, hg₂⟩ := h.grows id s₁ hs₁
    exact ⟨s₂, hs₂, hg₁.trans hg₂⟩
  · intro a ha hc
    rcases List.mem_cons.mp ha with rfl | ha
    · rw [hpc] at hc
      cases hc
    · cases hs : σ.get? a.1.executionId with
      | none => rfl
      | some s =>
          obtain ⟨s₁, hs₁, _⟩ := hg _ s hs
          rw [h.claimed a ha hc] at hs₁
          cases hs₁
  · refine List.pairwise_cons.mpr ⟨fun b _ hc => ?_, h.apart⟩
    rw [hpc] at hc
    cases hc
  · intro e' s hm
    rcases List.mem_cons.mp hm with heq | hm
    · obtain ⟨rfl, rfl⟩ := Prod.mk.inj heq
      cases hpc
    · exact h.admitted e' s hm
  · intro e' od i ea cf hm
    rcases List.mem_cons.mp hm with heq | hm
    · obtain ⟨rfl, rfl⟩ := Prod.mk.inj heq
      exact hpass od i ea cf rfl
    · exact h.refused e' od i ea cf hm

/-- A verdict that claims the execution it stages. -/
theorem Passed.cons_staged {pc : PreCore} (hs : σ.get? e.executionId = none)
    (hadm : ∀ s', pc = .admitted s' → s' = s ∧ StagedFor order inv e s)
    (hpass : ∀ od i ea cf, pc = .refused od i ea cf → Passes order inv e i ea cf)
    (h : Passed order inv (σ.insert e.executionId s) pre σ') :
    Passed order inv σ ((e, pc) :: pre) σ' := by
  have hne : ∀ a ∈ pre, a.2.claims = true → a.1.executionId ≠ e.executionId := by
    intro a ha hc he
    have := h.claimed a ha hc
    rw [he, OrdMap.get?_insert_self] at this
    cases this
  refine ⟨?_, ?_, ?_, ?_, ?_⟩
  · intro id t ht
    have hid : id ≠ e.executionId := by
      rintro rfl
      rw [hs] at ht
      cases ht
    exact h.grows id t (by rw [OrdMap.get?_insert_ne _ _ hid]; exact ht)
  · intro a ha hc
    rcases List.mem_cons.mp ha with rfl | ha
    · exact hs
    · rw [← OrdMap.get?_insert_ne σ s (hne a ha hc)]
      exact h.claimed a ha hc
  · exact List.pairwise_cons.mpr ⟨fun b hb _ hc => (hne b hb hc).symm, h.apart⟩
  · intro e' s' hm
    rcases List.mem_cons.mp hm with heq | hm
    · obtain ⟨rfl, rfl⟩ := Prod.mk.inj heq
      obtain ⟨rfl, hfor⟩ := hadm s' rfl
      obtain ⟨s₂, hs₂, hg⟩ := h.grows _ s' (OrdMap.get?_insert_self _ _ _)
      exact ⟨s₂, hs₂, hfor.grow hg⟩
    · exact h.admitted e' s' hm
  · intro e' od i ea cf hm
    rcases List.mem_cons.mp hm with heq | hm
    · obtain ⟨rfl, rfl⟩ := Prod.mk.inj heq
      exact hpass od i ea cf rfl
    · exact h.refused e' od i ea cf hm

/-- Merging a repeated evidence lets the staging grow. -/
theorem grows_insert_merge {sp : StagedPayload} (h : σ.get? e.executionId = some sp) :
    ∀ id s, σ.get? id = some s → ∃ s', (σ.insert e.executionId (sp.merge e)).get? id = some s' ∧
      Grows s s' := by
  intro id s hs
  by_cases hid : id = e.executionId
  · subst hid
    obtain rfl := Option.some.inj (h.symm.trans hs)
    exact ⟨_, OrdMap.get?_insert_self _ _ _, .merge _ _⟩
  · exact ⟨s, by rw [OrdMap.get?_insert_ne _ _ hid]; exact hs, .refl s⟩

theorem adjudicateRow_passed (es : List ExecutionEvidence) (σ : Staging) :
    Passed order inv σ (adjudicateAll (adjudicateRow order inv) σ es).1
      (adjudicateAll (adjudicateRow order inv) σ es).2 := by
  induction es generalizing σ with
  | nil => exact .nil σ
  | cons e es ih =>
      simp only [adjudicateAll]
      rcases adjudicateRow_cases order inv σ e with ⟨pc, he, hpc⟩ | ⟨sp, hsp, he⟩ | ⟨s, hs, hfor, he⟩
      · rw [he]
        refine .cons_quiet ?_ ?_ (fun _ s h => ⟨s, h, .refl s⟩) (ih σ)
        · rcases hpc with rfl | ⟨od, fact, rfl⟩ <;> rfl
        · rintro od i ea cf rfl
          rcases hpc with hpc | ⟨od', fact, hpc⟩
          · cases hpc
          · cases hpc
            exact .conflict _ _ _
      · rw [he]
        refine .cons_quiet rfl ?_ (grows_insert_merge hsp) (ih _)
        intro od i ea cf hpc
        cases hpc
        exact .quiet rfl _
      · rw [he]
        refine .cons_staged hs ?_ (by simp) (ih _)
        intro s' hpc
        cases hpc
        exact ⟨rfl, hfor⟩

theorem adjudicateForeign_passed (hrow : rowForeign order inv = true) (refusal : RefusalReason)
    (es : List ExecutionEvidence) (σ : Staging) :
    Passed order inv σ (adjudicateAll (adjudicateForeign refusal inv) σ es).1
        (adjudicateAll (adjudicateForeign refusal inv) σ es).2 ∧
      ∀ e s, (e, .admitted s) ∉ (adjudicateAll (adjudicateForeign refusal inv) σ es).1 := by
  induction es generalizing σ with
  | nil => exact ⟨.nil σ, by simp [adjudicateAll]⟩
  | cons e es ih =>
      simp only [adjudicateAll]
      rcases adjudicateForeign_cases hrow refusal σ e with
        ⟨pc, he, hpc⟩ | ⟨sp, ea, hsp, he⟩ | ⟨s, hs, hp, he⟩
      · rw [he]
        refine ⟨.cons_quiet ?_ ?_ (fun _ s h => ⟨s, h, .refl s⟩) (ih σ).1, fun e' s' hm => ?_⟩
        · rcases hpc with rfl | ⟨i, ea, cf, rfl, _, hc⟩
          · rfl
          · exact hc
        · rintro od i ea cf rfl
          rcases hpc with hpc | ⟨i', ea', cf', hpc, hpass, _⟩
          · cases hpc
          · cases hpc
            exact hpass
        · rcases List.mem_cons.mp hm with heq | hm
          · rcases hpc with rfl | ⟨i, ea, cf, rfl, _⟩ <;> cases heq
          · exact (ih σ).2 e' s' hm
      · rw [he]
        refine ⟨.cons_quiet rfl ?_ (grows_insert_merge hsp) (ih _).1, fun e' s' hm => ?_⟩
        · intro od i ea' cf hpc
          cases hpc
          exact .quiet rfl _
        · rcases List.mem_cons.mp hm with heq | hm
          · cases heq
          · exact (ih _).2 e' s' hm
      · rw [he]
        refine ⟨.cons_staged hs (by simp) ?_ (ih _).1, fun e' s' hm => ?_⟩
        · intro od i ea cf hpc
          cases hpc
          refine ⟨fun _ entry hentry => ?_, fun _ => hp, fun hc => (nomatch hc),
            fun hu => (nomatch hu)⟩
          obtain rfl := Option.some.inj hentry
          rw [hp]
          exact ⟨fun p h => (nomatch h), rfl⟩
        · rcases List.mem_cons.mp hm with heq | hm
          · cases heq
          · exact (ih _).2 e' s' hm

/-! ## The side check -/

/-- The admitted evidences of the order's side stay as they were staged; the others are refused, and
claim what they claimed. -/
structure SideChecked (order : OrderRow) (inv : MarketInventory) (σ : Staging)
    (pre pre' : List (ExecutionEvidence × PreCore)) (σ' : Staging) : Prop where
  origin : ∀ a ∈ pre', ∃ pc, (a.1, pc) ∈ pre ∧ (a.2.claims = true → pc.claims = true)
  apart : pre'.Pairwise Apart
  admitted : ∀ e s, (e, .admitted s) ∈ pre' → (e, .admitted s) ∈ pre ∧ order.ctx.side = e.side ∧
    σ'.get? e.executionId = σ.get? e.executionId
  refused : ∀ e od i ea cf, (e, .refused od i ea cf) ∈ pre' → Passes order inv e i ea cf

/-- Only the staged payloads of claimed executions are taken out. -/
theorem crossCheckSide_staging (order : OrderRow) (inv : MarketInventory) (σ : Staging)
    (pre : List (ExecutionEvidence × PreCore)) (id : FillId)
    (h : ∀ a ∈ pre, a.2.claims = true → a.1.executionId ≠ id) :
    (crossCheckSide order inv σ pre).2.get? id = σ.get? id := by
  induction pre generalizing σ with
  | nil => rfl
  | cons a pre ih =>
      obtain ⟨e, pc⟩ := a
      have ih' := fun σ => ih σ fun b hb => h b (List.mem_cons_of_mem _ hb)
      cases pc with
      | ignoredZero => exact ih' σ
      | refused od i ea cf => exact ih' σ
      | admitted s =>
          by_cases hside : order.ctx.side = e.side
          · simpa only [crossCheckSide, hside, ne_eq, not_true_eq_false, ↓reduceIte] using ih' σ
          · simp only [crossCheckSide, ne_eq, hside, not_false_eq_true, ↓reduceIte]
            rw [ih', OrdMap.get?_erase, if_neg]
            exact (h _ List.mem_cons_self rfl).symm

theorem crossCheckSide_checked {order : OrderRow} {inv : MarketInventory} {σ : Staging}
    {pre : List (ExecutionEvidence × PreCore)} (hap : pre.Pairwise Apart)
    (hr : ∀ e od i ea cf, (e, .refused od i ea cf) ∈ pre → Passes order inv e i ea cf) :
    SideChecked order inv σ pre (crossCheckSide order inv σ pre).1
      (crossCheckSide order inv σ pre).2 := by
  induction pre generalizing σ with
  | nil => exact ⟨by simp [crossCheckSide], .nil, by simp [crossCheckSide], by simp [crossCheckSide]⟩
  | cons a pre ih =>
      obtain ⟨e, pc⟩ := a
      obtain ⟨hhead, htail⟩ := List.pairwise_cons.mp hap
      have hr' : ∀ e od i ea cf, (e, .refused od i ea cf) ∈ pre → Passes order inv e i ea cf :=
        fun e od i ea cf h => hr e od i ea cf (List.mem_cons_of_mem _ h)
      -- a verdict that stays as it is
      have hkeep : ((∃ s, pc = .admitted s) → order.ctx.side = e.side) →
          SideChecked order inv σ ((e, pc) :: pre)
            ((e, pc) :: (crossCheckSide order inv σ pre).1) (crossCheckSide order inv σ pre).2 := by
        intro hside
        have hc := ih (σ := σ) htail hr'
        refine ⟨?_, List.pairwise_cons.mpr ⟨fun b hb hcl hcb => ?_, hc.apart⟩, ?_, ?_⟩
        · intro b hb
          rcases List.mem_cons.mp hb with rfl | hb
          · exact ⟨pc, List.mem_cons_self, id⟩
          · obtain ⟨pc', hm, hcl⟩ := hc.origin b hb
            exact ⟨pc', List.mem_cons_of_mem _ hm, hcl⟩
        · obtain ⟨pc', hm, hcl'⟩ := hc.origin b hb
          exact hhead (b.1, pc') hm hcl (hcl' hcb)
        · intro e' s hm
          rcases List.mem_cons.mp hm with heq | hm
          · obtain ⟨rfl, rfl⟩ := Prod.mk.inj heq
            refine ⟨List.mem_cons_self, hside ⟨s, rfl⟩, ?_⟩
            -- what is erased further on belongs to other executions
            exact crossCheckSide_staging order inv σ pre e'.executionId fun b hb hcl =>
              (hhead b hb rfl hcl).symm
          · obtain ⟨hm', hs, hst⟩ := hc.admitted e' s hm
            exact ⟨List.mem_cons_of_mem _ hm', hs, hst⟩
        · intro e' od i ea cf hm
          rcases List.mem_cons.mp hm with heq | hm
          · obtain ⟨rfl, rfl⟩ := Prod.mk.inj heq
            exact hr e' od i ea cf List.mem_cons_self
          · exact hc.refused e' od i ea cf hm
      cases pc with
      | ignoredZero => exact hkeep (by simp)
      | refused od i ea cf => exact hkeep (by simp)
      | admitted s =>
          by_cases hside : order.ctx.side = e.side
          · simp only [crossCheckSide, hside, ne_eq, not_true_eq_false, ↓reduceIte]
            exact hkeep fun _ => hside
          · have hc := ih (σ := σ.erase e.executionId) htail hr'
            simp only [crossCheckSide, ne_eq, hside, not_false_eq_true, ↓reduceIte]
            refine ⟨?_, List.pairwise_cons.mpr ⟨fun b hb _ hcb => ?_, hc.apart⟩, ?_, ?_⟩
            · intro b hb
              rcases List.mem_cons.mp hb with rfl | hb
              · exact ⟨.admitted s, List.mem_cons_self, fun _ => rfl⟩
              · obtain ⟨pc', hm, hcl⟩ := hc.origin b hb
                exact ⟨pc', List.mem_cons_of_mem _ hm, hcl⟩
            · obtain ⟨pc', hm, hcl'⟩ := hc.origin b hb
              exact hhead (b.1, pc') hm rfl (hcl' hcb)
            · intro e' s' hm
              rcases List.mem_cons.mp hm with heq | hm
              · cases heq
              · obtain ⟨hm', hs, hst⟩ := hc.admitted e' s' hm
                refine ⟨List.mem_cons_of_mem _ hm', hs, hst.trans ?_⟩
                rw [OrdMap.get?_erase, if_neg]
                exact (hhead _ hm' rfl rfl).symm
            · intro e' od i ea cf hm
              rcases List.mem_cons.mp hm with heq | hm
              · obtain ⟨rfl, heq⟩ := Prod.mk.inj heq
                cases hp : inv.get e'.executionId with
                | some p =>
                    simp only [hp] at heq
                    cases heq
                    exact .quiet rfl _
                | none =>
                    cases hst : σ.get? e'.executionId with
                    | none =>
                        simp only [hp, hst] at heq
                        cases heq
                        exact .quiet rfl _
                    | some sp =>
                        simp only [hp, hst] at heq
                        cases heq
                        refine ⟨fun _ entry hentry => ?_, fun _ => hp, fun hcf => (nomatch hcf),
                          fun hu => (nomatch hu)⟩
                        obtain rfl := Option.some.inj hentry
                        rw [hp]
                        exact ⟨fun p h => (nomatch h), rfl⟩
              · exact hc.refused e' od i ea cf hm

/-! ## The batch -/

/-- What the judged batch promises to the core call and the outcomes. -/
structure Judged (order : OrderRow) (inv : MarketInventory)
    (pre : List (ExecutionEvidence × PreCore)) (σ : Staging) : Prop where
  apart : pre.Pairwise Apart
  admitted : ∀ e s, (e, .admitted s) ∈ pre → rowForeign order inv = false ∧
    order.ctx.side = e.side ∧ ∃ s', σ.get? e.executionId = some s' ∧ StagedFor order inv e s'
  refused : ∀ e od i ea cf, (e, .refused od i ea cf) ∈ pre → Passes order inv e i ea cf

theorem adjudicate_judged (order : OrderRow) (inv : MarketInventory) (es : List ExecutionEvidence) :
    Judged order inv (adjudicate order inv es).1 (adjudicate order inv es).2 := by
  unfold adjudicate
  split
  · rename_i hrow
    obtain ⟨h, hno⟩ := adjudicateForeign_passed hrow (foreignRefusal order inv) es .empty
    exact ⟨h.apart, fun e s hm => absurd hm (hno e s), h.refused⟩
  · rename_i hrow
    have h : Passed order inv .empty _ _ := adjudicateRow_passed es .empty
    have hc := crossCheckSide_checked (σ := (adjudicateAll (adjudicateRow order inv) .empty es).2)
      h.apart h.refused
    refine ⟨hc.apart, fun e s hm => ?_, hc.refused⟩
    obtain ⟨hm', hside, hst⟩ := hc.admitted e s hm
    obtain ⟨s', hs', hfor⟩ := h.admitted e s hm'
    exact ⟨by simpa using hrow, hside, s', hst.trans hs', hfor⟩

end Omsrs.Execution
