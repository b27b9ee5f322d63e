import Omsrs.Execution.Lemmas.Market
import Omsrs.Execution.Lemmas.Writes

/-!
# The metadata a batch accepts

An evidence that names a venue order or a fee of its execution is either contradicted on record or heard
to the end. A row of the ledger merges what a batch says of an execution; a foreign row completes the
entry from what it was before the batch, so there the last evidence that completes it decides.
-/

namespace Omsrs.Execution
open Omsrs.Lib Omsrs.Lifecycle Omsrs.Observation

variable {order : OrderRow} {inv : MarketInventory} {e e' : ExecutionEvidence} {σ : Staging}
  {event : OrderEvent} {es : List ExecutionEvidence} {t : ExecutionTransaction} {id : FillId}
  {p x y : InventoryEntry}

/-! ## The property -/

/-- `y` names the venue order and the fee that `x` names. -/
structure Carries (x y : InventoryEntry) : Prop where
  venue : ∀ v, x.venueOrderId = some v → y.venueOrderId = some v
  fee : ∀ f, x.feeCents = some f → y.feeCents = some f

/-- Two evidences name different venue orders or different fees of one execution. -/
def Rivals (e e' : ExecutionEvidence) : Prop :=
  e.executionId = e'.executionId ∧
    (bothUnequal e.venueOrderId e'.venueOrderId = true ∨ bothUnequal e.feeCents e'.feeCents = true)

/-- The inventory takes the evidence in: as an execution, as a completion or as a repetition. -/
def ExecutionOutcome.taken (o : ExecutionOutcome) : Bool :=
  match o.inventory with
  | .ingested _ | .upgraded | .duplicate => true
  | .conflict _ | .unchanged => false

/-- Of rivals one at most is taken; where both count, one of them is on record as a conflict. -/
def Settled (o o' : ExecutionOutcome) : Prop :=
  Rivals o.evidence o'.evidence →
    ¬ (o.taken = true ∧ o'.taken = true) ∧
      (o.evidence.qty ≠ 0 → o'.evidence.qty ≠ 0 → o.fact.isSome = true ∨ o'.fact.isSome = true)

/-- Wherever the transaction is applied, what its outcomes report is in the inventory; and no rivals are
taken together. -/
structure MetadataKept (t : ExecutionTransaction) : Prop where
  carried : ∀ target before row after, t.apply target before = .ok (row, after) →
    ∀ o ∈ t.outcomes, o.inventory.writes = true → ∀ x, o.entryAfter = some x →
      ∃ y, after.get o.evidence.executionId = some y ∧ Carries x y
  settled : t.outcomes.Pairwise Settled

/-! ## The condition -/

/-- The last evidence of an execution that names something its entry lacks. -/
def lastInforming (p : InventoryEntry) (es : List ExecutionEvidence) (id : FillId) :
    Option ExecutionEvidence :=
  (es.filter fun e => decide (e.executionId = id) && informs p e).getLast?

/-- What an evidence names and the entry lacks, the last such evidence names too. -/
def LastInforms (inv : MarketInventory) (es : List ExecutionEvidence) : Prop :=
  ∀ e ∈ es, ∀ p, inv.get e.executionId = some p → informs p e = true →
    ∀ last, lastInforming p es e.executionId = some last →
      (∀ v, p.venueOrderId = none → e.venueOrderId = some v → last.venueOrderId = some v) ∧
        ∀ f, p.feeCents = none → e.feeCents = some f → last.feeCents = some f

/-! ## Rivals in one pass -/

theorem bothUnequal_iff {α : Type} [DecidableEq α] {a b : Option α} :
    bothUnequal a b = true ↔ ∃ x y, a = some x ∧ b = some y ∧ x ≠ y := by
  cases a <;> cases b <;> simp [bothUnequal]

/-- A verdict that takes nothing in: the evidence counts nothing, or it is a conflict on record. -/
def Blocked (a : ExecutionEvidence × PreCore) : Prop :=
  (a.2 = .ignoredZero ∧ a.1.qty = 0) ∨ ∃ od c ea cf, a.2 = .refused od (.conflict c) ea (some cf)

/-- What the evidence names is staged. -/
def Tells (σ : Staging) (e : ExecutionEvidence) : Prop :=
  ∃ s, σ.get? e.executionId = some s ∧ (∀ v, e.venueOrderId = some v → s.venueOrderId = some v) ∧
    ∀ f, e.feeCents = some f → s.feeCents = some f

theorem Tells.insert (h : Tells σ e) {s : StagedPayload}
    (hs : ∀ s₀, σ.get? e'.executionId = some s₀ → Grows s₀ s) :
    Tells (σ.insert e'.executionId s) e := by
  obtain ⟨s₀, hs₀, hv, hf⟩ := h
  by_cases hid : e.executionId = e'.executionId
  · have hg := hs s₀ (hid ▸ hs₀)
    exact ⟨s, by simp [hid], fun v h => hg.venue v (hv v h),
      fun f h => hg.fee f (hf f h)⟩
  · exact ⟨s₀, by rw [OrdMap.get?_insert_ne _ _ hid]; exact hs₀, hv, hf⟩

/-- A rival of what is staged meets a conflict. -/
theorem Tells.hit (h : Tells σ e) (hr : Rivals e e') (p : Option InventoryEntry)
    (q : Option FillPayload) :
    coreHit e' (σ.get? e'.executionId) p q = true ∨ feeHit e' (σ.get? e'.executionId) p q = true := by
  obtain ⟨s, hs, hv, hf⟩ := h
  rw [← hr.1, hs]
  rcases hr.2 with hr | hr
  · obtain ⟨v, w, he, he', hne⟩ := bothUnequal_iff.mp hr
    simp [coreHit, disagreesStaged, coreDisagreeQtyPriceVenue, bothUnequal, hv v he, he', Ne.symm hne]
  · obtain ⟨f, g, he, he', hne⟩ := bothUnequal_iff.mp hr
    simp [feeHit, feeConflict, bothUnequal, hf f he, he', Ne.symm hne]

theorem fillIn_names {α : Type} [DecidableEq α] {known new : Option α}
    (h : bothUnequal new known = false) {x : α} (hx : new = some x) : fillIn known new = some x := by
  cases known with
  | none => simpa [fillIn] using hx
  | some y =>
      rw [bothUnequal_eq_false.mp h x y hx rfl]
      rfl

/-- A repetition that meets no conflict is merged. -/
theorem tells_merge {s : StagedPayload} {p : Option InventoryEntry} {q : Option FillPayload}
    (hc : coreHit e (some s) p q = false) (hf : feeHit e (some s) p q = false) :
    Tells (σ.insert e.executionId (s.merge e)) e := by
  simp only [coreHit, disagreesStaged, coreDisagreeQtyPriceVenue, Option.any_some,
    Bool.or_eq_false_iff] at hc
  simp only [feeHit, feeConflict, Option.bind_some, Bool.or_eq_false_iff] at hf
  exact ⟨_, OrdMap.get?_insert_self .., fun v hv => fillIn_names hc.1.1.1.1.1.2.2 hv,
    fun f hf' => fillIn_names hf.1.1.1.1.1 hf'⟩

/-- A first evidence that meets no conflict is staged. -/
theorem tells_stage {p : Option InventoryEntry} {q : Option FillPayload}
    (hc : coreHit e none p q = false) (hf : feeHit e none p q = false) :
    Tells (σ.insert e.executionId (stageEvidence e p q)) e := by
  refine ⟨_, OrdMap.get?_insert_self .., fun v hv => ?_, fun f hf' => ?_⟩
  · have hp : ∀ a, p = some a → ∀ w, a.venueOrderId = some w → w = v := by
      rintro a rfl w hw
      simp only [coreHit, disagreesEntry, Option.any_some, Bool.or_eq_false_iff,
        coreDisagree_eq_false] at hc
      exact (hc.1.1.1.1.2.2.2.2 v w hv hw).symm
    have hq : ∀ b, q = some b → ∀ w, b.venueOrderId = some w → w = v := by
      rintro b rfl w hw
      simp only [coreHit, disagreesApplied, Option.any_some, Bool.or_eq_false_iff,
        coreDisagree_eq_false] at hc
      exact (hc.1.1.1.2.2.2 v w hv hw).symm
    cases hpv : p.bind (·.venueOrderId) with
    | some w =>
        obtain ⟨a, ha, hw⟩ := Option.bind_eq_some_iff.mp hpv
        simp [stageEvidence, hpv, hp a ha w hw]
    | none =>
        cases hqv : q.bind (·.venueOrderId) with
        | some w =>
            obtain ⟨b, hb, hw⟩ := Option.bind_eq_some_iff.mp hqv
            simp [stageEvidence, hpv, hqv, hq b hb w hw]
        | none => simp [stageEvidence, hpv, hqv, hv]
  · simp only [feeHit, feeConflict, Bool.or_eq_false_iff, bothUnequal_eq_false] at hf
    obtain ⟨⟨⟨⟨⟨_, hp⟩, hq⟩, _⟩, _⟩, _⟩ := hf
    cases hpf : p.bind (·.feeCents) with
    | some g => simp [stageEvidence, hpf, hp f g hf' hpf]
    | none =>
        cases hqf : q.bind (·.fee) with
        | some g => simp [stageEvidence, hpf, hqf, hq f g hf' hqf]
        | none => simp [stageEvidence, hpf, hqf, hf']

/-- How a pass over the evidences of some executions hears them. -/
structure Hears (judge : Staging → ExecutionEvidence → PreCore × Staging) (P : FillId → Prop) :
    Prop where
  heard : ∀ σ e, P e.executionId → Blocked (e, (judge σ e).1) ∨ Tells (judge σ e).2 e
  kept : ∀ σ e e', Tells σ e → Tells (judge σ e').2 e
  rival : ∀ σ e e', Tells σ e → Rivals e e' → Blocked (e', (judge σ e').1)

/-- Of rivals one at most is taken: where both count, one of them is a conflict. -/
def OneBlocked (P : FillId → Prop) (a b : ExecutionEvidence × PreCore) : Prop :=
  Rivals a.1 b.1 → P a.1.executionId → Blocked a ∨ Blocked b

variable {judge : Staging → ExecutionEvidence → PreCore × Staging} {P : FillId → Prop}

theorem Hears.rivals (h : Hears judge P) (ht : Tells σ e) (es : List ExecutionEvidence) :
    ∀ b ∈ (adjudicateAll judge σ es).1, Rivals e b.1 → Blocked b := by
  induction es generalizing σ with
  | nil => exact fun b hb => nomatch hb
  | cons e' es ih =>
      intro b hb hr
      rcases List.mem_cons.mp hb with rfl | hb
      · exact h.rival σ e e' ht hr
      · exact ih (h.kept σ e e' ht) b hb hr

theorem Hears.pairwise (h : Hears judge P) (es : List ExecutionEvidence) :
    (adjudicateAll judge σ es).1.Pairwise (OneBlocked P) := by
  induction es generalizing σ with
  | nil => exact .nil
  | cons e es ih =>
      refine List.pairwise_cons.mpr ⟨fun b hb hr hP => ?_, ih⟩
      rcases h.heard σ e hP with hbl | ht
      · exact .inl hbl
      · exact .inr (h.rivals ht es b hb hr)

/-- A row of the ledger hears every execution. -/
theorem adjudicateRow_hears (order : OrderRow) (inv : MarketInventory) :
    Hears (adjudicateRow order inv) fun _ => True := by
  refine ⟨fun σ e _ => ?_, fun σ e e' ht => ?_, fun σ e e' ht hr => ?_⟩
  · unfold adjudicateRow
    dsimp only
    split
    · exact .inl (.inl ⟨rfl, ‹_›⟩)
    · split
      · exact .inl (.inr ⟨_, _, _, _, rfl⟩)
      · rename_i hc
        split
        · exact .inl (.inr ⟨_, _, _, _, rfl⟩)
        · split
          · exact .inl (.inr ⟨_, _, _, _, rfl⟩)
          · rename_i hf
            split
            · rename_i sp hsp
              rw [hsp] at hc hf
              exact .inr (tells_merge (by simpa using hc) (by simpa using hf))
            · rename_i hsp
              rw [hsp] at hc hf
              exact .inr (tells_stage (by simpa using hc) (by simpa using hf))
  · rcases adjudicateRow_cases order inv σ e' with ⟨pc, h, -⟩ | ⟨sp, hsp, h⟩ | ⟨s, hs, -, h⟩
    · rw [h]
      exact ht
    · rw [h]
      exact ht.insert fun s₀ hs₀ => by
        rw [hsp] at hs₀
        cases hs₀
        exact .merge _ _
    · rw [h]
      exact ht.insert fun s₀ hs₀ => by
        rw [hs] at hs₀
        cases hs₀
  · have hhit := ht.hit hr (inv.get e'.executionId) (order.ctx.appliedFills.get? e'.executionId)
    unfold adjudicateRow
    dsimp only
    split
    · exact .inl ⟨rfl, ‹_›⟩
    · split
      · exact .inr ⟨_, _, _, _, rfl⟩
      · rename_i hc
        split
        · exact .inr ⟨_, _, _, _, rfl⟩
        · rw [if_pos (hhit.resolve_left hc)]
          exact .inr ⟨_, _, _, _, rfl⟩

/-- A foreign row hears the executions that are not there. -/
theorem adjudicateForeign_hears (refusal : RefusalReason) (inv : MarketInventory) :
    Hears (adjudicateForeign refusal inv) fun id => inv.get id = none := by
  refine ⟨fun σ e hP => ?_, fun σ e e' ht => ?_, fun σ e e' ht hr => ?_⟩
  · unfold adjudicateForeign
    dsimp only
    rw [hP]
    split
    · exact .inl (.inl ⟨rfl, ‹_›⟩)
    · split
      · exact .inl (.inr ⟨_, _, _, _, rfl⟩)
      · rename_i hc
        split
        · exact .inl (.inr ⟨_, _, _, _, rfl⟩)
        · rename_i hf
          cases hs : σ.get? e.executionId with
          | some sp =>
              rw [hs] at hc hf
              exact .inr (tells_merge (by simpa using hc) (by simpa using hf))
          | none =>
              rw [hs] at hc hf
              exact .inr (tells_stage (by simpa using hc) (by simpa using hf))
  · unfold adjudicateForeign
    dsimp only
    split
    · exact ht
    · split
      · exact ht
      · split
        · exact ht
        · split
          · rename_i sp _ hsp
            exact ht.insert fun s₀ hs₀ => by
              rw [hsp] at hs₀
              cases hs₀
              exact .merge _ _
          · split <;> exact ht
          · rename_i hs _
            exact ht.insert fun s₀ hs₀ => by
              rw [hs] at hs₀
              cases hs₀
  · have hhit := ht.hit hr (inv.get e'.executionId) none
    unfold adjudicateForeign
    dsimp only
    split
    · exact .inl ⟨rfl, ‹_›⟩
    · split
      · exact .inr ⟨_, _, _, _, rfl⟩
      · rename_i hc
        rw [if_pos (hhit.resolve_left hc)]
        exact .inr ⟨_, _, _, _, rfl⟩

/-! ## Rivals in a batch -/

/-- What the side check makes of a blocked verdict is that verdict. -/
theorem crossCheckSide_origin (pre : List (ExecutionEvidence × PreCore)) :
    ∀ b ∈ (crossCheckSide order inv σ pre).1, ∃ a ∈ pre, a.1 = b.1 ∧ (Blocked a → Blocked b) := by
  induction pre generalizing σ with
  | nil => exact fun b hb => nomatch hb
  | cons a pre ih =>
      obtain ⟨e, pc⟩ := a
      have hrest : ∀ (σ : Staging) b, b ∈ (crossCheckSide order inv σ pre).1 →
          ∃ a ∈ (e, pc) :: pre, a.1 = b.1 ∧ (Blocked a → Blocked b) := by
        intro σ b hb
        obtain ⟨a, ha, h⟩ := ih b hb
        exact ⟨a, List.mem_cons_of_mem _ ha, h⟩
      intro b hb
      cases pc with
      | admitted s =>
          have hno : ¬ Blocked (e, .admitted s) := by
            rintro (⟨h, -⟩ | ⟨_, _, _, _, h⟩) <;> cases h
          simp only [crossCheckSide] at hb
          split at hb <;> rcases List.mem_cons.mp hb with rfl | hb
          · exact ⟨_, List.mem_cons_self, rfl, fun h => absurd h hno⟩
          · exact hrest _ b hb
          · exact ⟨_, List.mem_cons_self, rfl, id⟩
          · exact hrest _ b hb
      | _ =>
          rcases List.mem_cons.mp hb with rfl | hb
          · exact ⟨_, List.mem_cons_self, rfl, id⟩
          · exact hrest _ b hb

theorem crossCheckSide_pairwise {pre : List (ExecutionEvidence × PreCore)}
    (h : pre.Pairwise (OneBlocked P)) : (crossCheckSide order inv σ pre).1.Pairwise (OneBlocked P) := by
  induction pre generalizing σ with
  | nil => exact .nil
  | cons a pre ih =>
      obtain ⟨ha, hpre⟩ := List.pairwise_cons.mp h
      obtain ⟨e, pc⟩ := a
      have hhead : ∀ (σ : Staging) pc', (Blocked (e, pc) → Blocked (e, pc')) →
          ∀ b ∈ (crossCheckSide order inv σ pre).1, OneBlocked P (e, pc') b := by
        intro σ pc' hpc b hb hr hP
        obtain ⟨a', ha', hid, hbl⟩ := crossCheckSide_origin pre b hb
        exact (ha a' ha' (hid ▸ hr) hP).imp hpc hbl
      cases pc with
      | admitted s =>
          have hno : ¬ Blocked (e, .admitted s) := by
            rintro (⟨h, -⟩ | ⟨_, _, _, _, h⟩) <;> cases h
          simp only [crossCheckSide]
          split
          · exact List.pairwise_cons.mpr ⟨hhead _ _ fun h => absurd h hno, ih hpre⟩
          · exact List.pairwise_cons.mpr ⟨hhead _ _ id, ih hpre⟩
      | _ => exact List.pairwise_cons.mpr ⟨hhead _ _ id, ih hpre⟩

/-- What a foreign row takes in of an execution that is there agrees with its entry. -/
theorem adjudicateForeign_agrees (refusal : RefusalReason) (σ : Staging)
    (hp : inv.get e.executionId = some p) :
    Blocked (e, (adjudicateForeign refusal inv σ e).1) ∨ agrees p e = true := by
  unfold adjudicateForeign
  dsimp only
  split
  · exact .inl (.inl ⟨rfl, ‹_›⟩)
  · rename_i hq
    split
    · exact .inl (.inr ⟨_, _, _, _, rfl⟩)
    · rename_i hc
      split
      · exact .inl (.inr ⟨_, _, _, _, rfl⟩)
      · rename_i hf
        right
        simp only [coreHit, hp, Option.any_some, Bool.or_eq_true, not_or, Bool.not_eq_true] at hc
        simp only [feeHit, hp, Option.bind_some, Bool.or_eq_true, not_or, Bool.not_eq_true] at hf
        simp [agrees, hq, hc.1.1.1.1.2, hf.1.1.1.1.2]

theorem adjudicateForeign_all_agree (refusal : RefusalReason) (es : List ExecutionEvidence) :
    ∀ a ∈ (adjudicateAll (adjudicateForeign refusal inv) σ es).1,
      a.1 ∈ es ∧ ∀ p, inv.get a.1.executionId = some p → Blocked a ∨ agrees p a.1 = true := by
  induction es generalizing σ with
  | nil => exact fun a ha => nomatch ha
  | cons e es ih =>
      intro a ha
      rcases List.mem_cons.mp ha with rfl | ha
      · exact ⟨List.mem_cons_self, fun p hp => adjudicateForeign_agrees refusal σ hp⟩
      · obtain ⟨hm, h⟩ := ih a ha
        exact ⟨List.mem_cons_of_mem _ hm, h⟩

theorem lastInforming_isSome (he : e ∈ es) (hi : informs p e = true) :
    ∃ last, lastInforming p es e.executionId = some last := by
  have hmem : e ∈ es.filter fun e' => decide (e'.executionId = e.executionId) && informs p e' := by
    simp [he, hi]
  exact Option.isSome_iff_exists.mp (List.getLast?_isSome.mpr (List.ne_nil_of_mem hmem))

/-- Rivals that agree with one entry both complete it, which the last such evidence rules out. -/
theorem LastInforms.no_rivals (h : LastInforms inv es) (he : e ∈ es) (he' : e' ∈ es)
    (hr : Rivals e e') (hp : inv.get e.executionId = some p) (ha : agrees p e = true)
    (ha' : agrees p e' = true) : False := by
  have hp' : inv.get e'.executionId = some p := hr.1 ▸ hp
  have hagree : ∀ {e}, agrees p e = true → (∀ v w, e.venueOrderId = some v →
      p.venueOrderId = some w → v = w) ∧ ∀ f g, e.feeCents = some f → p.feeCents = some g → f = g := by
    intro e ha
    simp only [agrees, disagreesEntry, feeConflict, Bool.and_eq_true, Bool.not_eq_true',
      Bool.or_eq_false_iff, coreDisagree_eq_false, bothUnequal_eq_false] at ha
    exact ⟨ha.1.2.2.2.2, ha.2⟩
  have hsame : ∀ {last}, lastInforming p es e.executionId = some last →
      lastInforming p es e'.executionId = some last := fun h => hr.1 ▸ h
  rcases hr.2 with hu | hu
  · obtain ⟨v, w, hv, hw, hne⟩ := bothUnequal_iff.mp hu
    have hnone : p.venueOrderId = none := by
      cases hpv : p.venueOrderId with
      | none => rfl
      | some u =>
          rw [(hagree ha).1 v u hv hpv, (hagree ha').1 w u hw hpv] at hne
          exact absurd rfl hne
    have hi : informs p e = true := by simp [informs, ha, fillsIn, hnone, hv]
    have hi' : informs p e' = true := by simp [informs, ha', fillsIn, hnone, hw]
    obtain ⟨last, hlast⟩ := lastInforming_isSome he hi
    have hlv := (h e he p hp hi last hlast).1 v hnone hv
    rw [(h e' he' p hp' hi' last (hsame hlast)).1 w hnone hw] at hlv
    exact hne (Option.some.inj hlv).symm
  · obtain ⟨f, g, hf, hg, hne⟩ := bothUnequal_iff.mp hu
    have hnone : p.feeCents = none := by
      cases hpf : p.feeCents with
      | none => rfl
      | some u =>
          rw [(hagree ha).2 f u hf hpf, (hagree ha').2 g u hg hpf] at hne
          exact absurd rfl hne
    have hi : informs p e = true := by simp [informs, ha, fillsIn, hnone, hf]
    have hi' : informs p e' = true := by simp [informs, ha', fillsIn, hnone, hg]
    obtain ⟨last, hlast⟩ := lastInforming_isSome he hi
    have hlf := (h e he p hp hi last hlast).2 f hnone hf
    rw [(h e' he' p hp' hi' last (hsame hlast)).2 g hnone hg] at hlf
    exact hne (Option.some.inj hlf).symm

theorem adjudicate_pairwise (hc : rowForeign order inv = true → LastInforms inv es) :
    (adjudicate order inv es).1.Pairwise (OneBlocked fun _ => True) := by
  unfold adjudicate
  split
  · rename_i hf
    refine ((adjudicateForeign_hears _ inv).pairwise es).imp_of_mem fun {a b} ha hb hab hr _ => ?_
    obtain ⟨hma, hpa⟩ := adjudicateForeign_all_agree _ es a ha
    obtain ⟨hmb, hpb⟩ := adjudicateForeign_all_agree _ es b hb
    cases hp : inv.get a.1.executionId with
    | none => exact hab hr hp
    | some p =>
        rcases hpa p hp with h | h
        · exact .inl h
        · rcases hpb p (hr.1 ▸ hp) with h' | h'
          · exact .inr h'
          · exact ((hc hf).no_rivals hma hmb hr hp h h').elim
  · exact crossCheckSide_pairwise ((adjudicateRow_hears order inv).pairwise es)

theorem settle_blocked {s : Settlement} {a : ExecutionEvidence × PreCore} (h : Blocked a) :
    (settle s a).1.taken = false ∧ (a.1.qty ≠ 0 → (settle s a).1.fact.isSome = true) := by
  obtain ⟨e, pc⟩ := a
  rcases h with ⟨h, hq⟩ | ⟨od, c, ea, cf, h⟩
  · cases h
    exact ⟨rfl, fun hne => absurd hq hne⟩
  · cases h
    exact ⟨rfl, fun _ => rfl⟩

theorem BatchParts.settled (b : BatchParts order inv event es t)
    (hc : rowForeign order inv = true → LastInforms inv es) : t.outcomes.Pairwise Settled := by
  rw [b.outcomes, List.map_map, List.pairwise_map]
  refine (adjudicate_pairwise hc).imp fun {a c} hac hr => ?_
  simp only [Function.comp_apply, settle_evidence] at hr ⊢
  rcases hac hr trivial with h | h
  · obtain ⟨ht, hf⟩ := settle_blocked (s := batchSettlement order inv (adjudicate order inv es).2
      b.core) h
    exact ⟨fun ht' => absurd (ht.symm.trans ht'.1) (by decide), fun hq _ => .inl (hf hq)⟩
  · obtain ⟨ht, hf⟩ := settle_blocked (s := batchSettlement order inv (adjudicate order inv es).2
      b.core) h
    exact ⟨fun ht' => absurd (ht.symm.trans ht'.2) (by decide), fun _ hq => .inr (hf hq)⟩

/-! ## The last write -/

theorem Carries.refl (x : InventoryEntry) : Carries x x := ⟨fun _ h => h, fun _ h => h⟩

theorem Carries.trans {z : InventoryEntry} (h : Carries x y) (h' : Carries y z) : Carries x z :=
  ⟨fun v hv => h'.venue v (h.venue v hv), fun f hf => h'.fee f (h.fee f hf)⟩

/-- A foreign row leaves the entry as its last informing evidence completes it. -/
theorem BatchParts.foreign_final (b : BatchParts order inv event es t)
    (hf : rowForeign order inv = true) (hp : inv.get id = some p) :
    t.plannedEntries.get? id = (lastInforming p es id).map (complete p) := by
  have hlist : ((es.filter fun e => decide (e.executionId = id)).filterMap fun e =>
      (completed p e).map fun x => (id, x)) =
      (es.filter fun e => decide (e.executionId = id) && informs p e).map fun e =>
        (id, complete p e) := by
    clear b
    induction es with
    | nil => rfl
    | cons e es ih =>
        by_cases hid : e.executionId = id
        · by_cases hi : informs p e = true <;>
            simpa [List.filter_cons, hid, hi, completed_eq] using ih
        · simpa [List.filter_cons, hid] using ih
  rw [b.entries, OrdMap.get?_insertAll_getLast? (p := fun w => decide (w.1 = id)) (by simp)]
  have hw := b.foreign_writes hf hp
  rw [ExecutionTransaction.writes] at hw
  rw [hw, hlist, List.getLast?_map, Option.map_map, lastInforming]
  rfl

/-- What is written stays named, when the last informing evidence says it all. -/
theorem BatchParts.write_carried (b : BatchParts order inv event es t)
    (hc : rowForeign order inv = true → LastInforms inv es) (hx : (id, x) ∈ t.writes) :
    ∃ y, t.plannedEntries.get? id = some y ∧ Carries x y := by
  by_cases hcase : rowForeign order inv = false ∨ inv.get id = none
  · cases hy : t.plannedEntries.get? id with
    | none =>
        rw [b.entries] at hy
        exact absurd (List.mem_map_of_mem hx) (OrdMap.get?_insertAll_none.mp hy)
    | some y =>
        have hy' : (id, y) ∈ t.writes := OrdMap.mem_of_get?_insertAll (b.entries ▸ hy)
        exact ⟨y, rfl, b.writes_once hcase hx hy' ▸ Carries.refl x⟩
  · simp only [not_or, Bool.not_eq_false] at hcase
    obtain ⟨hf, hp⟩ := hcase
    obtain ⟨p, hp⟩ := Option.ne_none_iff_exists'.mp hp
    obtain ⟨e, he, rfl, hi, rfl⟩ := (b.foreign_mem hf hp).mp hx
    obtain ⟨last, hlast⟩ := lastInforming_isSome he hi
    obtain ⟨hv, hfee⟩ := hc hf e he p hp hi last hlast
    refine ⟨complete p last, by rw [b.foreign_final hf hp, hlast]; rfl, fun v hvx => ?_,
      fun f hfx => ?_⟩
    · cases hpv : p.venueOrderId with
      | some w =>
          simp only [complete, hpv, fillIn, Option.some_or] at hvx ⊢
          exact hvx
      | none =>
          simp only [complete, hpv, fillIn, Option.none_or] at hvx ⊢
          exact hv v hpv hvx
    · cases hpf : p.feeCents with
      | some g =>
          simp only [complete, hpf, fillIn, Option.some_or] at hfx ⊢
          exact hfx
      | none =>
          simp only [complete, hpf, fillIn, Option.none_or] at hfx ⊢
          exact hfee f hpf hfx

/-- No metadata that a batch accepts is lost exactly when the row is of the ledger or, of every entry,
the last evidence that names something it lacks names all that the others do. -/
theorem metadata_kept_iff (h : prepareExecutionBatch order inv event es = .ok t) :
    MetadataKept t ↔ (rowForeign order inv = true → LastInforms inv es) := by
  obtain ⟨b⟩ := prepareExecutionBatch_parts h
  constructor
  · intro hk hf e he p hp hi last hlast
    have hx : (e.executionId, complete p e) ∈ t.writes :=
      (b.foreign_mem hf hp).mpr ⟨e, he, rfl, hi, rfl⟩
    obtain ⟨o, ho, hw⟩ := List.mem_filterMap.mp hx
    simp only [ExecutionOutcome.write] at hw
    split at hw
    · rename_i hwrites
      obtain ⟨x, hxo, heq⟩ := Option.map_eq_some_iff.mp hw
      obtain ⟨hid, rfl⟩ := Prod.mk.inj heq
      obtain ⟨y, hy, hxy⟩ := hk.carried _ _ _ _ (apply_own b.prepared b.ledger b.generation) o ho
        hwrites _ hxo
      rw [MarketInventory.install_get, hid, b.foreign_final hf hp, hlast, Option.map_some,
        Option.some_or] at hy
      obtain rfl := Option.some.inj hy
      refine ⟨fun v hpv hev => ?_, fun f hpf hef => ?_⟩
      · simpa [complete, hpv, fillIn] using hxy.venue v (by simp [complete, hpv, fillIn, hev])
      · simpa [complete, hpf, fillIn] using hxy.fee f (by simp [complete, hpf, fillIn, hef])
    · cases hw
  · intro hc
    refine ⟨fun target before row after ha o ho hwrites x hx => ?_, b.settled hc⟩
    have hmem : (o.evidence.executionId, x) ∈ t.writes :=
      List.mem_filterMap.mpr ⟨o, ho, by simp [ExecutionOutcome.write, hwrites, hx]⟩
    obtain ⟨y, hy, hxy⟩ := b.write_carried hc hmem
    obtain ⟨-, -, -, rfl, -⟩ := apply_ok ha
    exact ⟨y, by rw [MarketInventory.install_get, hy, Option.some_or], hxy⟩

/-! ## A batch that forgets -/

def tapeLedger : LedgerId := ⟨⟨"s"⟩, "M"⟩

/-- One execution of the tape, as far as it is told. -/
def tapeEvidence (told : Option String × Option Nat) : ExecutionEvidence :=
  ⟨⟨"s"⟩, "M", ⟨"f"⟩, .buyYes, 3, 40, 1, told.1.map .mk, none, told.2, .restFill⟩

def tapeFill (told : Option String × Option Nat) : FillRecord :=
  ⟨⟨"f"⟩, 3, 40, 1, told.1.map .mk, told.2⟩

/-- The inventory that knows of the execution, and of neither its venue order nor its fee. -/
def tapeInventory : MarketInventory :=
  (MarketInventory.new tapeLedger).insertEntry
    (⟨"f"⟩, ⟨.buyYes, 3, 40, 1, none, none, none, none, .restFill, .noRow⟩)

/-- The row of another market. -/
def strangerRow : OrderRow :=
  ⟨⟨⟨"s"⟩, "N"⟩, ⟨0⟩, .new, OrderCtx.new ⟨"c"⟩ "N" "x" .buyYes 40 3⟩

/-- The row is asked to take what the tape tells, in turns. -/
def tapeBatch (tape : List (Option String × Option Nat)) : Except PrepareError ExecutionTransaction :=
  prepareExecutionBatch strangerRow tapeInventory (.immediateFillBackfillResult (tape.map tapeFill))
    (tape.map tapeEvidence)

/-- Told the venue order and then both, the entry has both. -/
theorem metadata_kept_told :
    ∃ t, tapeBatch [(some "v", none), (some "v", some 5)] = .ok t ∧ MetadataKept t := by
  cases ht : tapeBatch [(some "v", none), (some "v", some 5)] with
  | error err =>
      have hok : (tapeBatch [(some "v", none), (some "v", some 5)]).toBool = true := by decide
      rw [ht] at hok
      cases hok
  | ok t =>
      refine ⟨t, rfl, (metadata_kept_iff ht).mpr fun _ e he p hp _ last hlast => ?_⟩
      have hid : e.executionId = ⟨"f"⟩ := by
        simp only [List.map_cons, List.map_nil, List.mem_cons, List.not_mem_nil, or_false] at he
        rcases he with rfl | rfl <;> rfl
      rw [hid] at hp hlast
      cases hp
      obtain rfl : tapeEvidence (some "v", some 5) = last :=
        Option.some.inj ((show _ = lastInforming _ _ _ by decide).trans hlast)
      simp only [List.map_cons, List.map_nil, List.mem_cons, List.not_mem_nil, or_false] at he
      rcases he with rfl | rfl <;> simp [tapeEvidence]

/-- Told the venue order and then the fee, the entry has the fee alone. -/
theorem told_in_turns_forgets :
    ¬ ∀ order inv event es t, isStructured event = true →
      prepareExecutionBatch order inv event es = .ok t → MetadataKept t := by
  intro h
  cases ht : tapeBatch [(some "v", none), (none, some 5)] with
  | error err =>
      have hok : (tapeBatch [(some "v", none), (none, some 5)]).toBool = true := by decide
      rw [ht] at hok
      cases hok
  | ok t =>
      have hk := h strangerRow tapeInventory _ _ t rfl ht
      obtain ⟨b⟩ := prepareExecutionBatch_parts ht
      have hfact : (tapeBatch [(some "v", none), (none, some 5)]).toOption.any (fun t =>
          (t.plannedEntries.get? ⟨"f"⟩).any (fun y => decide (y.venueOrderId = none)) &&
            t.outcomes.any fun o => decide (o.evidence.executionId = ⟨"f"⟩) && o.inventory.writes &&
              o.entryAfter.any fun x => decide (x.venueOrderId = some ⟨"v"⟩)) = true := by decide
      rw [ht] at hfact
      simp only [Except.toOption, Option.any_some, Bool.and_eq_true, List.any_eq_true,
        Option.any_eq_true, decide_eq_true_eq] at hfact
      obtain ⟨⟨y, hy, hnone⟩, o, ho, ⟨hid, hwrites⟩, x, hx, hv⟩ := hfact
      obtain ⟨z, hz, hc⟩ := hk.carried _ _ _ _ (apply_own b.prepared b.ledger b.generation) o ho
        hwrites x hx
      rw [MarketInventory.install_get, hid, hy, Option.some_or] at hz
      cases hz
      rw [hc.venue _ hv] at hnone
      cases hnone

end Omsrs.Execution
