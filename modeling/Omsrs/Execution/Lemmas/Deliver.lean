import Omsrs.Execution.Delivery
import Omsrs.Execution.Lemmas.Market
import Omsrs.Lib.Gather

/-!
# One evidence at a time

What is known of an execution is a report that its evidences are gathered in. A delivery compares its
evidence with the entry, and takes over what the entry was missing.
-/

namespace Omsrs.Execution
open Omsrs.Lib Omsrs.Lifecycle Omsrs.Observation

/-! ## Reports -/

/-- What an evidence says of its execution, and what an entry keeps of it. -/
structure Report where
  side : Side
  qty : Nat
  priceCents : Nat
  venueOrderId : Option VenueOrderId
  feeCents : Option Nat
deriving DecidableEq, Repr

namespace Report

def agrees (a b : Report) : Bool :=
  decide (a.side = b.side) &&
    !coreDisagreeQtyPriceVenue a.qty a.priceCents a.venueOrderId b.qty b.priceCents b.venueOrderId &&
    !feeConflict a.feeCents b.feeCents

def join (a b : Report) : Report :=
  { a with
    venueOrderId := fillIn a.venueOrderId b.venueOrderId
    feeCents := fillIn a.feeCents b.feeCents }

theorem agrees_iff {a b : Report} : a.agrees b = true ↔
    a.side = b.side ∧ a.qty = b.qty ∧ a.priceCents = b.priceCents ∧
      (∀ v w, a.venueOrderId = some v → b.venueOrderId = some w → v = w) ∧
      ∀ f g, a.feeCents = some f → b.feeCents = some g → f = g := by
  simp [agrees, feeConflict, coreDisagree_eq_false, bothUnequal_eq_false, and_assoc]

/-- Equal optional values where both are there, read through a join. -/
theorem fillIn_agrees {α : Type} {a b r : Option α} (h : ∀ x y, a = some x → b = some y → x = y) :
    (∀ x y, r = some x → fillIn a b = some y → x = y) ↔
      (∀ x y, r = some x → a = some y → x = y) ∧ ∀ x y, r = some x → b = some y → x = y := by
  cases a with
  | none => simp [fillIn]
  | some x =>
      cases b with
      | none => simp [fillIn]
      | some y =>
          obtain rfl := h x y rfl rfl
          simp [fillIn]

end Report

/-- The reports of one execution. -/
def reporting : Reporting Report where
  agrees := Report.agrees
  join := Report.join
  refl a := Report.agrees_iff.mpr ⟨rfl, rfl, rfl, by simp_all, by simp_all⟩
  symm h := by
    obtain ⟨hs, hq, hp, hv, hf⟩ := Report.agrees_iff.mp h
    exact Report.agrees_iff.mpr ⟨hs.symm, hq.symm, hp.symm, fun v w h h' => (hv w v h' h).symm,
      fun f g h h' => (hf g f h' h).symm⟩
  join_iff := by
    intro a b h r
    obtain ⟨hs, hq, hp, hv, hf⟩ := Report.agrees_iff.mp h
    simp only [Report.agrees_iff, Report.join, Report.fillIn_agrees hv, Report.fillIn_agrees hf]
    rw [← hs, ← hq, ← hp]
    tauto

def ExecutionEvidence.report (e : ExecutionEvidence) : Report :=
  ⟨e.side, e.qty, e.priceCents, e.venueOrderId, e.feeCents⟩

def InventoryEntry.report (p : InventoryEntry) : Report :=
  ⟨p.side, p.qty, p.priceCents, p.venueOrderId, p.feeCents⟩

/-- What the inventory knows of an execution. -/
def MarketInventory.view (inv : MarketInventory) (id : FillId) : Gathered Report :=
  ⟨(inv.get id).map (·.report), inv.conflicts.contains id⟩

/-! ## Booked payloads and entries -/

/-- The entry says what was booked of its execution. -/
structure Matches (p : InventoryEntry) (q : FillPayload) : Prop where
  qty : q.qty = p.qty
  price : q.priceCents = p.priceCents
  venue : ∀ v, q.venueOrderId = some v → p.venueOrderId = some v
  fee : ∀ f, q.fee = some f → p.feeCents = some f

theorem Matches.extends {p p' : InventoryEntry} {q : FillPayload} (h : Matches p q)
    (he : Extends p p') : Matches p' q :=
  ⟨h.qty.trans he.qty.symm, h.price.trans he.price.symm, fun v hv => he.venue v (h.venue v hv),
    fun f hf => he.fee f (h.fee f hf)⟩

variable {inv : MarketInventory} {e : ExecutionEvidence} {row : OrderRow}

/-- Where the entry says what was booked, only the entry can disagree. -/
theorem hits_eq_false {p : Option InventoryEntry} {q : Option FillPayload}
    (hm : ∀ q', q = some q' → ∃ p', p = some p' ∧ Matches p' q') :
    (coreHit e none p q = false ∧ feeHit e none p q = false) ↔
      ∀ p', p = some p' → e.report.agrees p'.report = true := by
  cases p with
  | none =>
      have hq : q = none := by
        cases q with
        | none => rfl
        | some q' =>
            obtain ⟨_, h, _⟩ := hm q' rfl
            cases h
      subst hq
      simp [coreHit, feeHit, anyPair, feeConflict, bothUnequal]
  | some p =>
      cases q with
      | none =>
          simp [coreHit, feeHit, anyPair, Report.agrees_iff, disagreesEntry, ExecutionEvidence.report,
            InventoryEntry.report, coreDisagree_eq_false, feeConflict, bothUnequal_eq_false, and_assoc]
      | some q =>
          obtain ⟨p', hp', h⟩ := hm q rfl
          obtain rfl := Option.some.inj hp'
          simp only [coreHit, feeHit, anyPair, Report.agrees_iff, disagreesEntry, disagreesApplied,
            entryDisagreesApplied, ExecutionEvidence.report, InventoryEntry.report,
            coreDisagree_eq_false, feeConflict, bothUnequal_eq_false, Option.any_some, Option.any_none,
            Bool.or_eq_false_iff, Bool.false_or, decide_eq_false_iff_not, not_not, Option.bind_some,
            Option.bind_none, Option.some.injEq, forall_eq', and_true]
          constructor
          · rintro ⟨⟨⟨⟨hs, hq, hp, hv⟩, _⟩, _⟩, hf⟩
            exact ⟨hs, hq, hp, hv, hf.1.1.1.1.2⟩
          · rintro ⟨hs, hq, hp, hv, hf⟩
            have hvq : ∀ x y, e.venueOrderId = some x → q.venueOrderId = some y → x = y :=
              fun x y hx hy => hv x y hx (h.venue y hy)
            have hfq : ∀ x y, e.feeCents = some x → q.fee = some y → x = y :=
              fun x y hx hy => hf x y hx (h.fee y hy)
            refine ⟨⟨⟨⟨hs, hq, hp, hv⟩, hq.trans h.qty.symm, hp.trans h.price.symm, hvq⟩,
              h.qty.symm, h.price.symm, fun x y hx hy => ?_⟩, ?_⟩
            · exact Option.some.inj (hx.symm.trans (h.venue y hy))
            · refine ⟨⟨⟨⟨⟨?_, hf⟩, hfq⟩, ?_⟩, ?_⟩, fun x y hx hy => ?_⟩
              · simp
              · simp
              · simp
              · exact Option.some.inj (hx.symm.trans (h.fee y hy))

/-! ## One judgement -/

/-- What one evidence does to the entry of its execution: the entry that is planned for it and the
conflict that is noted. -/
inductive Judgement (inv : MarketInventory) (e : ExecutionEvidence) (takes : Bool) :
    Option InventoryEntry → Option ConflictFact → Prop
  | ingest {entry : InventoryEntry} (hp : inv.get e.executionId = none)
      (hr : entry.report = e.report) : Judgement inv e takes (some entry) none
  | upgrade {p entry : InventoryEntry} (hp : inv.get e.executionId = some p)
      (ha : e.report.agrees p.report = true) (ht : takes = true)
      (hr : entry.report = p.report.join e.report) : Judgement inv e takes (some entry) none
  | known {p : InventoryEntry} (hp : inv.get e.executionId = some p)
      (ha : e.report.agrees p.report = true)
      (hj : takes = true → p.report.join e.report = p.report) : Judgement inv e takes none none
  | conflict {p : InventoryEntry} {fact : ConflictFact} (hp : inv.get e.executionId = some p)
      (ha : e.report.agrees p.report = false) (hid : fact.executionId = e.executionId) :
      Judgement inv e takes none (some fact)

/-- The plan of a judgement, as an outcome has it. -/
structure Judges (inv : MarketInventory) (e : ExecutionEvidence) (takes : Bool)
    (o : ExecutionOutcome) (entry : Option InventoryEntry) : Prop where
  judged : ∃ fact, Judgement inv e takes entry fact ∧ o.fact = fact.map fun c => (c.executionId, c)
  write : o.write = entry.map fun x => (e.executionId, x)

theorem fillIn_of_not_fillsIn {α : Type} {a b : Option α} (h : fillsIn a b = false) :
    fillIn a b = a := by
  cases a <;> cases b <;> simp_all [fillIn, fillsIn]

theorem norow_judges (inv : MarketInventory) (hq : e.qty ≠ 0) :
    ∃ o entry, adjudicateNorow inv e = (o, o.write.toList, o.fact.toList) ∧
      Judges inv e true o entry ∧ o.evidence = e ∧
      ∀ x, entry = some x → x.owner = (inv.get e.executionId).bind (·.owner) := by
  have hcore : ∀ p, coreDisagreesEntry e p = disagreesEntry e p := fun p => Bool.or_comm _ _
  have hagree : ∀ p, (e.report.agrees p.report = true ↔
      coreDisagreesEntry e p = false ∧ feeConflict e.feeCents p.feeCents = false) := by
    intro p
    rw [hcore, Report.agrees_iff]
    simp [disagreesEntry, ExecutionEvidence.report, InventoryEntry.report, coreDisagree_eq_false,
      feeConflict, bothUnequal_eq_false, and_assoc]
  unfold adjudicateNorow
  simp only [hq, if_false]
  cases hp : inv.get e.executionId with
  | none =>
      refine ⟨_, some _, rfl, ⟨⟨none, .ingest hp rfl, rfl⟩, rfl⟩, rfl, ?_⟩
      intro x hx
      obtain rfl := Option.some.inj hx
      rfl
  | some p =>
      dsimp only
      by_cases hc : coreDisagreesEntry e p = true
      · have ha : e.report.agrees p.report = false := by
          by_contra h
          have := (hagree p).mp (by simpa using h)
          rw [hc] at this
          cases this.1
        simp only [hc, if_true]
        exact ⟨_, none, rfl, ⟨⟨some _, .conflict hp ha rfl, rfl⟩, rfl⟩, rfl, fun _ hx => by cases hx⟩
      · by_cases hf : feeConflict e.feeCents p.feeCents = true
        · have ha : e.report.agrees p.report = false := by
            by_contra h
            have := (hagree p).mp (by simpa using h)
            rw [hf] at this
            cases this.2
          simp only [hc, hf, if_true, if_false, Bool.false_eq_true]
          exact ⟨_, none, rfl, ⟨⟨some _, .conflict hp ha rfl, rfl⟩, rfl⟩, rfl,
            fun _ hx => by cases hx⟩
        · have ha : e.report.agrees p.report = true :=
            (hagree p).mpr ⟨by simpa using hc, by simpa using hf⟩
          simp only [hc, hf, if_false, Bool.false_eq_true]
          split
          · refine ⟨_, some _, rfl, ⟨⟨none, .upgrade hp ha rfl rfl, rfl⟩, rfl⟩, rfl, ?_⟩
            intro x hx
            obtain rfl := Option.some.inj hx
            rfl
          · rename_i hup
            simp only [Bool.or_eq_true, not_or, Bool.not_eq_true] at hup
            refine ⟨_, none, rfl, ⟨⟨none, .known hp ha fun _ => ?_, rfl⟩, rfl⟩, rfl,
              fun _ hx => by cases hx⟩
            simp only [Report.join, InventoryEntry.report, ExecutionEvidence.report,
              fillIn_of_not_fillsIn hup.1.1, fillIn_of_not_fillsIn hup.1.2]

/-! ## A judgement for a row -/

/-- Whether the row's evidence is taken over into a known entry: not when it is of the other side. -/
def rowTakes (row : OrderRow) (inv : MarketInventory) (e : ExecutionEvidence) : Bool :=
  rowForeign row inv || decide (row.ctx.side = e.side)

/-- The inventory says what the order has booked of the execution, and no other order owns it. -/
structure Covers (row : OrderRow) (inv : MarketInventory) (id : FillId) : Prop where
  booked : ∀ q, row.ctx.appliedFills.get? id = some q → ∃ p, inv.get id = some p ∧ Matches p q
  owned : ∀ p o, inv.get id = some p → p.owner = some o → o = row.ctx.clientOrderId

/-- The verdicts on a single evidence of a row. -/
inductive Sole (row : OrderRow) (inv : MarketInventory) (e : ExecutionEvidence) :
    PreCore → Staging → Prop
  | conflict {od : OrderDisposition} {cl : ConflictClass} {ea : Option InventoryEntry}
      {p : InventoryEntry} {fact : ConflictFact} {σ : Staging}
      (hp : inv.get e.executionId = some p) (ha : e.report.agrees p.report = false)
      (hid : fact.executionId = e.executionId) :
      Sole row inv e (.refused od (.conflict cl) ea (some fact)) σ
  | refused {r : RefusalReason} {i : InventoryDisposition} {ea : Option InventoryEntry}
      {σ : Staging} {entry : Option InventoryEntry}
      (hj : Judgement inv e (rowTakes row inv e) entry none) (hi : i.needsJournal = i.writes)
      (he : (if i.writes then publishStaged σ e.executionId i ea else none) = entry)
      (ho : ∀ x, entry = some x → x.owner = (inv.get e.executionId).bind (·.owner)) :
      Sole row inv e (.refused (.refused r) i ea none) σ
  | admitted {s : StagedPayload} {σ : Staging} (hrow : rowForeign row inv = false)
      (hside : row.ctx.side = e.side) (hσ : σ.get? e.executionId = some s)
      (hfor : StagedFor row inv e s)
      (ha : ∀ p, inv.get e.executionId = some p → e.report.agrees p.report = true)
      (hs : (⟨s.side, s.qty, s.priceCents, s.venueOrderId, s.feeCents⟩ : Report) =
        ((inv.get e.executionId).map fun p => p.report.join e.report).getD e.report) :
      Sole row inv e (.admitted s) σ

variable {σ : Staging}

theorem adjudicateForeign_sole (hrow : rowForeign row inv = true) (hq : e.qty ≠ 0)
    (r : RefusalReason) :
    Sole row inv e (adjudicateForeign r inv .empty e).1 (adjudicateForeign r inv .empty e).2 := by
  have htakes : rowTakes row inv e = true := by simp [rowTakes, hrow]
  have hhit := hits_eq_false (e := e) (p := inv.get e.executionId) (q := none) (by simp)
  unfold adjudicateForeign
  simp only [hq, if_false, OrdMap.get?_empty]
  by_cases hag : ∀ p', inv.get e.executionId = some p' → e.report.agrees p'.report = true
  · obtain ⟨hc, hf⟩ := hhit.mpr hag
    simp only [hc, hf, if_false, Bool.false_eq_true]
    cases hp : inv.get e.executionId with
    | none =>
        have hrep : ((stageEvidence e none none).toEntry none .rowForeign).report = e.report := by
          simp [stageEvidence, StagedPayload.toEntry, InventoryEntry.report, ExecutionEvidence.report]
        refine Sole.refused (.ingest hp hrep) rfl ?_ ?_
        · simp [InventoryDisposition.writes, publishStaged, StagedPayload.toEntry]
        · intro x hx
          obtain rfl := Option.some.inj hx
          simp [StagedPayload.toEntry, hp]
    | some p =>
        dsimp only
        split
        · refine Sole.refused (.upgrade hp (hag p hp) htakes ?_) rfl rfl ?_
          · rfl
          · intro x hx
            obtain rfl := Option.some.inj hx
            simp [hp]
        · rename_i hup
          simp only [Bool.or_eq_true, not_or, Bool.not_eq_true] at hup
          refine Sole.refused (.known hp (hag p hp) fun _ => ?_) rfl rfl
            (fun _ hx => by cases hx)
          simp only [Report.join, InventoryEntry.report, ExecutionEvidence.report,
            fillIn_of_not_fillsIn hup.1, fillIn_of_not_fillsIn hup.2]
  · have hno := fun h => hag (hhit.mp h)
    simp only [not_forall] at hag
    obtain ⟨p, hp, ha⟩ := hag
    have ha' : e.report.agrees p.report = false := by simpa using ha
    by_cases hc : coreHit e none (inv.get e.executionId) none = true
    · simp only [hc, if_true]
      exact .conflict hp ha' rfl
    · by_cases hf : feeHit e none (inv.get e.executionId) none = true
      · simp only [hc, hf, if_true, if_false, Bool.false_eq_true]
        exact .conflict hp ha' rfl
      · exact absurd ⟨by simpa using hc, by simpa using hf⟩ hno

theorem otherOwner_none (hc : Covers row inv e.executionId) :
    otherOwner row.ctx.clientOrderId (inv.get e.executionId) = none := by
  cases hp : inv.get e.executionId with
  | none => rfl
  | some p =>
      cases ho : p.owner with
      | none => simp [otherOwner, ho]
      | some o => simp [otherOwner, ho, hc.owned p o hp ho]

/-- What is staged of an admitted evidence is the join with what the inventory knows. -/
theorem stageEvidence_report (hc : Covers row inv e.executionId)
    (ha : ∀ p, inv.get e.executionId = some p → e.report.agrees p.report = true) :
    (⟨e.side, e.qty, e.priceCents,
        (stageEvidence e (inv.get e.executionId)
          (row.ctx.appliedFills.get? e.executionId)).venueOrderId,
        (stageEvidence e (inv.get e.executionId)
          (row.ctx.appliedFills.get? e.executionId)).feeCents⟩ : Report) =
      ((inv.get e.executionId).map fun p => p.report.join e.report).getD e.report := by
  cases hp : inv.get e.executionId with
  | none =>
      cases hq : row.ctx.appliedFills.get? e.executionId with
      | none => simp [stageEvidence, ExecutionEvidence.report]
      | some q =>
          obtain ⟨p, h, _⟩ := hc.booked q hq
          rw [hp] at h
          cases h
  | some p =>
      obtain ⟨hs, hqty, hpr, _, _⟩ := Report.agrees_iff.mp (ha p hp)
      simp only [ExecutionEvidence.report, InventoryEntry.report] at hs hqty hpr
      have hbooked : ∀ q, row.ctx.appliedFills.get? e.executionId = some q → Matches p q := by
        intro q hq
        obtain ⟨p', h, hm⟩ := hc.booked q hq
        obtain rfl := Option.some.inj (hp.symm.trans h)
        exact hm
      have hvenue : (p.venueOrderId.or ((row.ctx.appliedFills.get? e.executionId).bind
          (·.venueOrderId))) = p.venueOrderId := by
        cases hv : p.venueOrderId with
        | some v => rfl
        | none =>
            cases hq : row.ctx.appliedFills.get? e.executionId with
            | none => rfl
            | some q =>
                cases hqv : q.venueOrderId with
                | none => simp [hqv]
                | some v =>
                    have := (hbooked q hq).venue v hqv
                    rw [hv] at this
                    cases this
      have hfee : (p.feeCents.or ((row.ctx.appliedFills.get? e.executionId).bind (·.fee))) =
          p.feeCents := by
        cases hv : p.feeCents with
        | some v => rfl
        | none =>
            cases hq : row.ctx.appliedFills.get? e.executionId with
            | none => rfl
            | some q =>
                cases hqv : q.fee with
                | none => simp [hqv]
                | some v =>
                    have := (hbooked q hq).fee v hqv
                    rw [hv] at this
                    cases this
      simp only [stageEvidence, Option.bind_some, Option.map_some, Option.getD_some, Report.join,
        InventoryEntry.report, ExecutionEvidence.report, fillIn, hvenue, hfee, hs, hqty, hpr]

theorem adjudicate_sole (hq : e.qty ≠ 0) (hc : Covers row inv e.executionId) :
    ∃ pc σ, adjudicate row inv [e] = ([(e, pc)], σ) ∧ Sole row inv e pc σ := by
  unfold adjudicate
  by_cases hrow : rowForeign row inv = true
  · simp only [hrow, if_true, adjudicateAll]
    exact ⟨_, _, rfl, adjudicateForeign_sole hrow hq _⟩
  have hrow' : rowForeign row inv = false := by simpa using hrow
  simp only [hrow, if_false, Bool.false_eq_true, adjudicateAll]
  have hhit := hits_eq_false (e := e) hc.booked
  by_cases hag : ∀ p', inv.get e.executionId = some p' → e.report.agrees p'.report = true
  · obtain ⟨hch, hfh⟩ := hhit.mpr hag
    have hadj : adjudicateRow row inv .empty e =
        (.admitted (stageEvidence e (inv.get e.executionId)
            (row.ctx.appliedFills.get? e.executionId)),
          OrdMap.empty.insert e.executionId (stageEvidence e (inv.get e.executionId)
            (row.ctx.appliedFills.get? e.executionId))) := by
      simp only [adjudicateRow, hq, OrdMap.get?_empty, hch, hfh, otherOwner_none hc, if_false,
        Bool.false_eq_true]
    have hrep := stageEvidence_report hc hag
    have hfor := stageEvidence_stagedFor hch (otherOwner_none hc) hfh
    rw [hadj]
    generalize hst : stageEvidence e (inv.get e.executionId)
      (row.ctx.appliedFills.get? e.executionId) = st at *
    by_cases hside : row.ctx.side = e.side
    · simp only [crossCheckSide, hside, ne_eq, not_true_eq_false, if_false]
      refine ⟨_, _, rfl, .admitted hrow' hside (OrdMap.get?_insert_self _ _ _) hfor hag ?_⟩
      rw [← hrep, hfor.side, hfor.qty, hfor.price]
    · have htakes : rowTakes row inv e = false := by simp [rowTakes, hrow', hside]
      cases hp : inv.get e.executionId with
      | some p =>
          simp only [crossCheckSide, hside, ne_eq, not_false_eq_true, if_true, hp]
          refine ⟨_, _, rfl, ?_⟩
          refine Sole.refused (.known hp (hag p hp) ?_) rfl rfl
            (fun _ hx => by cases hx)
          rw [htakes]
          exact fun h => by cases h
      | none =>
          simp only [crossCheckSide, hside, ne_eq, not_false_eq_true, if_true, hp,
            OrdMap.get?_insert_self]
          refine ⟨_, _, rfl, ?_⟩
          refine Sole.refused (.ingest hp ?_) rfl rfl ?_
          · have := hrep
            simp only [hp, Option.map_none, Option.getD_none] at this
            rw [← this]
            simp only [StagedPayload.toEntry, InventoryEntry.report, hfor.side, hfor.qty, hfor.price]
          · intro x hx
            obtain rfl := Option.some.inj hx
            simp [StagedPayload.toEntry, hp]
  · have hno := fun h => hag (hhit.mp h)
    simp only [not_forall] at hag
    obtain ⟨p, hp, ha⟩ := hag
    have ha' : e.report.agrees p.report = false := by simpa using ha
    by_cases hch : coreHit e none (inv.get e.executionId)
        (row.ctx.appliedFills.get? e.executionId) = true
    · simp only [adjudicateRow, hq, OrdMap.get?_empty, hch, if_true, if_false, crossCheckSide,
        refuseConflict]
      exact ⟨_, _, rfl, .conflict hp ha' rfl⟩
    · by_cases hfh : feeHit e none (inv.get e.executionId)
          (row.ctx.appliedFills.get? e.executionId) = true
      · simp only [adjudicateRow, hq, OrdMap.get?_empty, hch, hfh, if_true, if_false,
          Bool.false_eq_true, otherOwner_none hc, crossCheckSide, refuseConflict]
        exact ⟨_, _, rfl, .conflict hp ha' rfl⟩
      · exact absurd ⟨by simpa using hch, by simpa using hfh⟩ hno

/-! ## What a sole verdict leaves -/

variable {pc : PreCore} {entry : Option InventoryEntry} {fact : Option ConflictFact} {takes : Bool}

/-- What is known of the execution with this evidence taken over. -/
def joined (inv : MarketInventory) (e : ExecutionEvidence) : Report :=
  ((inv.get e.executionId).map fun p => p.report.join e.report).getD e.report

theorem Judgement.joined (h : Judgement inv e true entry none) :
    ∃ p, entry.or (inv.get e.executionId) = some p ∧ p.report = joined inv e := by
  cases h with
  | ingest hp hr => exact ⟨_, rfl, by simp [Execution.joined, hp, hr]⟩
  | upgrade hp _ _ hr => exact ⟨_, rfl, by simp [Execution.joined, hp, hr]⟩
  | known hp _ hj => exact ⟨_, by rw [Option.none_or, hp], by simp [Execution.joined, hp, hj rfl]⟩

/-- An entry that was completed still says what was booked. -/
theorem Judgement.matches {q : FillPayload} (h : Judgement inv e takes entry fact)
    (hm : ∃ p, inv.get e.executionId = some p ∧ Matches p q) :
    ∃ p, entry.or (inv.get e.executionId) = some p ∧ Matches p q := by
  obtain ⟨p, hp, hm⟩ := hm
  cases h with
  | ingest hn _ =>
      rw [hp] at hn
      cases hn
  | @upgrade p' entry hp' _ _ hr =>
      obtain rfl := Option.some.inj (hp.symm.trans hp')
      simp only [InventoryEntry.report, Report.join, Report.mk.injEq] at hr
      obtain ⟨_, hqty, hpr, hv, hf⟩ := hr
      refine ⟨_, rfl, hm.qty.trans hqty.symm, hm.price.trans hpr.symm, fun v hqv => ?_,
        fun f hqf => ?_⟩
      · rw [hv]
        exact fillIn_eq_some (hm.venue v hqv)
      · rw [hf]
        exact fillIn_eq_some (hm.fee f hqf)
  | known _ _ _ => exact ⟨p, hp, hm⟩
  | conflict _ _ _ => exact ⟨p, hp, hm⟩

theorem fillIn_fillIn {α : Type} (a b : Option α) : fillIn a (fillIn a b) = fillIn a b := by
  cases a <;> rfl

/-- The plan of a sole verdict, whatever the core answers. -/
theorem Sole.judges (h : Sole row inv e pc σ) (core : Option (TransitionOutcome × OrderCtx)) :
    ∃ entry, Judges inv e (rowTakes row inv e) (settle (batchSettlement row inv σ core) (e, pc)).1
        entry ∧
      ∀ x, entry = some x → x.owner = (inv.get e.executionId).bind (·.owner) ∨
        x.owner = some row.ctx.clientOrderId ∨ x.owner = none := by
  cases h with
  | conflict hp ha hid =>
      exact ⟨none, ⟨⟨some _, .conflict hp ha hid, rfl⟩, rfl⟩, fun _ hx => (nomatch hx)⟩
  | @refused r i ea _ entry hj hi he ho =>
      refine ⟨entry, ⟨⟨none, hj, rfl⟩, ?_⟩, fun x hx => .inl (ho x hx)⟩
      rw [← he]
      cases hw : i.writes <;> simp [settle, batchSettlement, ExecutionOutcome.write, hw]
  | @admitted s _ hrow hside hσ hfor ha hs =>
      have htakes : rowTakes row inv e = true := by simp [rowTakes, hside]
      simp only [settle, settleAdmitted, batchSettlement, hσ, Option.getD_some, htakes]
      cases hp : inv.get e.executionId with
      | none =>
          refine ⟨some _, ⟨⟨none, .ingest hp ?_, rfl⟩, rfl⟩, ?_⟩
          · simp only [hp, Option.map_none, Option.getD_none] at hs
            rw [← hs]
            rfl
          · intro x hx
            obtain rfl := Option.some.inj hx
            simp only [ownerFor]
            split
            · exact .inr (.inr rfl)
            · split
              · exact .inr (.inl rfl)
              · exact .inr (.inr rfl)
      | some p =>
          simp only [hp, Option.map_some, Option.getD_some, Report.join, InventoryEntry.report,
            Report.mk.injEq] at hs
          obtain ⟨hside', hqty, hpr, hv, hf⟩ := hs
          dsimp only
          split
          · refine ⟨some _, ⟨⟨none, .upgrade hp (ha p hp) rfl ?_, rfl⟩, rfl⟩, ?_⟩
            · simp only [InventoryEntry.report, Report.join, hv, hf, fillIn_fillIn]
            · intro x hx
              obtain rfl := Option.some.inj hx
              exact (ite_eq_or_eq _ _ _).elim (fun h => .inr (.inl h)) .inl
          · rename_i hup
            simp only [Bool.or_eq_true, not_or, Bool.not_eq_true] at hup
            refine ⟨none, ⟨⟨none, .known hp (ha p hp) fun _ => ?_, rfl⟩, rfl⟩,
              fun _ hx => (nomatch hx)⟩
            have h₁ := fillIn_of_not_fillsIn hup.1.2
            have h₂ := fillIn_of_not_fillsIn hup.2
            rw [hv, fillIn_fillIn] at h₁
            rw [hf, fillIn_fillIn] at h₂
            simp only [InventoryEntry.report, Report.join, h₁, h₂]

/-- The context after the core: only an admitted evidence reaches it. -/
theorem Sole.core (h : Sole row inv e pc σ) (f : FillRecord) :
    ((batchCore row inv (.fill f) [(e, pc)] σ).map (·.2)).getD row.ctx = row.ctx ∨
      ∃ s, pc = .admitted s ∧
        ((batchCore row inv (.fill f) [(e, pc)] σ).map (·.2)).getD row.ctx =
          (applyEvent row.state row.ctx (.fill (s.asFillRecord e.executionId))).2 := by
  have hrefused : ∀ od i ea cf, pc = .refused od i ea cf →
      ((batchCore row inv (.fill f) [(e, pc)] σ).map (·.2)).getD row.ctx = row.ctx := by
    rintro od i ea cf rfl
    simp only [batchCore, admittedFills, List.filterMap_cons, List.filterMap_nil, isStructured,
      List.isEmpty_nil, Bool.not_true, Bool.or_self, Bool.false_eq_true, if_false]
    split
    · rfl
    · split
      · split <;> rfl
      · rfl
  cases h with
  | conflict _ _ _ => exact .inl (hrefused _ _ _ _ rfl)
  | refused _ _ _ _ => exact .inl (hrefused _ _ _ _ rfl)
  | @admitted s _ hrow hside hσ hfor ha hs =>
      refine .inr ⟨s, rfl, ?_⟩
      simp [batchCore, hrow, allSideMismatch, PreCore.isSideMismatch, admittedFills, hσ,
        rebuildEventWithFills]

/-- What the core books of an admitted evidence is what the entry says then. -/
theorem Sole.admitted_matches {s : StagedPayload} (h : Sole row inv e (.admitted s) σ)
    (hc : Covers row inv e.executionId) (hj : Judgement inv e (rowTakes row inv e) entry fact)
    {q : FillPayload}
    (hq : (applyEvent row.state row.ctx
      (.fill (s.asFillRecord e.executionId))).2.appliedFills.get? e.executionId = some q) :
    ∃ p, entry.or (inv.get e.executionId) = some p ∧ Matches p q := by
  cases h with
  | admitted hrow hside hσ hfor ha hs =>
      have htakes : rowTakes row inv e = true := by simp [rowTakes, hside]
      rcases (applyEvent_takes row.state row.ctx (.fill (s.asFillRecord e.executionId))).fills
          e.executionId with hold | ⟨g, p', hg, _, hp', hcar⟩
      · exact hj.matches (hc.booked q (hold ▸ hq))
      · simp only [OrderEvent.fills, List.mem_singleton] at hg
        subst hg
        obtain rfl := Option.some.inj (hq.symm.trans hp')
        have hnone : fact = none := by
          cases hj with
          | conflict hp hd _ =>
              rw [ha _ hp] at hd
              cases hd
          | _ => rfl
        subst hnone
        rw [htakes] at hj
        obtain ⟨p, hp, hrep⟩ := hj.joined
        have hsp : (⟨s.side, s.qty, s.priceCents, s.venueOrderId, s.feeCents⟩ : Report) = p.report :=
          hs.trans hrep.symm
        simp only [InventoryEntry.report, Report.mk.injEq] at hsp
        obtain ⟨_, hqty, hpr, hv, hf⟩ := hsp
        exact ⟨p, hp, hcar.qty.trans hqty, hcar.price.trans hpr,
          fun v hqv => hv ▸ (hcar.venue.symm.trans hqv), fun f hqf => hf ▸ (hcar.fee.symm.trans hqf)⟩

/-! ## Installing a judgement -/

variable {o : ExecutionOutcome} {t : ExecutionTransaction}

/-- A transaction of one outcome. -/
structure Plans (o : ExecutionOutcome) (t : ExecutionTransaction) : Prop where
  entries : t.plannedEntries = OrdMap.empty.insertAll o.write.toList
  conflicts : t.plannedConflicts = OrdMap.empty.insertAll o.fact.toList

theorem Judges.get (h : Judges inv e takes o entry) (ht : Plans o t) (id : FillId) :
    (inv.install t.plannedEntries t.plannedConflicts).get id =
      if id = e.executionId then entry.or (inv.get id) else inv.get id := by
  rw [MarketInventory.install_get, ht.entries, h.write]
  cases entry with
  | none => simp
  | some x =>
      simp only [Option.map_some, Option.toList_some, OrdMap.insertAll_cons, OrdMap.insertAll_nil,
        OrdMap.get?_insert, OrdMap.get?_empty]
      split_ifs <;> simp

/-- The inventory gathers the report of the evidence. -/
theorem Judges.view (h : Judges inv e takes o entry) (ht : Plans o t) (id : FillId) :
    (inv.install t.plannedEntries t.plannedConflicts).view id =
      if id = e.executionId then
        reporting.gather ExecutionEvidence.report (fun _ => takes) (inv.view id) e
      else inv.view id := by
  obtain ⟨fact, hj, hfact⟩ := h.judged
  have hcon : (inv.install t.plannedEntries t.plannedConflicts).conflicts.contains id =
      ((fact.any fun c => decide (id = c.executionId)) || inv.conflicts.contains id) := by
    rw [MarketInventory.install_conflicts, ht.conflicts, hfact, OrdMap.insertAll_gathered]
    cases fact with
    | none => simp
    | some c =>
        simp only [Option.map_some, Option.toList_some, OrdMap.insertAll_cons, OrdMap.insertAll_nil,
          OrdMap.contains, OrdMap.get?_insert, Option.any_some]
        split_ifs with hid <;> simp [hid]
  simp only [MarketInventory.view, hcon, h.get ht]
  by_cases hid : id = e.executionId
  · subst hid
    simp only [if_true]
    cases hj with
    | ingest hp hr => simp [Reporting.gather, hp, hr]
    | upgrade hp ha hk hr => simp [Reporting.gather, reporting, hp, ha, hk, hr]
    | known hp ha hk =>
        cases takes with
        | false => simp [Reporting.gather, reporting, hp, ha]
        | true => simp [Reporting.gather, reporting, hp, ha, hk rfl]
    | conflict hp ha hc => simp [Reporting.gather, reporting, hp, ha, hc]
  · simp only [hid, if_false]
    cases hj with
    | conflict hp ha hc =>
        have hne : id ≠ _ := fun h => hid (h.trans hc)
        simp [hne]
    | _ => simp

/-! ## One delivery -/

theorem advance_ledger (after : Option OrderAfter) : (row.advance after).ledger = row.ledger := by
  cases after <;> rfl

/-- The order's part of a transaction leaves the context of the core, and takes at most one sequence
number. -/
theorem orderPart_ok (h : row.cursor.seq < u64Max) (event : OrderEvent)
    (core : Option (TransitionOutcome × OrderCtx)) :
    ∃ part, orderPart row event core = .ok part ∧
      (row.advance (part.map (·.2))).ctx = (core.map (·.2)).getD row.ctx ∧
      (row.advance (part.map (·.2))).cursor.seq ≤ row.cursor.seq + 1 := by
  have hnext : row.cursor.next = .ok (row.cursor.seq + 1) := by
    simp only [OrderCursor.next, checkedAdd_eq_some.mpr ⟨(show row.cursor.seq + 1 ≤ u64Max from h), rfl⟩]
  cases core with
  | none => exact ⟨none, rfl, rfl, Nat.le_succ _⟩
  | some c =>
      obtain ⟨tr, ctx⟩ := c
      simp only [orderPart, hnext, bind, Except.bind]
      split
      · exact ⟨some _, rfl, rfl, le_rfl⟩
      · rename_i hch
        refine ⟨none, rfl, ?_, Nat.le_succ _⟩
        simp only [orderChanged, Bool.not_eq_true, Bool.or_eq_false_iff,
          decide_eq_false_iff_not, not_not] at hch
        exact hch.1.1.1.2.symm

/-- What a delivery leaves: the plan of a judgement installed, and the row that comes of it. -/
structure Delivered (s : Holding) (d : Delivery) (takes : Bool) (s' : Holding) : Prop where
  installed : ∃ o entry t, Judges s.inventory d.evidence takes o entry ∧ Plans o t ∧
    s'.inventory = s.inventory.install t.plannedEntries t.plannedConflicts ∧
    (∀ x, entry = some x → x.owner = (s.inventory.get d.evidence.executionId).bind (·.owner) ∨
      x.owner = some s.row.ctx.clientOrderId ∨ x.owner = none) ∧
    ∀ q, s'.row.ctx.appliedFills.get? d.evidence.executionId = some q →
      ∃ p, entry.or (s.inventory.get d.evidence.executionId) = some p ∧ Matches p q
  intake : TakesIn (·.fillId = d.evidence.executionId) s.row.ctx s'.row.ctx
  ledger : s'.row.ledger = s.row.ledger
  seq : s'.row.cursor.seq ≤ s.row.cursor.seq + 1

theorem deliver_norow {s : Holding} (hl : evidenceLedger e = s.inventory.ledger) (hq : e.qty ≠ 0)
    (hc : Covers s.row s.inventory e.executionId) :
    (deliver s ⟨false, e⟩).1 = .taken ∧ Delivered s ⟨false, e⟩ true (deliver s ⟨false, e⟩).2 := by
  obtain ⟨o, entry, ho, hj, he, how⟩ := norow_judges s.inventory hq
  have hprep : ∃ t, prepareExecutionNorow s.inventory e = .ok t ∧ Plans o t ∧
      t.preparedOrder = none ∧ t.preparedInventoryLedger = s.inventory.ledger ∧
      t.expectedGeneration = s.inventory.generation := by
    simp only [prepareExecutionNorow, hl, ne_eq, not_true_eq_false, if_false, ho]
    exact ⟨_, rfl, ⟨rfl, rfl⟩, rfl, rfl, rfl⟩
  obtain ⟨t, ht, hplan, hnone, hled, hgen⟩ := hprep
  have hdel : deliver s ⟨false, e⟩ =
      (.taken, ⟨s.row, s.inventory.install t.plannedEntries t.plannedConflicts⟩) := by
    simp only [deliver, Delivery.target, prepareExecution, Bool.false_eq_true, if_false, ht,
      apply_own hnone hled hgen]
    rfl
  rw [hdel]
  obtain ⟨fact, hjud, _⟩ := hj.judged
  refine ⟨rfl, ⟨o, entry, t, hj, hplan, rfl, fun x hx => .inl (how x hx), ?_⟩, .refl _, rfl,
    Nat.le_succ _⟩
  exact fun q hqq => hjud.matches (hc.booked q hqq)

theorem deliver_row {s : Holding} (hl : evidenceLedger e = s.inventory.ledger) (hq : e.qty ≠ 0)
    (hc : Covers s.row s.inventory e.executionId) (hseq : s.row.cursor.seq < u64Max) :
    (deliver s ⟨true, e⟩).1 = .taken ∧
      Delivered s ⟨true, e⟩ (rowTakes s.row s.inventory e) (deliver s ⟨true, e⟩).2 := by
  obtain ⟨pc, σ, hadj, hsole⟩ := adjudicate_sole hq hc
  let f : FillRecord := ⟨e.executionId, e.qty, e.priceCents, e.tsNs, e.venueOrderId, e.feeCents⟩
  obtain ⟨part, hpart, hctx, hnext⟩ := orderPart_ok hseq (.fill f)
    (batchCore s.row s.inventory (.fill f) [(e, pc)] σ)
  have hmatch : checkEvidenceMatchesFills (OrderEvent.fill f).fills [e] = .ok () := by
    have hmm : ∀ {α : Type} [DecidableEq α] (field : String) (sh : α → String) (a : Option α),
        optionMismatch field sh a a = none := by
      intro α _ field sh a
      cases a <;> simp [optionMismatch]
    simp [checkEvidenceMatchesFills, OrderEvent.fills, checkPositions, evidenceMismatch, hmm, f]
  have hledger : checkBatchLedger s.inventory [e] = .ok () := by simp [checkBatchLedger, hl]
  obtain ⟨t, ht⟩ : ∃ t, prepareExecutionBatch s.row s.inventory (.fill f) [e] = .ok t := by
    simp only [prepareExecutionBatch, hmatch, hledger, hadj, hpart, bind, Except.bind]
    exact ⟨_, rfl⟩
  obtain ⟨b⟩ := prepareExecutionBatch_parts ht
  have hcore : b.core = batchCore s.row s.inventory (.fill f) [(e, pc)] σ := by
    rw [b.core_eq, hadj]
  have hpart' : b.part = part := by
    have := b.part_eq
    rw [hcore, hpart] at this
    exact (Except.ok.inj this).symm
  obtain ⟨entry, hj, how⟩ := hsole.judges b.core
  have hout : t.outcomes =
      [(settle (batchSettlement s.row s.inventory σ b.core) (e, pc)).1] := by
    rw [b.outcomes, hadj]
    rfl
  have hplan : Plans (settle (batchSettlement s.row s.inventory σ b.core) (e, pc)).1 t := by
    refine ⟨?_, ?_⟩
    · rw [b.entries, hout, toList_eq_filterMap ExecutionOutcome.write]
    · rw [b.conflicts, hout, toList_eq_filterMap ExecutionOutcome.fact]
  have hdel : deliver s ⟨true, e⟩ = (.taken, ⟨s.row.advance t.after,
      s.inventory.install t.plannedEntries t.plannedConflicts⟩) := by
    simp only [deliver, Delivery.target, prepareExecution, if_true]
    rw [show prepareExecutionBatch s.row s.inventory (.fill ⟨e.executionId, e.qty, e.priceCents,
      e.tsNs, e.venueOrderId, e.feeCents⟩) [e] = .ok t from ht]
    simp only [apply_own b.prepared b.ledger b.generation]
    rfl
  have hafter : t.after = part.map (·.2) := by rw [b.after, hpart']
  rw [hdel, hafter]
  obtain ⟨fact, hjud, _⟩ := hj.judged
  refine ⟨rfl, ⟨_, entry, t, hj, hplan, rfl, how, ?_⟩, ?_, advance_ledger _, hnext⟩
  · intro q hqq
    dsimp only at hqq ⊢
    rw [hctx] at hqq
    rcases hsole.core f with hsame | ⟨s', rfl, happ⟩
    · rw [hsame] at hqq
      exact hjud.matches (hc.booked q hqq)
    · rw [happ] at hqq
      exact hsole.admitted_matches hc hjud hqq
  · dsimp only
    rw [hctx]
    rcases hsole.core f with hsame | ⟨s', _, happ⟩
    · rw [hsame]
      exact .refl _
    · rw [happ]
      refine (applyEvent_takes _ _ _).mono fun g hg => ?_
      simp only [OrderEvent.fills, List.mem_singleton] at hg
      rw [hg]
      rfl

end Omsrs.Execution
