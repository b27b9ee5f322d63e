import Omsrs.Execution.Lemmas.Hearing
import Omsrs.Execution.Theorems.Metadata
import Omsrs.Lifecycle.Lemmas.Reasons

/-!
# A repeated element of a batch

A second copy of a fill and its evidence, anywhere after the first one, leaves the staging and the core's
event as they were. It is noticed where the batch was all of the other side and the row would have halted
for that, where a foreign row completes an entry from it once more, and where it takes the place of a
later conflict on record.
-/

namespace Omsrs.Execution
open Omsrs.Lib Omsrs.Lifecycle Omsrs.Observation

variable {order : OrderRow} {inv : MarketInventory} {e : ExecutionEvidence} {f : FillRecord}
  {event event' : OrderEvent} {σ : Staging} {t t' : ExecutionTransaction} {k : Nat}
  {l r before mid post es : List ExecutionEvidence} {A B : List (ExecutionEvidence × PreCore)}
  {pc : PreCore}

/-! ## The copy in an event -/

/-- `event'` has one more fill than `event`, at the position `k` of all its fills. -/
inductive Inserts (f : FillRecord) : Nat → OrderEvent → OrderEvent → Prop
  | immediate (l r : List FillRecord) :
      Inserts f l.length (.immediateFillBackfillResult (l ++ r)) (.immediateFillBackfillResult (l ++ f :: r))
  | unknown (exhaustive : Bool) (records later : List BackfillOrderRecord) (m : BackfillOrderRecord)
      (l r : List FillRecord) (h : m.fills = l ++ r) :
      Inserts f ((records.flatMap (·.fills)).length + l.length)
        (.unknownBackfillResult exhaustive (records ++ m :: later))
        (.unknownBackfillResult exhaustive (records ++ { m with fills := l ++ f :: r } :: later))
  | reconcile (status : BackfillOrderStatus) (v : Option VenueOrderId) (filled remaining : Nat)
      (l r : List FillRecord) (complete : Bool) :
      Inserts f l.length (.reconcileResult status v filled remaining (l ++ r) complete)
        (.reconcileResult status v filled remaining (l ++ f :: r) complete)

theorem Inserts.fills (h : Inserts f k event event') :
    ∃ l r, event.fills = l ++ r ∧ event'.fills = l ++ f :: r ∧ l.length = k := by
  cases h with
  | immediate l r => exact ⟨l, r, rfl, rfl, rfl⟩
  | reconcile status v filled remaining l r complete => exact ⟨l, r, rfl, rfl, rfl⟩
  | unknown exhaustive records later m l r h =>
      refine ⟨records.flatMap (·.fills) ++ l, r ++ later.flatMap (·.fills), ?_, ?_, ?_⟩
      · simp [OrderEvent.fills, h]
      · simp [OrderEvent.fills]
      · simp

theorem Inserts.structured (h : Inserts f k event event') : isStructured event' = isStructured event := by
  cases h <;> rfl

theorem Inserts.isStructured (h : Inserts f k event event') : isStructured event = true := by
  cases h <;> rfl

theorem Inserts.name (h : Inserts f k event event') : eventName event' = eventName event := by
  cases h <;> rfl

/-- Where the position `i` went. -/
def shifted (k i : Nat) : Nat := if i < k then i else i + 1

theorem placeOf_shifted (i : Nat) (records later : List BackfillOrderRecord) (m : BackfillOrderRecord)
    (l r : List FillRecord) (h : m.fills = l ++ r) :
    placeOf (shifted ((records.flatMap (·.fills)).length + l.length) i)
        (records ++ { m with fills := l ++ f :: r } :: later) =
      placeOf i (records ++ m :: later) := by
  induction records generalizing i with
  | nil =>
      have hlen : m.fills.length = l.length + r.length := by rw [h, List.length_append]
      cases later with
      | nil => rfl
      | cons m' later =>
          simp only [List.nil_append, placeOf, List.flatMap_nil, List.length_nil, Nat.zero_add,
            List.length_append, List.length_cons, hlen, shifted]
          split
          · rw [if_pos (by omega), if_pos (by omega)]
          · by_cases hi : i < l.length + r.length
            · rw [if_pos (by omega), if_pos hi]
            · rw [if_neg (by omega), if_neg hi]
              congr 2
              omega
  | cons m' records ih =>
      have hne : ∀ x : BackfillOrderRecord, ∃ y ys, records ++ x :: later = y :: ys := by
        intro x
        cases records with
        | nil => exact ⟨x, later, rfl⟩
        | cons y ys => exact ⟨y, ys ++ x :: later, rfl⟩
      have hplace : ∀ (j : Nat) (x : BackfillOrderRecord), placeOf j (m' :: (records ++ x :: later)) =
          if j < m'.fills.length then 0 else placeOf (j - m'.fills.length) (records ++ x :: later) + 1 := by
        intro j x
        obtain ⟨y, ys, hy⟩ := hne x
        rw [hy]
        rfl
      simp only [List.cons_append, hplace, List.flatMap_cons, List.length_append]
      by_cases hi : i < m'.fills.length
      · rw [if_pos hi, if_pos (by unfold shifted; split <;> omega)]
      · rw [if_neg hi, if_neg (by unfold shifted; split <;> omega), ← ih (i - m'.fills.length)]
        congr 2
        unfold shifted
        split <;> split <;> omega

/-- The core gets the same event, when the copy is not admitted. -/
theorem Inserts.rebuild (h : Inserts f k event event') (admitted : List (FillId × StagedPayload))
    (positions : List Nat) :
    rebuildEventWithFills event' admitted (positions.map (shifted k)) =
      rebuildEventWithFills event admitted positions := by
  cases h with
  | immediate l r => rfl
  | reconcile status v filled remaining l r complete => rfl
  | unknown exhaustive records later m l r h =>
      simp only [rebuildEventWithFills, List.zip_map_left, List.map_map, Function.comp_def,
        Prod.map, placeOf_shifted _ records later m l r h, id]
      congr 1
      simp [List.zipIdx_append, List.zipIdx_cons]

/-! ## The checks -/

theorem checkPositions_ok (i : Nat) (fs : List FillRecord) (es : List ExecutionEvidence) :
    checkPositions i fs es = .ok () ↔ ∀ x ∈ fs.zip es, evidenceMismatch x.1 x.2 = none := by
  induction fs generalizing i es with
  | nil => simp [checkPositions]
  | cons f fs ih =>
      cases es with
      | nil => simp [checkPositions]
      | cons e es =>
          simp only [checkPositions, List.zip_cons_cons, List.forall_mem_cons]
          cases hm : evidenceMismatch f e with
          | some detail => simp
          | none => simpa using ih (i + 1) es

theorem checkBatchLedger_ok (inv : MarketInventory) (es : List ExecutionEvidence) :
    checkBatchLedger inv es = .ok () ↔ ∀ e ∈ es, evidenceLedger e = inv.ledger := by
  cases es with
  | nil => simp [checkBatchLedger]
  | cons e es =>
      simp only [checkBatchLedger, List.forall_mem_cons]
      split
      · rename_i h
        obtain ⟨x, hx, hne⟩ := List.any_eq_true.mp h
        refine iff_of_false (by simp) fun ⟨he, hall⟩ => ?_
        exact of_decide_eq_true hne ((hall x hx).trans he.symm)
      · rename_i h
        have hall : ∀ x ∈ es, evidenceLedger x = evidenceLedger e := by
          intro x hx
          by_contra hne
          exact h (List.any_eq_true.mpr ⟨x, hx, decide_eq_true hne⟩)
        split
        · rename_i hne
          exact iff_of_false (by simp) fun ⟨he, _⟩ => hne he
        · rename_i he
          have he : evidenceLedger e = inv.ledger := not_not.mp he
          exact iff_of_true rfl ⟨he, fun x hx => (hall x hx).trans he⟩

/-- The checks let the copy through. -/
theorem checks_insert (hi : Inserts f l.length event event')
    (hmatch : evidenceMismatch f e = none) (he : e ∈ l)
    (hf : checkEvidenceMatchesFills event.fills (l ++ r) = .ok ())
    (hl : checkBatchLedger inv (l ++ r) = .ok ()) :
    checkEvidenceMatchesFills event'.fills (l ++ e :: r) = .ok () ∧
      checkBatchLedger inv (l ++ e :: r) = .ok () := by
  constructor
  · obtain ⟨fl, fr, hfills, hfills', hlen⟩ := hi.fills
    simp only [checkEvidenceMatchesFills, hfills, hfills'] at hf ⊢
    split at hf
    · cases hf
    · rename_i hsame
      simp only [List.length_append, List.length_cons, not_not] at hsame ⊢
      rw [if_neg (by omega)]
      rw [checkPositions_ok] at hf ⊢
      rw [List.zip_append hlen] at hf ⊢
      simp only [List.mem_append, List.zip_cons_cons, List.mem_cons] at hf ⊢
      rintro x (hx | rfl | hx)
      · exact hf x (.inl hx)
      · exact hmatch
      · exact hf x (.inr hx)
  · rw [checkBatchLedger_ok] at hl ⊢
    simp only [List.mem_append, List.mem_cons] at hl ⊢
    rintro x (hx | rfl | hx)
    · exact hl x (.inl hx)
    · exact hl x (.inl he)
    · exact hl x (.inr hx)

/-! ## The copy in a pass -/

theorem crossCheckSide_append (σ : Staging) (A B : List (ExecutionEvidence × PreCore)) :
    crossCheckSide order inv σ (A ++ B) =
      ((crossCheckSide order inv σ A).1 ++ (crossCheckSide order inv (crossCheckSide order inv σ A).2 B).1,
        (crossCheckSide order inv (crossCheckSide order inv σ A).2 B).2) := by
  induction A generalizing σ with
  | nil => rfl
  | cons a A ih =>
      obtain ⟨e, pc⟩ := a
      cases pc with
      | admitted s =>
          simp only [List.cons_append, crossCheckSide]
          split <;> simp only [ih, List.cons_append]
      | _ => simp only [List.cons_append, crossCheckSide, ih]

theorem crossCheckSide_plain (h : pc.isPlain = true) (σ : Staging)
    (B : List (ExecutionEvidence × PreCore)) :
    crossCheckSide order inv σ ((e, pc) :: B) =
      ((e, pc) :: (crossCheckSide order inv σ B).1, (crossCheckSide order inv σ B).2) := by
  cases pc with
  | admitted s => cases h
  | _ => rfl

theorem crossCheckSide_length (σ : Staging) (A : List (ExecutionEvidence × PreCore)) :
    (crossCheckSide order inv σ A).1.length = A.length := by
  induction A generalizing σ with
  | nil => rfl
  | cons a A ih =>
      obtain ⟨e, pc⟩ := a
      cases pc with
      | admitted s =>
          simp only [crossCheckSide]
          split <;> simp only [List.length_cons, ih]
      | _ => simp only [crossCheckSide, List.length_cons, ih]

/-- What is staged of the execution when the evidences so far are heard. -/
def stagedAfter (order : OrderRow) (inv : MarketInventory) (id : FillId) (es : List ExecutionEvidence) :
    Option StagedPayload := heard order inv none (evidencesOf id es)

/-- The verdicts with the copy and without it. -/
structure Repeats (order : OrderRow) (inv : MarketInventory) (l r : List ExecutionEvidence)
    (e : ExecutionEvidence) (A B : List (ExecutionEvidence × PreCore)) (pc : PreCore) (σ : Staging) :
    Prop where
  once : adjudicate order inv (l ++ r) = (A ++ B, σ)
  twice : adjudicate order inv (l ++ e :: r) = (A ++ (e, pc) :: B, σ)
  length : A.length = l.length
  verdict : pc = (judge order inv (adjudicateAll (judge order inv) .empty l).2 e).1
  plain : pc.isPlain = true

theorem adjudicate_repeats (h : Deaf order inv (stagedAfter order inv e.executionId l) e)
    (r : List ExecutionEvidence) : ∃ A B pc σ, Repeats order inv l r e A B pc σ := by
  have hstaged : (adjudicateAll (judge order inv) .empty l).2.get? e.executionId =
      stagedAfter order inv e.executionId l := adjudicateAll_staging .empty l e.executionId
  have hlen := adjudicateAll_length (judge order inv) .empty l
  have happend := fun r => adjudicateAll_append (judge order inv) .empty l r
  generalize hP : adjudicateAll (judge order inv) .empty l = P at hstaged hlen happend
  obtain ⟨hkeep, hplain⟩ := judge_deaf (hstaged.symm ▸ h)
  have hcopy : adjudicateAll (judge order inv) .empty (l ++ e :: r) =
      (P.1 ++ (e, (judge order inv P.2 e).1) :: (adjudicateAll (judge order inv) P.2 r).1,
        (adjudicateAll (judge order inv) P.2 r).2) := by
    rw [happend]
    simp only [adjudicateAll, hkeep]
  have honce := happend r
  generalize adjudicateAll (judge order inv) P.2 r = Q at hcopy honce
  have hverdict : (judge order inv P.2 e).1 =
      (judge order inv (adjudicateAll (judge order inv) .empty l).2 e).1 := by rw [hP]
  by_cases hrow : rowForeign order inv = true
  · refine ⟨P.1, Q.1, (judge order inv P.2 e).1, Q.2, ?_, ?_, hlen, hverdict, hplain⟩
    · rw [adjudicate_judge, if_pos hrow]
      exact honce
    · rw [adjudicate_judge, if_pos hrow]
      exact hcopy
  · refine ⟨(crossCheckSide order inv Q.2 P.1).1,
      (crossCheckSide order inv (crossCheckSide order inv Q.2 P.1).2 Q.1).1, (judge order inv P.2 e).1,
      (crossCheckSide order inv (crossCheckSide order inv Q.2 P.1).2 Q.1).2, ?_, ?_,
      (crossCheckSide_length ..).trans hlen, hverdict, hplain⟩
    · rw [adjudicate_judge, if_neg hrow, honce]
      exact crossCheckSide_append ..
    · rw [adjudicate_judge, if_neg hrow, hcopy, crossCheckSide_append]
      simp only [crossCheckSide_plain hplain]

/-! ## The core call -/

theorem admittedFills_insert (h : pc.isPlain = true) :
    admittedFills σ (A ++ (e, pc) :: B) = admittedFills σ (A ++ B) := by
  cases pc with
  | admitted s => cases h
  | _ => simp [admittedFills]

/-- The position of an admitted evidence. -/
def positionOf (a : (ExecutionEvidence × PreCore) × Nat) : Option Nat :=
  match a.1.2 with
  | .admitted _ => some a.2
  | _ => none

theorem admittedAt_eq (pre : List (ExecutionEvidence × PreCore)) :
    admittedAt pre = pre.zipIdx.filterMap positionOf := rfl

theorem positionOf_shifted {a : (ExecutionEvidence × PreCore) × Nat} (h : k ≤ a.2) :
    positionOf (a.1, a.2 + 1) = (positionOf a).map (shifted k) := by
  obtain ⟨⟨x, pc⟩, i⟩ := a
  cases pc with
  | admitted s => exact congrArg some (if_neg (Nat.not_lt.mpr h)).symm
  | _ => rfl

theorem positions_later (n : Nat) (hn : k ≤ n) (B : List (ExecutionEvidence × PreCore)) :
    (B.zipIdx (n + 1)).filterMap positionOf =
      ((B.zipIdx n).filterMap positionOf).map (shifted k) := by
  induction B generalizing n with
  | nil => rfl
  | cons b B ih =>
      have hpos := positionOf_shifted (a := (b, n)) hn
      simp only [List.zipIdx_cons, List.filterMap_cons, ih (n + 1) (by omega), hpos]
      cases positionOf (b, n) <;> rfl

theorem positions_earlier (A : List (ExecutionEvidence × PreCore)) :
    (A.zipIdx.filterMap positionOf).map (shifted A.length) = A.zipIdx.filterMap positionOf := by
  refine (List.map_congr_left (g := id) fun i hi => ?_).trans (List.map_id _)
  obtain ⟨⟨⟨x, pc⟩, j⟩, hj, hi⟩ := List.mem_filterMap.mp hi
  have hlt := List.snd_lt_of_mem_zipIdx hj
  cases pc with
  | admitted s =>
      cases hi
      exact if_pos (by simpa using hlt)
  | _ => cases hi

theorem admittedAt_insert (h : pc.isPlain = true) :
    admittedAt (A ++ (e, pc) :: B) = (admittedAt (A ++ B)).map (shifted A.length) := by
  have hcopy : positionOf ((e, pc), A.length) = none := by
    cases pc with
    | admitted s => cases h
    | _ => rfl
  simp only [admittedAt_eq, List.zipIdx_append, List.zipIdx_cons, List.filterMap_append,
    List.filterMap_cons, Nat.zero_add, hcopy, List.map_append, positions_earlier,
    positions_later A.length le_rfl]

theorem allSideMismatch_insert (h : pc.isPlain = true) :
    allSideMismatch (A ++ (e, pc) :: B) = (allSideMismatch (A ++ B) && decide (pc = .ignoredZero)) := by
  have hside : pc.isSideMismatch = false := by
    cases pc with
    | admitted s => cases h
    | ignoredZero => rfl
    | refused od i ea cf => simpa [PreCore.isPlain] using h
  simp only [allSideMismatch, List.all_append, List.all_cons, List.any_append, List.any_cons, hside,
    Bool.false_or]
  rw [Bool.eq_iff_iff]
  simp only [Bool.and_eq_true]
  tauto

/-! ## A batch that is all of the other side -/

/-- Something counts, and all that counts is of the other side, of executions of its own, and meets no
conflict. -/
structure Opposed (order : OrderRow) (inv : MarketInventory) (es : List ExecutionEvidence) : Prop where
  some : ∃ e ∈ es, e.qty ≠ 0
  all : ∀ e ∈ es, e.qty ≠ 0 → e.side ≠ order.ctx.side ∧ contest order inv none e = none
  apart : es.Pairwise fun a b => a.qty ≠ 0 → b.qty ≠ 0 → a.executionId ≠ b.executionId

/-- Admitted, and of the other side. -/
def opposes (order : OrderRow) (a : ExecutionEvidence × PreCore) : Bool :=
  match a.2 with
  | .admitted _ => decide (order.ctx.side ≠ a.1.side)
  | _ => false

/-- The side check refuses what opposes, and lets everything else be. -/
theorem crossCheckSide_profile (σ : Staging) {pre : List (ExecutionEvidence × PreCore)}
    (h : ∀ a ∈ pre, a.2.isSideMismatch = false) :
    (crossCheckSide order inv σ pre).1.map (fun a => (a.2.isSideMismatch, decide (a.2 = .ignoredZero))) =
      pre.map fun a => (opposes order a, decide (a.2 = .ignoredZero)) := by
  induction pre generalizing σ with
  | nil => rfl
  | cons a pre ih =>
      obtain ⟨e, pc⟩ := a
      have hhead : pc.isSideMismatch = false := h _ List.mem_cons_self
      have htail := fun σ => ih σ fun a ha => h a (List.mem_cons_of_mem _ ha)
      rw [List.map_cons]
      cases pc with
      | ignoredZero =>
          simp only [crossCheckSide, List.map_cons]
          rw [htail, hhead]
          rfl
      | refused od i ea cf =>
          simp only [crossCheckSide, List.map_cons]
          rw [htail, hhead]
          rfl
      | admitted s =>
          by_cases hside : order.ctx.side = e.side
          · have hop : opposes order (e, .admitted s) = false := by simp [opposes, hside]
            simp only [crossCheckSide, hside, ne_eq, not_true_eq_false, if_false, List.map_cons]
            rw [htail, hhead, hop]
          · have hop : opposes order (e, .admitted s) = true := by simp [opposes, hside]
            simp only [crossCheckSide, hside, ne_eq, not_false_eq_true, if_true, List.map_cons]
            rw [htail, hop]
            rfl

theorem crossCheckSide_allSide (σ : Staging) {pre : List (ExecutionEvidence × PreCore)}
    (h : ∀ a ∈ pre, a.2.isSideMismatch = false) :
    allSideMismatch (crossCheckSide order inv σ pre).1 =
      (pre.all (fun a => opposes order a || decide (a.2 = .ignoredZero)) && pre.any (opposes order)) := by
  have hprofile : (crossCheckSide order inv σ pre).1.map _ = _ := crossCheckSide_profile σ h
  have hall := congrArg (List.all · fun x => x.1 || x.2) hprofile
  have hany := congrArg (List.any · fun x => x.1) hprofile
  simp only [List.all_map, List.any_map, Function.comp_def] at hall hany
  exact congrArg₂ _ hall hany

theorem judge_notSide (σ : Staging) (e : ExecutionEvidence) :
    (judge order inv σ e).1.isSideMismatch = false := by
  have hrefused : ∀ {od : OrderDisposition}, isSide od = false → ∀ i ea cf,
      (PreCore.refused od i ea cf).isSideMismatch = false := by
    intro od h i ea cf
    have := isPlain_refused h i ea cf
    simpa [PreCore.isPlain] using this
  have hv := judge_verdict order inv σ e
  generalize judge order inv σ e = r at hv ⊢
  cases hv with
  | zero h => rfl
  | contested hod h => exact hrefused hod ..
  | repeated hod hs h => exact hrefused hod ..
  | admitted hrow hs h => rfl
  | entered hrow hod hs hp h => exact hrefused hod ..
  | fresh hrow hod hs hp h => exact hrefused hod ..

/-- What is admitted counts, and what counts is not ignored. -/
theorem judge_counts (σ : Staging) (e : ExecutionEvidence) :
    (opposes order (e, (judge order inv σ e).1) = true → e.qty ≠ 0) ∧
      ((judge order inv σ e).1 = .ignoredZero → e.qty = 0) := by
  have hv := judge_verdict order inv σ e
  generalize judge order inv σ e = r at hv ⊢
  cases hv with
  | zero h => exact ⟨fun ho => (by cases ho), fun _ => h⟩
  | contested hod h => exact ⟨fun ho => (by cases ho), fun hz => (by cases hz)⟩
  | repeated hod hs h => exact ⟨fun ho => (by cases ho), fun hz => (by cases hz)⟩
  | admitted hrow hs h => exact ⟨fun _ hq => h (.inl hq), fun hz => (by cases hz)⟩
  | entered hrow hod hs hp h => exact ⟨fun ho => (by cases ho), fun hz => (by cases hz)⟩
  | fresh hrow hod hs hp h => exact ⟨fun ho => (by cases ho), fun hz => (by cases hz)⟩

theorem adjudicateAll_mem (judge : Staging → ExecutionEvidence → PreCore × Staging) (σ : Staging)
    (es : List ExecutionEvidence) :
    (∀ a ∈ (adjudicateAll judge σ es).1, a.1 ∈ es ∧ ∃ σ', a.2 = (judge σ' a.1).1) ∧
      ∀ e ∈ es, ∃ a ∈ (adjudicateAll judge σ es).1, a.1 = e := by
  induction es generalizing σ with
  | nil => exact ⟨fun a ha => (by cases ha), fun x hx => (by cases hx)⟩
  | cons e es ih =>
      obtain ⟨hback, hforth⟩ := ih (judge σ e).2
      constructor
      · intro a ha
        rcases List.mem_cons.mp ha with rfl | ha
        · exact ⟨List.mem_cons_self, σ, rfl⟩
        · obtain ⟨hm, h⟩ := hback a ha
          exact ⟨List.mem_cons_of_mem _ hm, h⟩
      · intro x hx
        rcases List.mem_cons.mp hx with rfl | hx
        · exact ⟨_, List.mem_cons_self, rfl⟩
        · obtain ⟨a, ha, he⟩ := hforth x hx
          exact ⟨a, List.mem_cons_of_mem _ ha, he⟩

/-- All that counts is admitted and of the other side exactly when nothing of it was staged before, or
meets a conflict, or is of the order's side. -/
theorem pass_opposed_iff (hrow : rowForeign order inv = false) (σ : Staging)
    (es : List ExecutionEvidence) :
    (∀ a ∈ (adjudicateAll (judge order inv) σ es).1, opposes order a = true ∨ a.2 = .ignoredZero) ↔
      (∀ e ∈ es, e.qty ≠ 0 → e.side ≠ order.ctx.side ∧ σ.get? e.executionId = none ∧
        contest order inv none e = none) ∧
      es.Pairwise fun a b => a.qty ≠ 0 → b.qty ≠ 0 → a.executionId ≠ b.executionId := by
  induction es generalizing σ with
  | nil => exact iff_of_true (fun a ha => by cases ha) ⟨fun x hx => (by cases hx), .nil⟩
  | cons e es ih =>
      simp only [adjudicateAll, List.forall_mem_cons, List.pairwise_cons]
      have hv := judge_verdict order inv σ e
      rw [ih]
      generalize judge order inv σ e = r at hv ⊢
      -- a verdict that counts and does not oppose
      have hno : e.qty ≠ 0 → ¬ (σ.get? e.executionId = none ∧ contest order inv none e = none) →
          ¬ (((e.qty ≠ 0 → e.side ≠ order.ctx.side ∧ σ.get? e.executionId = none ∧
            contest order inv none e = none) ∧
            ∀ x ∈ es, x.qty ≠ 0 → x.side ≠ order.ctx.side ∧ σ.get? x.executionId = none ∧
              contest order inv none x = none) ∧
            (∀ x ∈ es, e.qty ≠ 0 → x.qty ≠ 0 → e.executionId ≠ x.executionId) ∧
            es.Pairwise fun a b => a.qty ≠ 0 → b.qty ≠ 0 → a.executionId ≠ b.executionId) :=
        fun hq hn h => hn (h.1.1 hq).2
      cases hv with
      | zero h =>
          simp only [h, ne_eq, not_true_eq_false, false_implies, implies_true, or_true, true_and]
      | contested hod h =>
          have hq : e.qty ≠ 0 := by
            rintro hq
            simp [contest, hq] at h
          refine iff_of_false (by simp [opposes, refuseConflict]) (hno hq ?_)
          rintro ⟨hs, hc⟩
          rw [hs, hc] at h
          cases h
      | repeated hod hs h =>
          refine iff_of_false (by simp [opposes]) (hno (fun hq => h (.inl hq)) ?_)
          rintro ⟨hs', -⟩
          rw [hs] at hs'
          cases hs'
      | admitted hrow' hs h =>
          have hq : e.qty ≠ 0 := fun hq => h (.inl hq)
          have hc : contest order inv none e = none := by
            rw [hs] at h
            simpa using fun hc => h (.inr hc)
          have hstaged : ∀ x ∈ es, (x.qty ≠ 0 → x.side ≠ order.ctx.side ∧
              (σ.insert e.executionId (stageEvidence e (inv.get e.executionId)
                (bookedOf order inv e.executionId))).get? x.executionId = none ∧
              contest order inv none x = none) ↔
              ((x.qty ≠ 0 → x.side ≠ order.ctx.side ∧ σ.get? x.executionId = none ∧
                contest order inv none x = none) ∧
              (e.qty ≠ 0 → x.qty ≠ 0 → e.executionId ≠ x.executionId)) := by
            intro x _
            rw [OrdMap.get?_insert]
            by_cases hid : x.executionId = e.executionId
            · simp [hid, hq]
              tauto
            · simp [hid, Ne.symm hid]
          rw [forall₂_congr hstaged]
          simp only [opposes, decide_eq_true_eq, reduceCtorEq, or_false, hs, hc, and_true, hq,
            ne_eq, not_false_eq_true, true_implies, forall_and, eq_comm (a := order.ctx.side)]
          tauto
      | entered hrow' _ _ _ _ => exact absurd (hrow.symm.trans hrow') (by decide)
      | fresh hrow' _ _ _ _ => exact absurd (hrow.symm.trans hrow') (by decide)

theorem allSideMismatch_iff (hrow : rowForeign order inv = false) (es : List ExecutionEvidence) :
    allSideMismatch (adjudicate order inv es).1 = true ↔ Opposed order inv es := by
  have hmem := adjudicateAll_mem (judge order inv) .empty es
  have hall := pass_opposed_iff hrow .empty es
  rw [adjudicate_judge, if_neg (by simp [hrow]), crossCheckSide_allSide]
  · simp only [Bool.and_eq_true, List.all_eq_true, Bool.or_eq_true, decide_eq_true_eq, hall,
      OrdMap.get?_empty, true_and, List.any_eq_true]
    constructor
    · rintro ⟨⟨hes, hapart⟩, a, ha, ho⟩
      obtain ⟨hm, σ', hpc⟩ := hmem.1 a ha
      refine ⟨⟨a.1, hm, ?_⟩, hes, hapart⟩
      rw [show a = (a.1, (judge order inv σ' a.1).1) from Prod.ext rfl hpc] at ho
      exact (judge_counts σ' a.1).1 ho
    · rintro ⟨⟨e, he, hq⟩, hes, hapart⟩
      refine ⟨⟨hes, hapart⟩, ?_⟩
      obtain ⟨a, ha, rfl⟩ := hmem.2 e he
      refine ⟨a, ha, ?_⟩
      have hpass : ∀ a ∈ (adjudicateAll (judge order inv) .empty es).1,
          opposes order a = true ∨ a.2 = .ignoredZero := hall.mpr ⟨by simpa using hes, hapart⟩
      rcases hpass a ha with ho | hz
      · exact ho
      · obtain ⟨-, σ', hpc⟩ := hmem.1 a ha
        exact absurd ((judge_counts σ' a.1).2 (hpc.symm.trans hz)) hq
  · intro a ha
    obtain ⟨-, σ', hpc⟩ := hmem.1 a ha
    rw [hpc]
    exact judge_notSide σ' a.1

/-! ## The answer of the core -/

theorem judge_zero (h : e.qty = 0) (σ : Staging) : (judge order inv σ e).1 = .ignoredZero := by
  unfold judge
  split
  · simp only [adjudicateForeign, h, if_true]
  · simp only [adjudicateRow, h, if_true]

theorem isStructured_rebuild (event : OrderEvent) (admitted : List (FillId × StagedPayload))
    (positions : List Nat) :
    isStructured (rebuildEventWithFills event admitted positions) = isStructured event := by
  cases event <;> rfl

/-- A frozen row turns a result down. -/
theorem applyEvent_frozen_result {s : OrderState} (hs : isRestartFrozen s = true)
    (h : isStructured event = true) (c : OrderCtx) :
    ∃ reason, applyEvent s c event = (.reject reason, c) := by
  rw [applyEvent_frozen hs]
  cases event with
  | immediateFillBackfillResult fills => cases s <;> exact ⟨_, rfl⟩
  | unknownBackfillResult exhaustive matched => cases s <;> exact ⟨_, rfl⟩
  | reconcileResult status v filled remaining fills complete => cases s <;> exact ⟨_, rfl⟩
  | _ => cases h

/-- The core answers the copy as it answered before, or turns down a result without fills for a frozen
row that it was not asked about. -/
theorem Repeats.core (h : Repeats order inv l r e A B pc σ) (hi : Inserts f l.length event event')
    (hc : rowForeign order inv = false → isRestartFrozen order.state = false →
      allSideMismatch (A ++ B) = true → e.qty = 0) :
    batchCore order inv event' (A ++ (e, pc) :: B) σ = batchCore order inv event (A ++ B) σ ∨
      batchCore order inv event (A ++ B) σ = none ∧ allSideMismatch (A ++ B) = true ∧
        ∃ reason, batchCore order inv event' (A ++ (e, pc) :: B) σ = some (.reject reason, order.ctx) := by
  have hrebuild : rebuildEventWithFills event' (admittedFills σ (A ++ (e, pc) :: B))
      (admittedAt (A ++ (e, pc) :: B)) =
      rebuildEventWithFills event (admittedFills σ (A ++ B)) (admittedAt (A ++ B)) := by
    rw [admittedFills_insert h.plain, admittedAt_insert h.plain, h.length, hi.rebuild]
  unfold batchCore
  dsimp only
  rw [hrebuild, hi.structured, admittedFills_insert h.plain, allSideMismatch_insert h.plain]
  by_cases hrow : rowForeign order inv = true
  · simp only [hrow, if_true, true_or]
  · cases hall : allSideMismatch (A ++ B) with
    | false => exact .inl (by simp only [Bool.false_and])
    | true =>
        by_cases hq : e.qty = 0
        · have hz : pc = .ignoredZero := h.verdict.trans (judge_zero hq _)
          exact .inl (by simp only [hz, decide_true, Bool.and_true])
        · have hfrozen : isRestartFrozen order.state = true := by
            by_contra hno
            exact hq (hc (by simpa using hrow) (by simpa using hno) hall)
          have hz : pc ≠ .ignoredZero := fun hz => hq ((judge_counts _ e).2 (h.verdict.symm.trans hz))
          refine .inr ⟨by simp [hrow, hfrozen], rfl, ?_⟩
          simp only [hrow, hz, hi.isStructured, Bool.false_eq_true, if_false, decide_false,
            Bool.and_false, Bool.or_true, if_true, Option.some.injEq]
          exact applyEvent_frozen_result hfrozen ((isStructured_rebuild ..).trans hi.isStructured) _

theorem orderPart_name (h : eventName event' = eventName event)
    (core : Option (TransitionOutcome × OrderCtx)) :
    orderPart order event' core = orderPart order event core := by
  cases core with
  | none => rfl
  | some c => simp only [orderPart, orderRecord, h]

theorem orderPart_reject (reason : RejectReason) :
    orderPart order event (some (.reject reason, order.ctx)) = .ok none := by
  simp [orderPart, orderChanged, stateAfterTransition, TransitionOutcome.newState,
    TransitionOutcome.effects, coreRecords, nonJournal]

/-- A verdict that is no admission is settled by the staging alone. -/
theorem settle_unasked {st st' : Settlement} {a : ExecutionEvidence × PreCore}
    (hs : st'.staging = st.staging) (ha : ∀ s, a.2 ≠ .admitted s) : settle st' a = settle st a := by
  obtain ⟨x, pc⟩ := a
  cases pc with
  | admitted s => exact absurd rfl (ha s)
  | ignoredZero => rfl
  | refused od i ea cf => simp only [settle, hs]

/-! ## What is planned -/

theorem plannedFacts_crossCheck (σ : Staging) (pre : List (ExecutionEvidence × PreCore)) :
    plannedFacts (crossCheckSide order inv σ pre).1 = plannedFacts pre := by
  induction pre generalizing σ with
  | nil => rfl
  | cons a pre ih =>
      obtain ⟨x, pc⟩ := a
      simp only [plannedFacts_record] at ih ⊢
      cases pc with
      | admitted s =>
          simp only [crossCheckSide]
          split
          · rw [List.filterMap_cons, List.filterMap_cons, ih]
            rfl
          · rw [List.filterMap_cons, List.filterMap_cons, ih]
      | _ => simp only [crossCheckSide, List.filterMap_cons, ih]

theorem getLast?_filterMap {α β : Type} {g : α → Option β} {l : List α}
    (h : ∀ x ∈ l, (g x).isSome = true) : (l.filterMap g).getLast? = l.getLast?.bind g := by
  induction l using List.reverseRecOn with
  | nil => rfl
  | append_singleton l x ih =>
      obtain ⟨y, hy⟩ := Option.isSome_iff_exists.mp (h x (by simp))
      simp [List.filterMap_append, hy]

/-- The conflict on record of an execution is the last one that one of its evidences met. -/
theorem BatchParts.conflict (b : BatchParts order inv event es t) (id : FillId) :
    t.plannedConflicts.get? id =
      ((contests order inv none (evidencesOf id es)).getLast?).bind (recordOf order inv) := by
  have hfacts : t.outcomes.filterMap (·.fact) =
      plannedFacts (adjudicateAll (judge order inv) .empty es).1 := by
    rw [b.outcomes, ← plannedFacts_eq, adjudicate_judge]
    split
    · rfl
    · exact plannedFacts_crossCheck ..
  rw [b.conflicts, OrdMap.get?_insertAll_getLast? (p := fun w => decide (w.1 = id)) (by simp), hfacts,
    adjudicateAll_facts, getLast?_filterMap]
  · rw [OrdMap.get?_empty]
    cases (contests order inv none (evidencesOf id es)).getLast? with
    | none => rfl
    | some x => simp only [Option.bind_some, Option.map_map, Function.comp_def, Option.map_id']
  · intro x hx
    obtain ⟨hc, -⟩ := mem_contests hx
    obtain ⟨c, hc⟩ := Option.isSome_iff_exists.mp hc
    simp [recordOf, hc]

/-- The copy writes nothing, unless a foreign row completes an entry from it. -/
theorem Repeats.write (h : Repeats order inv l r e A B pc σ)
    (hd : Deaf order inv (stagedAfter order inv e.executionId l) e)
    (hc : rowForeign order inv = false ∨ inv.get e.executionId = none) (st : Settlement) :
    (settle st (e, pc)).1.write = none := by
  have hstaged : (adjudicateAll (judge order inv) .empty l).2.get? e.executionId =
      stagedAfter order inv e.executionId l := adjudicateAll_staging .empty l e.executionId
  rw [← hstaged] at hd
  rw [h.verdict]
  generalize (adjudicateAll (judge order inv) .empty l).2 = σ₁ at hd
  have hv := judge_verdict order inv σ₁ e
  generalize judge order inv σ₁ e = r at hv ⊢
  cases hv with
  | zero _ => rfl
  | contested _ _ => rfl
  | repeated _ _ _ => rfl
  | admitted hrow hs hu =>
      rw [hs] at hd hu
      exact absurd ((hear_fresh hu (by simp [hrow])).symm.trans hd) (by simp)
  | entered hrow _ _ hp _ =>
      rw [hrow, hp] at hc
      simp at hc
  | fresh _ _ hs hp hu =>
      rw [hs] at hd hu
      exact absurd ((hear_fresh hu (by simp [hp])).symm.trans hd) (by simp)

/-! ## The property and the condition -/

/-- The two transactions leave the same in the order, ask for the same effects and plan the same for the
inventory. -/
structure Invisible (t t' : ExecutionTransaction) : Prop where
  after : t'.after = t.after
  effects : t'.effects = t.effects
  entries : t'.plannedEntries = t.plannedEntries
  conflicts : t'.plannedConflicts = t.plannedConflicts

/-- The copy of `e` comes after the evidences `l` and before the evidences `r`. -/
structure Unnoticed (order : OrderRow) (inv : MarketInventory) (e : ExecutionEvidence)
    (l r : List ExecutionEvidence) : Prop where
  /-- Where the row halts for a batch that is all of the other side, the copy counts nothing. -/
  side : rowForeign order inv = false → isRestartFrozen order.state = false →
    Opposed order inv (l ++ r) → e.qty = 0
  /-- Where a foreign row completes an entry from the copy, a later evidence completes it too, or the last
  one before the copy completes it alike. -/
  entry : rowForeign order inv = true → ∀ p, inv.get e.executionId = some p → informs p e = true →
    (∃ x ∈ r, x.executionId = e.executionId ∧ informs p x = true) ∨
      ∀ last, lastInforming p l e.executionId = some last → complete p last = complete p e
  /-- Where the copy meets a conflict, a later evidence of its execution meets one too, or the last one
  before the copy that met one was the same, with the same staged. -/
  conflict : (contest order inv (stagedAfter order inv e.executionId l) e).isSome = true →
    contests order inv (stagedAfter order inv e.executionId l) (evidencesOf e.executionId r) ≠ [] ∨
      (contests order inv none (evidencesOf e.executionId l)).getLast? =
        some (e, stagedAfter order inv e.executionId l)

theorem lastInforming_insert {p : InventoryEntry} (he : e ∈ l) :
    (lastInforming p (l ++ e :: r) e.executionId).map (complete p) =
        (lastInforming p (l ++ r) e.executionId).map (complete p) ↔
      (informs p e = true → (∃ x ∈ r, x.executionId = e.executionId ∧ informs p x = true) ∨
        ∀ last, lastInforming p l e.executionId = some last → complete p last = complete p e) := by
  simp only [lastInforming, List.filter_append, List.filter_cons, decide_true, Bool.true_and]
  generalize hR : r.filter (fun x => decide (x.executionId = e.executionId) && informs p x) = R
  have hlater : (∃ x ∈ r, x.executionId = e.executionId ∧ informs p x = true) ↔ R ≠ [] := by
    rw [← hR, ne_eq, List.filter_eq_nil_iff]
    simp
  rw [hlater]
  by_cases hi : informs p e = true
  · simp only [hi, if_true, true_implies]
    cases R with
    | cons x R => simp [List.getLast?_append, List.getLast?_cons]
    | nil =>
        obtain ⟨last, hlast⟩ := lastInforming_isSome he hi
        rw [lastInforming] at hlast
        generalize l.filter (fun x => decide (x.executionId = e.executionId) && informs p x) = L at hlast
        rw [List.getLast?_append, List.append_nil, hlast]
        simp [eq_comm]
  · simp [hi]

theorem contests_insert (hd : Deaf order inv (stagedAfter order inv e.executionId l) e) :
    ((contests order inv none (evidencesOf e.executionId (l ++ e :: r))).getLast?).bind
          (recordOf order inv) =
        ((contests order inv none (evidencesOf e.executionId (l ++ r))).getLast?).bind
          (recordOf order inv) ↔
      ((contest order inv (stagedAfter order inv e.executionId l) e).isSome = true →
        contests order inv (stagedAfter order inv e.executionId l) (evidencesOf e.executionId r) ≠ [] ∨
          (contests order inv none (evidencesOf e.executionId l)).getLast? =
            some (e, stagedAfter order inv e.executionId l)) := by
  have hhear : hear order inv (stagedAfter order inv e.executionId l) e =
      stagedAfter order inv e.executionId l := hd
  rw [evidencesOf_append, evidencesOf_append, evidencesOf_cons, if_pos rfl, contests_append,
    contests_append]
  change ((contests order inv none (evidencesOf e.executionId l) ++
    contests order inv (stagedAfter order inv e.executionId l) (e :: evidencesOf e.executionId r)).getLast?).bind
      _ = ((contests order inv none (evidencesOf e.executionId l) ++
    contests order inv (stagedAfter order inv e.executionId l) (evidencesOf e.executionId r)).getLast?).bind
      _ ↔ _
  rw [contests, hhear]
  by_cases hc : (contest order inv (stagedAfter order inv e.executionId l) e).isSome = true
  · simp only [hc, if_true, true_implies]
    cases hR : contests order inv (stagedAfter order inv e.executionId l)
        (evidencesOf e.executionId r) with
    | cons x R => simp [List.getLast?_append, List.getLast?_cons]
    | nil =>
        obtain ⟨c, hc⟩ := Option.isSome_iff_exists.mp hc
        have hrec : (recordOf order inv (e, stagedAfter order inv e.executionId l)).isSome = true := by
          simp [recordOf, hc]
        simp only [List.append_nil, List.getLast?_append, List.getLast?_singleton, Option.some_or,
          Option.bind_some, ne_eq, not_true_eq_false, false_or]
        constructor
        · intro h
          cases hL : (contests order inv none (evidencesOf e.executionId l)).getLast? with
          | none =>
              rw [hL] at h
              rw [h] at hrec
              cases hrec
          | some x =>
              rw [hL, Option.bind_some] at h
              obtain ⟨-, a, b, hab, hx⟩ := mem_contests (List.mem_of_getLast? hL)
              refine congrArg some (recordOf_inj (fun ho => ?_) hrec h.symm)
              refine ⟨hx.trans (heard_owned ho fun y hy => ?_), heard_owned ho fun y hy => ?_⟩
              · have : y ∈ evidencesOf e.executionId l := by
                  rw [hab]
                  exact List.mem_append_left _ hy
                exact (mem_evidencesOf.mp this).2
              · exact (mem_evidencesOf.mp hy).2
        · intro h
          rw [h]
          rfl
  · simp [hc]

/-! ## What a copy leaves of the plan -/

/-- The evidences of the batch have been heard before the copy. -/
theorem stagedAfter_deaf (he : e ∈ l) : Deaf order inv (stagedAfter order inv e.executionId l) e := by
  obtain ⟨a, b, rfl⟩ := List.append_of_mem he
  rw [stagedAfter, evidencesOf_append, evidencesOf_cons, if_pos rfl]
  exact heard_deaf fun x hx => (mem_evidencesOf.mp hx).2

theorem allSideMismatch_unadmitted {pre : List (ExecutionEvidence × PreCore)}
    (h : allSideMismatch pre = true) : ∀ a ∈ pre, ∀ s, a.2 ≠ .admitted s := by
  rintro ⟨x, pc⟩ ha s rfl
  simp only [allSideMismatch, Bool.and_eq_true, List.all_eq_true] at h
  have := h.1 _ ha
  simp [PreCore.isSideMismatch] at this

/-- Every other verdict of the batch is settled as it was. -/
theorem Repeats.settles (h : Repeats order inv l r e A B pc σ) (hi : Inserts f l.length event event')
    (hc : rowForeign order inv = false → isRestartFrozen order.state = false →
      allSideMismatch (A ++ B) = true → e.qty = 0) :
    ∀ a ∈ A ++ B,
      settle (batchSettlement order inv σ (batchCore order inv event' (A ++ (e, pc) :: B) σ)) a =
        settle (batchSettlement order inv σ (batchCore order inv event (A ++ B) σ)) a := by
  intro a ha
  rcases h.core hi hc with hcore | ⟨-, hall, -⟩
  · rw [hcore]
  · exact settle_unasked rfl (allSideMismatch_unadmitted hall a ha)

/-- What is written of other executions stays, and the copy writes nothing unless a foreign row completes
an entry from it. -/
theorem Repeats.writes (h : Repeats order inv l r e A B pc σ) (hi : Inserts f l.length event event')
    (he : e ∈ l) (hc : rowForeign order inv = false → isRestartFrozen order.state = false →
      allSideMismatch (A ++ B) = true → e.qty = 0)
    (b : BatchParts order inv event (l ++ r) t) (b' : BatchParts order inv event' (l ++ e :: r) t') :
    ∃ wl w wr, t.writes = wl ++ wr ∧ t'.writes = wl ++ (w.toList ++ wr) ∧
      (∀ x ∈ w, x.1 = e.executionId) ∧
      (rowForeign order inv = false ∨ inv.get e.executionId = none → w = none) := by
  have hset := h.settles hi hc
  have hw : t.writes = (A ++ B).filterMap fun a =>
      (settle (batchSettlement order inv σ (batchCore order inv event (A ++ B) σ)) a).1.write := by
    rw [ExecutionTransaction.writes, b.outcomes, b.core_eq, h.once, List.map_map, List.filterMap_map]
    rfl
  have hw' : t'.writes = (A ++ (e, pc) :: B).filterMap fun a =>
      (settle (batchSettlement order inv σ
        (batchCore order inv event' (A ++ (e, pc) :: B) σ)) a).1.write := by
    rw [ExecutionTransaction.writes, b'.outcomes, b'.core_eq, h.twice, List.map_map,
      List.filterMap_map]
    rfl
  generalize batchSettlement order inv σ (batchCore order inv event (A ++ B) σ) = st at hset hw
  generalize batchSettlement order inv σ (batchCore order inv event' (A ++ (e, pc) :: B) σ) = st'
    at hset hw'
  refine ⟨A.filterMap fun a => (settle st a).1.write, (settle st' (e, pc)).1.write,
    B.filterMap fun a => (settle st a).1.write, ?_, ?_, ?_, fun hcase => ?_⟩
  · rw [hw, List.filterMap_append]
  · have hA : A.filterMap (fun a => (settle st' a).1.write) =
        A.filterMap fun a => (settle st a).1.write :=
      List.filterMap_congr fun a ha => by rw [hset a (List.mem_append_left _ ha)]
    have hB : B.filterMap (fun a => (settle st' a).1.write) =
        B.filterMap fun a => (settle st a).1.write :=
      List.filterMap_congr fun a ha => by rw [hset a (List.mem_append_right _ ha)]
    rw [hw', List.filterMap_append, List.filterMap_cons, hA, hB]
    cases (settle st' (e, pc)).1.write <;> rfl
  · intro x hx
    rw [← settle_write] at hx
    obtain ⟨entry, -, rfl⟩ := Option.map_eq_some_iff.mp hx
    exact congrArg (·.executionId) (settle_evidence st' (e, pc))
  · exact h.write (stagedAfter_deaf he) hcase st'

/-- The plan is the same exactly when the copy completes no entry anew. -/
theorem Repeats.entries (h : Repeats order inv l r e A B pc σ) (hi : Inserts f l.length event event')
    (he : e ∈ l) (hc : rowForeign order inv = false → isRestartFrozen order.state = false →
      allSideMismatch (A ++ B) = true → e.qty = 0)
    (b : BatchParts order inv event (l ++ r) t) (b' : BatchParts order inv event' (l ++ e :: r) t') :
    t'.plannedEntries = t.plannedEntries ↔
      (rowForeign order inv = true → ∀ p, inv.get e.executionId = some p → informs p e = true →
        (∃ x ∈ r, x.executionId = e.executionId ∧ informs p x = true) ∨
          ∀ last, lastInforming p l e.executionId = some last → complete p last = complete p e) := by
  constructor
  · intro hsame hf p hp
    rw [← lastInforming_insert he, ← b.foreign_final hf hp, ← b'.foreign_final hf hp, hsame]
  · intro hlast
    obtain ⟨wl, w, wr, hw, hw', hid, hnone⟩ := h.writes hi he hc b b'
    rw [ExecutionTransaction.writes] at hw hw'
    apply OrdMap.ext_get?
    intro id
    by_cases heq : id = e.executionId
    · subst heq
      by_cases hcase : rowForeign order inv = false ∨ inv.get e.executionId = none
      · rw [b.entries, b'.entries, hw, hw', hnone hcase]
        rfl
      · simp only [not_or, Bool.not_eq_false] at hcase
        obtain ⟨hf, hp⟩ := hcase
        obtain ⟨p, hp⟩ := Option.ne_none_iff_exists'.mp hp
        rw [b.foreign_final hf hp, b'.foreign_final hf hp]
        exact (lastInforming_insert he).mpr (hlast hf p hp)
    · rw [b.entries, b'.entries, hw, hw']
      cases w with
      | none => rfl
      | some x =>
          have hne : id ≠ x.1 := fun h => heq (h.trans (hid x rfl))
          exact OrdMap.get?_insertAll_skip hne x.2 wl wr

/-- The conflicts on record are the same exactly when the copy's is not the last one or not a new one. -/
theorem conflicts_insert (he : e ∈ l) (b : BatchParts order inv event (l ++ r) t)
    (b' : BatchParts order inv event' (l ++ e :: r) t') :
    t'.plannedConflicts = t.plannedConflicts ↔
      ((contest order inv (stagedAfter order inv e.executionId l) e).isSome = true →
        contests order inv (stagedAfter order inv e.executionId l) (evidencesOf e.executionId r) ≠ [] ∨
          (contests order inv none (evidencesOf e.executionId l)).getLast? =
            some (e, stagedAfter order inv e.executionId l)) := by
  rw [← contests_insert (stagedAfter_deaf he), ← b.conflict, ← b'.conflict]
  constructor
  · intro h
    rw [h]
  · intro h
    apply OrdMap.ext_get?
    intro id
    by_cases heq : id = e.executionId
    · rw [heq, h]
    · rw [b.conflict, b'.conflict, evidencesOf_append, evidencesOf_append, evidencesOf_cons,
        if_neg (Ne.symm heq)]

/-! ## What a copy leaves of the order -/

theorem rebuild_bare (h : isStructured event = true) (positions : List Nat) :
    BareResult (rebuildEventWithFills event [] positions) := by
  cases event with
  | immediateFillBackfillResult fills => exact .immediate
  | reconcileResult status v filled remaining fills complete => exact .reconcile
  | unknownBackfillResult exhaustive matched =>
      refine .unknown fun m hm => ?_
      simp only [List.map_nil, List.zip_nil_right, List.filter_nil, List.mem_map] at hm
      obtain ⟨x, -, rfl⟩ := hm
      rfl
  | _ => cases h

/-- A result without fills does not leave an order that is not frozen halted for a side. -/
theorem orderPart_unsided {x : OrderTxnRecord × OrderAfter}
    (hb : BareResult event) (hs : isRestartFrozen order.state = false)
    (h : orderPart order event' (some (applyEvent order.state order.ctx event)) = .ok (some x)) :
    x.2.state ≠ .halted (.crossCheckMismatch sideText) := by
  have hun := applyEvent_unsided hb hs order.ctx
  generalize applyEvent order.state order.ctx event = core at h hun
  obtain ⟨o, ctx⟩ := core
  simp only [orderPart, bind, Except.bind] at h
  split at h
  · split at h
    · cases h
    · cases h
      intro hhalted
      simp only [stateAfterTransition] at hhalted
      cases hnew : o.newState with
      | none =>
          rw [hnew] at hhalted
          rw [show order.state = _ from hhalted] at hs
          cases hs
      | some s =>
          rw [hnew] at hhalted
          exact hun.ne (hnew.trans (congrArg some hhalted))
  · cases h

/-- The row halts for a batch that is all of the other side. -/
theorem BatchParts.halts (b : BatchParts order inv event es t) (hrow : rowForeign order inv = false)
    (hs : isRestartFrozen order.state = false)
    (hall : allSideMismatch (adjudicate order inv es).1 = true) :
    ∃ a, t.after = some a ∧ a.state = .halted (.crossCheckMismatch sideText) := by
  have hcore : b.core =
      some (haltWithReason (.crossCheckMismatch sideText) [], order.ctx) := by
    rw [b.core_eq]
    simp only [batchCore, hrow, hall, hs, Bool.false_eq_true, if_false, if_true]
    rfl
  have hpart := b.part_eq
  have hchanged : ∀ s c,
      orderChanged order (haltWithReason (.crossCheckMismatch sideText) []) s c = true := by
    intro s c
    simp [orderChanged, haltWithReason, TransitionOutcome.effects]
  rw [hcore] at hpart
  simp only [orderPart, hchanged, if_true, bind, Except.bind] at hpart
  split at hpart
  · cases hpart
  · exact ⟨_, by rw [b.after, ← Except.ok.inj hpart]; rfl, rfl⟩

/-- Once the copy counts, a batch that is all of the other side does not halt the row any more. -/
theorem Repeats.unsided (h : Repeats order inv l r e A B pc σ) (hi : Inserts f l.length event event')
    (hrow : rowForeign order inv = false) (hs : isRestartFrozen order.state = false)
    (hall : allSideMismatch (A ++ B) = true) (hq : e.qty ≠ 0)
    (b' : BatchParts order inv event' (l ++ e :: r) t') {a : OrderAfter} (ha : t'.after = some a) :
    a.state ≠ .halted (.crossCheckMismatch sideText) := by
  have hz : pc ≠ .ignoredZero := fun hz => hq ((judge_counts _ e).2 (h.verdict.symm.trans hz))
  have hadmitted : admittedFills σ (A ++ (e, pc) :: B) = [] := by
    rw [admittedFills_insert h.plain, admittedFills, List.filterMap_eq_nil_iff]
    rintro ⟨x, pc'⟩ hx
    cases pc' with
    | admitted s => exact absurd rfl (allSideMismatch_unadmitted hall _ hx s)
    | _ => rfl
  have hstructured : isStructured event' = true := hi.structured.trans hi.isStructured
  have hcore : b'.core = some (applyEvent order.state order.ctx
      (rebuildEventWithFills event' [] (admittedAt (A ++ (e, pc) :: B)))) := by
    rw [b'.core_eq, h.twice]
    simp only [batchCore, hrow, allSideMismatch_insert h.plain, hz, hadmitted, hstructured,
      decide_false, Bool.and_false, Bool.false_eq_true, if_false, Bool.or_true, if_true]
  have hpart := b'.part_eq
  rw [b'.after] at ha
  obtain ⟨x, hx, rfl⟩ := Option.map_eq_some_iff.mp ha
  rw [hcore, hx] at hpart
  exact orderPart_unsided (rebuild_bare hstructured _) hs hpart

/-- The order part of the batch with the copy, when no halt is at stake. -/
theorem Repeats.part (h : Repeats order inv l r e A B pc σ) (hi : Inserts f l.length event event')
    (hc : rowForeign order inv = false → isRestartFrozen order.state = false →
      allSideMismatch (A ++ B) = true → e.qty = 0)
    (b : BatchParts order inv event (l ++ r) t) :
    ∃ part, orderPart order event' (batchCore order inv event' (A ++ (e, pc) :: B) σ) = .ok part ∧
      part.map (·.2) = b.part.map (·.2) := by
  have hpart := b.part_eq
  rw [b.core_eq, h.once] at hpart
  rcases h.core hi hc with hcore | ⟨hnone, -, reason, hreject⟩
  · exact ⟨b.part, by rw [hcore, orderPart_name hi.name, hpart], rfl⟩
  · rw [hnone] at hpart
    exact ⟨none, by rw [hreject, orderPart_reject], by rw [← Except.ok.inj hpart]⟩

theorem Repeats.effects (h : Repeats order inv l r e A B pc σ) (hi : Inserts f l.length event event')
    (hc : rowForeign order inv = false → isRestartFrozen order.state = false →
      allSideMismatch (A ++ B) = true → e.qty = 0)
    (ht : prepareExecutionBatch order inv event (l ++ r) = .ok t)
    (ht' : prepareExecutionBatch order inv event' (l ++ e :: r) = .ok t') :
    t'.effects = t.effects := by
  rw [prepared_effects ht, prepared_effects ht', h.once, h.twice]
  rcases h.core hi hc with hcore | ⟨hnone, -, reason, hreject⟩
  · rw [hcore]
  · rw [hnone, hreject]
    rfl

/-! ## A copy is not noticed -/

theorem mismatch_of_checks (hf : event.fills[before.length]? = some f)
    (h : checkEvidenceMatchesFills event.fills (before ++ e :: mid ++ post) = .ok ()) :
    evidenceMismatch f e = none := by
  unfold checkEvidenceMatchesFills at h
  split at h
  · cases h
  · refine (checkPositions_ok ..).mp h (f, e) ?_
    refine List.mem_iff_getElem?.mpr ⟨before.length, ?_⟩
    rw [List.getElem?_zip_eq_some]
    exact ⟨hf, by simp⟩

/-- A second copy of a fill and its evidence, after the first one, leaves the order, the effects and the
plan as they were exactly when the batch without it does not halt the row for its side, no foreign row
completes an entry from the copy anew, and no other conflict of the execution is on record. -/
theorem repetition_invisible_iff
    (ht : prepareExecutionBatch order inv event (before ++ e :: mid ++ post) = .ok t)
    (hf : event.fills[before.length]? = some f)
    (hi : Inserts f (before ++ e :: mid).length event event') :
    (∃ t', prepareExecutionBatch order inv event' (before ++ e :: mid ++ e :: post) = .ok t' ∧
        Invisible t t') ↔
      Unnoticed order inv e (before ++ e :: mid) post := by
  obtain ⟨hfills, hledger⟩ := prepared_checks ht
  have he : e ∈ before ++ e :: mid := by simp
  obtain ⟨hfills', hledger'⟩ := checks_insert hi (mismatch_of_checks hf hfills) he hfills hledger
  clear hf hfills hledger
  generalize before ++ e :: mid = l at ht hi he hfills' hledger' ⊢
  obtain ⟨A, B, pc, σ, rep⟩ := adjudicate_repeats (stagedAfter_deaf he) post
  obtain ⟨b⟩ := prepareExecutionBatch_parts ht
  have hall : rowForeign order inv = false →
      (allSideMismatch (A ++ B) = true ↔ Opposed order inv (l ++ post)) := by
    intro hrow
    rw [← allSideMismatch_iff hrow, rep.once]
  constructor
  · rintro ⟨t', ht', hsame⟩
    obtain ⟨b'⟩ := prepareExecutionBatch_parts ht'
    have hside : rowForeign order inv = false → isRestartFrozen order.state = false →
        Opposed order inv (l ++ post) → e.qty = 0 := by
      intro hrow hs ho
      by_contra hq
      obtain ⟨a, ha, hhalted⟩ := b.halts hrow hs ((allSideMismatch_iff hrow _).mpr ho)
      exact rep.unsided hi hrow hs ((hall hrow).mpr ho) hq b' (hsame.after.trans ha) hhalted
    exact ⟨hside, (rep.entries hi he (fun hrow hs h => hside hrow hs ((hall hrow).mp h)) b b').mp
      hsame.entries, (conflicts_insert he b b').mp hsame.conflicts⟩
  · intro hu
    have hc : rowForeign order inv = false → isRestartFrozen order.state = false →
        allSideMismatch (A ++ B) = true → e.qty = 0 :=
      fun hrow hs h => hu.side hrow hs ((hall hrow).mp h)
    obtain ⟨part, hpart, hafter⟩ := rep.part hi hc b
    obtain ⟨t', ht'⟩ := prepareExecutionBatch_of_checks hfills' hledger' (by rw [rep.twice]; exact hpart)
    obtain ⟨b'⟩ := prepareExecutionBatch_parts ht'
    have hpart' := b'.part_eq
    rw [b'.core_eq, rep.twice, hpart] at hpart'
    refine ⟨t', ht', ?_, rep.effects hi hc ht ht', (rep.entries hi he hc b b').mpr hu.entry,
      (conflicts_insert he b b').mpr hu.conflict⟩
    rw [b.after, b'.after, ← hafter, Except.ok.inj hpart']

/-! ## A fill told twice -/

/-- An order that asks which fills answered it. -/
def askingRow (side : Side) : OrderRow :=
  ⟨tapeLedger, ⟨0⟩, .immediateFillUnattributed ⟨"v"⟩ 3 0 none none,
    OrderCtx.new ⟨"c"⟩ "M" "x" side 40 3⟩

/-- The order is told the same fill `n` times, bought at 40. -/
def tellBatch (side : Side) (n : Nat) : Except PrepareError ExecutionTransaction :=
  prepareExecutionBatch (askingRow side) (MarketInventory.new tapeLedger)
    (.immediateFillBackfillResult (List.replicate n (tapeFill (none, some 0))))
    (List.replicate n (tapeEvidence (none, some 0)))

/-- An order that bought takes the fill once, however often it is told. -/
theorem told_twice_taken_once :
    ∃ t t', tellBatch .buyYes 1 = .ok t ∧ tellBatch .buyYes 2 = .ok t' ∧ Invisible t t' := by
  cases ht : tellBatch .buyYes 1 with
  | error err =>
      have hok : (tellBatch .buyYes 1).toBool = true := by decide
      rw [ht] at hok
      cases hok
  | ok t =>
      let e := tapeEvidence (none, some 0)
      let f := tapeFill (none, some 0)
      have hone : prepareExecutionBatch (askingRow .buyYes) (MarketInventory.new tapeLedger)
          (.immediateFillBackfillResult [f]) ([] ++ e :: [] ++ []) = .ok t := ht
      have hu : Unnoticed (askingRow .buyYes) (MarketInventory.new tapeLedger) e ([] ++ e :: []) [] := by
        refine ⟨fun _ _ ho => ?_, fun hrow => ?_, fun hc => ?_⟩
        · exact absurd rfl (ho.all e (by simp) (by decide)).1
        · exact absurd hrow (by decide)
        · exact absurd hc (by decide)
      obtain ⟨t', ht', hsame⟩ := (repetition_invisible_iff hone rfl (.immediate [f] [])).mpr hu
      exact ⟨t, t', rfl, ht', hsame⟩

/-- An order that sold halts for the fill told once, and does not for the fill told twice. -/
theorem told_twice_not_halted :
    ¬ ∀ order inv event event' before e mid post f t,
      prepareExecutionBatch order inv event (before ++ e :: mid ++ post) = .ok t →
      event.fills[before.length]? = some f → Inserts f (before ++ e :: mid).length event event' →
      ∃ t', prepareExecutionBatch order inv event' (before ++ e :: mid ++ e :: post) = .ok t' ∧
        Invisible t t' := by
  intro h
  cases ht : tellBatch .sellYes 1 with
  | error err =>
      have hok : (tellBatch .sellYes 1).toBool = true := by decide
      rw [ht] at hok
      cases hok
  | ok t =>
      obtain ⟨t', ht', hsame⟩ := h (askingRow .sellYes) (MarketInventory.new tapeLedger) _ _ []
        (tapeEvidence (none, some 0)) [] [] (tapeFill (none, some 0)) t ht rfl (.immediate [_] [])
      have hone : (tellBatch .sellYes 1).toOption.bind (fun t => t.after.map (·.state)) =
          some (.halted (.crossCheckMismatch sideText)) := by decide
      have htwo : (tellBatch .sellYes 2).toOption.bind (fun t => t.after.map (·.state)) ≠
          some (.halted (.crossCheckMismatch sideText)) := by decide
      rw [ht] at hone
      rw [show tellBatch .sellYes 2 = .ok t' from ht'] at htwo
      refine htwo (Eq.trans ?_ hone)
      exact congrArg (Option.map (·.state)) hsame.after

end Omsrs.Execution
