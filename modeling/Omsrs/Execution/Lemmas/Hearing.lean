import Omsrs.Execution.Lemmas.Adjudicate

/-!
# What a batch makes of the evidences of one execution

Evidences of different executions do not meet before the core is asked. Those of one execution are heard
in turn: one that meets a conflict is put on record, the first other one is staged, the next ones are
merged. Hearing an evidence once more changes nothing.
-/

namespace Omsrs.Execution
open Omsrs.Lib Omsrs.Lifecycle Omsrs.Observation

/-! ## Hearing -/

/-- What the row has booked of an execution. A foreign row is not asked. -/
def bookedOf (order : OrderRow) (inv : MarketInventory) (id : FillId) : Option FillPayload :=
  if rowForeign order inv then none else order.ctx.appliedFills.get? id

def ownedElsewhere (order : OrderRow) (inv : MarketInventory) (id : FillId) : Bool :=
  !rowForeign order inv && (otherOwner order.ctx.clientOrderId (inv.get id)).isSome

/-- The conflict that an evidence meets while `s` is staged of its execution. -/
def contest (order : OrderRow) (inv : MarketInventory) (s : Option StagedPayload)
    (e : ExecutionEvidence) : Option ConflictClass :=
  let p := inv.get e.executionId
  let q := bookedOf order inv e.executionId
  if e.qty = 0 then none
  else if coreHit e s p q then some .core
  else if ownedElsewhere order inv e.executionId then some .ownership
  else if feeHit e s p q then some .fee
  else none

/-- What is staged of the execution of an evidence once it is heard. -/
def hear (order : OrderRow) (inv : MarketInventory) (s : Option StagedPayload)
    (e : ExecutionEvidence) : Option StagedPayload :=
  if e.qty = 0 ∨ (contest order inv s e).isSome then s
  else
    match s with
    | some sp => some (sp.merge e)
    | none =>
        if rowForeign order inv && (inv.get e.executionId).isSome then none
        else some (stageEvidence e (inv.get e.executionId) (bookedOf order inv e.executionId))

/-- What is staged of an execution once its evidences are heard. -/
def heard (order : OrderRow) (inv : MarketInventory) (s : Option StagedPayload)
    (es : List ExecutionEvidence) : Option StagedPayload := es.foldl (hear order inv) s

/-- The evidences that meet a conflict, each with what was staged then. -/
def contests (order : OrderRow) (inv : MarketInventory) :
    Option StagedPayload → List ExecutionEvidence → List (ExecutionEvidence × Option StagedPayload)
  | _, [] => []
  | s, e :: es =>
      (if (contest order inv s e).isSome then [(e, s)] else []) ++
        contests order inv (hear order inv s e) es

/-- The record of a conflict. -/
def contestFact (order : OrderRow) (inv : MarketInventory) (s : Option StagedPayload)
    (e : ExecutionEvidence) (c : ConflictClass) : ConflictFact where
  executionId := e.executionId
  conflictClass := c
  witness :=
    if c = .ownership then buildConflictWitness none (inv.get e.executionId) none
    else
      buildConflictWitness s (inv.get e.executionId)
        ((bookedOf order inv e.executionId).map fun q => (order.ctx.clientOrderId, q))
  evidence := e

variable {order : OrderRow} {inv : MarketInventory} {e e' : ExecutionEvidence}
  {s s' : Option StagedPayload} {σ : Staging} {id : FillId}

theorem heard_append (l r : List ExecutionEvidence) :
    heard order inv s (l ++ r) = heard order inv (heard order inv s l) r := List.foldl_append

theorem contests_append (l r : List ExecutionEvidence) :
    contests order inv s (l ++ r) =
      contests order inv s l ++ contests order inv (heard order inv s l) r := by
  induction l generalizing s with
  | nil => rfl
  | cons e l ih => simp only [List.cons_append, contests, ih, List.append_assoc, heard, List.foldl_cons]

/-- It counts nothing, or it meets a conflict. -/
def Unheard (order : OrderRow) (inv : MarketInventory) (s : Option StagedPayload)
    (e : ExecutionEvidence) : Prop := e.qty = 0 ∨ (contest order inv s e).isSome

theorem hear_unheard (h : Unheard order inv s e) : hear order inv s e = s := if_pos h

theorem hear_staged {sp : StagedPayload} (h : ¬ Unheard order inv (some sp) e) :
    hear order inv (some sp) e = some (sp.merge e) := if_neg h

theorem hear_entered (h : (rowForeign order inv && (inv.get e.executionId).isSome) = true) :
    hear order inv none e = none := by
  simp only [hear, h, if_true, ite_self]

theorem hear_fresh (h : ¬ Unheard order inv none e)
    (hp : ¬ (rowForeign order inv && (inv.get e.executionId).isSome) = true) :
    hear order inv none e =
      some (stageEvidence e (inv.get e.executionId) (bookedOf order inv e.executionId)) :=
  (if_neg h).trans (if_neg hp)

/-! ## Hearing an evidence once more -/

theorem fillIn_again {α : Type} {k n : Option α} (m : Option α) (h : fillIn k n = k) :
    fillIn (fillIn k m) n = fillIn k m := by
  cases k <;> cases n <;> simp_all [fillIn]

/-- The payload lacks nothing that the evidence names. -/
def Sated (sp : StagedPayload) (e : ExecutionEvidence) : Prop := sp.merge e = sp

theorem sated_iff {sp : StagedPayload} : Sated sp e ↔
    fillIn sp.venueOrderId e.venueOrderId = sp.venueOrderId ∧
      fillIn sp.feeCents e.feeCents = sp.feeCents ∧
      fillIn sp.claimedClientOrderId e.claimedClientOrderId = sp.claimedClientOrderId := by
  obtain ⟨side, qty, price, ts, v, c, f, src⟩ := sp
  simp only [Sated, StagedPayload.merge, StagedPayload.mk.injEq, true_and, and_true]
  exact ⟨fun ⟨hv, hc, hf⟩ => ⟨hv, hf, hc⟩, fun ⟨hv, hf, hc⟩ => ⟨hv, hc, hf⟩⟩

theorem Sated.merge {sp : StagedPayload} (h : Sated sp e) (e' : ExecutionEvidence) :
    Sated (sp.merge e') e := by
  obtain ⟨hv, hf, hc⟩ := sated_iff.mp h
  exact sated_iff.mpr ⟨fillIn_again _ hv, fillIn_again _ hf, fillIn_again _ hc⟩

theorem sated_merge (sp : StagedPayload) (e : ExecutionEvidence) : Sated (sp.merge e) e := by
  have h : ∀ {α : Type} (k n : Option α), fillIn (fillIn k n) n = fillIn k n := by
    intro α k n
    cases k <;> cases n <;> rfl
  exact sated_iff.mpr ⟨h _ _, h _ _, h _ _⟩

theorem sated_stage (e : ExecutionEvidence) (p : Option InventoryEntry) (q : Option FillPayload) :
    Sated (stageEvidence e p q) e := by
  have h : ∀ {α : Type} (k n : Option α), fillIn (k.or n) n = k.or n := by
    intro α k n
    cases k <;> cases n <;> rfl
  refine sated_iff.mpr ⟨h _ _, h _ _, ?_⟩
  cases hc : e.claimedClientOrderId <;> simp [stageEvidence, fillIn, hc]

/-- `s'` says what `s` says, and possibly more. -/
def Follows (s s' : Option StagedPayload) : Prop := ∀ sp, s = some sp → ∃ sp', s' = some sp' ∧ Grows sp sp'

theorem bothUnequal_grows {α : Type} [DecidableEq α] {a b b' : Option α}
    (hb : ∀ x, b = some x → b' = some x) (h : bothUnequal a b = true) : bothUnequal a b' = true := by
  cases b with
  | none => cases a <;> cases h
  | some y =>
      rw [hb y rfl]
      exact h

theorem coreDisagree_grows {q p qs ps : Nat} {v vs vs' : Option VenueOrderId}
    (hv : ∀ x, vs = some x → vs' = some x) (h : coreDisagreeQtyPriceVenue q p v qs ps vs = true) :
    coreDisagreeQtyPriceVenue q p v qs ps vs' = true := by
  simp only [coreDisagreeQtyPriceVenue, Bool.or_eq_true] at h ⊢
  exact h.imp_right (bothUnequal_grows hv)

theorem coreDisagree_grows_left {q p qs ps : Nat} {v vs vs' : Option VenueOrderId}
    (hv : ∀ x, vs = some x → vs' = some x) (h : coreDisagreeQtyPriceVenue qs ps vs q p v = true) :
    coreDisagreeQtyPriceVenue qs ps vs' q p v = true := by
  have hsymm : ∀ a b, coreDisagreeQtyPriceVenue qs ps a q p b = coreDisagreeQtyPriceVenue q p b qs ps a := by
    intro a b
    cases a <;> cases b <;> simp [coreDisagreeQtyPriceVenue, bothUnequal, eq_comm]
  rw [hsymm] at h ⊢
  exact coreDisagree_grows hv h

/-- A disagreement stays while what is staged grows. -/
theorem coreHit_grows {p : Option InventoryEntry} {q : Option FillPayload} (hs : Follows s s')
    (h : coreHit e s p q = true) : coreHit e s' p q = true := by
  cases s with
  | none =>
      simp only [coreHit, Option.any_none, anyPair, Bool.false_or, Bool.or_false, Bool.or_eq_true] at h ⊢
      rcases h with (h | h) | h <;> simp [h]
  | some sp =>
      obtain ⟨sp', rfl, hg⟩ := hs sp rfl
      simp only [coreHit, anyPair, Option.any_some, Bool.or_eq_true] at h ⊢
      refine h.imp_left (.imp (.imp (.imp_left (.imp_left ?_)) ?_) ?_)
      · simp only [disagreesStaged, Bool.or_eq_true, hg.side, hg.qty, hg.price]
        exact .imp_right (coreDisagree_grows hg.venue)
      · cases p with
        | none => exact id
        | some x =>
            simp only [Option.any_some, stagedDisagreesEntry, Bool.or_eq_true, hg.side, hg.qty, hg.price]
            exact .imp_right (coreDisagree_grows_left hg.venue)
      · cases q with
        | none => exact id
        | some x =>
            simp only [Option.any_some, stagedDisagreesApplied, hg.qty, hg.price]
            exact coreDisagree_grows_left hg.venue

theorem feeHit_grows {p : Option InventoryEntry} {q : Option FillPayload} (hs : Follows s s')
    (h : feeHit e s p q = true) : feeHit e s' p q = true := by
  have hfee : ∀ x, s.bind (·.feeCents) = some x → s'.bind (·.feeCents) = some x := by
    intro x hx
    obtain ⟨sp, hsp, hf⟩ := Option.bind_eq_some_iff.mp hx
    obtain ⟨sp', rfl, hg⟩ := hs sp hsp
    exact Option.bind_eq_some_iff.mpr ⟨sp', rfl, hg.fee x hf⟩
  have hflip : ∀ {b : Option Nat}, feeConflict (s.bind (·.feeCents)) b = true →
      feeConflict (s'.bind (·.feeCents)) b = true := by
    intro b hb
    have hsymm : ∀ a b : Option Nat, feeConflict a b = feeConflict b a := by
      intro a b
      cases a <;> cases b <;> simp [feeConflict, bothUnequal, eq_comm]
    rw [hsymm] at hb ⊢
    exact bothUnequal_grows hfee hb
  simp only [feeHit, Bool.or_eq_true] at h ⊢
  rcases h with ((((h | h) | h) | h) | h) | h
  · exact .inl (.inl (.inl (.inl (.inl (bothUnequal_grows hfee h)))))
  · exact .inl (.inl (.inl (.inl (.inr h))))
  · exact .inl (.inl (.inl (.inr h)))
  · exact .inl (.inl (.inr (hflip h)))
  · exact .inl (.inr (hflip h))
  · exact .inr h

theorem contest_grows (hs : Follows s s') (h : (contest order inv s e).isSome = true) :
    (contest order inv s' e).isSome = true := by
  unfold contest at h ⊢
  dsimp only at h ⊢
  split at h
  · cases h
  · rename_i hq
    rw [if_neg hq]
    split at h
    · rename_i hc
      rw [if_pos (coreHit_grows hs hc)]
      rfl
    · split
      · rfl
      · split at h
        · rename_i ho
          rw [if_pos ho]
          rfl
        · rename_i ho
          rw [if_neg ho]
          split at h
          · rename_i hf
            rw [if_pos (feeHit_grows hs hf)]
            rfl
          · cases h

/-- Hearing lets what is staged grow. -/
theorem hear_follows (s : Option StagedPayload) (e : ExecutionEvidence) :
    Follows s (hear order inv s e) := by
  intro sp hsp
  subst hsp
  by_cases h : Unheard order inv (some sp) e
  · exact ⟨sp, hear_unheard h, .refl sp⟩
  · exact ⟨_, hear_staged h, .merge sp e⟩

/-- Hearing the evidence changes nothing. -/
def Deaf (order : OrderRow) (inv : MarketInventory) (s : Option StagedPayload)
    (e : ExecutionEvidence) : Prop := hear order inv s e = s

theorem deaf_of_sated {sp : StagedPayload} (h : Sated sp e) : Deaf order inv (some sp) e := by
  by_cases hu : Unheard order inv (some sp) e
  · exact hear_unheard hu
  · exact (hear_staged hu).trans (congrArg some h)

theorem deaf_hear (s : Option StagedPayload) (e : ExecutionEvidence) :
    Deaf order inv (hear order inv s e) e := by
  by_cases hu : Unheard order inv s e
  · rw [hear_unheard hu]
    exact hear_unheard hu
  · cases s with
    | some sp =>
        rw [hear_staged hu]
        exact deaf_of_sated (sated_merge sp e)
    | none =>
        by_cases hp : (rowForeign order inv && (inv.get e.executionId).isSome) = true
        · rw [hear_entered hp]
          exact hear_entered hp
        · rw [hear_fresh hu hp]
          exact deaf_of_sated (sated_stage ..)

/-- What is heard already stays heard. -/
theorem Deaf.after (h : Deaf order inv s e) (hid : e'.executionId = e.executionId) :
    Deaf order inv (hear order inv s e') e := by
  by_cases hu : Unheard order inv s e
  · exact hear_unheard (hu.imp_right (contest_grows (hear_follows s e')))
  · by_cases hu' : Unheard order inv s e'
    · rw [hear_unheard hu']
      exact h
    · cases s with
      | some sp =>
          have hs : Sated sp e := Option.some.inj ((hear_staged hu).symm.trans h)
          rw [hear_staged hu']
          exact deaf_of_sated (hs.merge e')
      | none =>
          by_cases hp : (rowForeign order inv && (inv.get e.executionId).isSome) = true
          · rw [hear_entered (hid ▸ hp)]
            exact hear_entered hp
          · exact absurd ((hear_fresh hu hp).symm.trans h) (by simp)

theorem Deaf.heard (h : Deaf order inv s e) {es : List ExecutionEvidence}
    (hid : ∀ x ∈ es, x.executionId = e.executionId) : Deaf order inv (heard order inv s es) e := by
  induction es generalizing s with
  | nil => exact h
  | cons x es ih =>
      exact ih (h.after (hid x List.mem_cons_self)) fun y hy => hid y (List.mem_cons_of_mem _ hy)

/-- An evidence that has been heard is not heard again. -/
theorem heard_deaf {l r : List ExecutionEvidence} (hr : ∀ x ∈ r, x.executionId = e.executionId) :
    Deaf order inv (heard order inv s (l ++ e :: r)) e := by
  rw [heard_append]
  exact (deaf_hear _ e).heard hr

/-! ## Verdicts -/

def judge (order : OrderRow) (inv : MarketInventory) (σ : Staging) (e : ExecutionEvidence) :
    PreCore × Staging :=
  if rowForeign order inv then adjudicateForeign (foreignRefusal order inv) inv σ e
  else adjudicateRow order inv σ e

def isSide : OrderDisposition → Bool
  | .refused (.sideMismatch ..) => true
  | _ => false

/-- What an evidence is told, by what is staged of its execution. -/
inductive Verdict (order : OrderRow) (inv : MarketInventory) (σ : Staging) (e : ExecutionEvidence) :
    PreCore × Staging → Prop
  | zero (h : e.qty = 0) : Verdict order inv σ e (.ignoredZero, σ)
  | contested {od : OrderDisposition} {c : ConflictClass} (hod : isSide od = false)
      (h : contest order inv (σ.get? e.executionId) e = some c) :
      Verdict order inv σ e (refuseConflict od (inv.get e.executionId)
        (contestFact order inv (σ.get? e.executionId) e c), σ)
  | repeated {od : OrderDisposition} {sp : StagedPayload} (hod : isSide od = false)
      (hs : σ.get? e.executionId = some sp) (h : ¬ Unheard order inv (σ.get? e.executionId) e) :
      Verdict order inv σ e (.refused od .duplicate (inv.get e.executionId) none,
        σ.insert e.executionId (sp.merge e))
  | admitted (hrow : rowForeign order inv = false) (hs : σ.get? e.executionId = none)
      (h : ¬ Unheard order inv (σ.get? e.executionId) e) :
      Verdict order inv σ e
        (.admitted (stageEvidence e (inv.get e.executionId) (bookedOf order inv e.executionId)),
          σ.insert e.executionId
            (stageEvidence e (inv.get e.executionId) (bookedOf order inv e.executionId)))
  | entered {od : OrderDisposition} {i : InventoryDisposition} {ea : Option InventoryEntry}
      {p : InventoryEntry} (hrow : rowForeign order inv = true) (hod : isSide od = false)
      (hs : σ.get? e.executionId = none) (hp : inv.get e.executionId = some p)
      (h : ¬ Unheard order inv (σ.get? e.executionId) e) :
      Verdict order inv σ e (.refused od i ea none, σ)
  | fresh {od : OrderDisposition} {i : InventoryDisposition} {ea : Option InventoryEntry}
      (hrow : rowForeign order inv = true) (hod : isSide od = false)
      (hs : σ.get? e.executionId = none) (hp : inv.get e.executionId = none)
      (h : ¬ Unheard order inv (σ.get? e.executionId) e) :
      Verdict order inv σ e (.refused od i ea none,
        σ.insert e.executionId
          (stageEvidence e (inv.get e.executionId) (bookedOf order inv e.executionId)))

theorem judge_verdict (order : OrderRow) (inv : MarketInventory) (σ : Staging)
    (e : ExecutionEvidence) : Verdict order inv σ e (judge order inv σ e) := by
  unfold judge
  by_cases hrow : rowForeign order inv = true
  · have hq : bookedOf order inv e.executionId = none := if_pos hrow
    have ho : ownedElsewhere order inv e.executionId = false := by simp [ownedElsewhere, hrow]
    rw [if_pos hrow]
    unfold adjudicateForeign
    dsimp only
    split
    · exact .zero ‹_›
    · rename_i hz
      split
      · rename_i hc
        have hcontest : contest order inv (σ.get? e.executionId) e = some .core := by
          simp [contest, hz, hq, hc]
        have := @Verdict.contested order inv σ e (.refused (foreignRefusal order inv)) .core rfl hcontest
        simpa [contestFact, hq] using this
      · rename_i hc
        split
        · rename_i hf
          have hcontest : contest order inv (σ.get? e.executionId) e = some .fee := by
            simp [contest, hz, hq, hc, hf, ho]
          have := @Verdict.contested order inv σ e (.refused (foreignRefusal order inv)) .fee rfl
            hcontest
          simpa [contestFact, hq] using this
        · rename_i hf
          have hu : ¬ Unheard order inv (σ.get? e.executionId) e := by
            simp [Unheard, contest, hz, hq, hc, hf, ho]
          split
          · exact .repeated rfl ‹_› hu
          · rename_i p hs hp
            split <;> exact .entered hrow rfl hs hp hu
          · rename_i hs hp
            have := @Verdict.fresh order inv σ e (.refused (foreignRefusal order inv))
              (.ingested .rowForeign) (some ((stageEvidence e none none).toEntry none .rowForeign))
              hrow rfl hs hp hu
            simpa [hq, hp] using this
  · have hrow' : rowForeign order inv = false := by simpa using hrow
    have hq : bookedOf order inv e.executionId = order.ctx.appliedFills.get? e.executionId := if_neg hrow
    rw [if_neg hrow]
    unfold adjudicateRow
    dsimp only
    rw [← hq]
    split
    · exact .zero ‹_›
    · rename_i hz
      split
      · rename_i hc
        have hcontest : contest order inv (σ.get? e.executionId) e = some .core := by
          simp [contest, hz, hc]
        have := @Verdict.contested order inv σ e (.refused (.conflictingExecution .core)) .core rfl
          hcontest
        simpa [contestFact] using this
      · rename_i hc
        split
        · rename_i owner p howner hp
          have ho : ownedElsewhere order inv e.executionId = true := by
            simp [ownedElsewhere, hrow', howner]
          have hcontest : contest order inv (σ.get? e.executionId) e = some .ownership := by
            simp [contest, hz, hc, ho]
          have := @Verdict.contested order inv σ e (.refused (.duplicateOtherOwner owner)) .ownership rfl
            hcontest
          simpa [contestFact, hp, buildConflictWitness] using this
        · rename_i hother
          have ho : ownedElsewhere order inv e.executionId = false := by
            cases howner : otherOwner order.ctx.clientOrderId (inv.get e.executionId) with
            | none => simp [ownedElsewhere, howner]
            | some o =>
                cases hp : inv.get e.executionId with
                | none => simp [otherOwner, hp] at howner
                | some p => exact absurd hp (hother o p howner)
          split
          · rename_i hf
            have hcontest : contest order inv (σ.get? e.executionId) e = some .fee := by
              simp [contest, hz, hc, ho, hf]
            have := @Verdict.contested order inv σ e (.refused .feeConflict) .fee rfl hcontest
            simpa [contestFact] using this
          · rename_i hf
            have hu : ¬ Unheard order inv (σ.get? e.executionId) e := by
              simp [Unheard, contest, hz, hc, ho, hf]
            split
            · exact .repeated rfl ‹_› hu
            · exact .admitted hrow' ‹_› hu

/-- A verdict stages what hearing leaves. -/
theorem judge_staging (order : OrderRow) (inv : MarketInventory) (σ : Staging) (e : ExecutionEvidence)
    (id : FillId) :
    (judge order inv σ e).2.get? id =
      if id = e.executionId then hear order inv (σ.get? id) e else σ.get? id := by
  have hkeep : Deaf order inv (σ.get? e.executionId) e →
      σ.get? id = if id = e.executionId then hear order inv (σ.get? id) e else σ.get? id := by
    intro h
    split
    · rename_i hid
      rw [hid]
      exact h.symm
    · rfl
  have hstage : ∀ {sp : StagedPayload}, hear order inv (σ.get? e.executionId) e = some sp →
      (σ.insert e.executionId sp).get? id =
        if id = e.executionId then hear order inv (σ.get? id) e else σ.get? id := by
    intro sp h
    rw [OrdMap.get?_insert]
    split
    · rename_i hid
      rw [hid, h]
    · rfl
  have hv := judge_verdict order inv σ e
  generalize judge order inv σ e = r at hv ⊢
  cases hv with
  | zero h => exact hkeep (hear_unheard (.inl h))
  | contested _ h => exact hkeep (hear_unheard (.inr (by rw [h]; rfl)))
  | repeated _ hs h =>
      rw [hs] at h
      exact hstage (by rw [hs]; exact hear_staged h)
  | admitted hrow hs h =>
      rw [hs] at h
      exact hstage (by rw [hs]; exact hear_fresh h (by simp [hrow]))
  | entered hrow _ hs hp _ =>
      refine hkeep ?_
      rw [hs]
      exact hear_entered (by simp [hrow, hp])
  | fresh hrow _ hs hp h =>
      rw [hs] at h
      exact hstage (by rw [hs]; exact hear_fresh h (by simp [hp]))

/-- A verdict that is neither an admission nor a refusal for the side. -/
def PreCore.isPlain : PreCore → Bool
  | .admitted _ => false
  | pc => !pc.isSideMismatch

theorem isPlain_refused {od : OrderDisposition} (h : isSide od = false) (i : InventoryDisposition)
    (ea : Option InventoryEntry) (cf : Option ConflictFact) : (PreCore.refused od i ea cf).isPlain := by
  cases od with
  | refused r =>
      cases r with
      | sideMismatch a b => cases h
      | _ => rfl
  | _ => rfl

/-- What is heard already leaves the staging, and is neither admitted nor refused for its side. -/
theorem judge_deaf (h : Deaf order inv (σ.get? e.executionId) e) :
    (judge order inv σ e).2 = σ ∧ (judge order inv σ e).1.isPlain = true := by
  constructor
  · apply OrdMap.ext_get?
    intro id
    rw [judge_staging]
    split
    · rename_i hid
      rw [hid]
      exact h
    · rfl
  · have hv := judge_verdict order inv σ e
    generalize judge order inv σ e = r at hv ⊢
    cases hv with
    | zero h => rfl
    | contested hod h => exact isPlain_refused hod ..
    | repeated hod hs h => exact isPlain_refused hod ..
    | admitted hrow hs hu =>
        rw [hs] at h hu
        exact absurd ((hear_fresh hu (by simp [hrow])).symm.trans h) (by simp)
    | entered _ hod _ _ _ => exact isPlain_refused hod ..
    | fresh _ hod _ _ _ => exact isPlain_refused hod ..

/-! ## One pass -/

/-- The evidences of one execution. -/
def evidencesOf (id : FillId) (es : List ExecutionEvidence) : List ExecutionEvidence :=
  es.filter fun e => decide (e.executionId = id)

theorem mem_evidencesOf {es : List ExecutionEvidence} :
    e ∈ evidencesOf id es ↔ e ∈ es ∧ e.executionId = id := by simp [evidencesOf]

theorem evidencesOf_append (l r : List ExecutionEvidence) :
    evidencesOf id (l ++ r) = evidencesOf id l ++ evidencesOf id r := List.filter_append ..

theorem evidencesOf_cons (e : ExecutionEvidence) (es : List ExecutionEvidence) :
    evidencesOf id (e :: es) =
      if e.executionId = id then e :: evidencesOf id es else evidencesOf id es := by
  simp only [evidencesOf, List.filter_cons, decide_eq_true_eq]

/-- A pass stages what its evidences of an execution leave, heard in turn. -/
theorem adjudicateAll_staging (σ : Staging) (es : List ExecutionEvidence) (id : FillId) :
    (adjudicateAll (judge order inv) σ es).2.get? id =
      heard order inv (σ.get? id) (evidencesOf id es) := by
  induction es generalizing σ with
  | nil => rfl
  | cons e es ih =>
      simp only [adjudicateAll]
      rw [ih, judge_staging, evidencesOf_cons]
      by_cases hid : e.executionId = id
      · simp only [hid, if_true, heard, List.foldl_cons]
      · simp only [hid, Ne.symm hid, if_false]

theorem adjudicateAll_append (judge : Staging → ExecutionEvidence → PreCore × Staging) (σ : Staging)
    (l r : List ExecutionEvidence) :
    adjudicateAll judge σ (l ++ r) =
      ((adjudicateAll judge σ l).1 ++ (adjudicateAll judge (adjudicateAll judge σ l).2 r).1,
        (adjudicateAll judge (adjudicateAll judge σ l).2 r).2) := by
  induction l generalizing σ with
  | nil => rfl
  | cons e l ih => simp only [List.cons_append, adjudicateAll, ih]

theorem adjudicateAll_length (judge : Staging → ExecutionEvidence → PreCore × Staging) (σ : Staging)
    (es : List ExecutionEvidence) : (adjudicateAll judge σ es).1.length = es.length := by
  induction es generalizing σ with
  | nil => rfl
  | cons e es ih => simp only [adjudicateAll, List.length_cons, ih]

theorem adjudicate_judge (order : OrderRow) (inv : MarketInventory) (es : List ExecutionEvidence) :
    adjudicate order inv es =
      if rowForeign order inv then adjudicateAll (judge order inv) .empty es
      else
        crossCheckSide order inv (adjudicateAll (judge order inv) .empty es).2
          (adjudicateAll (judge order inv) .empty es).1 := by
  unfold adjudicate
  split
  · rename_i h
    have : judge order inv = adjudicateForeign (foreignRefusal order inv) inv := by
      funext σ e
      exact if_pos h
    rw [this]
  · rename_i h
    have : judge order inv = adjudicateRow order inv := by
      funext σ e
      exact if_neg h
    rw [this]

/-! ## Conflicts -/

/-- What goes on record of an evidence that meets a conflict. -/
def recordOf (order : OrderRow) (inv : MarketInventory)
    (x : ExecutionEvidence × Option StagedPayload) : Option ConflictFact :=
  (contest order inv x.2 x.1).map (contestFact order inv x.2 x.1)

/-- The record of one verdict. -/
def PreCore.record : PreCore → Option ConflictFact
  | .refused _ _ _ cf => cf
  | _ => none

theorem plannedFacts_record (pre : List (ExecutionEvidence × PreCore)) :
    plannedFacts pre = pre.filterMap fun a => a.2.record.map fun fact => (fact.executionId, fact) := by
  refine List.filterMap_congr fun a _ => ?_
  obtain ⟨e, pc⟩ := a
  cases pc with
  | refused od i ea cf => cases cf <;> rfl
  | _ => rfl

theorem judge_record (order : OrderRow) (inv : MarketInventory) (σ : Staging) (e : ExecutionEvidence) :
    (judge order inv σ e).1.record = recordOf order inv (e, σ.get? e.executionId) := by
  have hnone : Unheard order inv (σ.get? e.executionId) e = False →
      recordOf order inv (e, σ.get? e.executionId) = none := by
    intro h
    have hc : ¬ (contest order inv (σ.get? e.executionId) e).isSome = true := fun hc => h ▸ (Or.inr hc)
    simp only [recordOf, Option.not_isSome_iff_eq_none.mp hc, Option.map_none]
  have hv := judge_verdict order inv σ e
  generalize judge order inv σ e = r at hv ⊢
  cases hv with
  | zero h => simp [PreCore.record, recordOf, contest, h]
  | contested _ h => simp [PreCore.record, refuseConflict, recordOf, h]
  | repeated _ _ h => exact (hnone (eq_false h)).symm
  | admitted _ _ h => exact (hnone (eq_false h)).symm
  | entered _ _ _ _ h => exact (hnone (eq_false h)).symm
  | fresh _ _ _ _ h => exact (hnone (eq_false h)).symm

theorem recordOf_id {x : ExecutionEvidence × Option StagedPayload} {fact : ConflictFact}
    (h : recordOf order inv x = some fact) : fact.executionId = x.1.executionId := by
  obtain ⟨c, -, rfl⟩ := Option.map_eq_some_iff.mp h
  rfl

theorem recordOf_evidence {x : ExecutionEvidence × Option StagedPayload} {fact : ConflictFact}
    (h : recordOf order inv x = some fact) : fact.evidence = x.1 := by
  obtain ⟨c, -, rfl⟩ := Option.map_eq_some_iff.mp h
  rfl

/-- The conflicts that a pass records of an execution. -/
theorem adjudicateAll_facts (σ : Staging) (es : List ExecutionEvidence) (id : FillId) :
    (plannedFacts (adjudicateAll (judge order inv) σ es).1).filter (fun w => decide (w.1 = id)) =
      (contests order inv (σ.get? id) (evidencesOf id es)).filterMap fun x =>
        (recordOf order inv x).map fun fact => (fact.executionId, fact) := by
  induction es generalizing σ with
  | nil => rfl
  | cons e es ih =>
      have hrest := ih (judge order inv σ e).2
      rw [judge_staging] at hrest
      have hrecord := judge_record order inv σ e
      simp only [plannedFacts_record, adjudicateAll, List.filterMap_cons, hrecord] at hrest ⊢
      rw [evidencesOf_cons]
      by_cases hid : e.executionId = id
      · subst hid
        rw [if_pos rfl] at hrest
        simp only [if_true, contests, List.filterMap_append, ← hrest]
        cases hc : contest order inv (σ.get? e.executionId) e with
        | none => simp [recordOf, hc]
        | some c => simp [recordOf, hc, contestFact]
      · rw [if_neg (Ne.symm hid)] at hrest
        simp only [hid, if_false, ← hrest]
        cases hr : recordOf order inv (e, σ.get? e.executionId) with
        | none => rfl
        | some fact =>
            have hne : fact.executionId ≠ id := fun h => hid ((recordOf_id hr).symm.trans h)
            simp [hne]

/-- Of an execution that another order owns nothing is staged. -/
theorem heard_owned (ho : ownedElsewhere order inv id = true) {es : List ExecutionEvidence}
    (hid : ∀ e ∈ es, e.executionId = id) : heard order inv none es = none := by
  induction es with
  | nil => rfl
  | cons e es ih =>
      have hu : Unheard order inv none e := by
        by_cases hq : e.qty = 0
        · exact .inl hq
        · right
          rw [← hid e List.mem_cons_self] at ho
          unfold contest
          dsimp only
          rw [if_neg hq]
          split
          · rfl
          · rfl
      rw [heard, List.foldl_cons, hear_unheard hu]
      exact ih fun x hx => hid x (List.mem_cons_of_mem _ hx)

theorem toEntry_inj {a b : StagedPayload} {owner : Option ClientOrderId} {pv : InventoryProvenance}
    (h : a.toEntry owner pv = b.toEntry owner pv) : a = b := by
  obtain ⟨side, qty, price, ts, v, claimed, fee, src⟩ := a
  obtain ⟨side', qty', price', ts', v', claimed', fee', src'⟩ := b
  simp only [StagedPayload.toEntry, InventoryEntry.mk.injEq, and_true, true_and] at h
  obtain ⟨rfl, rfl, rfl, rfl, rfl, rfl, rfl, rfl⟩ := h
  rfl

/-- A witness tells what was staged, where anything is known without it. -/
theorem buildConflictWitness_inj {p : Option InventoryEntry} {q : Option (ClientOrderId × FillPayload)}
    (hs : s = none → p.isSome ∨ q.isSome) (hs' : s' = none → p.isSome ∨ q.isSome)
    (h : buildConflictWitness s p q = buildConflictWitness s' p q) : s = s' := by
  have hother : ∀ a : StagedPayload, p.isSome ∨ q.isSome →
      buildConflictWitness (some a) p q ≠ buildConflictWitness none p q := by
    intro a hk h
    cases p with
    | some p => cases q <;> simp [buildConflictWitness] at h
    | none =>
        cases q with
        | some q => simp [buildConflictWitness] at h
        | none => simp at hk
  cases s with
  | none =>
      cases s' with
      | none => rfl
      | some b => exact absurd h.symm (hother b (hs rfl))
  | some a =>
      cases s' with
      | none => exact absurd h (hother a (hs' rfl))
      | some b =>
          simp only [buildConflictWitness, ConflictWitness.staged.injEq] at h
          exact congrArg some (toEntry_inj h)

/-- The evidence and what was staged then tell a conflict. -/
theorem recordOf_inj {x y : ExecutionEvidence × Option StagedPayload}
    (ho : ownedElsewhere order inv y.1.executionId = true → x.2 = none ∧ y.2 = none)
    (hy : (recordOf order inv y).isSome = true) (h : recordOf order inv x = recordOf order inv y) :
    x = y := by
  obtain ⟨e, s⟩ := x
  obtain ⟨e', s'⟩ := y
  obtain ⟨fact, hy⟩ := Option.isSome_iff_exists.mp hy
  rw [hy] at h
  obtain rfl : e = e' := (recordOf_evidence h).symm.trans (recordOf_evidence hy)
  obtain ⟨c, hc, hfact⟩ := Option.map_eq_some_iff.mp h
  obtain ⟨c', hc', rfl⟩ := Option.map_eq_some_iff.mp hy
  obtain rfl : c = c' := congrArg ConflictFact.conflictClass hfact
  by_cases hown : ownedElsewhere order inv e.executionId = true
  · obtain ⟨rfl, rfl⟩ := ho hown
    rfl
  · have hne : c ≠ .ownership := by
      rintro rfl
      simp only [contest, hown, Bool.false_eq_true, if_false] at hc
      repeat' split at hc
      all_goals cases hc
    -- without anything known there is no conflict
    have hknown : ∀ {s : Option StagedPayload}, contest order inv s e = some c → s = none →
        (inv.get e.executionId).isSome ∨
          ((bookedOf order inv e.executionId).map fun q => (order.ctx.clientOrderId, q)).isSome := by
      rintro s hc rfl
      by_contra hno
      simp only [not_or, Option.isSome_map, Bool.not_eq_true, Option.isSome_eq_false_iff,
        Option.isNone_iff_eq_none] at hno
      simp [contest, hno.1, hno.2, hown, coreHit, feeHit, anyPair, feeConflict, bothUnequal] at hc
    have hw := congrArg ConflictFact.witness hfact
    simp only [contestFact, hne, if_false] at hw
    obtain rfl : s = s' := buildConflictWitness_inj (hknown hc) (hknown hc') hw
    rfl

/-- An evidence that met a conflict met it with what the evidences before it had left. -/
theorem mem_contests {es : List ExecutionEvidence} {x : ExecutionEvidence × Option StagedPayload}
    (h : x ∈ contests order inv s es) :
    (contest order inv x.2 x.1).isSome = true ∧ ∃ l r, es = l ++ x.1 :: r ∧ x.2 = heard order inv s l := by
  induction es generalizing s with
  | nil => cases h
  | cons e es ih =>
      rw [contests] at h
      rcases List.mem_append.mp h with h | h
      · split at h
        · rename_i hc
          obtain rfl := List.mem_singleton.mp h
          exact ⟨hc, [], es, rfl, rfl⟩
        · cases h
      · obtain ⟨hc, l, r, rfl, hs⟩ := ih h
        exact ⟨hc, e :: l, r, rfl, hs⟩

end Omsrs.Execution
