import Omsrs.Observation.Lemmas.Known
import Omsrs.Observation.Theorems.ShellRebuild

/-!
# A known remaining quantity is the last one proved

A wire's remaining quantity is known where the last proof of it reported that quantity and just what the
wire holds, and nothing has touched the wire since. A new member of a wire of the first generation is the
one thing that goes unnoticed.
-/

namespace Omsrs.Observation
open Omsrs.Lib Omsrs.Lifecycle Omsrs.Execution

/-- The last proof of the wire reported `r` and the quantity the wire holds now, and no record since has
touched the wire as it was then. -/
def Told (s : Shell) (l : LedgerId) (w : VenueOrderId) (r : Nat) : Prop :=
  ∃ pre rec post, s.journal = pre ++ rec :: post ∧
    proofOf l w rec = some (r, heldSum (s.registry.ensure l w) (s.inventory l)) ∧
    ∀ mid next rest, post = mid ++ next :: rest →
      ∃ registry, WireRegistry.rebuild (pre ++ rec :: mid) = .ok registry ∧
        calm l w (registry.ensure l w) next = true

/-- Every remaining quantity that is known was told. -/
def KnownTold (s : Shell) : Prop :=
  ∀ l w r, s.registry.workingView l w = .known r →
    (s.registry.ensure l w).authorityHold = false ∧ Told s l w r

/-! ## The condition -/

/-- The record binds a new member to a wire of the first generation whose remaining quantity is known. -/
def bindsKnown (s : Shell) (rec : Record) : Bool :=
  (boundMembers rec).any fun b =>
    let ws := s.registry.ensure b.1 b.2.1
    decide (ws.generation = 0) && decide (WireRegistry.wireView ws ≠ .unresolved) &&
      !ws.hasMember b.2.2

/-- The record is of a fresh round over more than fits in a word. -/
def sumsOver (s : Shell) : Record → Bool
  | .observationTxn t =>
      decide (t.outcome = .consistent true) &&
        decide (u64Max < heldSum (s.registry.ensure t.ledger t.wire) (s.inventory t.ledger))
  | _ => false

/-- No record of the step binds a new member to a known wire of the first generation, or closes a fresh
round over more than fits in a word. -/
def Noticed (s : Shell) (act : ShellAction) : Prop :=
  ∀ rec ∈ (shell.step s act).2.journal.drop s.journal.length,
    bindsKnown s rec = false ∧ sumsOver s rec = false

instance (s : Shell) (act : ShellAction) : Decidable (Noticed s act) :=
  inferInstanceAs (Decidable (∀ rec ∈ (shell.step s act).2.journal.drop s.journal.length,
    bindsKnown s rec = false ∧ sumsOver s rec = false))

/-! ## What a wire holds is there -/

/-- The executions a wire holds have entries. -/
def Stocked (s : Shell) : Prop :=
  ∀ l w id, (s.registry.ensure l w).held.contains id = true → ∃ p, (s.inventory l).get id = some p

variable {s s' : Shell} {act : ShellAction} {l : LedgerId} {w : VenueOrderId} {r : Nat}

theorem stocked_new : Stocked .new := fun _ _ _ h => nomatch h

theorem Moved.stocked (h : Moved s act s') (hs : Stocked s) : Stocked s' := by
  have hsame : (∀ l w, (s'.registry.ensure l w).held = (s.registry.ensure l w).held) →
      (∀ l, s'.inventory l = s.inventory l) → Stocked s' := by
    intro hheld hinv l w id hid
    rw [hheld] at hid
    rw [hinv]
    exact hs l w id hid
  cases h with
  | idle => exact hs
  | created _ => exact hsame (fun _ _ => rfl) fun _ => rfl
  | ordered _ _ _ _ hfold =>
      refine hsame (fun l w => ?_) fun _ => rfl
      rcases WireRegistry.foldOrderPart_ok hfold with ⟨-, rfl⟩ | ⟨-, -, hw⟩
      · rfl
      · rw [hw]
        exact (WireState.foldOrder_sameEvidence _ _ _ _ _).held
  | @executed l' target t part _ hprep _ h =>
      intro l w id hid
      rw [h.wires, foldExecutions_held, foldPart_held] at hid
      rw [h.inventory]
      rcases hid with hid | ⟨rfl, x, hx, -⟩
      · split
        · rename_i hl
          subst hl
          rw [MarketInventory.install_get]
          cases ht : t.plannedEntries.get? id with
          | none => exact hs l w id hid
          | some y => exact ⟨y, rfl⟩
        · exact hs l w id hid
      · rw [if_pos rfl, MarketInventory.install_get, hprep.prepared.wellPlanned.entries]
        cases hy : (OrdMap.empty.insertAll (t.outcomes.filterMap (·.write))).get? id with
        | none =>
            exact absurd (List.mem_map_of_mem (f := Prod.fst) hx) (OrdMap.get?_insertAll_none.mp hy)
        | some y => exact ⟨y, rfl⟩
  | observed _ _ hround hfin h =>
      refine hsame (fun l w => ?_) fun l => by simp only [Shell.inventory, h.inventories]
      rw [h.registry, WireRegistry.ensure_set]
      split
      · rename_i hw
        have hf := ObservationRound.finish_ok hfin
        rw [hf.wireAfter, hround.1, hround.2, hw.1, hw.2]
        rfl
      · rfl
  | noted hrec hfold =>
      refine hsame (fun l w => ?_) fun _ => rfl
      obtain ⟨l', w', ws', hnoted, hw⟩ := hrec.wire hfold
      rw [hw]
      split
      · rename_i heq
        rw [heq.1, heq.2, hnoted.held_eq]
      · rfl

/-- A step changes no quantity of what a wire holds. -/
theorem heldSum_step (h : Moved s act s') (hs : Stocked s)
    (hheld : (s'.registry.ensure l w).held = (s.registry.ensure l w).held) :
    heldSum (s'.registry.ensure l w) (s'.inventory l) =
      heldSum (s.registry.ensure l w) (s.inventory l) := by
  rw [heldSum, heldSum, hheld]
  refine congrArg _ (List.map_congr_left fun id hid => ?_)
  rw [OrdMap.mem_keys, ← OrdMap.contains_iff] at hid
  obtain ⟨p, hp⟩ := hs l w id hid
  obtain ⟨p', hp', hq⟩ := h.keepsQty l id p hp
  simp [hp, hp', hq]

/-! ## What was proved is of a member -/

def AllGrounded (s : Shell) : Prop := ∀ l w, Grounded (s.registry.ensure l w)

theorem allGrounded_new : AllGrounded .new := fun _ _ => grounded_venueOnly

theorem proved_grounded {ws : WireState} {cid : ClientOrderId} (h : ws.currentCid = some cid) (r : Nat) :
    Grounded (ws.proved cid r) := by
  refine ⟨fun obs he id hid => ?_, fun obs _ _ => ⟨cid, rfl, ?_⟩⟩
  · cases he
    exact hid
  · obtain ⟨m, hm, hc, -⟩ := hasCurrent_of_currentCid h
    exact hasMember_iff.mpr (List.mem_map.mpr ⟨m, hm, hc⟩)

/-- A fresh round is one of the first generation. -/
theorem verdict_fresh {round : ObservationRound} {ws : WireState} {inv : MarketInventory}
    {row : RowEvidence} (h : verdict round ws inv row = .consistent true) :
    row.filled = ws.heldQty inv ∧ ws.generation = 0 := by
  simp only [verdict] at h
  split at h
  · cases h
  · split at h
    · cases h
    · split at h
      · cases h
      · split at h
        · cases h
        · simp only [ObservationOutcome.consistent.injEq, remainingFresh, Bool.and_eq_true,
            decide_eq_true_eq] at h
          exact ⟨h.1.1, h.1.2⟩

theorem observeWire_grounded {ws : WireState} {row : RowEvidence} {outcome : ObservationOutcome}
    (h : outcome = .consistent true → ws.generation = 0) (after : List MemberAfter) (pending : Bool) :
    Grounded (observeWire ws row outcome after pending) := by
  by_cases ho : outcome = .consistent true
  · refine ⟨fun obs he id hid => ?_, fun obs he hgen => ?_⟩
    · simp only [observeWire, closeWire, ho, if_true, Option.some.injEq] at he
      subst he
      exact hid
    · simp only [observeWire, closeWire, ho, if_true, Option.some.injEq] at he
      subst he
      rw [h ho] at hgen
      cases hgen
  · refine ⟨fun obs he => ?_, fun obs he => ?_⟩
    · simp [observeWire, closeWire, ho] at he
    · simp [observeWire, closeWire, ho] at he

theorem WireNoted.grounded {pos : Nat} {inv : MarketInventory} {ws ws' : WireState} {rec : Record}
    (h : WireNoted pos inv l w ws rec ws') (hg : Grounded ws) : Grounded ws' := by
  cases h with
  | amended _ => exact ⟨hg.covered, hg.proved⟩
  | received _ _ => exact ⟨hg.covered, hg.proved⟩
  | held => exact ⟨hg.covered, hg.proved⟩
  | rests h _ _ => exact proved_grounded h.current _
  | paged h _ _ _ =>
      have hp := proved_grounded h.current
      exact ⟨(hp _).covered, (hp _).proved⟩

theorem Moved.grounded (h : Moved s act s') (hg : AllGrounded s) : AllGrounded s' := by
  cases h with
  | idle => exact hg
  | created _ => exact hg
  | ordered _ _ _ _ hfold =>
      intro l w
      rcases WireRegistry.foldOrderPart_ok hfold with ⟨-, rfl⟩ | ⟨-, -, hw⟩
      · exact hg l w
      · rw [hw]
        exact (hg l w).foldOrder _ _ l w
  | @executed _ _ _ part _ _ _ h =>
      intro l w
      rw [h.wires]
      refine Grounded.foldExecutions ?_ _ _ _ _
      cases part with
      | none => exact hg l w
      | some x => exact (hg l w).foldOrder _ _ l w
  | observed _ _ _ hfin h =>
      intro l w
      rw [h.registry, WireRegistry.ensure_set]
      split
      · have hf := ObservationRound.finish_ok hfin
        rw [hf.wireAfter]
        exact observeWire_grounded (fun ho => (verdict_fresh (hf.outcome ▸ ho)).2) _ _
      · exact hg l w
  | noted hrec hfold =>
      intro l w
      obtain ⟨l', w', ws', hnoted, hw⟩ := hrec.wire hfold
      rw [hw]
      split
      · exact hnoted.grounded (hg l' w')
      · exact hg l w

/-! ## One record -/

/-- The step appends the record and folds it on every wire. -/
structure Folded (s s' : Shell) (rec : Record) : Prop where
  journal : s'.journal = s.journal ++ [rec]
  wires : ∀ l w, s'.registry.ensure l w =
    (s.registry.ensure l w).fold true s.journal.length l w rec
  round : ∀ t, rec ≠ .observationTxn t
  proof : ∀ l w r q, proofOf l w rec = some (r, q) →
    q = heldSum (s.registry.ensure l w) (s.inventory l) ∧
      (s'.registry.ensure l w).held = (s.registry.ensure l w).held ∧
      ∃ obs, (s'.registry.ensure l w).remainingObservation = some obs ∧ obs.remaining = r

/-- What a step does to the journal and the wires. -/
inductive Took (s s' : Shell) : Prop
  | nothing (hj : s'.journal = s.journal)
      (hw : ∀ l w, s'.registry.ensure l w = s.registry.ensure l w)
  | record {rec : Record} (h : Folded s s' rec)
  | round {l : LedgerId} {w : VenueOrderId} {keys : List OrderKey} {rows : List OrderRow}
      {ev : RowEvidence} {round : ObservationRound} {t : ObservationTransaction}
      (h : ClosedOver s s' l w keys rows ev round t)

theorem Noted.folded {rec : Record} {registry : WireRegistry} (h : Noted s act rec)
    (hfold : s.registry.fold s.journal.length rec = .ok registry) :
    Folded s { s with registry := registry, journal := s.journal ++ [rec] } rec := by
  have hwires : WireRegistry.orderPart rec = none → ∀ l w, registry.ensure l w =
      (s.registry.ensure l w).fold true s.journal.length l w rec := by
    intro hpart l w
    have hnew : s.registry.isNew rec = true := by simp [WireRegistry.isNew, hpart]
    rw [WireRegistry.ensure_fold hfold, hnew]
  cases h with
  | amend h =>
      obtain ⟨rfl, -⟩ := WireRegistry.prepareAmendLineage_ok h
      exact ⟨rfl, hwires rfl, fun _ he => (by cases he), fun _ _ _ _ hp => (by cases hp)⟩
  | frame h =>
      obtain ⟨rfl, -⟩ := WireRegistry.prepareUserOrderReceived_some.mp h
      exact ⟨rfl, hwires rfl, fun _ he => (by cases he), fun _ _ _ _ hp => (by cases hp)⟩
  | hold => exact ⟨rfl, hwires rfl, fun _ he => (by cases he), fun _ _ _ _ hp => (by cases hp)⟩
  | state h =>
      obtain ⟨e, hr, rfl, rfl, he, ht⟩ := WireRegistry.prepareOrderStateResting_ok h
      refine ⟨rfl, hwires rfl, fun _ he => (by cases he), fun l w r q hp => ?_⟩
      cases hfold
      simp only [proofOf] at hp
      split at hp
      · rename_i hw
        obtain ⟨rfl, rfl⟩ := hw
        cases hp
        simp only [WireRegistry.ensure_set_self, ht, he]
        exact ⟨(checkedHeldQty_eq_some hr.filled).symm, rfl, _, rfl, rfl⟩
      · cases hp
  | page h =>
      obtain ⟨hpage, rfl, rfl, -, hfilled, hremaining, ht⟩ := WireRegistry.prepareRestOrderProof_ok h
      refine ⟨rfl, hwires rfl, fun _ he => (by cases he), fun l w r q hp => ?_⟩
      cases hfold
      simp only [proofOf] at hp
      split at hp
      · rename_i hw
        obtain ⟨rfl, rfl⟩ := hw
        cases hp
        simp only [WireRegistry.ensure_set_self, ht, hfilled, hremaining]
        exact ⟨(checkedHeldQty_eq_some hpage.filled).symm, rfl, _, rfl, rfl⟩
      · cases hp

theorem Moved.took (h : Moved s act s') (hs : Sound s) : Took s s' := by
  cases h with
  | idle => exact .nothing rfl fun _ _ => rfl
  | created _ => exact .nothing rfl fun _ _ => rfl
  | @ordered key row event tr o a registry _ hrow _ hadv hfold =>
      rcases WireRegistry.foldOrderPart_ok hfold with ⟨hseen, -⟩ | ⟨-, -, hwires⟩
      · rw [hs.unseen hrow hadv] at hseen
        cases hseen
      · refine .record (?_ : Folded s _ (.orderTxn o))
        exact ⟨rfl, hwires, fun _ he => (by cases he), fun _ _ _ _ hp => (by cases hp)⟩
  | @executed l target t part _ hprep hpart h =>
      rcases h.journaled with ⟨hj, rfl, hw⟩ | hj
      · refine .nothing (by rw [h.journal, hj]; simp) fun l' w => ?_
        have hfold : ∀ (os : List ExecutionOutcome), os.filterMap (·.write) = [] → ∀ ws : WireState,
            os.foldl (WireState.foldExecution l l' w) ws = ws := by
          intro os
          induction os with
          | nil => exact fun _ _ => rfl
          | cons o os ih =>
              intro hos ws
              cases ho : o.write with
              | some x => simp [ho] at hos
              | none =>
                  rw [List.foldl_cons, WireState.foldExecution, ho]
                  exact ih (by simpa [ho] using hos) ws
        rw [h.wires, hfold _ hw]
        rfl
      · have hrec : Folded s s' (.executionTxn
            ⟨l, (s.inventory l).generation, t.outcomes, part.map (·.1)⟩) := by
          refine ⟨by rw [h.journal, hj]; rfl, fun l' w => ?_, fun _ he => (by cases he),
            fun _ _ _ _ hp => (by cases hp)⟩
          rw [h.wires]
          cases part <;> rfl
        exact .record hrec
  | observed _ hrows hround hfin hc => exact .round ⟨hrows, hround, hfin, hc⟩
  | noted hrec hfold => exact .record (hrec.folded hfold)

/-! ## Told -/

/-- What was told stays told when a record that leaves the wire alone is appended. -/
theorem Told.extend {rec : Record} (h : Told s l w r) (ht : Traced s)
    (hj : s'.journal = s.journal ++ [rec])
    (hsum : heldSum (s'.registry.ensure l w) (s'.inventory l) =
      heldSum (s.registry.ensure l w) (s.inventory l))
    (hc : calm l w (s.registry.ensure l w) rec = true) : Told s' l w r := by
  obtain ⟨pre, proof, post, hjournal, hproof, hcalm⟩ := h
  refine ⟨pre, proof, post ++ [rec], by rw [hj, hjournal]; simp, by rw [hsum]; exact hproof, ?_⟩
  intro mid next rest hpost
  rcases List.eq_nil_or_concat rest with rfl | ⟨rest, last, rfl⟩
  · obtain ⟨rfl, hnext⟩ := List.append_inj' hpost rfl
    cases hnext
    exact ⟨s.registry, by rw [← hjournal]; exact ht, hc⟩
  · have hcut : post ++ [rec] = (mid ++ next :: rest) ++ [last] := by simpa using hpost
    obtain ⟨hpost, -⟩ := List.append_inj' hcut rfl
    exact hcalm mid next rest hpost

theorem Told.same (h : Told s l w r) (hj : s'.journal = s.journal)
    (hsum : heldSum (s'.registry.ensure l w) (s'.inventory l) =
      heldSum (s.registry.ensure l w) (s.inventory l)) : Told s' l w r := by
  obtain ⟨pre, proof, post, hjournal, hproof, hcalm⟩ := h
  exact ⟨pre, proof, post, by rw [hj, hjournal], by rw [hsum]; exact hproof, hcalm⟩

/-- A proof that was just appended is the last one. -/
theorem told_proved {rec : Record} (hj : s'.journal = s.journal ++ [rec])
    (hp : proofOf l w rec = some (r, heldSum (s'.registry.ensure l w) (s'.inventory l))) :
    Told s' l w r :=
  ⟨s.journal, rec, [], hj, hp, fun mid next rest h => by simp at h⟩

/-- Nothing is told by a record that touched the wire. -/
theorem not_told {rec : Record} (hj : s'.journal = s.journal ++ [rec]) (ht : Traced s)
    (hp : proofOf l w rec = none) (hc : calm l w (s.registry.ensure l w) rec = false) :
    ¬ Told s' l w r := by
  rintro ⟨pre, proof, post, hjournal, hproof, hcalm⟩
  rw [hj] at hjournal
  rcases List.eq_nil_or_concat post with rfl | ⟨mid, last, rfl⟩
  · obtain ⟨-, hlast⟩ := List.append_inj' hjournal rfl
    cases hlast
    rw [hp] at hproof
    cases hproof
  · have hcut : s.journal ++ [rec] = (pre ++ proof :: mid) ++ [last] := by simpa using hjournal
    obtain ⟨hpre, hlast⟩ := List.append_inj' hcut rfl
    cases hlast
    obtain ⟨registry, hreg, hc'⟩ := hcalm mid rec [] (by simp)
    rw [← hpre, ht] at hreg
    cases hreg
    rw [hc] at hc'
    cases hc'

/-! ## A step -/

/-- What holds of the shell all along a run. -/
structure Steady (s : Shell) : Prop where
  sound : Sound s
  enrolled : Enrolled s
  traced : Traced s
  stocked : Stocked s
  grounded : AllGrounded s

theorem steady_new : Steady .new := ⟨Shell.sound_new, enrolled_new, rfl, stocked_new, allGrounded_new⟩

theorem step_steady (h : Steady s) (act : ShellAction) : Steady (shell.step s act).2 :=
  have hm := Shell.step_moved h.sound act
  ⟨step_sound h.sound act, step_enrolled h.sound h.enrolled act, step_traced h.sound h.traced act,
    hm.stocked h.stocked, hm.grounded h.grounded⟩

theorem Folded.told {rec : Record} (h : Folded s s' rec) (hm : Moved s act s') (hs : Steady s)
    (hk : KnownTold s) (hbind : bindsKnown s rec = false) : KnownTold s' := by
  intro l w r hview
  rw [workingView_known] at hview
  refine ⟨hview.free, ?_⟩
  cases hproof : proofOf l w rec with
  | some x =>
      obtain ⟨r', q⟩ := x
      obtain ⟨rfl, hheld, obs, hobs, rfl⟩ := h.proof l w r' q hproof
      have hr : obs.remaining = r := by
        have he := hview.obs
        rw [hobs, Option.some.injEq] at he
        rw [he]
      refine told_proved h.journal ?_
      rw [hproof, hr, heldSum_step hm hs.stocked hheld]
  | none =>
      rw [h.wires] at hview
      obtain ⟨hknown, hcalm, hheld⟩ := fold_known (hs.grounded l w) (hs.enrolled.formed l w) h.round hproof
        (fun hws h0 b hb hl hw => by
          have hno := List.any_eq_false.mp hbind b hb
          subst hl hw
          simpa [h0, wireView_known.mpr hws] using hno) hview
      rw [← h.wires] at hheld
      exact (hk l w r (workingView_known.mpr hknown)).2.extend hs.traced h.journal
        (heldSum_step hm hs.stocked hheld) hcalm

section Rounds

variable {keys : List OrderKey} {rows : List OrderRow} {ev : RowEvidence} {round : ObservationRound}
  {t : ObservationTransaction}

/-- The wire of the round is known after it where the round is fresh. -/
theorem ClosedOver.fresh (h : ClosedOver s s' l w keys rows ev round t)
    (hk : Known (s'.registry.ensure l w) r) :
    t.outcome = .consistent true ∧ ev.remaining = r ∧
      ev.filled = (s.registry.ensure l w).heldQty (s.inventory l) ∧
      (s'.registry.ensure l w).held = (s.registry.ensure l w).held := by
  have hf := h.finished
  have hws : s'.registry.ensure l w = t.wireAfter := by
    rw [h.closed.registry, WireRegistry.ensure_set_self]
  rw [hws, hf.wireAfter, h.wire.1, h.wire.2] at hk
  have hout : t.outcome = .consistent true := by
    have hlast := hk.last
    simpa only [observeWire, closeWire, Option.some.injEq] using hlast
  have hobs := hk.obs
  simp only [observeWire, closeWire, hout, if_true, Option.some.injEq,
    RemainingObservation.mk.injEq] at hobs
  have hverdict := verdict_fresh (hf.outcome ▸ hout)
  rw [h.wire.1, h.wire.2] at hverdict
  refine ⟨hout, hobs.1, hverdict.1, ?_⟩
  rw [hws, hf.wireAfter, h.wire.1, h.wire.2]
  rfl

theorem ClosedOver.told (h : ClosedOver s s' l w keys rows ev round t) (hm : Moved s act s')
    (hs : Steady s) (hk : KnownTold s)
    (hsum : ∀ rec ∈ s'.journal.drop s.journal.length, sumsOver s rec = false) : KnownTold s' := by
  intro l' w' r hview
  rw [workingView_known] at hview
  refine ⟨hview.free, ?_⟩
  have hj := h.closed.journal
  by_cases hw : l' = l ∧ w' = w
  · obtain ⟨rfl, rfl⟩ := hw
    obtain ⟨hout, rfl, hfilled, hheld⟩ := h.fresh hview
    have hstep := heldSum_step hm hs.stocked hheld
    rw [h.finished.journal] at hj
    split at hj
    · rename_i hsilent
      have hsame : s'.registry.ensure l' w' = s.registry.ensure l' w' := by
        rw [h.closed.registry, WireRegistry.ensure_set_self, hsilent.2, h.wire.1, h.wire.2]
      rw [hsame] at hview
      exact (hk l' w' _ (workingView_known.mpr hview)).2.same (by simpa using hj) hstep
    · have hfits := hsum _ (by
        rw [hj, List.drop_left]
        exact List.mem_cons_self)
      simp only [sumsOver, hout, decide_true, Bool.true_and, h.wire.1, h.wire.2,
        decide_eq_false_iff_not, not_lt] at hfits
      refine told_proved hj ?_
      simp only [proofOf, h.wire.1, h.wire.2, hout, and_self, if_true, Option.some.injEq, Prod.mk.injEq,
        true_and]
      rw [hfilled, heldQty_eq_min, hstep, min_eq_left hfits]
  · have hsame : s'.registry.ensure l' w' = s.registry.ensure l' w' := by
      rw [h.closed.registry, WireRegistry.ensure_set, if_neg hw]
    rw [hsame] at hview
    have hstep := heldSum_step (l := l') (w := w') hm hs.stocked (by rw [hsame])
    have htold := (hk l' w' r (workingView_known.mpr hview)).2
    rw [h.finished.journal] at hj
    split at hj
    · exact htold.same (by simpa using hj) hstep
    · refine htold.extend hs.traced hj hstep (decide_eq_true fun hc => hw ?_)
      exact ⟨hc.1.symm.trans h.wire.1, hc.2.symm.trans h.wire.2⟩

end Rounds

/-- A step that is noticed leaves every known quantity told. -/
theorem step_told (hs : Steady s) (hk : KnownTold s) (hc : Noticed s act) :
    KnownTold (shell.step s act).2 := by
  have hm := Shell.step_moved hs.sound act
  simp only [Noticed] at hc
  generalize (shell.step s act).2 = s' at hm hc
  cases hm.took hs.sound with
  | nothing hj hw =>
      intro l w r hview
      rw [workingView_known, hw] at hview
      have htold := (hk l w r (workingView_known.mpr hview)).2
      refine ⟨by rw [hw]; exact hview.free, htold.same hj (heldSum_step hm hs.stocked (by rw [hw]))⟩
  | record h =>
      refine h.told hm hs hk (hc _ ?_).1
      rw [h.journal, List.drop_left]
      exact List.mem_cons_self
  | round h => exact h.told hm hs hk fun rec hrec => (hc rec hrec).2

/-- In a run whose steps are all noticed, every remaining quantity that is known is the last one proved. -/
theorem known_remaining_told (acts : List ShellAction) (h : shell.Always Noticed .new acts) :
    KnownTold (shell.final .new acts) := by
  refine (shell.history_induction (P := fun _ s => Steady s ∧ KnownTold s) (w := [])
    (fun _ s act hI hc => ⟨step_steady hI.1 act, step_told hI.1 hI.2 hc⟩)
    ⟨steady_new, fun l w r hview => ?_⟩ h).2
  cases hview

/-! ## A fresh round, and a second order of the wire -/

def knownLedger : LedgerId := ⟨⟨"s"⟩, "M"⟩

/-- An order of three, accepted by the venue as the wire `v`. -/
def placed (cid : ClientOrderId) : List ShellAction :=
  [.create ⟨knownLedger, cid⟩ "M" "x" .buyYes 40 3, .order ⟨knownLedger, cid⟩ .prepareSubmit,
    .order ⟨knownLedger, cid⟩ (.startSubmit ⟨"a"⟩),
    .order ⟨knownLedger, cid⟩ (.submitResponse ⟨"v"⟩ 0 3 none none none)]

/-- The order rests, and a round finds three of it left. -/
def freshRun : List ShellAction :=
  placed ⟨"c"⟩ ++ [.observe knownLedger ⟨"v"⟩ [] (some ⟨true, 0⟩) [⟨knownLedger, ⟨"c"⟩⟩]
    ⟨knownLedger, ⟨"v"⟩, .openOrder, 0, 3, none, 0⟩]

/-- The three that are left were told. -/
theorem fresh_round_told : KnownTold (shell.final .new freshRun) ∧
    (shell.final .new freshRun).registry.workingView knownLedger ⟨"v"⟩ = .known 3 :=
  ⟨known_remaining_told freshRun (by decide), by decide⟩

/-- Another order is bound to the wire after the round, and the quantity stays known. -/
theorem bound_member_unnoticed : ¬ ∀ acts, KnownTold (shell.final .new acts) := by
  intro h
  obtain ⟨-, -, ht⟩ := run_recounted (freshRun ++ (placed ⟨"d"⟩).take 3)
  have htold := (h (freshRun ++ placed ⟨"d"⟩) knownLedger ⟨"v"⟩ 3 (by decide)).2
  cases hrec : (shell.final .new (freshRun ++ placed ⟨"d"⟩)).journal.getLast? with
  | none =>
      have hsome : (shell.final .new (freshRun ++ placed ⟨"d"⟩)).journal.getLast?.isSome = true := by
        decide
      rw [hrec] at hsome
      cases hsome
  | some rec =>
      have hfacts : (shell.final .new (freshRun ++ placed ⟨"d"⟩)).journal.getLast?.all fun rec =>
          decide ((shell.final .new (freshRun ++ placed ⟨"d"⟩)).journal =
            (shell.final .new (freshRun ++ (placed ⟨"d"⟩).take 3)).journal ++ [rec]) &&
          decide (proofOf knownLedger ⟨"v"⟩ rec = none) &&
          !calm knownLedger ⟨"v"⟩ ((shell.final .new (freshRun ++ (placed ⟨"d"⟩).take 3)).registry.ensure
            knownLedger ⟨"v"⟩) rec := by decide
      rw [hrec] at hfacts
      simp only [Option.all_some, Bool.and_eq_true, decide_eq_true_eq, Bool.not_eq_true'] at hfacts
      exact not_told hfacts.1.1 ht hfacts.1.2 hfacts.2 htold

end Omsrs.Observation
