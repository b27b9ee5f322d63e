import Omsrs.Execution.Batch
import Omsrs.Lib.Version

/-!
# Installing a plan and replaying its outcomes

A transaction installs its planned maps; the journal replays its outcomes one by one. Both are the
same insertions, and both count the distinct ids.
-/

namespace Omsrs.Execution
open Omsrs.Lib Omsrs.Lifecycle Omsrs.Observation

/-! ## Installing -/

namespace MarketInventory

variable {inv : MarketInventory}

theorem saturatingAdd_succ {g n : Nat} (h : g ≤ u64Max) :
    saturatingAdd u64Max (saturatingAdd u64Max g 1) n = saturatingAdd u64Max g (n + 1) := by
  simp only [saturatingAdd]
  omega

theorem saturatingAdd_le (max g n : Nat) : saturatingAdd max g n ≤ max := Nat.min_le_right _ _

theorem foldl_insertEntry (l : List (FillId × InventoryEntry)) (h : inv.generation ≤ u64Max) :
    l.foldl insertEntry inv =
      { inv with
        entries := inv.entries.insertAll l
        generation := saturatingAdd u64Max inv.generation l.length } := by
  induction l generalizing inv with
  | nil => simp [saturatingAdd, Nat.min_eq_left h]
  | cons e l ih =>
      rw [List.foldl_cons, ih (saturatingAdd_le _ _ _)]
      simp only [insertEntry, saturatingAdd_succ h, OrdMap.insertAll_cons, List.length_cons]

theorem foldl_insertConflict (l : List (FillId × ConflictFact)) (h : inv.generation ≤ u64Max) :
    l.foldl insertConflict inv =
      { inv with
        conflicts := inv.conflicts.insertAll l
        generation := saturatingAdd u64Max inv.generation l.length } := by
  induction l generalizing inv with
  | nil => simp [saturatingAdd, Nat.min_eq_left h]
  | cons e l ih =>
      rw [List.foldl_cons, ih (saturatingAdd_le _ _ _)]
      simp only [insertConflict, saturatingAdd_succ h, OrdMap.insertAll_cons, List.length_cons]

theorem install_eq (pe : OrdMap FillId InventoryEntry) (pc : OrdMap FillId ConflictFact)
    (h : inv.generation ≤ u64Max) :
    inv.install pe pc =
      { inv with
        entries := inv.entries.insertAll pe.entries
        conflicts := inv.conflicts.insertAll pc.entries
        generation := saturatingAdd u64Max (saturatingAdd u64Max inv.generation pe.size) pc.size } := by
  rw [install, foldl_insertEntry _ h, foldl_insertConflict _ (saturatingAdd_le _ _ _)]
  rfl

theorem foldl_keeps {α : Type} {f : MarketInventory → α → MarketInventory}
    {P : MarketInventory → Prop} (hf : ∀ inv a, P inv → P (f inv a)) (l : List α) (h : P inv) :
    P (l.foldl f inv) := by
  induction l generalizing inv with
  | nil => exact h
  | cons a l ih => exact ih (hf inv a h)

/-- What installing does to the entries, whatever the generation. -/
theorem install_entries (pe : OrdMap FillId InventoryEntry) (pc : OrdMap FillId ConflictFact) :
    (inv.install pe pc).entries = inv.entries.insertAll pe.entries := by
  have hc : ∀ (l : List (FillId × ConflictFact)) (inv : MarketInventory),
      (l.foldl insertConflict inv).entries = inv.entries := fun l inv =>
    foldl_keeps (f := insertConflict) (P := fun i => i.entries = inv.entries) (fun _ _ h => h) l rfl
  have he : ∀ (l : List (FillId × InventoryEntry)) (inv : MarketInventory),
      (l.foldl insertEntry inv).entries = inv.entries.insertAll l := by
    intro l
    induction l with
    | nil => exact fun _ => rfl
    | cons e l ih => exact fun inv => ih (inv.insertEntry e)
  rw [install, hc, he]

theorem install_conflicts (pe : OrdMap FillId InventoryEntry) (pc : OrdMap FillId ConflictFact) :
    (inv.install pe pc).conflicts = inv.conflicts.insertAll pc.entries := by
  have he : ∀ (l : List (FillId × InventoryEntry)) (inv : MarketInventory),
      (l.foldl insertEntry inv).conflicts = inv.conflicts := fun l inv =>
    foldl_keeps (f := insertEntry) (P := fun i => i.conflicts = inv.conflicts) (fun _ _ h => h) l rfl
  have hc : ∀ (l : List (FillId × ConflictFact)) (inv : MarketInventory),
      (l.foldl insertConflict inv).conflicts = inv.conflicts.insertAll l := by
    intro l
    induction l with
    | nil => exact fun _ => rfl
    | cons c l ih => exact fun inv => ih (inv.insertConflict c)
  rw [install, hc, he]

theorem install_ledger (pe : OrdMap FillId InventoryEntry) (pc : OrdMap FillId ConflictFact) :
    (inv.install pe pc).ledger = inv.ledger :=
  foldl_keeps (f := insertConflict) (P := fun i => i.ledger = inv.ledger) (fun _ _ h => h) _
    (foldl_keeps (f := insertEntry) (P := fun i => i.ledger = inv.ledger) (fun _ _ h => h) _ rfl)

theorem install_get (pe : OrdMap FillId InventoryEntry) (pc : OrdMap FillId ConflictFact)
    (id : FillId) : (inv.install pe pc).get id = (pe.get? id).or (inv.get id) := by
  rw [get, install_entries, OrdMap.get?_insertAll, OrdMap.insertAll_entries]
  rfl

theorem install_generation (pe : OrdMap FillId InventoryEntry) (pc : OrdMap FillId ConflictFact)
    (h : inv.generation ≤ u64Max) :
    (inv.install pe pc).generation = min (inv.generation + (pe.size + pc.size)) u64Max := by
  rw [install_eq _ _ h]
  simp only [saturatingAdd]
  omega

/-- An install is a change that bumps the generation. -/
theorem install_since (pe : OrdMap FillId InventoryEntry) (pc : OrdMap FillId ConflictFact)
    (h : inv.generation ≤ u64Max) :
    Since u64Max (·.generation) inv (inv.install pe pc) := by
  refine Since.of_bump (install_generation pe pc h) h fun hn => ?_
  have he : pe.entries = [] := List.length_eq_zero_iff.mp (show pe.size = 0 by omega)
  have hc : pc.entries = [] := List.length_eq_zero_iff.mp (show pc.size = 0 by omega)
  simp only [install, he, hc, List.foldl_nil]

end MarketInventory

/-! ## Replaying -/

namespace ExecutionOutcome

/-- The entry the outcome leaves under its execution. -/
def write (o : ExecutionOutcome) : Option (FillId × InventoryEntry) :=
  if o.inventory.writes then o.entryAfter.map fun entry => (o.evidence.executionId, entry) else none

def fact (o : ExecutionOutcome) : Option (FillId × ConflictFact) :=
  o.conflict.map fun c => (c.executionId, c)

def ingests (o : ExecutionOutcome) : Bool :=
  match o.inventory with
  | .ingested _ => true
  | _ => false

end ExecutionOutcome

def ingestedIds (outcomes : List ExecutionOutcome) : List FillId :=
  (outcomes.filter (·.ingests)).map (·.evidence.executionId)

def idsOf {α : Type} (l : List (FillId × α)) : List (FillId × Unit) := l.map fun e => (e.1, ())

namespace MarketInventory

open ExecutionOutcome

variable {r : Replay} {o : ExecutionOutcome} {outcomes : List ExecutionOutcome}

/-- The fold `r'` has replayed what `outcomes` wrote on top of `r`. -/
structure Replayed (r : Replay) (outcomes : List ExecutionOutcome) (r' : Replay) : Prop where
  entries : r'.entries = r.entries.insertAll (outcomes.filterMap write)
  conflicts : r'.conflicts = r.conflicts.insertAll (outcomes.filterMap fact)
  mutated : r'.mutatedEntryIds = r.mutatedEntryIds.insertAll (idsOf (outcomes.filterMap write))
  conflicted : r'.conflictIds = r.conflictIds.insertAll (idsOf (outcomes.filterMap fact))
  ingested : ∀ id, r'.ingestedIds.contains id = true → r.ingestedIds.contains id = true ∨
    (id ∈ ingestedIds outcomes ∧ id ∈ (outcomes.filterMap write).map Prod.fst)

theorem contains_insert {s : FillSet} {id j : FillId} (h : (s.insert id ()).contains j = true) :
    s.contains j = true ∨ j = id := by
  by_cases hj : j = id
  · exact .inr hj
  · left
    simpa [OrdMap.contains, OrdMap.get?_insert_ne _ _ hj] using h

theorem replay_noteConflict (r : Replay) (o : ExecutionOutcome) :
    r.noteConflict o.conflict =
      { r with
        conflicts := r.conflicts.insertAll o.fact.toList
        conflictIds := r.conflictIds.insertAll (idsOf o.fact.toList) } := by
  cases ho : o.conflict <;> simp [Replay.noteConflict, ExecutionOutcome.fact, idsOf, ho]

theorem replay_write (r : Replay) (id : FillId) (entry : Option InventoryEntry) :
    r.write id entry =
      { r with
        entries := r.entries.insertAll (entry.map fun e => (id, e)).toList
        mutatedEntryIds :=
          r.mutatedEntryIds.insertAll (idsOf (entry.map fun e => (id, e)).toList) } := by
  cases entry <;> simp [Replay.write, idsOf]

/-- One outcome replays, unless it ingests what was ingested before. -/
theorem replay_outcome (h : o.ingests = true → r.ingestedIds.contains o.evidence.executionId = false) :
    ∃ r', Replay.outcome r o = .ok r' ∧ Replayed r [o] r' := by
  have hkeep : ∀ {r' : Replay}, r'.ingestedIds = r.ingestedIds → ∀ id,
      r'.ingestedIds.contains id = true →
        r.ingestedIds.contains id = true ∨
          (id ∈ ingestedIds [o] ∧ id ∈ ([o].filterMap write).map Prod.fst) :=
    fun he id hid => .inl (he ▸ hid)
  cases hd : o.inventory with
  | ingested p =>
      have hfresh := h (by simp [ExecutionOutcome.ingests, hd])
      have hw : o.write = o.entryAfter.map fun e => (o.evidence.executionId, e) := by
        simp [ExecutionOutcome.write, hd, InventoryDisposition.writes]
      refine ⟨((r.noteConflict o.conflict).noteIngested o.evidence.executionId o.entryAfter).write
        o.evidence.executionId o.entryAfter, ?_, ?_⟩
      · simp [Replay.outcome, hd, replay_noteConflict, hfresh]
      · rw [replay_write, replay_noteConflict]
        cases he : o.entryAfter with
        | none =>
            rw [he] at hw
            exact ⟨by simp [hw, Replay.noteIngested], by cases hf : o.fact <;> simp [hf, Replay.noteIngested],
              by simp [hw, Replay.noteIngested, idsOf],
              by cases hf : o.fact <;> simp [hf, Replay.noteIngested, idsOf], hkeep rfl⟩
        | some e =>
            rw [he] at hw
            refine ⟨by simp [hw, Replay.noteIngested],
              by cases hf : o.fact <;> simp [hf, Replay.noteIngested],
              by simp [hw, Replay.noteIngested, idsOf],
              by cases hf : o.fact <;> simp [hf, Replay.noteIngested, idsOf], ?_⟩
            intro id hid
            rcases contains_insert hid with hid | rfl
            · exact .inl hid
            · right
              simp [ingestedIds, ExecutionOutcome.ingests, hd, hw]
  | upgraded =>
      have hw : o.write = o.entryAfter.map fun e => (o.evidence.executionId, e) := by
        simp [ExecutionOutcome.write, hd, InventoryDisposition.writes]
      refine ⟨(r.noteConflict o.conflict).write o.evidence.executionId o.entryAfter, ?_, ?_⟩
      · simp [Replay.outcome, hd]
      · rw [replay_write, replay_noteConflict, ← hw]
        exact ⟨by cases hw' : o.write <;> simp [hw'], by cases hf : o.fact <;> simp [hf],
          by cases hw' : o.write <;> simp [hw', idsOf],
          by cases hf : o.fact <;> simp [hf, idsOf], hkeep rfl⟩
  | _ =>
      have hw : o.write = none := by simp [ExecutionOutcome.write, hd, InventoryDisposition.writes]
      refine ⟨r.noteConflict o.conflict, by simp [Replay.outcome, hd], ?_⟩
      rw [replay_noteConflict]
      exact ⟨by simp [hw], by cases hf : o.fact <;> simp [hf], by simp [hw, idsOf],
        by cases hf : o.fact <;> simp [hf, idsOf], hkeep rfl⟩

theorem Replayed.trans {r₁ r₂ : Replay} {l l' : List ExecutionOutcome} (h : Replayed r l r₁)
    (h' : Replayed r₁ l' r₂) : Replayed r (l ++ l') r₂ := by
  refine ⟨?_, ?_, ?_, ?_, ?_⟩
  · rw [h'.entries, h.entries, List.filterMap_append, OrdMap.insertAll_append]
  · rw [h'.conflicts, h.conflicts, List.filterMap_append, OrdMap.insertAll_append]
  · rw [h'.mutated, h.mutated, List.filterMap_append, idsOf, idsOf, idsOf, List.map_append,
      OrdMap.insertAll_append]
  · rw [h'.conflicted, h.conflicted, List.filterMap_append, idsOf, idsOf, idsOf, List.map_append,
      OrdMap.insertAll_append]
  · intro id hid
    simp only [ingestedIds, List.filter_append, List.map_append, List.mem_append,
      List.filterMap_append]
    rcases h'.ingested id hid with hid | ⟨hi, hw⟩
    · exact (h.ingested id hid).imp_right fun ⟨hi, hw⟩ => ⟨.inl hi, .inl hw⟩
    · exact .inr ⟨.inr hi, .inr hw⟩

/-- Outcomes that ingest each execution once, and none that is there, replay without an error. -/
theorem replay_outcomes (hn : (ingestedIds outcomes).Nodup)
    (hf : ∀ id ∈ ingestedIds outcomes, r.ingestedIds.contains id = false) :
    ∃ r', outcomes.foldlM Replay.outcome r = .ok r' ∧ Replayed r outcomes r' := by
  induction outcomes generalizing r with
  | nil => exact ⟨r, rfl, ⟨rfl, rfl, rfl, rfl, fun _ h => .inl h⟩⟩
  | cons o outcomes ih =>
      have hcons : ingestedIds (o :: outcomes) = ingestedIds [o] ++ ingestedIds outcomes := by
        simp only [ingestedIds, ← List.map_append, ← List.filter_append, List.singleton_append]
      rw [hcons] at hn hf
      obtain ⟨_, hn', hdisj⟩ := List.nodup_append.mp hn
      obtain ⟨r₁, hr₁, h₁⟩ := replay_outcome (r := r) (o := o) fun ho =>
        hf _ (List.mem_append_left _ (by simp [ingestedIds, ho]))
      obtain ⟨r₂, hr₂, h₂⟩ := ih (r := r₁) hn' fun id hid => by
        by_contra hc
        rcases h₁.ingested id (by simpa using hc) with hin | ⟨hin, _⟩
        · rw [hf id (List.mem_append_right _ hid)] at hin
          cases hin
        · exact hdisj id hin id hid rfl
      refine ⟨r₂, ?_, h₁.trans h₂⟩
      rw [List.foldlM_cons, hr₁]
      exact hr₂

/-- Replaying the record of a transaction is installing its plan. -/
theorem replayTxn_eq_install {inv : MarketInventory} {ingested : FillSet} {txn : ExecutionTxnRecord}
    {writes : List (FillId × InventoryEntry)} {facts : List (FillId × ConflictFact)}
    (hg : inv.generation ≤ u64Max) (hw : txn.executions.filterMap write = writes)
    (hf : txn.executions.filterMap fact = facts) (hn : (ingestedIds txn.executions).Nodup)
    (hfresh : ∀ id ∈ ingestedIds txn.executions, ingested.contains id = false) :
    ∃ ingested', replayTxn inv ingested txn =
        .ok (inv.install (OrdMap.empty.insertAll writes) (OrdMap.empty.insertAll facts), ingested') ∧
      ∀ id, ingested'.contains id = true → ingested.contains id = true ∨
        id ∈ writes.map Prod.fst := by
  obtain ⟨r', hr', h⟩ := replay_outcomes
    (r := ⟨inv.entries, inv.conflicts, ingested, .empty, .empty⟩) hn hfresh
  refine ⟨r'.ingestedIds, ?_, fun id hid => (h.ingested id hid).imp_right fun hi => hw ▸ hi.2⟩
  have hsize : ∀ {α : Type} (l : List (FillId × α)),
      (OrdMap.empty.insertAll (idsOf l)).size = (OrdMap.empty.insertAll l).size := fun l =>
    OrdMap.size_insertAll_congr (by simp [idsOf])
  rw [replayTxn, hr', install_eq _ _ hg, OrdMap.insertAll_gathered, OrdMap.insertAll_gathered]
  simp only [bind, Except.bind, h.entries, h.conflicts, h.mutated, h.conflicted, hw, hf, hsize]

end MarketInventory

end Omsrs.Execution
