import Omsrs.Observation.Types

/-!
# The market's inventory

One entry for each execution the venue reported on a ledger, owned by the order it was attributed to
or by nobody, with the conflicting evidence beside it. Its generation counts the mutations.
-/

namespace Omsrs.Execution
open Omsrs.Lib Omsrs.Lifecycle Omsrs.Observation

structure MarketInventory where
  ledger : LedgerId
  generation : Nat
  entries : OrdMap FillId InventoryEntry
  conflicts : OrdMap FillId ConflictFact
deriving DecidableEq

def sideSign : Side → Int
  | .buyYes => 1
  | .sellYes => -1

namespace MarketInventory

def new (ledger : LedgerId) : MarketInventory := ⟨ledger, 0, .empty, .empty⟩

def get (inv : MarketInventory) (id : FillId) : Option InventoryEntry := inv.entries.get? id

def net (inv : MarketInventory) : Int :=
  inv.entries.values.foldl (fun n e => n + sideSign e.side * e.qty) 0

/-! ## Installing what a transaction planned -/

def insertEntry (inv : MarketInventory) (e : FillId × InventoryEntry) : MarketInventory :=
  { inv with
    entries := inv.entries.insert e.1 e.2
    generation := saturatingAdd u64Max inv.generation 1 }

def insertConflict (inv : MarketInventory) (c : FillId × ConflictFact) : MarketInventory :=
  { inv with
    conflicts := inv.conflicts.insert c.1 c.2
    generation := saturatingAdd u64Max inv.generation 1 }

def install (inv : MarketInventory) (plannedEntries : OrdMap FillId InventoryEntry)
    (plannedConflicts : OrdMap FillId ConflictFact) : MarketInventory :=
  plannedConflicts.entries.foldl insertConflict (plannedEntries.entries.foldl insertEntry inv)

/-! ## Rebuilding from the journal -/

/-- The fold over the outcomes of one transaction. The two sets of ids count its mutations. -/
structure Replay where
  entries : OrdMap FillId InventoryEntry
  conflicts : OrdMap FillId ConflictFact
  ingestedIds : FillSet
  mutatedEntryIds : FillSet
  conflictIds : FillSet
deriving DecidableEq

def Replay.noteConflict (r : Replay) : Option ConflictFact → Replay
  | some c =>
      { r with
        conflicts := r.conflicts.insert c.executionId c
        conflictIds := r.conflictIds.insert c.executionId () }
  | none => r

def Replay.write (r : Replay) (id : FillId) : Option InventoryEntry → Replay
  | some e =>
      { r with
        entries := r.entries.insert id e
        mutatedEntryIds := r.mutatedEntryIds.insert id () }
  | none => r

def Replay.noteIngested (r : Replay) (id : FillId) : Option InventoryEntry → Replay
  | some _ => { r with ingestedIds := r.ingestedIds.insert id () }
  | none => r

def Replay.outcome (r : Replay) (o : ExecutionOutcome) : Except RebuildError Replay :=
  let id := o.evidence.executionId
  let r := r.noteConflict o.conflict
  match o.inventory with
  | .ingested _ =>
      if r.ingestedIds.contains id then .error (.duplicateExecutionRecord id)
      else .ok ((r.noteIngested id o.entryAfter).write id o.entryAfter)
  | .upgraded => .ok (r.write id o.entryAfter)
  | .duplicate | .conflict _ | .unchanged => .ok r

def replayTxn (inv : MarketInventory) (ingestedIds : FillSet) (txn : ExecutionTxnRecord) :
    Except RebuildError (MarketInventory × FillSet) := do
  let r ← txn.executions.foldlM Replay.outcome ⟨inv.entries, inv.conflicts, ingestedIds, .empty, .empty⟩
  .ok
    ({ inv with
        entries := r.entries
        conflicts := r.conflicts
        generation := saturatingAdd u64Max
          (saturatingAdd u64Max inv.generation r.mutatedEntryIds.size) r.conflictIds.size },
      r.ingestedIds)

/-- The records of other ledgers and of other kinds are passed over. -/
def replayRecord (acc : MarketInventory × FillSet) : Record → Except RebuildError (MarketInventory × FillSet)
  | .executionTxn txn => if txn.ledger ≠ acc.1.ledger then .ok acc else replayTxn acc.1 acc.2 txn
  | _ => .ok acc

def rebuild (ledger : LedgerId) (records : List Record) : Except RebuildError MarketInventory :=
  (records.foldlM replayRecord (new ledger, .empty)).map (·.1)

end MarketInventory

/-! ## Agreement of two reports of one execution -/

/-- Both are there and they differ. -/
def bothUnequal {α : Type} [DecidableEq α] : Option α → Option α → Bool
  | some a, some b => decide (a ≠ b)
  | _, _ => false

def feeConflict (a b : Option Nat) : Bool := bothUnequal a b

def coreDisagreeQtyPriceVenue (qtyA priceA : Nat) (venueA : Option VenueOrderId) (qtyB priceB : Nat)
    (venueB : Option VenueOrderId) : Bool :=
  decide (qtyA ≠ qtyB) || decide (priceA ≠ priceB) || bothUnequal venueA venueB

/-- `None` becomes `Some`; what is known stays. -/
def fillIn {α : Type} (known new : Option α) : Option α := known.or new

/-- Whether that changes anything. -/
def fillsIn {α : Type} (known new : Option α) : Bool := known.isNone && new.isSome

end Omsrs.Execution
