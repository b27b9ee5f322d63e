import Omsrs.Observation.Proof

/-!
# The user-order frames of one wire

The frames of the venue come one by one, beside the records that bind orders to the wire and follow its
amends. What is admitted is appended to the journal and folded there.
-/

namespace Omsrs.Observation
open Omsrs.Lib Omsrs.Lifecycle Omsrs.Execution

structure Feed where
  registry : WireRegistry
  journal : List Record
deriving DecidableEq

inductive FeedAction
  | frame (e : UserOrderEvidence)
  /-- A lineage is prepared. -/
  | amend (lineage : AmendLineage)
  /-- A lineage record of the journal, which may also clear the lineage. -/
  | lineage (lineage : Option AmendLineage)
  /-- The record of an order transaction, which may bind the order to the wire. -/
  | order (o : OrderTxnRecord)
deriving DecidableEq

inductive FeedReply
  | folded
  | nothingNew
  | refused (error : OrderStateProofError)
  | notFolded (error : RebuildError)
deriving DecidableEq

namespace Feed

def new : Feed := ⟨.new, []⟩

/-- The record is appended and folded at its position. -/
def append (s : Feed) (rec : Record) : FeedReply × Feed :=
  match s.registry.fold s.journal.length rec with
  | .ok registry => (.folded, ⟨registry, s.journal ++ [rec]⟩)
  | .error err => (.notFolded err, s)

/-- The record an action asks to append, if any. -/
def prepare (ledger : LedgerId) (wire : VenueOrderId) (s : Feed) :
    FeedAction → Except OrderStateProofError (Option Record)
  | .frame e => s.registry.prepareUserOrderReceived ledger wire e
  | .amend lineage => (s.registry.prepareAmendLineage ledger wire lineage).map some
  | .lineage lineage => .ok (some (.amendLineage ledger wire lineage))
  | .order o => .ok (some (.orderTxn o))

def step (ledger : LedgerId) (wire : VenueOrderId) (s : Feed) (a : FeedAction) : FeedReply × Feed :=
  match s.prepare ledger wire a with
  | .error err => (.refused err, s)
  | .ok none => (.nothingNew, s)
  | .ok (some rec) => s.append rec

/-- The frames of a client that were admitted, oldest first. -/
def admitted (s : Feed) (cid : ClientOrderId) : List UserOrderEvidence :=
  s.journal.filterMap fun
    | .userOrderReceived _ _ e => if e.clientOrderId = cid then some e else none
    | _ => none

end Feed

def feed (ledger : LedgerId) (wire : VenueOrderId) : Machine Feed FeedAction FeedReply :=
  ⟨Feed.step ledger wire⟩

end Omsrs.Observation
