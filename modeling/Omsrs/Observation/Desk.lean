import Omsrs.Observation.Shell

/-!
# The desk

Several rounds may be open at a time. Each is begun, collects its executions and its page, is finished over
the state of that moment and applied later, between other steps. The desk is the shell with its open rounds
and with the transactions that wait to be applied; both remember where the journal ended when their
evidence was taken.
-/

namespace Omsrs.Observation
open Omsrs.Lib Omsrs.Lifecycle Omsrs.Execution

/-- A round and the length of the journal at its begin. -/
structure OpenRound where
  round : ObservationRound
  begun : Nat
deriving DecidableEq

/-- A finished round, not applied yet. -/
structure Waiting where
  txn : ObservationTransaction
  begun : Nat
  finished : Nat
deriving DecidableEq

/-- The shell and its rounds. `stamps` says where the round last applied to a wire was finished. -/
structure Desk where
  shell : Shell
  rounds : List OpenRound
  waiting : List Waiting
  stamps : OrdMap WireKey Nat
deriving DecidableEq

inductive DeskAction
  | shell (act : ShellAction)
  | begin (ledger : LedgerId) (wire : VenueOrderId)
  | record (i : Nat) (o : ExecutionOutcome)
  | page (i : Nat) (p : PageMeta)
  | finish (i : Nat) (members : List OrderKey) (row : RowEvidence)
  | apply (i : Nat) (targets : List OrderKey)
  /-- Apply a resting proof that was prepared before. -/
  | applyOrderState (txn : OrderStateTxnRecord)
  /-- Apply a proof by a page that was prepared before. -/
  | applyRestProof (txn : RestOrderProofTxnRecord)
deriving DecidableEq

inductive DeskReply
  | shell (reply : ShellReply)
  | done
  | unknownRound
deriving DecidableEq

namespace Desk

def new : Desk := ⟨.new, [], [], .empty⟩

/-- Where evidence that is taken now stands: behind every record of the journal. -/
def now (d : Desk) : Nat := d.shell.journal.length

def stamp (d : Desk) (ledger : LedgerId) (wire : VenueOrderId) (finished : Nat) : Desk :=
  { d with stamps := d.stamps.insert ⟨ledger, wire⟩ finished }

/-- The shell's own steps; its observations are begun, finished and applied at once. -/
def act (d : Desk) (a : ShellAction) : DeskReply × Desk :=
  let (reply, s) := d.shell.step a
  let after := { d with shell := s }
  (.shell reply,
    match a with
    | .observe ledger wire .. => if reply = .done then after.stamp ledger wire d.now else after
    | _ => after)

def begin (d : Desk) (ledger : LedgerId) (wire : VenueOrderId) : Desk :=
  { d with rounds := d.rounds ++ [⟨.begin ledger wire, d.now⟩] }

def record (d : Desk) (i : Nat) (o : ExecutionOutcome) : DeskReply × Desk :=
  match d.rounds[i]? with
  | none => (.unknownRound, d)
  | some x =>
      match x.round.record o with
      | .error err => (.shell (.notClosed err), d)
      | .ok round => (.done, { d with rounds := d.rounds.set i { x with round := round } })

def page (d : Desk) (i : Nat) (p : PageMeta) : DeskReply × Desk :=
  match d.rounds[i]? with
  | none => (.unknownRound, d)
  | some x => (.done, { d with rounds := d.rounds.set i { x with round := x.round.setPage p } })

/-- A round is used up by its finish, whether or not it gives a transaction. -/
def finish (d : Desk) (i : Nat) (members : List OrderKey) (row : RowEvidence) : DeskReply × Desk :=
  match d.rounds[i]? with
  | none => (.unknownRound, d)
  | some x =>
      match members.mapM d.shell.orders.get? with
      | none => (.shell .unknownOrder, d)
      | some rows =>
          let after := { d with rounds := d.rounds.eraseIdx i }
          match x.round.finish d.shell.registry (d.shell.inventory x.round.ledger) rows row with
          | .error err => (.shell (.notClosed err), after)
          | .ok t => (.done, { after with waiting := d.waiting ++ [⟨t, x.begun, d.now⟩] })

/-- What a transaction of a round leaves of the shell. -/
def observed (s : Shell) (t : ObservationTransaction) (targets : List OrderKey) (rows : List OrderRow)
    (registry : WireRegistry) : Shell :=
  { s with
    orders := s.orders.insertAll (targets.zip rows)
    registry := registry
    journal := s.journal ++ t.journal.toList }

/-- A transaction is used up by its application, whether or not it is taken. -/
def apply (d : Desk) (i : Nat) (targets : List OrderKey) : DeskReply × Desk :=
  match d.waiting[i]? with
  | none => (.unknownRound, d)
  | some x =>
      match targets.mapM d.shell.orders.get? with
      | none => (.shell .unknownOrder, d)
      | some rows =>
          let after := { d with waiting := d.waiting.eraseIdx i }
          match x.txn.apply rows d.shell.registry (d.shell.inventory x.txn.ledger) with
          | .error err => (.shell (.notObserved err), after)
          | .ok (_, rows, registry) =>
              (.done,
                { after with shell := observed d.shell x.txn targets rows registry }.stamp x.txn.ledger
                  x.txn.wire x.finished)

/-- The registry a proof leaves, with the record of the proof. -/
def proved (d : Desk) (rec : Record) : Except OrderStateProofError WireRegistry → DeskReply × Desk
  | .error err => (.shell (.notProved err), d)
  | .ok registry =>
      (.done,
        { d with
          shell := { d.shell with registry := registry, journal := d.shell.journal ++ [rec] } })

def step (d : Desk) : DeskAction → DeskReply × Desk
  | .shell a => d.act a
  | .begin ledger wire => (.done, d.begin ledger wire)
  | .record i o => d.record i o
  | .page i p => d.page i p
  | .finish i members row => d.finish i members row
  | .apply i targets => d.apply i targets
  | .applyOrderState txn =>
      d.proved (.orderStateTxn txn)
        (d.shell.registry.applyOrderStateResting txn (d.shell.inventory txn.ledger))
  | .applyRestProof txn =>
      d.proved (.restOrderProofTxn txn)
        (d.shell.registry.applyRestOrderProof txn (d.shell.inventory txn.ledger))

end Desk

def desk : Machine Desk DeskAction DeskReply := ⟨Desk.step⟩

end Omsrs.Observation
