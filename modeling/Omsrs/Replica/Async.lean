import Omsrs.Replica.Broker

/-!
# The async replica broker

Several calls run at once. A call is a list of sections, each under the broker's lock or under the lock
of one order, and the sections of different calls interleave in any order. What a call carries from
section to section is its task.
-/

namespace Omsrs.Replica
open Omsrs.Lib

/-! ## Outcomes of a cancellation -/

inductive CancelStatus
  | canceled
  | accepted
  | notFound
  | alreadyTerminal
  | rejected
  | transportUnknown
  | unknown
deriving DecidableEq, Repr

structure CancelOutcome where
  status : CancelStatus
  orderId : Option String
  message : Option String
deriving DecidableEq

namespace CancelOutcome

def canceled (orderId : Option String) : CancelOutcome := ⟨.canceled, orderId, none⟩

def notFound (orderId : Option String) : CancelOutcome := ⟨.notFound, orderId, none⟩

def alreadyTerminal (orderId : Option String) : CancelOutcome := ⟨.alreadyTerminal, orderId, none⟩

def rejected (orderId : Option String) (message : String) : CancelOutcome :=
  ⟨.rejected, orderId, some message⟩

def unknown (orderId : Option String) (message : String) : CancelOutcome :=
  ⟨.unknown, orderId, some message⟩

end CancelOutcome

variable {F : Type} [Quantity F]

def orderIdFromArgs (args : Args F) : Option String :=
  match args.get? "order_id" with
  | some (.str s) => some s
  | some (.int n) => some (toString n)
  | some (.float x) => some (Quantity.text x)
  | some .other | none => none

/-! ## Tasks -/

/-- What a finished call has answered. -/
inductive AsyncReply
  | updated
  | placed (handle : Handle)
  | panicked
  | modified (handle : Option Handle)
  | canceled (handle : Option Handle)
  /-- The order the outcome is about, where the call found one. -/
  | outcome (handle : Option Handle) (outcome : CancelOutcome)
  | filled
deriving DecidableEq

/-- The state of a pass over the fills, outside all locks. -/
structure Pass (F : Type) where
  prices : OrdMap String F
  priceWrites : List (Nat × F)
  doneHandles : List Handle
deriving DecidableEq

/-- The next section of a call, with what the call has kept. -/
inductive Task (F : Type)
  | modifyFind (orderId : String) (args : Args F)
  | modifyOrder (handle : Handle) (args : Args F)
  | cancelFind (orderId : String)
  | cancelOrder (handle : Handle)
  | cancelComplete (handle : Handle)
  | outcomeFind (orderId : String)
  | outcomeOrder (handle : Handle)
  | outcomeComplete (handle : Handle) (orderId : String)
  | fillHandles
  | fillPrices (todo : List (Nat × Handle))
  | fillSymbol (pass : Pass F) (todo : List (Nat × Handle))
  | fillUpdate (pass : Pass F) (i : Nat) (handle : Handle) (lastPrice : F) (todo : List (Nat × Handle))
  | fillDone (pass : Pass F) (i : Nat) (handle : Handle) (lastPrice : F) (todo : List (Nat × Handle))
  | finished (reply : AsyncReply)
deriving DecidableEq

inductive AsyncCall (F : Type)
  | update (instruments : List (Instrument F))
  | place (args : Args F)
  | modify (args : Args F)
  | cancel (args : Args F)
  | orderCancelOutcome (args : Args F)
  | runFill
deriving DecidableEq

/-! ## Sections -/

def pushCompletedUnique (completed : List Handle) (handle : Handle) : List Handle :=
  if handle ∈ completed then completed else completed ++ [handle]

namespace ReplicaBroker

def complete (b : ReplicaBroker F) (handle : Handle) : ReplicaBroker F :=
  { b with completed := pushCompletedUnique b.completed handle }

/-- The last section of a pass: prices are written back by position, what was found done is completed
and leaves the fills. -/
def reconcile (b : ReplicaBroker F) (pass : Pass F) : ReplicaBroker F :=
  { b with
    completed := pass.doneHandles.foldl pushCompletedUnique b.completed
    fills := (pass.priceWrites.foldl
      (fun fills w => fills.modify w.1 fun f => { f with lastPrice := w.2 }) b.fills).filter
        fun f => decide (f.order ∉ pass.doneHandles) }

end ReplicaBroker

/-- One section of a task. The handle of a task always has its cell. -/
def Task.section (b : ReplicaBroker F) : Task F → Task F × ReplicaBroker F
  | .modifyFind orderId args =>
      match b.orders.get? orderId with
      | none => (.finished (.modified none), b)
      | some handle => (.modifyOrder handle args, b)
  | .modifyOrder handle args =>
      (.finished (.modified (some handle)), b.onCell handle (·.modify args))
  | .cancelFind orderId =>
      match b.orders.get? orderId with
      | none => (.finished (.canceled none), b)
      | some handle => (.cancelOrder handle, b)
  | .cancelOrder handle =>
      match b.cell handle with
      | none => (.cancelOrder handle, b)
      | some o =>
          if o.isDone then (.finished (.canceled (some handle)), b)
          else (.cancelComplete handle, b.onCell handle (·.cancel))
  | .cancelComplete handle => (.finished (.canceled (some handle)), b.complete handle)
  | .outcomeFind orderId =>
      match b.orders.get? orderId with
      | none => (.finished (.outcome none (.notFound (some orderId))), b)
      | some handle => (.outcomeOrder handle, b)
  | .outcomeOrder handle =>
      match b.cell handle with
      | none => (.outcomeOrder handle, b)
      | some o =>
          if o.isDone then
            (.finished (.outcome (some handle) (.alreadyTerminal (some o.orderId))), b)
          else (.outcomeComplete handle o.orderId, b.onCell handle (·.cancel))
  | .outcomeComplete handle orderId =>
      (.finished (.outcome (some handle) (.canceled (some orderId))), b.complete handle)
  | .fillHandles => (.fillPrices (b.fills.zipIdx.map fun (f, i) => (i, f.order)), b)
  | .fillPrices todo =>
      (.fillSymbol
        ⟨OrdMap.empty.insertAll (b.instruments.entries.map fun (k, v) => (k, v.lastPrice)), [], []⟩
        todo, b)
  | .fillSymbol pass [] => (.finished .filled, b.reconcile pass)
  | .fillSymbol pass ((i, handle) :: todo) =>
      match ((b.cell handle).bind fun o => pass.prices.get? o.symbol).filter (· ≠ 0) with
      | none => (.fillSymbol pass todo, b)
      | some lastPrice => (.fillUpdate pass i handle lastPrice todo, b)
  | .fillUpdate pass i handle lastPrice todo =>
      (.fillDone pass i handle lastPrice todo, b.onCell handle (·.applyFillUpdate lastPrice))
  | .fillDone pass i handle lastPrice todo =>
      (.fillSymbol
        { pass with
          priceWrites := pass.priceWrites ++ [(i, lastPrice)]
          doneHandles := pass.doneHandles ++ if b.isDone handle then [handle] else [] }
        todo, b)
  | .finished reply => (.finished reply, b)

/-! ## The system of all calls -/

structure AsyncReplicaBroker (F : Type) where
  inner : ReplicaBroker F
  tasks : List (Task F)
deriving DecidableEq

inductive AsyncAction (F : Type)
  | call (c : AsyncCall F)
  /-- The next section of the call that was started as number `i`. -/
  | advance (i : Nat)
deriving DecidableEq

namespace AsyncReplicaBroker

def new : AsyncReplicaBroker F := ⟨.new, []⟩

def start (s : AsyncReplicaBroker F) (task : Task F) : AsyncReplicaBroker F :=
  { s with tasks := s.tasks ++ [task] }

/-- The task of a call; `update` and `place` are one section, taken at once. -/
def call (uuid : Nat → String) (s : AsyncReplicaBroker F) : AsyncCall F → AsyncReplicaBroker F
  | .update instruments => ⟨s.inner.update instruments, s.tasks ++ [.finished .updated]⟩
  | .place args =>
      match s.inner.place pushCompletedUnique (uuid s.inner.cells.length) args with
      | none => s.start (.finished .panicked)
      | some (handle, inner) => ⟨inner, s.tasks ++ [.finished (.placed handle)]⟩
  | .modify args =>
      match (args.get? "order_id").bind (·.asStr) with
      | none => s.start (.finished (.modified none))
      | some orderId => s.start (.modifyFind orderId (args.erase "order_id"))
  | .cancel args =>
      match (args.get? "order_id").bind (·.asStr) with
      | none => s.start (.finished (.canceled none))
      | some orderId => s.start (.cancelFind orderId)
  | .orderCancelOutcome args =>
      match (args.get? "order_id").bind (·.asStr) with
      | none =>
          s.start (.finished (.outcome none (.rejected (orderIdFromArgs args) "order_id field required")))
      | some orderId => s.start (.outcomeFind orderId)
  | .runFill => s.start .fillHandles

def step (uuid : Nat → String) (s : AsyncReplicaBroker F) :
    AsyncAction F → Unit × AsyncReplicaBroker F
  | .call c => ((), s.call uuid c)
  | .advance i =>
      match s.tasks[i]? with
      | none => ((), s)
      | some task =>
          let (task, inner) := task.section s.inner
          ((), ⟨inner, s.tasks.set i task⟩)

end AsyncReplicaBroker

def asyncReplicaBroker (uuid : Nat → String) :
    Machine (AsyncReplicaBroker F) (AsyncAction F) Unit := ⟨AsyncReplicaBroker.step uuid⟩

end Omsrs.Replica
