import Omsrs.Basket.Theorems.Persist
import Omsrs.Lifecycle.Theorems.Redelivery
import Omsrs.Basket.Theorems.Close
import Omsrs.Basket.Theorems.Aggregates
import Omsrs.Basket.Theorems.Index
import Omsrs.Basket.Theorems.Modify
import Omsrs.Basket.Theorems.Quantities
import Omsrs.Execution.Theorems.Delivery
import Omsrs.Execution.Theorems.Generation
import Omsrs.Execution.Theorems.InventoryRebuild
import Omsrs.Execution.Theorems.Metadata
import Omsrs.Execution.Theorems.Repetition
import Omsrs.Lifecycle.Theorems.Commute
import Omsrs.Lifecycle.Theorems.Coverage
import Omsrs.Lifecycle.Theorems.Evidence
import Omsrs.Lifecycle.Theorems.MemberFrame
import Omsrs.Lifecycle.Theorems.Rebuild
import Omsrs.Lifecycle.Theorems.Rejection
import Omsrs.Lifecycle.Theorems.Release
import Omsrs.Replica.Theorems.Interleaving
import Omsrs.Replica.Theorems.Prices
import Omsrs.Replica.Theorems.Sequential
import Omsrs.Observation.Lemmas.Shell
import Omsrs.Observation.Shell
import Omsrs.Observation.Theorems.Frames
import Omsrs.Observation.Theorems.HeldIndex
import Omsrs.Observation.Theorems.KnownRemaining
import Omsrs.Observation.Theorems.Ready
import Omsrs.Observation.Theorems.Remaining
import Omsrs.Observation.Theorems.Roles
import Omsrs.Observation.Theorems.ShellRebuild
import Omsrs.Observation.Theorems.AuthorityHold
import Omsrs.Virtual.Theorems.Conservation
import Omsrs.Virtual.Theorems.Fill
import Omsrs.Virtual.Theorems.Mirror
import Omsrs.Virtual.Theorems.Snapshots
import Omsrs.Lifecycle.Theorems.WriteAhead
import Omsrs.Execution.Theorems.Ownership
import Omsrs.Lifecycle.Theorems.Submission
import Omsrs.Basket.Theorems.Conversation
import Omsrs.Basket.Theorems.Durable
import Omsrs.Lifecycle.Theorems.Rest
import Omsrs.Observation.Theorems.Ledgers
import Omsrs.Basket.Theorems.Locks
import Omsrs.Virtual.Theorems.Users
import Omsrs.Basket.Strategy
import Omsrs.Basket.Theorems.Strategy
