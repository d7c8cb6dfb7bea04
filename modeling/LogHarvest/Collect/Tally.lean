import LogHarvest.Collect.Record
import LogHarvest.Fleet.Status

/-!
# Merging records into the status

Records are merged one at a time.  A failure is only counted.  A success is
recorded in the status, and then the status is written to where it is kept; that
this fails is no reason to stop, because the next write covers it.  At the end
the status is written once more, and now a failure counts.
-/

namespace LogHarvest

structure Tally where
  collected : Nat
  failed : Nat
  totalFiles : Nat
deriving DecidableEq, Repr

def Tally.zero : Tally := ⟨0, 0, 0⟩

/-- A place where a status is kept, and to which it can be written. -/
class StatusStore (σ : Type) where
  status : σ → Status
  setStatus : σ → Status → σ
  /-- Writes the status; the store remembers what that did. -/
  sync : σ → Except FleetFault Unit × σ

structure Aggregation (σ : Type) where
  store : σ
  tally : Tally

namespace Aggregation

variable {σ : Type} [StatusStore σ]

def start (store : σ) : Aggregation σ := ⟨store, .zero⟩

def absorb (a : Aggregation σ) (r : Record) : Except FleetFault Unit × Aggregation σ :=
  match r.outcome with
  | .error _ => (.ok (), { a with tally := { a.tally with failed := a.tally.failed + 1 } })
  | .ok paths =>
      match (StatusStore.status a.store).record r.group r.id paths with
      | .error fault => (.error fault, a)
      | .ok status =>
          let store := (StatusStore.sync (StatusStore.setStatus a.store status)).2
          let tally :=
            { a.tally with
              collected := a.tally.collected + 1
              totalFiles := a.tally.totalFiles + paths.length }
          (.ok (), ⟨store, tally⟩)

def finish (a : Aggregation σ) : Except FleetFault Tally × σ :=
  match StatusStore.sync a.store with
  | (.ok (), store) => (.ok a.tally, store)
  | (.error fault, store) => (.error fault, store)

end Aggregation

/-!
## A store in memory
-/

/-- A status in memory, whose writes are counted; those with given numbers fail. -/
structure MemoryStore where
  status : Status
  /-- The numbers of the writes that fail, counted from one. -/
  failing : List Nat
  /-- The statuses that the writes saw, the latest first. -/
  seen : List Status

namespace MemoryStore

def syncs (m : MemoryStore) : Nat := m.seen.length

instance : StatusStore MemoryStore where
  status := MemoryStore.status
  setStatus m status := { m with status := status }
  sync m :=
    let m' := { m with seen := m.status :: m.seen }
    (if m.failing.contains m'.syncs then .error (.invalidConfig "read-only") else .ok (), m')

end MemoryStore
end LogHarvest
