import Cosmon.Lib.Runs
import Cosmon.Runtime.DispatchLedger

namespace Cosmon.Runtime.DispatchRuns

open Cosmon.Lib.Runs Cosmon.State.Molecule Cosmon.Runtime.DispatchLedger

structure Snapshot where
  mol : MoleculeData
  epoch : Nat
deriving DecidableEq

/-- The ledger, the snapshots the attempts hold, and for every molecule a
count of its successful commits, rollbacks and changes of status. -/
structure World where
  ledger : Ledger
  snapshots : Nat → Option Snapshot
  epoch : MoleculeId → Nat

def World.start (ledger : Ledger) : World :=
  { ledger := ledger, snapshots := fun _ => none, epoch := fun _ => 0 }

/-- One action under the store lock, or the lock-free read of an attempt. A
`save` is any other writer: whatever it read before, it saves `data`. -/
inductive Op where
  | read (attempt : Nat) (id : MoleculeId)
  | commit (attempt : Nat) (record : DispatchRecord) (env : Env)
  | rollback (prior : MoleculeData) (worker : WorkerId) (env : Env)
  | rollbackIncarnation (prior : MoleculeData) (expected : MoleculeProcess) (env : Env)
  | save (data : MoleculeData) (ok : Bool)

/-- The ledger after an action on molecule `id`, in a new epoch if `ends`. -/
def World.write (w : World) (ledger : Ledger) (id : MoleculeId) (ends : Bool) : World :=
  { w with
    ledger := ledger
    epoch := if ends then Function.update w.epoch id (w.epoch id + 1) else w.epoch }

def World.step (w : World) : Op → World
  | .read attempt id =>
    match w.ledger.molecules id with
    | none => w
    | some m => { w with snapshots := Function.update w.snapshots attempt (some ⟨m, w.epoch m.id⟩) }
  | .commit attempt record env =>
    match w.snapshots attempt with
    | none => w
    | some sn =>
      match commitDispatch w.ledger sn.mol record env with
      | (ledger, .ok _) => w.write ledger sn.mol.id true
      | (ledger, .error _) => w.write ledger sn.mol.id false
  | .rollback prior worker env =>
    let ledger := rollbackDispatch w.ledger prior worker env
    w.write ledger prior.id (ledger.molecules prior.id ≠ w.ledger.molecules prior.id)
  | .rollbackIncarnation prior expected env =>
    let ledger := rollbackDispatchIncarnation w.ledger prior expected env
    w.write ledger prior.id (ledger.molecules prior.id ≠ w.ledger.molecules prior.id)
  | .save data ok =>
    match w.ledger.saveMolecule ok data with
    | .error _ => w
    | .ok ledger => w.write ledger data.id
        ((w.ledger.molecules data.id).map MoleculeData.status ≠ some data.status)

section Runs

variable {ledger : Ledger} {ops : List Op}

/-- The world of a run before its `n`-th action. -/
def worldAt (ledger : Ledger) (ops : List Op) (n : Nat) : World :=
  stateAt World.step (World.start ledger) ops n

def soleLedger (m : MoleculeData) : Ledger :=
  { molecules := fun id => if id = m.id then some m else none
    keyed := fun id m' h => by
      split at h
      · next hid => rw [← Option.some.inj h, hid]
      · cases h
    fleet := some .default
    events := [] }

def pendingMolecule : MoleculeData := { id := "task-1" }

def attemptRecord (worker : WorkerId) : DispatchRecord :=
  { worker := worker
    sessionName := worker
    adapter := "claude"
    tackledBy := .human
    worktreePath := "/repo/.worktrees/task-1"
    repo := ".worktrees/task-1" }

def clockAt (now : Instant) : Env :=
  { startedAt := now, tackledAt := now, registeredAt := now, undoneAt := now }

end Runs

end Cosmon.Runtime.DispatchRuns
