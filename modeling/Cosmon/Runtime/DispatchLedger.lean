import Cosmon.Runtime.CompilePlan
import Mathlib.Logic.Function.Basic

namespace Cosmon.Runtime.DispatchLedger

open Cosmon.State.Molecule Cosmon.Runtime.CompilePlan

inductive DesiredState where
  | running
  | paused
  | stopped
deriving DecidableEq

inductive Clearance where
  | read
  | write
  | execute
deriving DecidableEq

structure WorkerData where
  id : WorkerId
  agentId : String
  role : AgentRole
  clearance : Clearance
  status : WorkerStatus
  desired : DesiredState := .running
  repo : Option String := none
  currentMolecule : Option MoleculeId := none
  updatedAt : Instant
deriving DecidableEq

structure Fleet where
  workers : WorkerId → Option WorkerData
  /-- The path of each repository. -/
  repos : String → Option String := fun _ => none
  attentionBudget : Option Nat := none

def Fleet.default : Fleet := { workers := fun _ => none }

def Fleet.insert (fleet : Fleet) (id : WorkerId) (worker : WorkerData) : Fleet :=
  { fleet with workers := Function.update fleet.workers id (some worker) }

def Fleet.remove (fleet : Fleet) (id : WorkerId) : Fleet :=
  { fleet with workers := Function.update fleet.workers id none }

inductive LoopOwnership where
  | external
  | cosmon
deriving DecidableEq

/-- The `WorkerSpawned` event. -/
structure WorkerSpawned where
  transport : Option TransportSelection
  workerId : WorkerId
  molecule : Option MoleculeId
  sessionName : String
  role : AgentRole
  adapterName : String
  loopOwnership : LoopOwnership
deriving DecidableEq

/-- The records a dispatch touches, each molecule under its own id. `fleet`
is `none` while `fleet.json` cannot be read. -/
structure Ledger where
  molecules : MoleculeId → Option MoleculeData
  keyed : ∀ id m, molecules id = some m → m.id = id
  fleet : Option Fleet
  events : List WorkerSpawned

theorem keyed_update {molecules : MoleculeId → Option MoleculeData}
    (h : ∀ id m, molecules id = some m → m.id = id) (data : MoleculeData) :
    ∀ id m, Function.update molecules data.id (some data) id = some m → m.id = id := by
  intro id m hm
  by_cases hid : id = data.id
  · subst hid
    rw [Function.update_self] at hm
    rw [← Option.some.inj hm]
  · rw [Function.update_of_ne hid] at hm
    exact h id m hm

def Ledger.put (s : Ledger) (data : MoleculeData) : Ledger :=
  { s with
    molecules := Function.update s.molecules data.id (some data)
    keyed := keyed_update s.keyed data }

inductive DispatchLedgerError where
  | state (e : CosmonError)
  | claimLost (worker : WorkerId) (adapter model : String)
  | claimChanged (status : MoleculeStatus)
  | workerSpawnedEmit (worker : WorkerId) (path : String)
deriving DecidableEq

/-- `repo` is the worktree path made relative to the repository root. -/
structure DispatchRecord where
  transport : Option TransportSelection := none
  worker : WorkerId
  sessionName : String
  adapter : String
  loopOwnership : LoopOwnership := .external
  model : Option String := none
  tackledBy : TackledBy
  worktreePath : String
  repo : String
deriving DecidableEq

/-- What the outside decides during one call: which of its fallible store
operations go through, and the readings of the clock. A fleet save that fails
between its two files has replaced `fleet.json` and not the runtime half: then
`halfFleet` is the repository which the old half names for the worker. -/
structure Env where
  lock : Bool := true
  load : Bool := true
  save : Bool := true
  loadFleet : Bool := true
  saveFleet : Bool := true
  halfFleet : Option (Option String) := none
  emit : Bool := true
  undoLoadFleet : Bool := true
  undoFleet : Bool := true
  undoLoad : Bool := true
  undoSave : Bool := true
  startedAt : Instant
  tackledAt : Instant
  registeredAt : Instant
  undoneAt : Instant

structure DispatchRecorded where
  molecule : MoleculeId
  worker : WorkerId
deriving DecidableEq

def Ledger.saveMolecule (s : Ledger) (ok : Bool) (data : MoleculeData) : Except CosmonError Ledger :=
  if (s.molecules data.id).any fun current => refusesSave current data then
    .error (.stateStore ("molecule " ++ data.id ++
      " is collapsed; cannot leave Collapsed or replace its receipt"))
  else if ok then .ok (s.put data)
  else .error (.stateStore "write failed")

def checkClaim (current mol : MoleculeData) : Option DispatchLedgerError :=
  if current.process ≠ mol.process then
    match current.process with
    | some process => some (.claimLost process.workerId (process.adapterName.getD "unknown")
        (process.model.getD "adapter default (unrecorded)"))
    | none => some (.claimChanged current.status)
  else if current.status ≠ mol.status ∨ current.tags ≠ mol.tags ∨
      current.assignedWorker ≠ mol.assignedWorker ∨ current.sessionName ≠ mol.sessionName ∨
      current.tackledBy ≠ mol.tackledBy ∨ current.tackledAt ≠ mol.tackledAt then
    some (.claimChanged current.status)
  else none

def newProcess (record : DispatchRecord) (now : Instant) : MoleculeProcess :=
  { workerId := record.worker
    tmuxSession := record.sessionName
    startedAt := now
    adapterName := some record.adapter
    model := record.model
    worktreePath := some record.worktreePath
    transport := record.transport }

/-- A recorded dispatch promotes a waiting or parked molecule to `Running`. -/
def promote : MoleculeStatus → MoleculeStatus
  | .pending | .queued | .frozen => .running
  | status => status

/-- The record a dispatch saves. Fields outside the claim keep what was read
under the lock. -/
def dispatched (current : MoleculeData) (record : DispatchRecord) (env : Env) : MoleculeData :=
  let updated := { current with status := promote current.status }
  (updated.bindProcess (newProcess record env.startedAt) env.startedAt).markTackled
    record.tackledBy env.tackledAt

/-- A fleet that cannot be read is taken for an empty one. -/
def Ledger.readFleet (s : Ledger) (ok : Bool) : Fleet :=
  if ok then s.fleet.getD .default else .default

def registerTackleWorker (s : Ledger) (record : DispatchRecord) (mol : MoleculeData) (env : Env) :
    Ledger × Option DispatchLedgerError :=
  let fleet := s.readFleet env.loadFleet
  let role := mol.assignedRole.getD .implementation
  let worker : WorkerData :=
    { id := record.worker
      agentId := "tackle"
      role := role
      clearance := .write
      status := .active
      desired := .running
      repo := some record.repo
      currentMolecule := some mol.id
      updatedAt := env.registeredAt }
  if ¬env.saveFleet then
    match env.halfFleet with
    | none => (s, some (.state (.stateStore "write failed")))
    | some repo =>
      ({ s with fleet := some (fleet.insert record.worker { worker with repo := repo }) },
        some (.state (.stateStore "write failed")))
  else
    let s := { s with fleet := some (fleet.insert record.worker worker) }
    if ¬env.emit then (s, some (.workerSpawnedEmit record.worker "events.jsonl"))
    else
      ({ s with events := s.events ++
          [{ transport := mol.process.bind (·.transport)
             workerId := record.worker
             molecule := some mol.id
             sessionName := record.worker
             role := role
             adapterName := record.adapter
             loopOwnership := record.loopOwnership }] }, none)

/-- Put the claim of `prior` back into a record. -/
def restoreClaim (current prior : MoleculeData) (now : Instant) : MoleculeData :=
  { current with
    status := if current.status = .running then prior.status else current.status
    process := prior.process
    assignedWorker := prior.assignedWorker
    sessionName := prior.sessionName
    tackledBy := prior.tackledBy
    tackledAt := prior.tackledAt
    updatedAt := now }

/-- Take a worker out of the fleet. The save counts when it reaches `fleet.json`. -/
def Ledger.removeWorker (s : Ledger) (worker : WorkerId) (load save : Bool) : Ledger :=
  if save then { s with fleet := some ((s.readFleet load).remove worker) } else s

/-- Undo a dispatch, best effort: the worker leaves the fleet, and the claim
is put back while that worker is still the one bound. -/
def undoCommittedWrites (s : Ledger) (prior : MoleculeData) (worker : WorkerId) (env : Env) : Ledger :=
  let s := s.removeWorker worker env.undoLoadFleet env.undoFleet
  match s.molecules prior.id with
  | none => s
  | some current =>
    if env.undoLoad ∧ (current.process.any fun p => p.workerId = worker) then
      match s.saveMolecule env.undoSave (restoreClaim current prior env.undoneAt) with
      | .ok s' => s'
      | .error _ => s
    else s

/-- Record a dispatch before the worker is spawned. The whole call runs under
the fleet lock. -/
def commitDispatch (s : Ledger) (mol : MoleculeData) (record : DispatchRecord) (env : Env) :
    Ledger × Except DispatchLedgerError (MoleculeData × DispatchRecorded) :=
  if ¬env.lock then (s, .error (.state (.stateStore "fleet lock"))) else
  match s.molecules mol.id with
  | none => (s, .error (.state (.moleculeNotFound mol.id)))
  | some current =>
    if ¬env.load then (s, .error (.state (.stateStore "read failed"))) else
    match checkClaim current mol with
    | some e => (s, .error e)
    | none =>
      let updated := dispatched current record env
      match s.saveMolecule env.save updated with
      | .error e => (s, .error (.state e))
      | .ok s =>
        match registerTackleWorker s record updated env with
        | (s, some e) => (undoCommittedWrites s current record.worker env, .error e)
        | (s, none) => (s, .ok (updated, { molecule := mol.id, worker := record.worker }))

def rollbackDispatch (s : Ledger) (prior : MoleculeData) (worker : WorkerId) (env : Env) : Ledger :=
  if env.lock then undoCommittedWrites s prior worker env else s

/-- Undo a dispatch only while its own incarnation is bound: same worker,
start and transport. The revision is read under the same lock, so the
conditional save differs from a plain one only in its failures. -/
def rollbackDispatchIncarnation (s : Ledger) (prior : MoleculeData) (expected : MoleculeProcess)
    (env : Env) : Ledger :=
  if ¬env.lock then s else
  match s.molecules prior.id with
  | none => s
  | some current =>
    if env.load ∧ (current.process.any fun p => p.workerId = expected.workerId ∧
        p.startedAt = expected.startedAt ∧ p.transport = expected.transport) then
      match s.saveMolecule env.save (restoreClaim current prior env.undoneAt) with
      | .error _ => s
      | .ok s =>
        if s.fleet.isNone ∨ ¬env.loadFleet then s
        else s.removeWorker expected.workerId env.loadFleet env.saveFleet
    else s

structure Claim where
  process : Option MoleculeProcess
  status : MoleculeStatus
  tags : Finset Tag
  assignedWorker : Option WorkerId
  sessionName : Option String
  tackledBy : Option TackledBy
  tackledAt : Option Instant
deriving DecidableEq

def claimOf (m : MoleculeData) : Claim :=
  { process := m.process
    status := m.status
    tags := m.tags
    assignedWorker := m.assignedWorker
    sessionName := m.sessionName
    tackledBy := m.tackledBy
    tackledAt := m.tackledAt }

def Ledger.claimAt (s : Ledger) (id : MoleculeId) : Option Claim := (s.molecules id).map claimOf

theorem checkClaim_none_iff (current mol : MoleculeData) :
    checkClaim current mol = none ↔ claimOf current = claimOf mol := by
  simp only [checkClaim, claimOf, Claim.mk.injEq]
  split
  · next hp => split <;> simp [hp]
  · next hp =>
    split
    · next h => simp only [reduceCtorEq, false_iff]; tauto
    · next h => simp only [true_iff]; tauto

theorem saveMolecule_eq {s s' : Ledger} {ok : Bool} {data : MoleculeData}
    (h : s.saveMolecule ok data = .ok s') : s' = s.put data := by
  simp only [Ledger.saveMolecule] at h
  split at h
  · cases h
  · split at h <;> cases h
    rfl

theorem put_claimAt_self (s : Ledger) (data : MoleculeData) :
    (s.put data).claimAt data.id = some (claimOf data) := by
  simp [Ledger.put, Ledger.claimAt]

theorem removeWorker_molecules (s : Ledger) (worker : WorkerId) (load save : Bool) :
    (s.removeWorker worker load save).molecules = s.molecules := by
  simp only [Ledger.removeWorker]
  split <;> rfl

theorem registerTackleWorker_molecules (s : Ledger) (record : DispatchRecord) (mol : MoleculeData)
    (env : Env) : (registerTackleWorker s record mol env).1.molecules = s.molecules := by
  simp only [registerTackleWorker]
  split
  · split <;> rfl
  · split <;> rfl

theorem restoreClaim_dispatched (current : MoleculeData) (record : DispatchRecord) (env : Env)
    (now : Instant) :
    claimOf (restoreClaim (dispatched current record env) current now) = claimOf current := by
  cases h : current.status <;>
    simp [restoreClaim, dispatched, MoleculeData.markTackled, MoleculeData.bindProcess, claimOf,
      promote, h]

end Cosmon.Runtime.DispatchLedger
