import Cosmon.Lib.Keyed
import Mathlib.Data.Finset.Basic
import Mathlib.Data.String.Basic

namespace Cosmon.State.Molecule

open Cosmon.Lib

abbrev MoleculeId := String
abbrev FleetId := String
abbrev FormulaId := String
abbrev WorkerId := String
abbrev Tag := String
abbrev StepId := String
abbrev ProjectId := String

abbrev Instant := Int

inductive CosmonError where
  | moleculeNotFound (id : MoleculeId)
  | stateStore (reason : String)
  | other (message : String)
deriving DecidableEq

def CosmonError.toString : CosmonError → String
  | .moleculeNotFound id => "molecule not found: " ++ id
  | .stateStore reason => "state store error: " ++ reason
  | .other message => message

inductive MoleculeStatus where
  | pending
  | queued
  | running
  | frozen
  | starved
  | completed
  | collapsed
deriving DecidableEq, Repr

def MoleculeStatus.asStr : MoleculeStatus → String
  | .pending => "pending"
  | .queued => "queued"
  | .running => "running"
  | .frozen => "frozen"
  | .starved => "starved"
  | .completed => "completed"
  | .collapsed => "collapsed"

/-- `FromStr` of a status, which also knows the old name of `Running`. -/
def MoleculeStatus.fromStr : String → Option MoleculeStatus
  | "pending" => some .pending
  | "queued" => some .queued
  | "running" => some .running
  | "active" => some .running
  | "frozen" => some .frozen
  | "starved" => some .starved
  | "completed" => some .completed
  | "collapsed" => some .collapsed
  | _ => none

/-- Only a completed blocker satisfies a `BlockedBy` edge. -/
def MoleculeStatus.satisfiesBlockedBy (s : MoleculeStatus) : Bool := s = .completed

inductive MoleculeKind where
  | idea
  | task
  | decision
  | issue
  | signal
  | deliberation
  | constellation
deriving DecidableEq

def MoleculeKind.asStr : MoleculeKind → String
  | .idea => "idea"
  | .task => "task"
  | .decision => "decision"
  | .issue => "issue"
  | .signal => "signal"
  | .deliberation => "deliberation"
  | .constellation => "constellation"

structure CrossGalaxyRef where
  galaxy : String
  molId : MoleculeId
deriving DecidableEq

inductive MoleculeLink where
  | decayedFrom (id : MoleculeId)
  | decayProduct (id : MoleculeId)
  | mergedFrom (ids : List MoleculeId)
  | mergedInto (id : MoleculeId)
  | transformedFrom (kind : MoleculeKind)
  | blocks (target : MoleculeId)
  | blockedBy (source : MoleculeId)
  | refines (target : MoleculeId)
  | refinedBy (source : MoleculeId)
  | refutes (target : MoleculeId)
  | refutedBy (source : MoleculeId)
  | entangled (target : String)
  | crossGalaxyBlocks (target : CrossGalaxyRef)
  | crossGalaxyBlockedBy (source : CrossGalaxyRef)
deriving DecidableEq

def MoleculeLink.blocksTarget : MoleculeLink → Option MoleculeId
  | .blocks target => some target
  | _ => none

def MoleculeLink.blockedBySource : MoleculeLink → Option MoleculeId
  | .blockedBy source => some source
  | _ => none

def MoleculeLink.decayProductId : MoleculeLink → Option MoleculeId
  | .decayProduct id => some id
  | _ => none

inductive AgentRole where
  | orchestration
  | research
  | implementation
  | infrastructure
  | advisory
  | validation
  | runtime
deriving DecidableEq

inductive WorkerStatus where
  | starting
  | active
  | paused
  | stopping
  | stopped
  | error (message : String)
  | unresponsive
  | stale
deriving DecidableEq

inductive TransportKind where
  | tmux
  | herdr
deriving DecidableEq

inductive TransportSource where
  | project
  | global
  | default
deriving DecidableEq

structure TransportSelection where
  backend : TransportKind
  source : TransportSource
deriving DecidableEq

/-- The live process bound to a molecule. The terminal and launch witnesses
are only ever compared as a whole, so they are kept in serialised form. -/
structure MoleculeProcess where
  transport : Option TransportSelection := none
  workerId : WorkerId
  tmuxSession : String
  startedAt : Instant
  status : WorkerStatus := .active
  pid : Option Nat := none
  terminal : Option String := none
  workerLaunch : Option String := none
  pidStartTime : Option Nat := none
  adapterName : Option String := none
  model : Option String := none
  worktreePath : Option String := none
deriving DecidableEq

inductive TackledBy where
  | human
  | runtime (pid : Nat)
deriving DecidableEq

inductive CollapseCause where
  | rateLimit (account kindQuota : Option String)
  | inferenceStall
  | manual
  | processDeath
  | unknown
deriving DecidableEq

inductive CollapseReason where
  | workerCrashed
  | gateFailed
  | blockerStuck
  | manualAbort
  | resourceExhausted
  | agentLoopFailed
  | other (text : String)
deriving DecidableEq

/-- The receipt of a keyed collapse. It is stored in the record of its key
and in the state of the molecule it collapsed. -/
structure CollapseReceipt where
  schema : String
  key : String
  digest : String
  molecule : MoleculeId
  previousStatus : MoleculeStatus
  previousRevision : String
  committedAt : Instant
deriving DecidableEq

/-- The step counter that parks a molecule when it is used up. -/
structure StepBudget where
  cap : Nat
  remaining : Nat
deriving DecidableEq

def StepBudget.isExhausted (b : StepBudget) : Bool := b.remaining = 0

def StepBudget.consume (b : StepBudget) : StepBudget := { b with remaining := b.remaining - 1 }

structure BriefingSeal where
  step : Nat
  hash : String
  sealedAt : Instant
  briefingBytes : Nat
  canonicalVersion : Nat
  snapshot : Option String := none
deriving DecidableEq

/-- The persisted state of a molecule, as far as the modelled operations
read or write it. -/
structure MoleculeData where
  id : MoleculeId
  fleetId : FleetId := "default"
  formulaId : FormulaId := ""
  status : MoleculeStatus := .pending
  assignedWorker : Option WorkerId := none
  updatedAt : Instant := 0
  totalSteps : Nat := 0
  currentStep : Nat := 0
  completedSteps : List StepId := []
  collapseReason : Option String := none
  collapseCause : Option CollapseCause := none
  collapseReasonKind : Option CollapseReason := none
  collapsedStep : Option Nat := none
  kind : Option MoleculeKind := none
  typedLinks : List MoleculeLink := []
  projectId : Option ProjectId := none
  assignedRole : Option AgentRole := none
  sessionName : Option String := none
  tags : Finset Tag := ∅
  freezeOnLastStep : Bool := false
  adapter : Option String := none
  baseBranch : Option String := none
  mergedAt : Option Instant := none
  promptSeal : Option BriefingSeal := none
  briefingSeals : List BriefingSeal := []
  bootstrapSeals : List BriefingSeal := []
  energyBudget : Option StepBudget := none
  process : Option MoleculeProcess := none
  stuckAt : Option Instant := none
  tackledBy : Option TackledBy := none
  tackledAt : Option Instant := none
  collapseReceipt : Option CollapseReceipt := none
deriving DecidableEq

def MoleculeData.blocks (m : MoleculeData) : List MoleculeId :=
  m.typedLinks.filterMap MoleculeLink.blocksTarget

def MoleculeData.blockedBy (m : MoleculeData) : List MoleculeId :=
  m.typedLinks.filterMap MoleculeLink.blockedBySource

def MoleculeData.decayProducts (m : MoleculeData) : List MoleculeId :=
  m.typedLinks.filterMap MoleculeLink.decayProductId

/-- The guard of every save: a collapsed record neither leaves `Collapsed`
nor changes its receipt. -/
def refusesSave (current data : MoleculeData) : Bool :=
  current.status = .collapsed &&
    (data.status ≠ .collapsed || data.collapseReceipt ≠ current.collapseReceipt)

def MoleculeData.bindProcess (m : MoleculeData) (process : MoleculeProcess) (now : Instant) :
    MoleculeData :=
  { m with
    assignedWorker := some process.workerId
    sessionName := some process.tmuxSession
    updatedAt := now
    process := some process }

def MoleculeData.markTackled (m : MoleculeData) (who : TackledBy) (now : Instant) : MoleculeData :=
  { m with tackledBy := some who, tackledAt := some now, updatedAt := now }

def MoleculeData.releaseProcess (m : MoleculeData) (now : Instant) : MoleculeData :=
  { m with process := none, sessionName := none, updatedAt := now }

/-- The `HashMap` index of a list of records. A later record of an id
replaces an earlier one. -/
def byId (molecules : List MoleculeData) (id : MoleculeId) : Option MoleculeData :=
  molecules.reverse.find? (fun m => m.id = id)

theorem byId_some {molecules : List MoleculeData} {id : MoleculeId} {m : MoleculeData}
    (h : byId molecules id = some m) : m ∈ molecules ∧ m.id = id :=
  (Keyed.get_mem h).imp_left List.mem_reverse.mp

theorem byId_mem {molecules : List MoleculeData} {m : MoleculeData} (h : m ∈ molecules) :
    ∃ m', byId molecules m.id = some m' := by
  apply Option.isSome_iff_exists.mp
  rw [byId, List.find?_isSome]
  exact ⟨m, List.mem_reverse.mpr h, by simp⟩

theorem byId_of_nodup {molecules : List MoleculeData} {m : MoleculeData}
    (hnd : (molecules.map MoleculeData.id).Nodup) (h : m ∈ molecules) :
    byId molecules m.id = some m := by
  have hreverse : (molecules.reverse.map MoleculeData.id).Nodup := by
    rwa [List.map_reverse, List.nodup_reverse]
  exact (Keyed.get_iff hreverse).mpr ⟨List.mem_reverse.mpr h, rfl⟩

end Cosmon.State.Molecule
