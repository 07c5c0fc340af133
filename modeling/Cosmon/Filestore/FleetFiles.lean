import Cosmon.Core.Formulas
import Cosmon.Runtime.DispatchLedger
import Mathlib.Data.List.AList

namespace Cosmon.Filestore.FleetFiles

open Cosmon.Core.Formulas
open Cosmon.Runtime.DispatchLedger (Clearance DesiredState)
open Cosmon.State.Molecule (AgentRole WorkerStatus Instant)

abbrev HashMap (κ α : Type) := AList fun _ : κ => α

structure Id (new : String → Except IdError String) where
  raw : String
  valid : (new raw).isOk = true
deriving DecidableEq

def Id.ofString (new : String → Except IdError String) (s : String) : Except IdError (Id new) :=
  match h : new s with
  | .error e => .error e
  | .ok _ => .ok ⟨s, by rw [h]; rfl⟩

/-- `WorkerId::new`: `ep-{name}` or a bare name. -/
def workerIdNew (s : String) : Except IdError String :=
  let name := if "ep-".toList.isPrefixOf s.toList then s.toList.drop 3 else s.toList
  if s = "" then .error (.empty "WorkerId")
  else if name = [] then .error (.invalid "WorkerId" "name after 'ep-' prefix cannot be empty")
  else if name.all (fun c => isAsciiAlphanumeric c || c = '-') = false then
    .error (.invalid "WorkerId" ("name must contain only ASCII alphanumeric or hyphens, got \"" ++
      String.ofList name ++ "\""))
  else if name.head? = some '-' ∨ name.getLast? = some '-' then
    .error (.invalid "WorkerId" ("name must not start or end with hyphen, got \"" ++ String.ofList name ++ "\""))
  else .ok s

abbrev WorkerId := Id workerIdNew
abbrev AgentId := Id (simpleId "AgentId")
abbrev MoleculeId := Id moleculeIdNew

inductive WorkerRole where
  | cognition
  | runtime
deriving DecidableEq

structure WorkerData where
  id : WorkerId
  agentId : AgentId
  role : AgentRole
  clearance : Clearance
  status : WorkerStatus
  workerRole : WorkerRole
  desired : DesiredState
  repo : Option String
  currentMolecule : Option MoleculeId
  updatedAt : Instant
  preemptedBy : Option WorkerId := none
  frozenMolecule : Option MoleculeId := none
  frozenAt : Option Instant := none
  restartCount : UInt32 := 0
deriving DecidableEq

structure RepoData where
  name : String
  path : String
deriving DecidableEq

structure Fleet where
  workers : HashMap WorkerId WorkerData := ∅
  repos : HashMap String RepoData := ∅
  attentionBudget : Option UInt64 := none

structure RuntimeWorker where
  repo : Option String := none
  restartCount : UInt32 := 0
deriving DecidableEq

structure RuntimeFleet where
  workers : HashMap WorkerId RuntimeWorker := ∅

section roles

def deriveWorkerRole (agentRole : AgentRole) (workerId : String) : WorkerRole :=
  if agentRole = .runtime || "runtime-".toList.isPrefixOf workerId.toList then .runtime else .cognition

def WorkerData.reconciled (worker : WorkerData) : WorkerData :=
  if worker.workerRole = .cognition then
    { worker with workerRole := deriveWorkerRole worker.role worker.id.raw }
  else worker

def mapValues {κ α β : Type} (f : α → β) (m : HashMap κ α) : HashMap κ β where
  entries := m.entries.map fun e => ⟨e.1, f e.2⟩
  nodupKeys := by
    rw [List.NodupKeys, List.keys, List.map_map]
    exact m.nodupKeys

def Fleet.reconcileWorkerRoles (fleet : Fleet) : Fleet :=
  { fleet with workers := mapValues WorkerData.reconciled fleet.workers }

end roles

section values

inductive Value where
  | null
  | bool (b : Bool)
  | int (n : Int)
  | real (text : String)
  | string (s : String)
  | array (items : List Value)
  | object (fields : List (String × Value))

def named {α : Type} (names : List (String × α)) : Value → Option α
  | .string s => names.lookup s
  | .object [(s, .null)] => names.lookup s
  | _ => none

def text : Value → Option String
  | .string s => some s
  | _ => none

def idValue {new : String → Except IdError String} : Value → Option (Id new)
  | .string s => (Id.ofString new s).toOption
  | _ => none

/-- A number that fits in `u32`. -/
def u32Value : Value → Option UInt32
  | .int n => if 0 ≤ n ∧ n < 4294967296 then some (UInt32.ofNat n.toNat) else none
  | _ => none

def usizeValue : Value → Option UInt64
  | .int n => if 0 ≤ n ∧ n < 18446744073709551616 then some (UInt64.ofNat n.toNat) else none
  | _ => none

def recordFields (names : List String) : Value → Option (List (String × Value))
  | .object fields => some fields
  | .array items => if items.length ≤ names.length then some (names.zip items) else none
  | _ => none

/-- What stands under a name, which must not be there twice. -/
def field (fields : List (String × Value)) (name : String) : Option (Option Value) :=
  match fields.filter fun p => p.1 = name with
  | [] => some none
  | [p] => some (some p.2)
  | _ => none

section fields

variable {α : Type} (decode : Value → Option α) (fields : List (String × Value)) (name : String)

def required : Option α := do
  let found ← field fields name
  let v ← found
  decode v

/-- `#[serde(default = ...)]`. -/
def orDefault (default : α) : Option α := do
  let found ← field fields name
  match found with
  | none => some default
  | some v => decode v

def nullable (v : Value) : Option (Option α) :=
  match v with
  | .null => some none
  | v => (decode v).map some

def optional : Option (Option α) := orDefault (nullable decode) fields name none

end fields

def mapOf {κ α : Type} [DecidableEq κ] (decodeKey : Value → Option κ) (decode : Value → Option α) :
    Value → Option (HashMap κ α)
  | .object fields => do
    let entries ← fields.mapM fun p => do
      let key ← decodeKey (.string p.1)
      let v ← decode p.2
      pure (⟨key, v⟩ : Sigma fun _ : κ => α)
    pure entries.reverse.toAList
  | _ => none

def present (fields : List (String × Option Value)) : List (String × Value) :=
  fields.filterMap fun p => p.2.map fun v => (p.1, v)

end values

/-- `serde_json` on texts, and `chrono` on instants. -/
structure Codec where
  toStringPretty : Value → String
  fromStr : String → Option Value
  time : Instant → String
  parseTime : String → Option Instant

section codec

variable (cx : Codec)

def timeValue : Value → Option Instant
  | .string s => cx.parseTime s
  | _ => none

def agentRoles : List (String × AgentRole) :=
  [("orchestration", .orchestration), ("research", .research), ("implementation", .implementation),
    ("infrastructure", .infrastructure), ("advisory", .advisory), ("validation", .validation),
    ("runtime", .runtime)]

def clearances : List (String × Clearance) := [("read", .read), ("write", .write), ("execute", .execute)]

def workerRoles : List (String × WorkerRole) := [("cognition", .cognition), ("runtime", .runtime)]

def desiredStates : List (String × DesiredState) :=
  [("running", .running), ("paused", .paused), ("stopped", .stopped)]

def workerStatuses : List (String × WorkerStatus) :=
  [("starting", .starting), ("active", .active), ("paused", .paused), ("stopping", .stopping),
    ("stopped", .stopped), ("unresponsive", .unresponsive), ("stale", .stale)]

def statusOf : Value → Option WorkerStatus
  | .object [("error", .string message)] => some (.error message)
  | v => named workerStatuses v

def nameIn {α : Type} [DecidableEq α] (names : List (String × α)) (a : α) : Value :=
  .string (((names.find? fun p => p.2 = a).map Prod.fst).getD "")

def statusValue : WorkerStatus → Value
  | .error message => .object [("error", .string message)]
  | s => nameIn workerStatuses s

def optionValue {α : Type} (encode : α → Value) : Option α → Value
  | none => .null
  | some a => encode a

def idText {new : String → Except IdError String} (i : Id new) : Value := .string i.raw

def timeText (t : Instant) : Value := .string (cx.time t)

/-- The fields of a worker, in the order of a `serde_json` map. -/
def workerFields (w : WorkerData) : List (String × Option Value) :=
  [("agent_id", some (idText w.agentId)),
    ("clearance", some (nameIn clearances w.clearance)),
    ("current_molecule", some (optionValue idText w.currentMolecule)),
    ("desired", some (nameIn desiredStates w.desired)),
    ("frozen_at", w.frozenAt.map (timeText cx)),
    ("frozen_molecule", w.frozenMolecule.map idText),
    ("id", some (idText w.id)),
    ("preempted_by", w.preemptedBy.map idText),
    ("repo", some (optionValue .string w.repo)),
    ("restart_count", some (.int w.restartCount.toNat)),
    ("role", some (nameIn agentRoles w.role)),
    ("status", some (statusValue w.status)),
    ("updated_at", some (timeText cx w.updatedAt)),
    ("worker_role", some (nameIn workerRoles w.workerRole))]

def workerNames : List String :=
  ["id", "agent_id", "role", "clearance", "status", "worker_role", "desired", "repo", "current_molecule",
    "updated_at", "preempted_by", "frozen_molecule", "frozen_at", "restart_count"]

def workerValue (w : WorkerData) : Value := .object (present (workerFields cx w))

def workerOfFields (fields : List (String × Value)) : Option WorkerData := do
  pure {
    id := ← required idValue fields "id"
    agentId := ← required idValue fields "agent_id"
    role := ← required (named agentRoles) fields "role"
    clearance := ← required (named clearances) fields "clearance"
    status := ← required statusOf fields "status"
    workerRole := ← orDefault (named workerRoles) fields "worker_role" .cognition
    desired := ← orDefault (named desiredStates) fields "desired" .running
    repo := ← optional text fields "repo"
    currentMolecule := ← optional idValue fields "current_molecule"
    updatedAt := ← required (timeValue cx) fields "updated_at"
    preemptedBy := ← optional idValue fields "preempted_by"
    frozenMolecule := ← optional idValue fields "frozen_molecule"
    frozenAt := ← optional (timeValue cx) fields "frozen_at"
    restartCount := ← orDefault u32Value fields "restart_count" 0
  }

def workerOf (v : Value) : Option WorkerData := (recordFields workerNames v).bind (workerOfFields cx)

def repoValue (r : RepoData) : Value := .object [("name", .string r.name), ("path", .string r.path)]

def repoOf (v : Value) : Option RepoData := do
  let fields ← recordFields ["name", "path"] v
  pure { name := ← required text fields "name", path := ← required text fields "path" }

/-- The entries of a map, in the order of a `serde_json` map. -/
def entriesValue {κ α : Type} (key : κ → String) (encode : α → Value) (m : HashMap κ α) :
    List (String × Value) :=
  (m.entries.insertionSort fun d e => key d.1 ≤ key e.1).map fun e => (key e.1, encode e.2)

/-- `serde_json::to_value` on a fleet. -/
def fleetValue (fleet : Fleet) : Value :=
  .object (present
    [("attention_budget", fleet.attentionBudget.map fun n => .int n.toNat),
      ("repos", some (.object (entriesValue id repoValue fleet.repos))),
      ("workers", some (.object (entriesValue Id.raw (workerValue cx) fleet.workers)))])

def fleetOfFields (fields : List (String × Value)) : Option Fleet := do
  pure {
    workers := ← required (mapOf idValue (workerOf cx)) fields "workers"
    repos := ← required (mapOf text repoOf) fields "repos"
    attentionBudget := ← optional usizeValue fields "attention_budget"
  }

def fleetOf (v : Value) : Option Fleet :=
  (recordFields ["workers", "repos", "attention_budget"] v).bind (fleetOfFields cx)

def runtimeWorkerValue (rw : RuntimeWorker) : Value :=
  .object (present
    [("repo", rw.repo.map .string),
      ("restart_count", if rw.restartCount = 0 then none else some (.int rw.restartCount.toNat))])

def runtimeWorkerOfFields (fields : List (String × Value)) : Option RuntimeWorker := do
  pure {
    repo := ← optional text fields "repo"
    restartCount := ← orDefault u32Value fields "restart_count" 0
  }

def runtimeWorkerOf (v : Value) : Option RuntimeWorker :=
  (recordFields ["repo", "restart_count"] v).bind runtimeWorkerOfFields

def runtimeFleetValue (runtime : RuntimeFleet) : Value :=
  .object [("workers", .object (runtime.workers.entries.map fun e => (e.1.raw, runtimeWorkerValue e.2)))]

def runtimeFleetOf (v : Value) : Option RuntimeFleet := do
  let fields ← recordFields ["workers"] v
  pure { workers := ← orDefault (mapOf idValue runtimeWorkerOf) fields "workers" ∅ }

end codec

section store

inductive StoreError where
  | stateStore (reason : String)
  | notUtf8
  | json
deriving DecidableEq

/-- What a file holds: a text, or bytes that are none. -/
inductive Content where
  | text (data : String)
  | notUtf8
deriving DecidableEq

/-- `fleet.json` and `fleet.runtime.json`. -/
structure Files where
  fleet : Option Content := none
  runtime : Option Content := none

def without (name : String) (fields : List (String × Value)) : List (String × Value) :=
  fields.filter fun p => p.1 ≠ name

def takeStringField (v : Value) (key : String) : Option String × Value :=
  match v with
  | .object fields =>
    match fields.lookup key with
    | some (.string s) => (some s, .object (without key fields))
    | some .null => (none, .object (without key fields))
    | _ => (none, v)
  | _ => (none, v)

def takeU32Field (v : Value) (key : String) : UInt32 × Value :=
  match v with
  | .object fields =>
    match fields.lookup key with
    | some (.int n) => ((u32Value (.int n)).getD 0, .object (without key fields))
    | some (.real _) => (0, .object (without key fields))
    | _ => (0, v)
  | _ => (0, v)

def splitWorkers (runtime : HashMap WorkerId RuntimeWorker) : List (String × Value) →
    Except StoreError (List (String × Value) × HashMap WorkerId RuntimeWorker)
  | [] => .ok ([], runtime)
  | (key, v) :: rest =>
    match Id.ofString workerIdNew key with
    | .error e => .error (.stateStore ("invalid worker id in fleet.json: " ++ e.toString))
    | .ok wid =>
      let (repo, v) := takeStringField v "repo"
      let (restartCount, v) := takeU32Field v "restart_count"
      let runtime := if repo.isSome ∨ restartCount ≠ 0 then runtime.insert wid ⟨repo, restartCount⟩ else runtime
      (splitWorkers runtime rest).map fun halves => ((key, v) :: halves.1, halves.2)

def workersOf (v : Value) : Option (List (String × Value)) :=
  match v with
  | .object fields =>
    match fields.lookup "workers" with
    | some (.object workers) => some workers
    | _ => none
  | _ => none

def withWorkers (workers : List (String × Value)) : Value → Value
  | .object fields => .object (fields.map fun p => if p.1 = "workers" then (p.1, .object workers) else p)
  | v => v

section save

variable (cx : Codec)

def splitFleet (fleet : Fleet) : Except StoreError (Value × RuntimeFleet) :=
  let durable := fleetValue cx fleet
  match workersOf durable with
  | none => .ok (durable, {})
  | some workers => (splitWorkers ∅ workers).map fun halves => (withWorkers halves.1 durable, ⟨halves.2⟩)

def splitFleetForPersist (fleet : Fleet) : Except StoreError (String × String) :=
  (splitFleet cx fleet).map fun halves =>
    (cx.toStringPretty halves.1, cx.toStringPretty (runtimeFleetValue halves.2))

def replaceFleet (durable : String) (files : Files) : Files := { files with fleet := some (.text durable) }

def replaceRuntime (runtime : String) (files : Files) : Files := { files with runtime := some (.text runtime) }

def saveFleet (fleet : Fleet) (files : Files) : Except StoreError Files :=
  (splitFleetForPersist cx fleet).map fun halves => replaceRuntime halves.2 (replaceFleet halves.1 files)

/-- What `save_fleet` leaves when it dies between its two replacements. -/
def saveCutShort (fleet : Fleet) (files : Files) : Except StoreError Files :=
  (splitFleetForPersist cx fleet).map fun halves => replaceFleet halves.1 files

def RuntimeWorker.overlay (rw : RuntimeWorker) (worker : WorkerData) : WorkerData :=
  { worker with repo := rw.repo, restartCount := rw.restartCount }

/-- The loop over the entries of the live half. An entry of no worker is ignored. -/
def overlayWorkers (workers : HashMap WorkerId WorkerData) :
    List (Sigma fun _ : WorkerId => RuntimeWorker) → HashMap WorkerId WorkerData
  | [] => workers
  | ⟨wid, rw⟩ :: rest =>
    match workers.lookup wid with
    | some worker => overlayWorkers (workers.insert wid (rw.overlay worker)) rest
    | none => overlayWorkers workers rest

def parseRuntime (data : String) : Option RuntimeFleet := (cx.fromStr data).bind runtimeFleetOf

def mergeRuntimeOverlay (fleet : Fleet) : Option Content → Except StoreError Fleet
  | none => .ok fleet
  | some .notUtf8 => .error .notUtf8
  | some (.text data) =>
    match parseRuntime cx data with
    | none => .ok fleet
    | some runtime => .ok { fleet with workers := overlayWorkers fleet.workers runtime.workers.entries }

def parseFleet (data : String) : Option Fleet := (cx.fromStr data).bind (fleetOf cx)

def loadFleet (files : Files) : Except StoreError Fleet :=
  match files.fleet with
  | none => .ok {}
  | some .notUtf8 => .error .notUtf8
  | some (.text data) =>
    match parseFleet cx data with
    | none => .error .json
    | some fleet => mergeRuntimeOverlay cx fleet.reconcileWorkerRoles files.runtime

end save

end store

end Cosmon.Filestore.FleetFiles
