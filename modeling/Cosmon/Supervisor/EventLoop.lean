import Cosmon.Core.PilotLeases
import Cosmon.Lib.Runs

namespace Cosmon.Supervisor

open Cosmon.Core.PilotLeases Cosmon.Lib.Text Cosmon.State.Molecule

structure DaemonSpec where
  name : String
  binary : String
  args : List String := []
  throttleSeconds : Nat := 30
  env : List (String × String) := []
  logStdout : Option String := none
  logStderr : Option String := none
  killSwitch : Option String := none
  enabled : Bool := true
  deriving DecidableEq, Repr

structure Config where
  daemons : List DaemonSpec

/-- What is wrong with the entries from this index on, after entries of these names. -/
def problems (seen : List String) (idx : Nat) : List DaemonSpec → List String
  | [] => []
  | d :: rest =>
    let ofName :=
      if d.name = "" then [s!"daemon[{idx}]: name is empty"]
      else if d.name ∈ seen then [s!"daemon[{idx}] '{d.name}': duplicate name"]
      else []
    let ofBinary := if trim d.binary.toList = [] then [s!"daemon[{idx}] '{d.name}': binary is empty"] else []
    ofName ++ ofBinary ++ problems (if d.name = "" then seen else d.name :: seen) (idx + 1) rest

def Config.validate (cfg : Config) : Except String Unit :=
  if problems [] 0 cfg.daemons = [] then .ok ()
  else .error ("\n".intercalate (problems [] 0 cfg.daemons))

/-- A config that `load` returns. -/
def LoadedConfig := { cfg : Config // cfg.validate = .ok () }

def LoadedConfig.byName (cfg : LoadedConfig) : List (String × DaemonSpec) := cfg.1.daemons.map fun d => (d.name, d)

theorem problems_nil {seen : List String} {idx : Nat} {daemons : List DaemonSpec}
    (h : problems seen idx daemons = []) :
    (daemons.map (·.name)).Nodup ∧ ∀ d ∈ daemons, d.name ∉ seen := by
  induction daemons generalizing seen idx with
  | nil => exact ⟨List.nodup_nil, fun d hd => absurd hd List.not_mem_nil⟩
  | cons d rest ih =>
    rw [problems, List.append_eq_nil_iff, List.append_eq_nil_iff] at h
    obtain ⟨⟨hname, -⟩, hrest⟩ := h
    by_cases hempty : d.name = ""
    · rw [if_pos hempty] at hname
      cases hname
    by_cases hseen : d.name ∈ seen
    · rw [if_neg hempty, if_pos hseen] at hname
      cases hname
    rw [if_neg hempty] at hrest
    obtain ⟨hnodup, hfresh⟩ := ih hrest
    refine ⟨List.nodup_cons.mpr ⟨fun hmem => ?_, hnodup⟩, List.forall_mem_cons.mpr ⟨hseen, fun e he hin => ?_⟩⟩
    · obtain ⟨e, he, heq⟩ := List.mem_map.mp hmem
      exact hfresh e he (heq ▸ List.mem_cons_self)
    · exact hfresh e he (List.mem_cons_of_mem _ hin)

theorem LoadedConfig.nodup (cfg : LoadedConfig) : (cfg.1.daemons.map (·.name)).Nodup := by
  have hvalid := cfg.2
  unfold Config.validate at hvalid
  split at hvalid
  · rename_i hnil
    exact (problems_nil hnil).1
  · cases hvalid

inductive KillSwitchDecision
  | run
  | globalMute
  | daemonMute
  | disabled
  deriving DecidableEq

def KillSwitchDecision.isMuted : KillSwitchDecision → Bool
  | .run => false
  | _ => true

/-- The global lock comes before the lock of the daemon, and this before its own flag. -/
def killSwitchDecision (spec : DaemonSpec) (globalLockPresent daemonLockPresent : Bool) : KillSwitchDecision :=
  if globalLockPresent = true then .globalMute
  else if spec.killSwitch.isSome = true ∧ daemonLockPresent = true then .daemonMute
  else if spec.enabled = false then .disabled
  else .run

theorem not_muted {spec : DaemonSpec} {globalLock daemonLock : Bool}
    (h : (killSwitchDecision spec globalLock daemonLock).isMuted = false) :
    globalLock = false ∧ (spec.killSwitch.isSome = true → daemonLock = false) ∧ spec.enabled = true := by
  cases globalLock <;> cases daemonLock <;> cases hswitch : spec.killSwitch <;> cases henabled : spec.enabled <;>
    simp [killSwitchDecision, KillSwitchDecision.isMuted, hswitch, henabled] at h ⊢

inductive RespawnDecision
  | spawnNow
  | throttleUntil (deadline : Instant)
  | quiesce

/-- The last instant that a `DateTime` holds. -/
def maxUtc : Instant := 8210266876799999999999

/-- A duration of seconds, whose milliseconds have to fit in 64 bits. -/
def trySeconds (secs : Nat) : Option Instant :=
  if secs ≤ (2 ^ 63 - 1) / 1000 then some (secs * nanosPerSecond) else none

def throttleDeadline (spec : DaemonSpec) (exitedAt : Instant) : Instant :=
  match trySeconds (min spec.throttleSeconds (2 ^ 63 - 1)) with
  | none => maxUtc
  | some delta => if exitedAt + delta ≤ maxUtc then exitedAt + delta else maxUtc

def respawnDecision (spec : DaemonSpec) (exitedAt now : Instant) (killSwitch : KillSwitchDecision) :
    RespawnDecision :=
  if killSwitch.isMuted = true then .quiesce
  else if spec.throttleSeconds = 0 then .spawnNow
  else if throttleDeadline spec exitedAt ≤ now then .spawnNow
  else .throttleUntil (throttleDeadline spec exitedAt)

def respawnTime (spec : DaemonSpec) (exitedAt : Instant) : Instant :=
  min (exitedAt + spec.throttleSeconds * nanosPerSecond) maxUtc

theorem respawnTime_mono (spec : DaemonSpec) {s t : Instant} (h : s ≤ t) : respawnTime spec s ≤ respawnTime spec t :=
  min_le_min_right _ (Int.add_le_add_right h _)

theorem respawnTime_of_zero {spec : DaemonSpec} (h : spec.throttleSeconds = 0) (t : Instant) :
    respawnTime spec t ≤ t := by
  simp [respawnTime, h]

theorem respawnTime_le_deadline (spec : DaemonSpec) (exitedAt : Instant) :
    respawnTime spec exitedAt ≤ throttleDeadline spec exitedAt := by
  unfold respawnTime throttleDeadline trySeconds
  split
  · exact min_le_right _ _
  · rename_i delta hdelta
    split at hdelta
    · rename_i hsmall
      have hsecs : min spec.throttleSeconds (2 ^ 63 - 1) = spec.throttleSeconds := by omega
      rw [hsecs, Option.some.injEq] at hdelta
      subst hdelta
      split
      · exact min_le_left _ _
      · exact min_le_right _ _
    · cases hdelta

end Cosmon.Supervisor

namespace Cosmon.Supervisor

open Cosmon.Lib Cosmon.Lib.Runs Cosmon.State.Molecule

inductive ChildStatus
  | spawning
  | running
  | exited
  | throttling
  | respawning
  deriving DecidableEq, Repr

structure ChildRecord where
  name : String
  spec : DaemonSpec
  status : ChildStatus := .exited
  pid : Option Nat := none
  lastExitCode : Option Int := none
  lastSpawnAt : Option Instant := none
  lastExitAt : Option Instant := none
  /-- While throttling, the time to wait for; it is not saved. -/
  throttleUntil : Option Instant := none
  respawnCount : Nat := 0
  deriving DecidableEq

def ChildRecord.fresh (spec : DaemonSpec) : ChildRecord := { name := spec.name, spec }

structure PersistedChild where
  name : String
  status : ChildStatus
  pid : Option Nat
  lastExitCode : Option Int
  lastSpawnAt : Option Instant
  lastExitAt : Option Instant
  respawnCount : Nat
  deriving DecidableEq

def ChildRecord.toPersisted (rec : ChildRecord) : PersistedChild where
  name := rec.name
  status := rec.status
  pid := rec.pid
  lastExitCode := rec.lastExitCode
  lastSpawnAt := rec.lastSpawnAt
  lastExitAt := rec.lastExitAt
  respawnCount := rec.respawnCount

section Diff

variable {H : Type} [DecidableEq H] (specContentHash : DaemonSpec → H)

structure DiffResult where
  spawn : List String
  kill : List String
  keep : List String
  changed : List String

def sameHash (old new : List (String × DaemonSpec)) (name : String) : Option Bool :=
  match old.lookup name, new.lookup name with
  | some a, some b => some (decide (specContentHash a = specContentHash b))
  | _, _ => none

def diff (old new : List (String × DaemonSpec)) : DiffResult :=
  let oldNames := old.map Prod.fst
  let newNames := new.map Prod.fst
  { spawn := (newNames.filter (· ∉ oldNames)).insertionSort (· ≤ ·)
    kill := (oldNames.filter (· ∉ newNames)).insertionSort (· ≤ ·)
    keep := (oldNames.filter fun n => sameHash specContentHash old new n = some true).insertionSort (· ≤ ·)
    changed := (oldNames.filter fun n => sameHash specContentHash old new n = some false).insertionSort (· ≤ ·) }

end Diff

inductive Outcome
  | exited (code : Int)
  | signaled
  deriving DecidableEq

/-- A process that was spawned for a daemon; it is alive until it has an outcome. -/
@[ext] structure Process where
  pid : Nat
  daemon : String
  outcome : Option Outcome := none
  deriving DecidableEq

inductive Reason
  | muted
  | dropped
  | changed
  deriving DecidableEq

inductive Event
  | exited (daemon : String) (time : Instant)
  | attempt (daemon : String) (time : Instant) (spec : DaemonSpec) (globalMute daemonMute ok : Bool)
  deriving DecidableEq

/-- The supervisor's children and the handles it holds, the state file, and the processes;
and what was signalled and recorded so far. -/
structure World where
  children : List ChildRecord := []
  handles : List Nat := []
  state : List PersistedChild := []
  processes : List Process := []
  signals : List (Nat × Reason) := []
  log : List Event := []

def World.alive (w : World) (pid : Nat) : Bool := w.processes.any fun p => p.pid = pid ∧ p.outcome = none

/-- What waiting for a child without blocking finds: nothing while it is alive. -/
def World.tryWait (w : World) (pid : Nat) : Option Outcome :=
  (w.processes.find? (·.pid = pid)).bind (·.outcome)

/-- What a step finds in its environment: the global lock, the lock of a daemon at a path, and
the pid under which a daemon is spawned, if it can be. -/
structure Probe where
  killSwitchExists : Bool
  lockExists : String → String → Bool
  spawn : String → Option Nat

section Step

variable (w : World) (now : Instant) (probe : Probe)

def World.reap (rec : ChildRecord) : ChildRecord :=
  match rec.pid with
  | none => rec
  | some pid =>
    if pid ∈ w.handles then
      match w.tryWait pid with
      | none => rec
      | some (.exited code) =>
        { rec with status := .exited, pid := none, lastExitCode := some code, lastExitAt := some now }
      | some .signaled => { rec with status := .exited, pid := none, lastExitCode := none, lastExitAt := some now }
    else if w.alive pid = true then rec
    else { rec with status := .exited, pid := none, lastExitAt := some now }

def Probe.daemonMute (rec : ChildRecord) : Bool := rec.spec.killSwitch.any (probe.lockExists rec.name)

inductive Action
  | terminate (pid : Option Nat)
  | leave
  | park (deadline : Instant)
  | spawn

def nextAction (rec : ChildRecord) : Action :=
  let decision := killSwitchDecision rec.spec probe.killSwitchExists (probe.daemonMute rec)
  if decision.isMuted = true then .terminate rec.pid
  else match rec.status with
    | .running | .spawning => .leave
    | .exited =>
      match respawnDecision rec.spec (rec.lastExitAt.getD now) now decision with
      | .spawnNow => .spawn
      | .throttleUntil deadline => .park deadline
      | .quiesce => .leave
    | .throttling =>
      let deadline := rec.throttleUntil.getD ((rec.lastExitAt.map (throttleDeadline rec.spec)).getD now)
      if deadline ≤ now then .spawn else .leave
    | .respawning => .spawn

/-- The counter of 32 bits stays at its largest value. -/
def saturatingSucc (n : Nat) : Nat := min (n + 1) (2 ^ 32 - 1)

def spawnChild (spawned : Option Nat) (rec : ChildRecord) : ChildRecord :=
  match spawned with
  | some pid =>
    { rec with
      status := .running
      pid := some pid
      lastSpawnAt := some now
      throttleUntil := none
      respawnCount := saturatingSucc rec.respawnCount }
  | none =>
    { rec with
      status := .exited
      pid := none
      lastExitCode := some 127
      lastExitAt := some now
      respawnCount := saturatingSucc rec.respawnCount }

def carryOut (rec : ChildRecord) : ChildRecord :=
  match nextAction now probe rec with
  | .terminate _ | .leave => rec
  | .park deadline => { rec with status := .throttling, throttleUntil := some deadline }
  | .spawn => spawnChild now (probe.spawn rec.name) rec

def started (rec : ChildRecord) : Option Process :=
  match nextAction now probe rec with
  | .spawn => (probe.spawn rec.name).map fun pid => { pid, daemon := rec.name }
  | _ => none

def terminated (rec : ChildRecord) : Option (Nat × Reason) :=
  match nextAction now probe rec with
  | .terminate pid => pid.map fun pid => (pid, .muted)
  | _ => none

def attempted (rec : ChildRecord) : Option Event :=
  match nextAction now probe rec with
  | .spawn =>
    some (.attempt rec.name now rec.spec probe.killSwitchExists (probe.daemonMute rec) (probe.spawn rec.name).isSome)
  | _ => none

def World.reaped (rec : ChildRecord) : Option Event :=
  if rec.pid.isSome = true ∧ (w.reap now rec).pid = none then some (.exited rec.name now) else none

def World.stepOnce : World :=
  let reaped := w.children.map (w.reap now)
  let children := reaped.map (carryOut now probe)
  let running := reaped.filterMap (started now probe)
  { children
    handles := (w.handles.filter fun pid =>
      ¬(pid ∈ w.children.filterMap (·.pid) ∧ (w.tryWait pid).isSome = true)) ++ running.map (·.pid)
    state := children.map ChildRecord.toPersisted
    processes := w.processes ++ running
    signals := w.signals ++ reaped.filterMap (terminated now probe)
    log := w.log ++ w.children.filterMap (w.reaped now) ++ reaped.filterMap (attempted now probe) }

end Step

section Operations

variable {H : Type} [DecidableEq H] (specContentHash : DaemonSpec → H) (w : World) (now : Instant)
  (cfg : LoadedConfig)

def World.diff : DiffResult :=
  Supervisor.diff specContentHash (w.children.map fun rec => (rec.name, rec.spec)) cfg.byName

def World.recordedPid (name : String) : Option Nat := (Keyed.get ChildRecord.name name w.children).bind (·.pid)

def replaceSpec (rec : ChildRecord) : ChildRecord :=
  { rec with
    spec := (cfg.byName.lookup rec.name).getD rec.spec
    status := .exited
    pid := none
    lastExitAt := some now }

def World.reload : World :=
  let d := w.diff specContentHash cfg
  let kept := w.children.filter (·.name ∉ d.kill)
  let added := kept ++ (d.spawn.filterMap fun name => cfg.byName.lookup name).map ChildRecord.fresh
  let children := added.map fun rec => if rec.name ∈ d.changed then replaceSpec now cfg rec else rec
  { w with
    children
    state := children.map ChildRecord.toPersisted
    signals := w.signals ++ d.kill.filterMap (fun name => (w.recordedPid name).map fun pid => (pid, .dropped)) ++
      d.changed.filterMap (fun name => (w.recordedPid name).map fun pid => (pid, .changed))
    log := w.log ++ d.changed.map fun name => .exited name now }

/-- What is known of a daemon after a start: its saved entry, with the pid if that is alive. -/
def World.recover (spec : DaemonSpec) : ChildRecord :=
  match Keyed.get PersistedChild.name spec.name w.state with
  | none => .fresh spec
  | some p =>
    let pid := p.pid.filter w.alive
    let recovered :=
      { ChildRecord.fresh spec with
        status := p.status
        pid
        lastExitCode := p.lastExitCode
        lastSpawnAt := p.lastSpawnAt
        lastExitAt := p.lastExitAt
        respawnCount := p.respawnCount }
    if pid.isSome = true then { recovered with status := .running }
    else if p.status = .running ∨ p.status = .spawning then
      { recovered with status := .exited, lastExitAt := some now }
    else recovered

def World.lost (spec : DaemonSpec) : Option Event :=
  match Keyed.get PersistedChild.name spec.name w.state with
  | none => none
  | some p =>
    if p.pid.filter w.alive = none ∧ (p.status = .running ∨ p.status = .spawning) then
      some (.exited spec.name now)
    else none

/-- A new supervisor over the same state file; it holds no handle of an earlier one. -/
def World.restart : World :=
  { w with
    children := cfg.1.daemons.map (w.recover now)
    handles := []
    log := w.log ++ cfg.1.daemons.filterMap (w.lost now) }

def World.exit (pid : Nat) (outcome : Outcome) : World :=
  { w with
    processes := w.processes.map fun p =>
      if p.pid = pid ∧ p.outcome = none then { p with outcome := some outcome } else p }

inductive Op
  | exit (pid : Nat) (outcome : Outcome)
  | step (probe : Probe)
  | reload (cfg : LoadedConfig)
  | restart (cfg : LoadedConfig)

def World.apply (timed : Instant × Op) : World :=
  match timed.2 with
  | .exit pid outcome => w.exit pid outcome
  | .step probe => w.stepOnce timed.1 probe
  | .reload cfg => w.reload specContentHash timed.1 cfg
  | .restart cfg => w.restart timed.1 cfg

/-- The state of a run from nothing before its `k`-th operation. -/
def before (ops : List (Instant × Op)) (k : Nat) : World := stateAt (World.apply specContentHash) {} ops k

end Operations

section Samples

def courier : DaemonSpec := { name := "courier", binary := "/usr/local/bin/courier" }

def courierConfig : LoadedConfig := ⟨{ daemons := [courier] }, by decide +kernel⟩

def courierStep (pid : Nat) : Op :=
  .step { killSwitchExists := false, lockExists := fun _ _ => false, spawn := fun _ => some pid }

def courierRun : List (Instant × Op) :=
  [(0, .restart courierConfig), (1000000000, courierStep 41), (31000000000, courierStep 42),
    (35000000000, .exit 42 (.exited 1)), (36000000000, courierStep 43), (66000000000, courierStep 44)]

end Samples

end Cosmon.Supervisor
