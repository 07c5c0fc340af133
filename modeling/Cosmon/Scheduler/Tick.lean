import Cosmon.Core.PilotLeases
import Cosmon.Lib.Runs
import Cosmon.Scheduler.Cron
import Mathlib.Logic.Function.Basic

namespace Cosmon.Scheduler.Tick

open Cosmon.Core.PilotLeases Cosmon.Lib.Runs Cosmon.Scheduler.Cron Cosmon.State.Molecule

inductive SunsetStrategy where
  | varianceThreshold
  | sampleCount
  | operatorTriggerOnly
deriving DecidableEq

structure Sunset where
  strategy : SunsetStrategy
  sampleFile : Option String := none
  minSamples : Option Nat := none
  varianceThreshold : Option String := none
  window : Option Nat := none
  triggerFile : Option String := none
deriving DecidableEq

structure Patrol where
  name : String
  intervalSeconds : Option Nat := none
  cron : Option String := none
  killSwitch : Option String := none
  requireEnv : List String := []
  enabled : Bool := true
  sunset : Option Sunset := none
deriving DecidableEq

def Patrol.validateCadence (p : Patrol) : Except String Unit :=
  match p.intervalSeconds.isSome, p.cron.isSome with
  | true, true => .error "both `interval_seconds` and `cron` set (XOR)"
  | false, false => .error "neither `interval_seconds` nor `cron` set"
  | _, _ => .ok ()

structure Config where
  killSwitch : String
  patrols : List Patrol

structure Environment where
  pathExists : String → Bool
  envVarSet : String → Bool
  now : Instant
  wallClock : Instant → WallClock
  /-- How many values `read_samples_tolerant` finds in a file. -/
  samples : String → Nat
  /-- The variance of a window of the samples is below the threshold. -/
  converged : (sampleFile threshold : String) → (window minSamples : Nat) → Bool

structure PatrolState where
  lastFiredAt : Option Instant := none
  lastExitCode : Option Int := none
  lastPid : Option Nat := none
  fireCount : Nat := 0
  sunsetDecidedAt : Option Instant := none
deriving DecidableEq

abbrev SchedulerState := String → Option PatrolState

inductive Decision where
  | wouldFire
  | wouldSkip (reason : String)
  | wouldSunset (reason : String)
  | invalid (reason : String)
deriving DecidableEq

def nanosPerMinute : Int := 60 * nanosPerSecond

def floorMinute (t : Instant) : Instant := t - t % nanosPerMinute

def intervalGate (intervalSeconds : Nat) (now : Instant) (prior : Option PatrolState) : Decision :=
  match prior.bind (·.lastFiredAt) with
  | none => .wouldFire
  | some last =>
    let elapsed := numSeconds (now - last)
    -- the clock has gone backwards
    if elapsed < 0 then .wouldFire
    else if intervalSeconds ≤ elapsed.toNat then .wouldFire
    else .wouldSkip ("not due yet; " ++ (intervalSeconds - elapsed.toNat).repr ++ "s until next fire")

def cronGate (env : Environment) (expr : String) (now : Instant) (prior : Option PatrolState) : Decision :=
  match CronExpr.parse expr with
  | .error e => .invalid ("cron parse error: " ++ e.toString)
  | .ok parsed =>
    if !parsed.matches_ (env.wallClock now) then .wouldSkip "not due yet (cron does not match this minute)"
    else if (prior.bind (·.lastFiredAt)).any fun last => floorMinute now ≤ floorMinute last then
      .wouldSkip "already fired this minute"
    else .wouldFire

def cadenceGate (patrol : Patrol) (env : Environment) (now : Instant) (prior : Option PatrolState) : Decision :=
  match patrol.intervalSeconds with
  | some secs => intervalGate secs now prior
  | none =>
    match patrol.cron with
    | some expr => cronGate env expr now prior
    | none => .invalid "no cadence after validation"

def sunsetGate (sunset : Sunset) (env : Environment) : Option Decision :=
  match sunset.strategy with
  | .varianceThreshold => do
    let sampleFile ← sunset.sampleFile
    let threshold ← sunset.varianceThreshold
    let window ← sunset.window
    if env.converged sampleFile threshold window (sunset.minSamples.getD 0) then
      some (.wouldSunset ("variance-threshold converged (σ² < " ++ threshold ++ ", window=" ++ window.repr ++
        ", samples=" ++ (env.samples sampleFile).repr ++ ")"))
    else none
  | .sampleCount => do
    let sampleFile ← sunset.sampleFile
    let target ← sunset.minSamples
    if target ≤ env.samples sampleFile then
      some (.wouldSunset ("sample-count reached " ++ (env.samples sampleFile).repr ++
        " (target " ++ target.repr ++ ")"))
    else none
  | .operatorTriggerOnly =>
    if sunset.triggerFile.any env.pathExists then
      some (.wouldSunset ("operator-trigger file present: " ++ sunset.triggerFile.getD "<none>"))
    else none

def closedGate (patrol : Patrol) (env : Environment) (globalKill : Bool) (prior : Option PatrolState) :
    Option Decision :=
  if !patrol.enabled then some (.wouldSkip "disabled")
  else if (prior.bind (·.sunsetDecidedAt)).isSome then some (.wouldSkip "already sunsetted")
  else if globalKill then some (.wouldSkip "global kill-switch present")
  else if patrol.killSwitch.any env.pathExists then some (.wouldSkip "kill-switch present")
  else
    match patrol.requireEnv.find? (!env.envVarSet ·) with
    | some var => some (.wouldSkip ("required env var " ++ var ++ " unset"))
    | none => patrol.sunset.bind (sunsetGate · env)

def evaluateOne (patrol : Patrol) (env : Environment) (globalKill : Bool) (now : Instant)
    (prior : Option PatrolState) : Decision :=
  match patrol.validateCadence with
  | .error reason => .invalid reason
  | .ok () => (closedGate patrol env globalKill prior).getD (cadenceGate patrol env now prior)

def tick (cfg : Config) (env : Environment) (state : SchedulerState) : List (String × Decision) :=
  let globalKill := env.pathExists cfg.killSwitch
  cfg.patrols.map fun p => (p.name, evaluateOne p env globalKill env.now (state p.name))

structure DispatchOutcome where
  pid : Option Nat
  exitCode : Option Int
deriving DecidableEq

/-- One run of the scheduler: what it reads, the second reading of the clock, and how the
dispatches end. -/
structure Invocation where
  cfg : Config
  env : Environment
  recordedAt : Instant
  dispatch : Patrol → Except String DispatchOutcome

def recordFire (state : SchedulerState) (name : String) (now : Instant) (outcome : DispatchOutcome) :
    SchedulerState :=
  let entry := (state name).getD {}
  Function.update state name (some
    { entry with
      lastFiredAt := some now
      lastPid := outcome.pid
      lastExitCode := outcome.exitCode
      fireCount := min (entry.fireCount + 1) (2 ^ 64 - 1) })

def recordSunset (state : SchedulerState) (name : String) (now : Instant) : SchedulerState :=
  let entry := (state name).getD {}
  Function.update state name (some
    { entry with sunsetDecidedAt := some (entry.sunsetDecidedAt.getD now) })

/-- What a tick has done so far: the state it will save and the patrols it has
dispatched. -/
structure Progress where
  state : SchedulerState
  dispatched : List String := []

def Invocation.carryOut (inv : Invocation) (p : Progress) (decided : String × Decision) : Progress :=
  match decided.2 with
  | .wouldFire =>
    match inv.cfg.patrols.find? (·.name = decided.1) with
    | none => p
    | some patrol =>
      match inv.dispatch patrol with
      | .ok outcome =>
        { state := recordFire p.state decided.1 inv.recordedAt outcome
          dispatched := p.dispatched ++ [decided.1] }
      | .error _ => p
  | .wouldSunset _ =>
    match inv.cfg.patrols.find? (·.name = decided.1) with
    | none => p
    | some _ => { p with state := recordSunset p.state decided.1 inv.recordedAt }
  | .wouldSkip _ | .invalid _ => p

def runTick (state : SchedulerState) (inv : Invocation) : Progress :=
  (tick inv.cfg inv.env state).foldl inv.carryOut { state }

/-- The state that the `n`-th tick loads. -/
def stateBefore (ticks : List Invocation) (n : Nat) : SchedulerState :=
  stateAt (fun state inv => (runTick state inv).state) (fun _ => none) ticks n

end Cosmon.Scheduler.Tick
