import Cosmon.Core.HarnessTurn
import Cosmon.Lib.Triples
import Cosmon.Runtime.Resident

namespace Cosmon.Runtime.ResidentLoop

open Cosmon.Core.HarnessTurn Cosmon.Lib.Effects Cosmon.Lib.Effects.Effect Cosmon.Runtime.Resident

inductive ResidentError where
  | trace (message : String)
  | csInvocation (verb molId reason : String)
  | tackleRefusedPermanently (molId : String) (code : Int) (reason : String)
  | ensembleParse (message : String)
  | subprocessInterrupted (verb : String)
  | notify (message : String)

def ResidentError.text : ResidentError → String
  | .trace message => "trace I/O: " ++ message
  | .csInvocation verb molId reason => "cs " ++ verb ++ " failed for " ++ molId ++ ": " ++ reason
  | .tackleRefusedPermanently molId code reason =>
    "cs tackle permanently refused molecule " ++ molId ++ " (exit " ++ toString code ++ "): " ++ reason
  | .ensembleParse message => "ensemble parse error: " ++ message
  | .subprocessInterrupted verb =>
    "cs " ++ verb ++ " interrupted by signal (likely shutdown propagating to process group)"
  | .notify message => "notify: " ++ message

def ResidentError.interrupted : ResidentError → Bool
  | .subprocessInterrupted _ => true
  | _ => false

def ResidentError.refused : ResidentError → Bool
  | .tackleRefusedPermanently _ _ _ => true
  | _ => false

inductive ExitReason where
  | shutdown
  | drained
  | deadline
  | configDrift
deriving DecidableEq

structure RunSummary where
  tackles : Nat := 0
  dones : Nat := 0
  reaps : Nat := 0
  ticks : Nat := 0
  permanentlyParked : Nat := 0
  teardownBlocked : Nat := 0
  configReloads : Nat := 0
  exit : ExitReason := .drained
deriving DecidableEq

inductive TackleRecheck where
  | dispatch
  | skipNotPending (status : String)
  | skipHumanClaim
  | skipHumanReservation
  | skipPilotHold
  | skipReadFailed (reason : String)
deriving DecidableEq

def TackleRecheck.basis : TackleRecheck → String
  | .dispatch => "recheck:dispatch"
  | .skipNotPending _ => "recheck:skip-not-pending"
  | .skipHumanClaim => "recheck:skip-human-claim"
  | .skipHumanReservation => "recheck:skip-human-reservation"
  | .skipPilotHold => "recheck:skip-pilot-hold"
  | .skipReadFailed _ => "recheck:skip-read-failed"

inductive TraceLine where
  | tick (action basis : String) (before after error : Option String)
  | drift (launchSeal currentSeal verb moleculeId : String)
  | decision (verb moleculeId invocation basis before after : String) (error : Option String)

structure RuntimeLoopConfig where
  maxRuntime : Option Nat := none
  teardownBackoffBase : Nat := 2000000000

def teardownAttemptCeiling : Nat := 5

def teardownBackoffCap : Nat := 60000000000

def teardownBackoff (base attempts : Nat) : Nat := min (base * 2 ^ min (attempts - 1) 16) teardownBackoffCap

def stallTicksBeforeReap : Nat := 5

structure TeardownRetry where
  attempts : Nat
  lastError : String
  nextAttempt : Nat
  parked : Bool

/-- All the loop calls: the `cs` binary, the files, the clock and the signal. `σ` is the world
behind them, and `δ` what of a configuration reaches the molecules dispatched under it. -/
structure Host (σ δ : Type) where
  openTrace : σ → Except ResidentError Unit × σ
  write : TraceLine → σ → Except ResidentError Unit × σ
  flush : σ → Except ResidentError Unit × σ
  spawnWatcher : σ → Except ResidentError Unit × σ
  isShutdown : σ → Bool × σ
  elapsed : σ → Nat × σ
  now : σ → Nat × σ
  stateHash : σ → String × σ
  configSeal : σ → String × σ
  dispatchSurface : σ → δ × σ
  affectsDispatchedMolecules : δ → δ → EnsembleSnapshot → Bool
  readEnsemble : σ → Except ResidentError EnsembleSnapshot × σ
  invocationUuid : σ → String × σ
  recheckTackleCandidate : String → σ → TackleRecheck × σ
  dispatch : Decision → σ → Except ResidentError Unit × σ
  reapPhantomRunning : σ → Except ResidentError Nat × σ
  shellOutRaw : List String → σ → Except String Unit × σ
  waitForEvent : σ → σ
  processId : Nat

inductive Event where
  | sighted (ids : List String)
  | rearmed (id : String)
  | attempted (d : Decision) (ok : Bool)
  | parked (id : String)
deriving DecidableEq

/-- The fields and the variables of the loop. Its events are kept for the statements about a
run; the loop does not look at them. -/
structure Loop (σ δ : Type) where
  world : σ
  scheduler : ReadyFrontierScheduler
  teardownRetries : List (String × TeardownRetry) := []
  launchSeal : String := ""
  launchDispatchSurface : δ
  summary : RunSummary := {}
  consecutiveStallTicks : Nat := 0
  events : List Event := []

/-- `RuntimeLoop::new`; the surface of the configuration is read at the launch. -/
def newLoop {σ δ : Type} (world : σ) (scheduler : ReadyFrontierScheduler) (surface : δ) : Loop σ δ where
  world := world
  scheduler := scheduler
  launchDispatchSurface := surface

abbrev Run (σ δ : Type) := Effect (Loop σ δ) ResidentError

section Parts

variable {σ δ α : Type} (host : Host σ δ) (config : RuntimeLoopConfig)

def ask (f : σ → α × σ) : Run σ δ α := fun l => (.ok (f l.world).1, { l with world := (f l.world).2 })

def call (f : σ → Except ResidentError α × σ) : Run σ δ α :=
  fun l => ((f l.world).1, { l with world := (f l.world).2 })

def emit (e : Event) : Run σ δ Unit := modify fun l => { l with events := l.events ++ [e] }

def current : Run σ δ (Loop σ δ) := read .ok

def count (f : RunSummary → RunSummary) : Run σ δ Unit := modify fun l => { l with summary := f l.summary }

def writeTick (action basis : String) (before after error : Option String) : Run σ δ Unit :=
  call (host.write (.tick action basis before after error))

def forgetDispatch (id : String) : Run σ δ Unit := do
  modify fun l => { l with scheduler := l.scheduler.forgetDispatch id }
  emit (.rearmed id)

def putRetry (id : String) (entry : TeardownRetry) : Run σ δ Unit :=
  modify fun l => { l with teardownRetries := (id, entry) :: l.teardownRetries.filter fun p => p.1 ≠ id }

def removeRetry (id : String) : Run σ δ Unit :=
  modify fun l => { l with teardownRetries := l.teardownRetries.filter fun p => p.1 ≠ id }

def surfaceCalls (moleculeId : String) (attempts : Nat) (reason : String) : List (String × List String) :=
  let note := "Harvest parked by the resident runtime: `cs done` failed " ++ attempts.repr ++
    " consecutive times and the runtime stopped retrying. The molecule is completed but unmerged, " ++
    "so every molecule blocked on it stays pending until an operator clears the cause and runs `cs done " ++
    moleculeId ++ "` by hand. Last error:\n\n" ++ reason
  [("tag", ["tag", moleculeId, "--add", "blocked-on-teardown"]),
    ("note", ["note", moleculeId, note, "--as-worker", "runtime-" ++ host.processId.repr])]

def surfaceCall (moleculeId : String) (p : String × List String) : Run σ δ Unit := do
  match ← ask (host.shellOutRaw p.2) with
  | .ok () => pure ()
  | .error e =>
    writeTick host "teardown-blocked" "teardown-surface-failed" none none
      (some ("cs " ++ p.1 ++ " " ++ moleculeId ++ ": " ++ e))

def surfaceTeardownBlock (moleculeId : String) (attempts : Nat) (reason : String) : Run σ δ Unit :=
  each (surfaceCall host moleculeId) (surfaceCalls host moleculeId attempts reason)

def retryEntry (moleculeId : String) : Run σ δ TeardownRetry := do
  let l ← current
  match l.teardownRetries.lookup moleculeId with
  | some entry => pure entry
  | none => do
    let now ← ask host.now
    pure { attempts := 0, lastError := "", nextAttempt := now, parked := false }

def parkOrBackOffTeardown (moleculeId reason hashAfter : String) : Run σ δ Bool := do
  let entry ← retryEntry host moleculeId
  if entry.parked then pure false
  else do
    let attempts := saturatingSucc entry.attempts
    if attempts < teardownAttemptCeiling then do
      let backoff := teardownBackoff config.teardownBackoffBase attempts
      let now ← ask host.now
      putRetry moleculeId { entry with attempts := attempts, lastError := reason, nextAttempt := now + backoff }
      writeTick host "teardown-retry" "teardown-backoff" (some hashAfter) (some hashAfter)
        (some ("attempt " ++ attempts.repr ++ "/" ++ teardownAttemptCeiling.repr ++ ", retry in " ++
          (backoff / 1000000).repr ++ "ms (" ++ (if entry.lastError = reason then "same error" else "new error") ++
          "): " ++ reason))
      pure false
    else do
      putRetry moleculeId { entry with attempts := attempts, lastError := reason, parked := true }
      writeTick host "teardown-blocked" "teardown-ceiling-reached" (some hashAfter) (some hashAfter)
        (some ("gave up after " ++ attempts.repr ++ " consecutive failed harvests: " ++ reason))
      surfaceTeardownBlock host moleculeId attempts reason
      pure true

end Parts

section Dispatch

variable {σ δ : Type} [DecidableEq δ] (host : Host σ δ) (config : RuntimeLoopConfig)

inductive Halt where
  | drifted
  | interrupted
deriving DecidableEq

def reloadBasis (sameSurface : Bool) (snapshot : EnsembleSnapshot) : String :=
  if sameSurface then "config-seal-reload-unaffected-surface"
  else if snapshot.molecules.any fun m => m.status = "running" then "config-seal-reload-unaffected-adapters"
  else "config-seal-reload-no-running-molecules"

/-- Whether the configuration has drifted so that the decision must not be formed. -/
def drifts (snapshot : EnsembleSnapshot) (d : Decision) : Run σ δ Bool := do
  let currentSeal ← ask host.configSeal
  let l ← current
  if currentSeal = l.launchSeal then pure false
  else do
    let surface ← ask host.dispatchSurface
    if host.affectsDispatchedMolecules l.launchDispatchSurface surface snapshot then do
      call (host.write (.drift l.launchSeal currentSeal d.verb d.moleculeId))
      pure true
    else do
      writeTick host "config-reloaded" (reloadBasis (surface = l.launchDispatchSurface) snapshot)
        (some l.launchSeal) (some currentSeal) none
      modify fun l => { l with launchSeal := currentSeal, launchDispatchSurface := surface }
      count fun s => { s with configReloads := saturatingSucc s.configReloads }
      pure false

def vetoed (hashBefore invocation : String) : Decision → Run σ δ Bool
  | .done _ => pure false
  | .tackle moleculeId _ _ _ => do
    let verdict ← ask (host.recheckTackleCandidate moleculeId)
    if verdict = .dispatch then pure false
    else do
      let hashNow ← ask host.stateHash
      call (host.write (.decision "skip" moleculeId invocation verdict.basis hashBefore hashNow none))
      forgetDispatch moleculeId
      pure true

def harvestFailed (moleculeId : String) (e : ResidentError) (hashAfter : String) : Run σ δ Unit := do
  if ← parkOrBackOffTeardown host config moleculeId e.text hashAfter then do
    emit (.parked moleculeId)
    count fun s => { s with teardownBlocked := saturatingSucc s.teardownBlocked }
  else pure ()

def settle (hashAfter : String) : Decision → Except ResidentError Unit → Run σ δ Unit
  | .tackle _ _ _ _, .ok _ => count fun s => { s with tackles := saturatingSucc s.tackles }
  | .done moleculeId, .ok _ => do
    count fun s => { s with dones := saturatingSucc s.dones }
    removeRetry moleculeId
  | .done moleculeId, .error e => harvestFailed host config moleculeId e hashAfter
  | .tackle moleculeId _ _ _, .error e =>
    -- A permanent refusal keeps its mark, and with it the molecule out of the frontier.
    if e.refused then count fun s => { s with permanentlyParked := saturatingSucc s.permanentlyParked }
    else forgetDispatch moleculeId

def errorText : Except ResidentError Unit → Option String
  | .ok _ => none
  | .error e => some e.text

def wasInterrupted : Except ResidentError Unit → Bool
  | .ok _ => false
  | .error e => e.interrupted

def attempt (d : Decision) : Run σ δ (Except ResidentError Unit) := do
  let result ← ask (host.dispatch d)
  emit (.attempted d result.isOk)
  pure result

def enact (snapshot : EnsembleSnapshot) (hashBefore : String) (d : Decision) : Run σ δ (Option Halt) := do
  if ← drifts host snapshot d then pure (some .drifted)
  else do
    let invocation ← ask host.invocationUuid
    if ← vetoed host hashBefore invocation d then pure none
    else do
      let result ← attempt host d
      let hashAfter ← ask host.stateHash
      if wasInterrupted result then pure (some .interrupted)
      else do
        call (host.write (.decision d.verb d.moleculeId invocation ("ready-frontier:" ++ d.verb) hashBefore hashAfter
          (errorText result)))
        settle host config hashAfter d result
        pure none

def enactAll (snapshot : EnsembleSnapshot) (hashBefore : String) : List Decision → Run σ δ (Option Halt)
  | [] => pure none
  | d :: rest => do
    match ← enact host config snapshot hashBefore d with
    | some halt => pure (some halt)
    | none => enactAll snapshot hashBefore rest

end Dispatch

section Ticks

variable {σ δ : Type} [DecidableEq δ] (host : Host σ δ) (config : RuntimeLoopConfig)

def operatorSignal : Run σ δ (Option ExitReason) := do
  writeTick host "shutdown" "operator-signal" none none none
  pure (some .shutdown)

def waitForEvent : Run σ δ Unit := ask fun w => ((), host.waitForEvent w)

def overBudget : Run σ δ Bool :=
  match config.maxRuntime with
  | none => pure false
  | some budget => do
    let elapsed ← ask host.elapsed
    pure (decide (budget ≤ elapsed))

def readFailed (hashBefore : String) (e : ResidentError) : Run σ δ (Option ExitReason) := do
  if e.interrupted then operatorSignal host
  else do
    if ← ask host.isShutdown then operatorSignal host
    else do
      writeTick host "tick" "ensemble-read-failed" (some hashBefore) (some hashBefore) (some e.text)
      waitForEvent host
      pure none

def retain (snapshot : EnsembleSnapshot) : Run σ δ Unit :=
  modify fun l => { l with
    events := l.events ++ [.sighted (snapshot.molecules.map EnsembleMolecule.id)]
    teardownRetries := l.teardownRetries.filter fun p => p.1 ∈ snapshot.molecules.map EnsembleMolecule.id }

def due (now : Nat) (p : String × TeardownRetry) : Bool := !p.2.parked && decide (p.2.nextAttempt ≤ now)

def rearm : Run σ δ Unit := do
  let now ← ask host.now
  let l ← current
  each forgetDispatch ((l.teardownRetries.filter (due now)).map Prod.fst)

def nextDecisions (snapshot : EnsembleSnapshot) : Run σ δ (List Decision) := fun l =>
  (.ok (l.scheduler.nextDecisions snapshot).2, { l with scheduler := (l.scheduler.nextDecisions snapshot).1 })

def reap (hashAfter : String) : Run σ δ Unit := do
  let reaped ← ask host.reapPhantomRunning
  let hashPost ← ask host.stateHash
  match reaped with
  | .ok n => do
    writeTick host "reap" "phantom-running-sweep" (some hashAfter) (some hashPost)
      (if 0 < n then some ("collapsed " ++ n.repr ++ " phantom-running") else none)
    count fun s => if 0 < n then { s with reaps := saturatingSucc s.reaps } else s
  | .error e =>
    writeTick host "reap" "phantom-running-sweep-failed" (some hashAfter) (some hashPost) (some e.text)

/-- Once the loop has had nothing to do for some ticks, sweep the molecules whose worker is dead. -/
def stall (hashAfter : String) : Run σ δ Unit := do
  modify fun l => { l with consecutiveStallTicks := saturatingSucc l.consecutiveStallTicks }
  let l ← current
  if stallTicksBeforeReap ≤ l.consecutiveStallTicks then do
    reap host hashAfter
    modify fun l => { l with consecutiveStallTicks := 0 }
  else pure ()

def closeTick : Run σ δ (Option ExitReason) := do
  count fun s => { s with ticks := saturatingSucc s.ticks }
  waitForEvent host
  pure none

def idle (snapshot : EnsembleSnapshot) (hashBefore : String) : Run σ δ (Option ExitReason) := do
  let drained := !snapshot.molecules.any fun m => m.status = "pending" || m.status = "running"
  let hashAfter ← ask host.stateHash
  writeTick host (if drained then "drained" else "tick")
    (if drained then "no-pending-no-running" else "no-decisions") (some hashBefore) (some hashAfter) none
  if drained then pure (some .drained)
  else do
    stall host hashAfter
    closeTick host

def act (snapshot : EnsembleSnapshot) (hashBefore : String) (decisions : List Decision) :
    Run σ δ (Option ExitReason) := do
  modify fun l => { l with consecutiveStallTicks := 0 }
  match ← enactAll host config snapshot hashBefore decisions with
  | some .drifted => pure (some .configDrift)
  | some .interrupted => operatorSignal host
  | none => closeTick host

def observe (snapshot : EnsembleSnapshot) (hashBefore : String) : Run σ δ (Option ExitReason) := do
  retain snapshot
  rearm host
  let decisions ← nextDecisions snapshot
  if decisions = [] then idle host snapshot hashBefore else act host config snapshot hashBefore decisions

def tick : Run σ δ (Option ExitReason) := do
  if ← ask host.isShutdown then operatorSignal host
  else do
    if ← overBudget host config then do
      writeTick host "deadline" "max-runtime-exhausted" none none none
      pure (some .deadline)
    else do
      let hashBefore ← ask host.stateHash
      match ← ask host.readEnsemble with
      | .error e => readFailed host hashBefore e
      | .ok snapshot => observe host config snapshot hashBefore

/-- Up to `k` turns. -/
def ticks : Nat → Run σ δ (Option ExitReason)
  | 0 => pure none
  | k + 1 => do
    match ← tick host config with
    | some exit => pure (some exit)
    | none => ticks k

def launch : Run σ δ Unit := do
  call host.openTrace
  let launchSeal ← ask host.configSeal
  let surface ← ask host.dispatchSurface
  modify fun l => { l with launchSeal := launchSeal, launchDispatchSurface := surface }
  writeTick host "launch" "config-seal-sealed" (some launchSeal) (some launchSeal) none
  call host.spawnWatcher

/-- `RuntimeLoop::run` for up to `k` turns: its summary, if it has ended by then. -/
def run (k : Nat) : Run σ δ (Option RunSummary) := do
  launch host
  match ← ticks host config k with
  | none => pure none
  | some exit => do
    call host.flush
    let l ← current
    pure (some { l.summary with exit := exit })

end Ticks

end Cosmon.Runtime.ResidentLoop
