import Cosmon.Harness.Journal

namespace Cosmon.Harness

open Cosmon.Lib Cosmon.Lib.Effects Cosmon.Core.HarnessTurn

structure MessageLog (L A : Type) where
  fromBriefing : String → L
  appendAssistant : L → A → L
  appendToolResult : L → String → String → String → L
  appendUser : L → String → L
  estimateTokens : L → Nat
  wellFormed : L → Bool
  compact : L → Nat → L × Option CompactionReport
  encodeAssistant : L → A → Option (List UInt8)
  encodeCheckpoint : L → Option (List UInt8)
  decodeCheckpoint : List UInt8 → Option L

structure ToolOutcomeCounts where
  succeeded : Nat := 0
  failed : Nat := 0
  uncertain : Nat := 0
  successfulEffects : Nat := 0
deriving DecidableEq

def ToolOutcomeCounts.record (counts : ToolOutcomeCounts) (outcome : TurnToolOutcome)
    (successfulEffect : Bool) : ToolOutcomeCounts :=
  let counts := match outcome with
    | .succeeded => { counts with succeeded := saturatingSucc counts.succeeded }
    | .failed => { counts with failed := saturatingSucc counts.failed }
    | .uncertain => { counts with uncertain := saturatingSucc counts.uncertain }
  if successfulEffect then { counts with successfulEffects := saturatingSucc counts.successfulEffects }
  else counts

structure ExecResult where
  exitCode : Int
  timedOut : Bool
deriving DecidableEq

structure CycleReport where
  period : Nat
  repeats : Nat
deriving DecidableEq

/-- The smallest period of which the end of the log has that many blocks. -/
def detectToolCallCycle (log : List String) (minRepeats : Nat) : Option CycleReport :=
  let repeats := max minRepeats 2
  let cyclic (period : Nat) : Bool :=
    let tail := log.drop (log.length - period * repeats)
    (List.range' 1 (repeats - 1)).all fun k => (tail.drop (k * period)).take period = tail.take period
  ((List.range' 1 (log.length / repeats)).find? cyclic).map fun period => ⟨period, repeats⟩

def defaultCycleRepeats : Nat := 3

def turnFingerprint (calls : List ToolCall) : String :=
  "turn\x00" ++ String.intercalate "\x02" (calls.map fun c => c.name ++ "\x01" ++ c.argumentsJson)

structure LoopBudget where
  maxTurns : Nat
  maxToolCalls : Nat
  maxInputTokens : Nat

def LoopBudget.limits (budget : LoopBudget) : TurnLimits :=
  ⟨budget.maxTurns, budget.maxToolCalls, budget.maxInputTokens⟩

structure ResumeState where
  plan : ResumePlan
  log : List UInt8
deriving DecidableEq

structure Config where
  bootstrapPrefix : String
  briefing : String
  budget : LoopBudget
  compactionThreshold : Nat
  compactionTarget : Nat
  registryDigest : BlobDigest
  journalPins : Pins
  turnInputs : Bool
  resume : Option ResumeState

structure LoopState (L : Type) where
  log : L
  usedTools : Nat
  toolOutcomes : ToolOutcomeCounts := {}
  turnFingerprints : List String := []

structure WorkerOutcome where
  synthesis : String
  toolsDispatched : Nat
  toolOutcomes : ToolOutcomeCounts
  terminalDisposition : TerminalDisposition
deriving DecidableEq

section Tools

variable (execResult : String → Option ExecResult)

def classifyResult (call : ToolCall) (result : Except String String) : TurnToolOutcome × Bool :=
  match result with
  | .error _ => (.failed, false)
  | .ok output =>
    if call.name = "exec_command" then
      match execResult output with
      | some exec =>
        if exec.timedOut then (.uncertain, false)
        else if exec.exitCode = 0 then (.succeeded, false)
        else (.failed, false)
      | none => (.uncertain, false)
    else (.succeeded, call.name = "edit_file" ∨ call.name = "write_file")

def resultText : Except String String → String
  | .ok output => output
  | .error error => "ERROR: " ++ error

end Tools

section Loop

variable {L A : Type} (env : Env L A) (digestOf : List UInt8 → BlobDigest) (ml : MessageLog L A)
  (execResult : String → Option ExecResult) (config : Config)

def send (turn : Nat) (log : L) : Run A (Except String (Turn A)) := do
  let n ← tick env
  let answer := env.answers n log
  emit (.sent turn answer)
  pure answer

/-- `TurnInputProvider::one_turn`: the request carries the blocks that the source selects. -/
def oneTurnWithInputs (turn : Nat) (log : L) : Run A (Except String (Turn A)) := do
  let n ← tick env
  match env.takes n with
  | .error error => pure (.error ("turn input source: " ++ error))
  | .ok inputs =>
    if inputs = [] then do
      let answer ← send env turn log
      pure (answer.mapError fun error => "provider: " ++ error)
    else do
      let evidence := inputs.map fun input => ⟨input.key, digestOf (textBytes input.content)⟩
      match ← inputsSelected env evidence with
      | .error error => pure (.error ("turn input source: " ++ error.toString))
      | .ok () => do
        let answer ← send env turn (inputs.foldl (fun log input => ml.appendUser log input.content) log)
        let n ← tick env
        match env.receipts n with
        | some error => pure (.error ("turn input source: " ++ error))
        | none => pure (answer.mapError fun error => "provider: " ++ error)

def oneTurn (turn : Nat) (log : L) : Run A (Except String (Turn A)) :=
  if config.turnInputs then oneTurnWithInputs env digestOf ml turn log else send env turn log

def execute (turn : Nat) (call : ToolCall) : Run A (Except String String) := do
  let n ← tick env
  let result := env.tools n call
  emit (.ran turn call result)
  pure result

def dispatchCall (turn : Nat) (state : LoopState L) (call : ToolCall) : Run A (LoopState L) := do
  let usedTools := saturatingSucc state.usedTools
  if config.budget.maxToolCalls < usedTools then
    Effect.fail (.error (.toolBudgetExhausted config.budget.maxToolCalls))
  else do
    ask (toolIntent env digestOf turn call usedTools)
    let execution ← execute env turn call
    let outcome := classifyResult execResult call execution
    let result := resultText execution
    ask (toolReceipt env digestOf turn call outcome.1 (some result) usedTools)
    pure { state with
      log := ml.appendToolResult state.log call.id call.name result
      usedTools := usedTools
      toolOutcomes := state.toolOutcomes.record outcome.1 outcome.2 }

def dispatchCalls (turn : Nat) : List ToolCall → LoopState L → Run A (LoopState L)
  | [], state => pure state
  | call :: calls, state => do
    let state ← dispatchCall env digestOf ml execResult config turn state call
    dispatchCalls turn calls state

def dispatchToolCalls (turn : Nat) (state : LoopState L) (assistant : A) (calls : List ToolCall) :
    Run A (LoopState L) := do
  ask (assistantReceived env digestOf turn calls (ml.encodeAssistant state.log assistant) state.usedTools)
  let state ← dispatchCalls env digestOf ml execResult config turn calls
    { state with log := ml.appendAssistant state.log assistant }
  ask (checkpoint env digestOf turn (ml.encodeCheckpoint state.log) state.usedTools)
  pure state

def maybeCompact (log : L) : L × Option CompactionReport :=
  if ml.estimateTokens log ≤ config.compactionThreshold then (log, none)
  else ml.compact log config.compactionTarget

def conclude (turn : Nat) (state : LoopState L) (response : TerminalResponse) : Run A WorkerOutcome := do
  ask (terminal env digestOf turn response.disposition response.text state.usedTools)
  pure ⟨response.text, state.usedTools, state.toolOutcomes, response.disposition⟩

def compactLog (turn : Nat) (log : L) : Run A L := do
  let compaction := maybeCompact ml config log
  match compaction.2 with
  | some report => do
    ask (compacted env turn report)
    pure compaction.1
  | none => pure compaction.1

def request (turn : Nat) (state : LoopState L) : Run A (LoopState L × Turn A) := do
  let log ← compactLog env ml config turn state.log
  let estimated := ml.estimateTokens log
  if config.budget.maxInputTokens < estimated then
    Effect.fail (.error (.contextOverflow estimated config.budget.maxInputTokens))
  else do
    ask (requestIntent env turn estimated state.usedTools)
    match ← oneTurn env digestOf ml config turn log with
    | .error error => do
      let _ ← requestFailed env error
      Effect.fail (.error (.provider error))
    | .ok answer => pure ({ state with log := log }, answer)

def turns : List Nat → LoopState L → Run A WorkerOutcome
  | [], _ => Effect.fail (.error (.turnBudgetExhausted config.budget.maxTurns))
  | turn :: rest, state => do
    let (state, answer) ← request env digestOf ml config turn state
    match answer with
    | .toolCalls assistant calls => do
      let turnFingerprints := state.turnFingerprints ++ [turnFingerprint calls]
      match detectToolCallCycle turnFingerprints defaultCycleRepeats with
      | some report => Effect.fail (.error (.toolCallCycle report.period report.repeats))
      | none => do
        let state ← dispatchToolCalls env digestOf ml execResult config turn
          { state with turnFingerprints := turnFingerprints } assistant calls
        turns rest state
    | .stop text => conclude env digestOf turn state ⟨text, .normal⟩
    | .terminal response => conclude env digestOf turn state response

def effectiveBriefing : String :=
  if config.bootstrapPrefix = "" then config.briefing else config.bootstrapPrefix ++ "\n\n" ++ config.briefing

def estimateBriefingTokens (briefing : String) : Nat := clamp (briefing.utf8ByteSize / 4)

def loopPins : Pins :=
  [⟨"briefing", digestOf (textBytes (effectiveBriefing config))⟩, ⟨"registry", config.registryDigest⟩]

def effectivePins : Pins :=
  (loopPins digestOf config).foldl (fun pins pin => Keyed.insert Pin.name pin pins) config.journalPins

def restore (resume : ResumeState) : Except ResumeRefusal L := do
  resume.plan.checkUnchanged (effectivePins digestOf config) config.budget.limits
  match (ml.decodeCheckpoint resume.log).filter fun log => ml.wellFormed log with
  | some log => return log
  | none => .error .logNotRestorable

def runLoop : Run A WorkerOutcome := do
  let briefing := effectiveBriefing config
  let estimated := estimateBriefingTokens briefing
  if config.budget.maxInputTokens < estimated then
    Effect.fail (.error (.contextOverflow estimated config.budget.maxInputTokens))
  else
    match config.resume with
    | none => do
      ask (started env config.budget.limits (effectivePins digestOf config))
      turns env digestOf ml execResult config (List.range' 0 config.budget.maxTurns)
        { log := ml.fromBriefing briefing, usedTools := 0 }
    | some resume => do
      let log ← Effect.ofExcept ((restore digestOf ml config resume).mapError fun e => .error (.resume e))
      ask (started env config.budget.limits (effectivePins digestOf config))
      ask (resumed env resume.plan)
      turns env digestOf ml execResult config
        (List.range' resume.plan.nextTurn (config.budget.maxTurns - resume.plan.nextTurn))
        { log := log, usedTools := resume.plan.toolsSpent }

end Loop

end Cosmon.Harness
