import Cosmon.Core.HarnessTurn
import Cosmon.Lib.Triples

namespace Cosmon.Harness

open Cosmon.Lib.Effects Cosmon.Core.HarnessTurn

structure ToolCall where
  id : String
  name : String
  argumentsJson : String
deriving DecidableEq

inductive TerminalDisposition where
  | normal
  | outputLimit
  | refused
  | incomplete
  | unknown (reason : String)
deriving DecidableEq

structure TerminalResponse where
  text : String
  disposition : TerminalDisposition
deriving DecidableEq

/-- What a provider answers: an envelope of its own with tool calls, or the end. -/
inductive Turn (A : Type) where
  | toolCalls (assistant : A) (calls : List ToolCall)
  | stop (text : String)
  | terminal (response : TerminalResponse)
deriving DecidableEq

structure TurnInput where
  key : String
  content : String
deriving DecidableEq

structure CompactionReport where
  tokensBefore : Nat
  tokensAfter : Nat
  messagesRemoved : Nat
deriving DecidableEq

/-- What has happened in a run: a record is in the ledger, a request has been sent, with
what the provider makes of it, a tool has run. -/
inductive Event (A : Type) where
  | stored (record : TurnRecord)
  | sent (turn : Nat) (answer : Except String (Turn A))
  | ran (turn : Nat) (call : ToolCall) (result : Except String String)

/-- An append that fails may have reached the ledger. -/
inductive Append where
  | stored
  | failed (error : EvidenceError) (durable : Bool)

/-- How the steps of a run go, by their numbers: where the process dies, and what the
store, the input source, the provider and the tools do. -/
structure Env (L A : Type) where
  crashes : Nat → Bool
  appends : Nat → Append
  blobs : Nat → Option EvidenceError
  takes : Nat → Except String (List TurnInput)
  receipts : Nat → Option String
  answers : Nat → L → Except String (Turn A)
  tools : Nat → ToolCall → Except String String

structure World (A : Type) where
  trace : List (Event A) := []
  currentTurn : Nat := 0
  steps : Nat := 0

inductive HarnessError where
  | provider (reason : String)
  | contextOverflow (estimatedTokens limit : Nat)
  | turnBudgetExhausted (limit : Nat)
  | toolBudgetExhausted (limit : Nat)
  | toolCallCycle (period repeats : Nat)
  | evidence (error : EvidenceError)
  | resume (refusal : ResumeRefusal)
deriving DecidableEq

/-- The process dies, or the loop returns an error. -/
inductive Halt where
  | crashed
  | error (error : HarnessError)
deriving DecidableEq

abbrev Run (A α : Type) := Effect (World A) Halt α

section Steps

variable {L A α β : Type} (env : Env L A)

def tick : Run A Nat := fun w =>
  if env.crashes w.steps then (.error .crashed, w) else (.ok w.steps, { w with steps := w.steps + 1 })

def World.emit (w : World A) (event : Event A) : World A := { w with trace := w.trace ++ [event] }

def emit (event : Event A) : Run A Unit := Effect.modify fun w => w.emit event

def append (record : TurnRecord) : Run A (Except EvidenceError Unit) := do
  let n ← tick env
  match env.appends n with
  | .stored => do
    emit (.stored record)
    pure (.ok ())
  | .failed error true => do
    emit (.stored record)
    pure (.error error)
  | .failed error false => pure (.error error)

def andThen (x : Run A (Except EvidenceError α)) (f : α → Run A (Except EvidenceError β)) :
    Run A (Except EvidenceError β) := do
  match ← x with
  | .ok a => f a
  | .error error => pure (.error error)

def ask (x : Run A (Except EvidenceError α)) : Run A α := do
  match ← x with
  | .ok a => pure a
  | .error error => Effect.fail (.error (.evidence error))

end Steps

section Journal

variable {L A : Type} (env : Env L A) (digestOf : List UInt8 → BlobDigest)

def textBytes (text : String) : List UInt8 := text.toUTF8.toList

def blobRef (kind : BlobKind) (bytes : List UInt8) : BlobRef := ⟨kind, digestOf bytes, bytes.length, 1⟩

def putBlob (kind : BlobKind) (bytes : List UInt8) : Run A (Except EvidenceError BlobRef) := do
  let n ← tick env
  match env.blobs n with
  | some error => pure (.error error)
  | none => pure (.ok (blobRef digestOf kind bytes))

def blob (kind : BlobKind) (bytes : Option (List UInt8)) : Run A (Except EvidenceError (Option BlobRef)) :=
  match bytes with
  | none => pure (.ok none)
  | some bytes => andThen (putBlob env digestOf kind bytes) fun ref => pure (.ok (some ref))

def started (limits : TurnLimits) (pins : Pins) : Run A (Except EvidenceError Unit) :=
  append env (.attemptStarted limits pins)

def resumed (plan : ResumePlan) : Run A (Except EvidenceError Unit) :=
  append env (.resumed plan.fromHistoryId plan.checkpointTurn plan.log plan.toolsSpent plan.requestsSent
    plan.elapsedSecs)

def requestIntent (turn estimatedInputTokens toolsSpent : Nat) : Run A (Except EvidenceError Unit) := do
  Effect.modify fun w => { w with currentTurn := turn }
  append env (.requestIntent turn estimatedInputTokens toolsSpent)

def currentTurn : Run A Nat := Effect.read fun w => .ok w.currentTurn

def inputsSelected (inputs : List InputEvidence) : Run A (Except EvidenceError Unit) := do
  let turn ← currentTurn
  append env (.inputsSelected turn inputs)

def requestFailed (reason : String) : Run A (Except EvidenceError Unit) := do
  let turn ← currentTurn
  append env (.requestFailed turn (boundedReason reason))

/-- As many as 32 bits can say. -/
def clamp (n : Nat) : Nat := min n (2 ^ 32 - 1)

def compacted (turn : Nat) (report : CompactionReport) : Run A (Except EvidenceError Unit) :=
  append env (.compacted turn report.tokensBefore report.tokensAfter (clamp report.messagesRemoved))

def callEvidence (call : ToolCall) : CallEvidence := ⟨call.id, call.name⟩

def assistantReceived (turn : Nat) (calls : List ToolCall) (envelope : Option (List UInt8))
    (toolsSpent : Nat) : Run A (Except EvidenceError Unit) :=
  andThen (blob env digestOf .assistantEnvelope envelope) fun envelope =>
    append env (.assistantReceived turn (calls.map callEvidence) envelope toolsSpent)

def toolIntent (turn : Nat) (call : ToolCall) (toolsSpent : Nat) : Run A (Except EvidenceError Unit) :=
  append env (.toolIntent turn call.id call.name (digestOf (textBytes call.argumentsJson)) toolsSpent)

def toolReceipt (turn : Nat) (call : ToolCall) (outcome : TurnToolOutcome) (result : Option String)
    (toolsSpent : Nat) : Run A (Except EvidenceError Unit) :=
  andThen (blob env digestOf .toolResult (result.map textBytes)) fun result =>
    append env (.toolReceipt turn call.id outcome result toolsSpent)

def checkpoint (turn : Nat) (log : Option (List UInt8)) (toolsSpent : Nat) :
    Run A (Except EvidenceError Unit) :=
  andThen (blob env digestOf .logCheckpoint log) fun log => append env (.checkpoint turn log toolsSpent)

def TerminalDisposition.kind : TerminalDisposition → TerminalKind
  | .normal => .normal
  | .outputLimit => .outputLimit
  | .refused => .refused
  | .incomplete => .incomplete
  | .unknown reason => .unknown (boundedReason reason)

def terminal (turn : Nat) (disposition : TerminalDisposition) (text : String) (toolsSpent : Nat) :
    Run A (Except EvidenceError Unit) :=
  let bytes := if text = "" then none else some (textBytes text)
  andThen (blob env digestOf .partialText bytes) fun partialText =>
    append env (.terminal turn disposition.kind partialText toolsSpent)

end Journal

end Cosmon.Harness
