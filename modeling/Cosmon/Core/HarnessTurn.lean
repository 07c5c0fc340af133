import Cosmon.Lib.Keyed
import Mathlib.Data.Prod.Lex
import Mathlib.Data.String.Basic

namespace Cosmon.Core.HarnessTurn

open Cosmon.Lib

abbrev BlobDigest := String

inductive BlobKind where
  | assistantEnvelope
  | toolResult
  | logCheckpoint
  | partialText
deriving DecidableEq

structure BlobRef where
  kind : BlobKind
  digest : BlobDigest
  len : Nat
  schemaVersion : Nat
deriving DecidableEq

inductive EvidenceError where
  | io (reason : String)
  | corrupt (reason : String)
  | rejected (reason : String)
deriving DecidableEq

def EvidenceError.toString : EvidenceError → String
  | .io reason => "evidence store I/O: " ++ reason
  | .corrupt reason => "evidence corrupt: " ++ reason
  | .rejected reason => "evidence rejected: " ++ reason

inductive TurnToolOutcome where
  | succeeded
  | failed
  | uncertain
deriving DecidableEq

inductive TerminalKind where
  | normal
  | outputLimit
  | refused
  | incomplete
  | unknown (reason : String)
deriving DecidableEq

structure TurnLimits where
  maxTurns : Nat
  maxToolCalls : Nat
  maxInputTokens : Nat
deriving DecidableEq

structure InputEvidence where
  key : String
  digest : BlobDigest
deriving DecidableEq

structure CallEvidence where
  callId : String
  tool : String
deriving DecidableEq

structure Pin where
  name : String
  value : String
deriving DecidableEq

abbrev Pins := List Pin

inductive TurnRecord where
  | attemptStarted (limits : TurnLimits) (pins : Pins)
  | requestIntent (turn estimatedInputTokens toolsSpent : Nat)
  | inputsSelected (turn : Nat) (inputs : List InputEvidence)
  | requestFailed (turn : Nat) (reason : String)
  | compacted (turn tokensBefore tokensAfter messagesRemoved : Nat)
  | assistantReceived (turn : Nat) (calls : List CallEvidence) (envelope : Option BlobRef) (toolsSpent : Nat)
  | toolIntent (turn : Nat) (callId tool : String) (argumentsDigest : BlobDigest) (toolsSpent : Nat)
  | toolReceipt (turn : Nat) (callId : String) (outcome : TurnToolOutcome) (result : Option BlobRef)
      (toolsSpent : Nat)
  | checkpoint (turn : Nat) (log : Option BlobRef) (toolsSpent : Nat)
  | resumed (fromHistoryId : String) (checkpointTurn : Nat) (log : BlobRef)
      (toolsSpent requestsSent elapsedSecs : Nat)
  | terminal (turn : Nat) (disposition : TerminalKind) (partialText : Option BlobRef) (toolsSpent : Nat)
deriving DecidableEq

def maxReasonChars : Nat := 512

def boundedReason (text : String) : String := String.ofList (text.toList.take maxReasonChars)

structure CompletedCall where
  turn : Nat
  callId : String
  tool : String
  outcome : TurnToolOutcome
  result : Option BlobRef
deriving DecidableEq

structure UnresolvedCall where
  turn : Nat
  callId : String
  tool : String
deriving DecidableEq

def UnresolvedCall.key (call : UnresolvedCall) : Nat ×ₗ String := toLex (call.turn, call.callId)

structure ReceivedAssistant where
  turn : Nat
  calls : List CallEvidence
  envelope : Option BlobRef
deriving DecidableEq

structure CheckpointRef where
  turn : Nat
  log : Option BlobRef
  toolsSpent : Nat
deriving DecidableEq

structure TerminalEvidence where
  turn : Nat
  disposition : TerminalKind
  partialText : Option BlobRef
deriving DecidableEq

structure CompactionEvidence where
  turn : Nat
  tokensBefore : Nat
  tokensAfter : Nat
  messagesRemoved : Nat
deriving DecidableEq

structure ResumedFrom where
  historyId : String
  checkpointTurn : Nat
  requestsSent : Nat
  elapsedSecs : Nat
deriving DecidableEq

structure AttemptReconstruction where
  limits : Option TurnLimits := none
  pins : Pins := []
  requestsSent : Nat := 0
  toolsSpent : Nat := 0
  inputs : List InputEvidence := []
  assistants : List ReceivedAssistant := []
  completedCalls : List CompletedCall := []
  unresolvedCalls : List UnresolvedCall := []
  unresolvedRequests : List Nat := []
  compactions : List CompactionEvidence := []
  lastCheckpoint : Option CheckpointRef := none
  terminal : Option TerminalEvidence := none
  resumedFrom : Option ResumedFrom := none
deriving DecidableEq

inductive SequenceError where
  | outOfOrder (reason : String)
  | startedTwice
deriving DecidableEq

structure NamedCall where
  turn : Nat
  callId : String
  tool : String
deriving DecidableEq

/-- The state of `reconstruct`: the turns without an outcome, the named calls, and the
calls with an intent and no receipt, in the order of their keys. -/
structure Fold where
  out : AttemptReconstruction := {}
  started : Bool := false
  openRequests : List Nat := []
  named : List NamedCall := []
  intents : List UnresolvedCall := []
deriving DecidableEq

def closeRequest (openRequests : List Nat) (turn : Nat) (what : String) : Except SequenceError (List Nat) :=
  if turn ∈ openRequests then .ok (openRequests.erase turn)
  else .error (.outOfOrder (what ++ " at turn " ++ toString turn ++ " without a request intent"))

def saturatingSucc (n : Nat) : Nat := min (n + 1) (2 ^ 32 - 1)

def AttemptReconstruction.spend (out : AttemptReconstruction) (toolsSpent : Nat) : AttemptReconstruction :=
  { out with toolsSpent := max out.toolsSpent toolsSpent }

def Fold.apply (f : Fold) : TurnRecord → Except SequenceError Fold
  | .attemptStarted limits pins =>
    if f.started then .error .startedTwice
    else .ok { f with started := true, out := { f.out with limits := some limits, pins := pins } }
  | .requestIntent turn _ toolsSpent =>
    .ok { f with
      out := { f.out.spend toolsSpent with requestsSent := saturatingSucc f.out.requestsSent }
      openRequests := f.openRequests ++ [turn] }
  | .inputsSelected turn inputs =>
    if turn ∈ f.openRequests then .ok { f with out := { f.out with inputs := f.out.inputs ++ inputs } }
    else .error (.outOfOrder ("inputs for turn " ++ toString turn ++ " without a request intent"))
  | .requestFailed turn _ => do
    let openRequests ← closeRequest f.openRequests turn "request_failed"
    return { f with openRequests := openRequests }
  | .compacted turn tokensBefore tokensAfter messagesRemoved =>
    .ok { f with out := { f.out with
      compactions := f.out.compactions ++ [⟨turn, tokensBefore, tokensAfter, messagesRemoved⟩] } }
  | .assistantReceived turn calls envelope toolsSpent => do
    let openRequests ← closeRequest f.openRequests turn "assistant_received"
    return { f with
      out := { f.out.spend toolsSpent with assistants := f.out.assistants ++ [⟨turn, calls, envelope⟩] }
      openRequests := openRequests
      named := f.named ++ calls.map fun c => ⟨turn, c.callId, c.tool⟩ }
  | .toolIntent turn callId tool _ toolsSpent =>
    if f.named.any fun c => c.turn = turn ∧ c.callId = callId then
      .ok { f with
        out := f.out.spend toolsSpent
        intents := Keyed.insert UnresolvedCall.key ⟨turn, callId, tool⟩ f.intents }
    else .error (.outOfOrder
      ("tool intent " ++ callId ++ " not named by the envelope of turn " ++ toString turn))
  | .toolReceipt turn callId outcome result toolsSpent =>
    match Keyed.get UnresolvedCall.key (toLex (turn, callId)) f.intents with
    | none => .error (.outOfOrder ("tool receipt " ++ callId ++ " without an intent at turn " ++ toString turn))
    | some call =>
      .ok { f with
        out := { f.out.spend toolsSpent with
          completedCalls := f.out.completedCalls ++ [⟨turn, callId, call.tool, outcome, result⟩] }
        intents := f.intents.filter fun c => c.key ≠ toLex (turn, callId) }
  | .checkpoint turn log toolsSpent =>
    .ok { f with out := { f.out.spend toolsSpent with lastCheckpoint := some ⟨turn, log, toolsSpent⟩ } }
  | .resumed fromHistoryId checkpointTurn log toolsSpent requestsSent elapsedSecs =>
    if f.started = false ∨ f.out.requestsSent > 0 ∨ f.out.resumedFrom.isSome then
      .error (.outOfOrder "resumed must follow attempt_started and precede every request")
    else
      .ok { f with out := { f.out.spend toolsSpent with
        lastCheckpoint := some ⟨checkpointTurn, some log, toolsSpent⟩
        resumedFrom := some ⟨fromHistoryId, checkpointTurn, requestsSent, elapsedSecs⟩ } }
  | .terminal turn disposition partialText toolsSpent => do
    let openRequests ← closeRequest f.openRequests turn "terminal"
    return { f with
      out := { f.out.spend toolsSpent with terminal := some ⟨turn, disposition, partialText⟩ }
      openRequests := openRequests }

def Fold.finish (f : Fold) : AttemptReconstruction :=
  { f.out with unresolvedRequests := f.openRequests, unresolvedCalls := f.intents }

def reconstruct (records : List TurnRecord) : Except SequenceError AttemptReconstruction :=
  (records.foldlM Fold.apply {}).map Fold.finish

structure ResumePlan where
  fromHistoryId : String
  limits : TurnLimits
  pins : Pins
  nextTurn : Nat
  toolsSpent : Nat
  requestsSent : Nat
  elapsedSecs : Nat
  checkpointTurn : Nat
  log : BlobRef
deriving DecidableEq

inductive ResumeRefusal where
  | pinChanged (name recorded current : String)
  | limitsChanged
  | corrupt (reason : String)
  | logNotRestorable
deriving DecidableEq

def pinNamed (name : String) (pins : Pins) : Option Pin := Keyed.get Pin.name name pins

def ResumePlan.checkUnchanged (plan : ResumePlan) (pins : Pins) (limits : TurnLimits) :
    Except ResumeRefusal Unit := do
  plan.pins.forM fun recorded =>
    let current := ((pinNamed recorded.name pins).map Pin.value).getD "<absent>"
    if current = recorded.value then .ok () else .error (.pinChanged recorded.name recorded.value current)
  pins.forM fun pin =>
    if (pinNamed pin.name plan.pins).isSome then .ok ()
    else .error (.pinChanged pin.name "<absent>" pin.value)
  if limits = plan.limits then .ok () else .error .limitsChanged

end Cosmon.Core.HarnessTurn
