import Cosmon.Harness.Spine

namespace Cosmon.Harness

open Cosmon.Core.HarnessTurn

def shellToolName : String := "exec_command"

/-- Why an interrupted attempt may not be continued. The refusals of the loop itself are those
of `ResumeRefusal`. -/
inductive LoadRefusal where
  | alreadyTerminal
  | unresolvedEffect (calls : List UnresolvedCall)
  | unresolvedRequest (turns : List Nat)
  | shellState
  | noCheckpoint
  | incompleteTurn (turn : Nat)
  | noLimits
  | deadlineSpent (spentSecs limitSecs : Nat)
  | activeOwner
  | corrupt (reason : String)
  | nothingToResume
deriving DecidableEq

def saturatingAdd (bits a b : Nat) : Nat := min (a + b) (2 ^ bits - 1)

def planResume (historyId : String) (attempt : AttemptReconstruction) (ownSpanSecs : Nat) :
    Except LoadRefusal ResumePlan :=
  if attempt.terminal.isSome then .error .alreadyTerminal
  else if attempt.unresolvedCalls ≠ [] then .error (.unresolvedEffect attempt.unresolvedCalls)
  else if attempt.unresolvedRequests ≠ [] then .error (.unresolvedRequest attempt.unresolvedRequests)
  else if attempt.completedCalls.any (fun c => c.tool = shellToolName) then .error .shellState
  else
    match attempt.lastCheckpoint with
    | none => .error .noCheckpoint
    | some checkpoint =>
      match checkpoint.log with
      | none => .error .noCheckpoint
      | some log =>
        match attempt.assistants.find? (fun a => checkpoint.turn < a.turn) with
        | some later => .error (.incompleteTurn later.turn)
        | none =>
          match attempt.limits with
          | none => .error .noLimits
          | some limits =>
            .ok {
              fromHistoryId := historyId
              limits
              pins := attempt.pins
              nextTurn := saturatingSucc checkpoint.turn
              toolsSpent := max attempt.toolsSpent checkpoint.toolsSpent
              requestsSent :=
                saturatingAdd 32 ((attempt.resumedFrom.map ResumedFrom.requestsSent).getD 0) attempt.requestsSent
              elapsedSecs :=
                saturatingAdd 64 ((attempt.resumedFrom.map ResumedFrom.elapsedSecs).getD 0) ownSpanSecs
              checkpointTurn := checkpoint.turn
              log }

/-- What a plan says of the attempt that it continues. -/
structure Continues (historyId : String) (attempt : AttemptReconstruction) (ownSpanSecs : Nat) (plan : ResumePlan)
    (checkpoint : CheckpointRef) : Prop where
  terminal : attempt.terminal = none
  calls : attempt.unresolvedCalls = []
  requests : attempt.unresolvedRequests = []
  shell : ∀ c ∈ attempt.completedCalls, c.tool ≠ shellToolName
  lastCheckpoint : attempt.lastCheckpoint = some checkpoint
  log : checkpoint.log = some plan.log
  assistants : ∀ a ∈ attempt.assistants, a.turn ≤ checkpoint.turn
  limits : attempt.limits = some plan.limits
  checkpointTurn : plan.checkpointTurn = checkpoint.turn
  nextTurn : plan.nextTurn = saturatingSucc checkpoint.turn
  toolsSpent : plan.toolsSpent = max attempt.toolsSpent checkpoint.toolsSpent
  requestsSent : plan.requestsSent =
    saturatingAdd 32 ((attempt.resumedFrom.map ResumedFrom.requestsSent).getD 0) attempt.requestsSent
  elapsedSecs : plan.elapsedSecs =
    saturatingAdd 64 ((attempt.resumedFrom.map ResumedFrom.elapsedSecs).getD 0) ownSpanSecs

theorem planResume_ok {historyId : String} {attempt : AttemptReconstruction} {ownSpanSecs : Nat}
    {plan : ResumePlan} (h : planResume historyId attempt ownSpanSecs = .ok plan) :
    ∃ checkpoint, Continues historyId attempt ownSpanSecs plan checkpoint := by
  unfold planResume at h
  split_ifs at h with hterminal hcalls hrequests hshell
  cases hcheckpoint : attempt.lastCheckpoint with
  | none =>
    rw [hcheckpoint] at h
    cases h
  | some checkpoint =>
    simp only [hcheckpoint] at h
    cases hlog : checkpoint.log with
    | none =>
      rw [hlog] at h
      cases h
    | some log =>
      simp only [hlog] at h
      cases hlater : attempt.assistants.find? (fun a => checkpoint.turn < a.turn) with
      | some later =>
        rw [hlater] at h
        cases h
      | none =>
        simp only [hlater] at h
        cases hlimits : attempt.limits with
        | none =>
          rw [hlimits] at h
          cases h
        | some limits =>
          simp only [hlimits] at h
          cases h
          refine ⟨checkpoint, Option.not_isSome_iff_eq_none.mp hterminal, not_not.mp hcalls, not_not.mp hrequests,
            ?_, hcheckpoint, hlog, ?_, hlimits, rfl, rfl, rfl, rfl, rfl⟩
          · simpa using hshell
          · simpa using hlater

structure HarnessTurnEvidence where
  schemaVersion : Nat
  historyId : String
  record : TurnRecord

inductive LedgerEvent where
  | harnessTurnRecorded (molId : String) (evidence : HarnessTurnEvidence)
  | other

structure Envelope where
  timestamp : Int
  event : LedgerEvent

def harnessTurnSchemaVersion : Nat := 1

structure GatheredAttempt where
  historyId : String
  records : List TurnRecord
  first : Int
  last : Int

/-- Add a record to its attempt. A new attempt comes last. -/
def gather (timestamp : Int) (evidence : HarnessTurnEvidence) : List GatheredAttempt → List GatheredAttempt
  | [] => [⟨evidence.historyId, [evidence.record], timestamp, timestamp⟩]
  | attempt :: rest =>
    if attempt.historyId = evidence.historyId then
      { attempt with records := attempt.records ++ [evidence.record], last := timestamp } :: rest
    else attempt :: gather timestamp evidence rest

def gatherLine (molId : String) (attempts : List GatheredAttempt) (line : Envelope) :
    Except LoadRefusal (List GatheredAttempt) :=
  match line.event with
  | .other => .ok attempts
  | .harnessTurnRecorded rowMol evidence =>
    if rowMol ≠ molId then .ok attempts
    else if harnessTurnSchemaVersion < evidence.schemaVersion then
      .error (.corrupt
        ("turn evidence schema " ++ toString evidence.schemaVersion ++ " is newer than this reader"))
    else .ok (gather line.timestamp evidence attempts)

def GatheredAttempt.ownSpanSecs (attempt : GatheredAttempt) : Nat :=
  let millis := ((attempt.last - attempt.first).tdiv 1000000).toNat
  millis / 1000 + if millis % 1000 = 0 then 0 else 1

def sequenceErrorText : SequenceError → String
  | .outOfOrder reason => "record out of order: " ++ reason
  | .startedTwice => "attempt started twice"

abbrev Blobs := BlobDigest → Except String (Option (List UInt8))

section Blobs

variable (digestOf : List UInt8 → BlobDigest) (blobs : Blobs)

def readBlob (reference : BlobRef) : Except EvidenceError (List UInt8) :=
  if harnessTurnSchemaVersion < reference.schemaVersion then
    .error (.corrupt ("blob schema " ++ toString reference.schemaVersion ++ " is newer than this reader"))
  else
    match blobs reference.digest with
    | .error reason => .error (.io ("read blob: " ++ reason))
    | .ok none => .error (.corrupt ("blob " ++ reference.digest ++ " is missing"))
    | .ok (some bytes) =>
      if bytes.length ≠ reference.len then
        .error (.corrupt ("blob " ++ reference.digest ++ " has " ++ toString bytes.length ++
          " bytes, expected " ++ toString reference.len))
      else if digestOf bytes ≠ reference.digest then
        .error (.corrupt ("blob " ++ reference.digest ++ " does not hash to its digest"))
      else .ok bytes

def blobRefs (attempt : AttemptReconstruction) : List BlobRef :=
  attempt.assistants.filterMap ReceivedAssistant.envelope ++
    attempt.completedCalls.filterMap CompletedCall.result ++
    (attempt.lastCheckpoint.bind CheckpointRef.log).toList ++
    (attempt.terminal.bind TerminalEvidence.partialText).toList

def blobProblem (references : List BlobRef) : Option (BlobRef × EvidenceError) :=
  references.findSome? fun reference =>
    match readBlob digestOf blobs reference with
    | .ok _ => none
    | .error problem => some (reference, problem)

/-- The latest attempt of the molecule, if it can be continued, with the log of its checkpoint. -/
def loadResumable (molId : String) (ledger : Except String (List Envelope)) :
    Except LoadRefusal ResumeState := do
  let lines ← ledger.mapError fun reason => .corrupt ("ledger unreadable: " ++ reason)
  let attempts ← lines.foldlM (gatherLine molId) []
  match attempts.getLast? with
  | none => .error .nothingToResume
  | some latest => do
    let attempt ← (reconstruct latest.records).mapError fun e => .corrupt (sequenceErrorText e)
    let plan ← planResume latest.historyId attempt latest.ownSpanSecs
    match blobProblem digestOf blobs (blobRefs attempt) with
    | some (reference, problem) =>
      .error (.corrupt ("blob " ++ reference.digest ++ ": " ++ problem.toString))
    | none => do
      let log ← (readBlob digestOf blobs plan.log).mapError fun e => .corrupt e.toString
      return ⟨plan, log⟩

end Blobs

end Cosmon.Harness
