import Cosmon.Core.PilotLeases
import Cosmon.Lib.Checks

namespace Cosmon.Core.WorkMessage

open Cosmon.State.Molecule Cosmon.Core.PilotLeases Cosmon.Lib

abbrev AdvisorySeatId := String
abbrev MessageKey := String

abbrev Hash := String

abbrev ScopeRevision := Hash

def workMessageSchemaVersion : UInt16 := 1

structure SeatDecl where
  molecule : MoleculeId
  required : Bool
  providerRequirement : Option String := none
deriving DecidableEq

structure Seats where
  entries : List (AdvisorySeatId × SeatDecl)
  sorted : (entries.map Prod.fst).Pairwise (· < ·)
deriving DecidableEq

def Seats.get (seats : Seats) (seat : AdvisorySeatId) : Option SeatDecl :=
  (Keyed.get Prod.fst seat seats.entries).map Prod.snd

structure MessageBudget where
  maxPayloadBytes : UInt64
  maxMessagesPerSeat : UInt32
  maxBytesPerSeat : UInt64
  defaultTtlSecs : UInt64
  redeliverAfterSecs : UInt64
  maxDeliveryAttempts : UInt32
deriving DecidableEq

structure WorkScope where
  schemaVersion : UInt16
  owner : MoleculeId
  seats : Seats
  budget : MessageBudget
  declaredAt : Instant
deriving DecidableEq

inductive WorkMessageError where
  | unsupportedSchema (found : UInt16)
  | emptyScope
  | invalidBudget
  | moleculeHoldsTwoSeats (molecule : MoleculeId)
  | canonical (error : String)
  | wrongScopeOwner (submitted current : MoleculeId)
  | staleScopeRevision (submitted current : ScopeRevision)
  | notAMember (role : String) (seat : AdvisorySeatId)
  | payloadTooLarge (bytes max : UInt64)
  | keyCollision (key : MessageKey)
  | replyToUnknown (key : MessageKey)
  | seatBudgetExhausted (seat : AdvisorySeatId) (dimension : String) (used limit : UInt64)
  | invalidTtl (seconds : UInt64)
  | envelopeExpired (key : MessageKey)
  | unknownEnvelope (key : MessageKey)
  | notTheRecipient (reporter recipient : AdvisorySeatId)
  | envelopeDigestMismatch (key : MessageKey) (expected current : Hash)
deriving DecidableEq

structure Hashing where
  ofBytes : List UInt8 → Hash
  canonicalSerialize : WorkScope → Except String (List UInt8)

variable (hashing : Hashing)

def MessageKey.derive (sender recipient : AdvisorySeatId) (digest : Hash) : MessageKey :=
  let material := sender ++ "\x00" ++ recipient ++ "\x00" ++ digest
  "m-" ++ String.ofList ((hashing.ofBytes material.toUTF8.toList).toList.take 32)

def MessageBudget.validate (budget : MessageBudget) : Except WorkMessageError Unit :=
  if 0 < budget.maxPayloadBytes ∧ 0 < budget.maxMessagesPerSeat ∧ 0 < budget.maxBytesPerSeat ∧
      0 < budget.defaultTtlSecs ∧ 0 < budget.redeliverAfterSecs ∧ 0 < budget.maxDeliveryAttempts then
    .ok ()
  else .error .invalidBudget

def firstRepeated (holders : List MoleculeId) : List MoleculeId → Option MoleculeId
  | [] => none
  | molecule :: rest =>
    if molecule ∈ holders then some molecule else firstRepeated (molecule :: holders) rest

def WorkScope.validate (scope : WorkScope) : Except WorkMessageError Unit :=
  if scope.schemaVersion ≠ workMessageSchemaVersion then
    .error (.unsupportedSchema scope.schemaVersion)
  else if scope.seats.entries.isEmpty then .error .emptyScope
  else do
    scope.budget.validate
    match firstRepeated [] (scope.seats.entries.map fun entry => entry.2.molecule) with
    | some molecule => .error (.moleculeHoldsTwoSeats molecule)
    | none => .ok ()

def WorkScope.revision (scope : WorkScope) : Except WorkMessageError ScopeRevision :=
  ((hashing.canonicalSerialize scope).map hashing.ofBytes).mapError .canonical

def WorkScope.holder (scope : WorkScope) (seat : AdvisorySeatId) : Option MoleculeId :=
  (scope.seats.get seat).map SeatDecl.molecule

inductive Confidentiality where
  | internal
  | confidential
deriving DecidableEq

inductive SenderEvidence where
  | callerEnvSameUid
  | admittedNonLocal
deriving DecidableEq

structure AdmittedWorkCaller where
  scopeOwner : MoleculeId
  seat : AdvisorySeatId
  senderEvidence : SenderEvidence
deriving DecidableEq

structure Submission where
  scopeOwner : MoleculeId
  scopeRevision : ScopeRevision
  sender : AdvisorySeatId
  recipient : AdvisorySeatId
  key : Option MessageKey
  payloadDigest : Hash
  payloadBytes : UInt64
  senderTime : Instant
  replyTo : Option MessageKey
  phase : Option String
  confidentiality : Confidentiality
  ttlSecs : Option UInt64
  senderEvidence : SenderEvidence
deriving DecidableEq

/-- An admitted message. Its payload is at `payloadRef`. -/
structure Envelope where
  schemaVersion : UInt16
  scopeOwner : MoleculeId
  scopeRevision : ScopeRevision
  sender : AdvisorySeatId
  recipient : AdvisorySeatId
  key : MessageKey
  payloadDigest : Hash
  payloadBytes : UInt64
  payloadRef : String
  senderTime : Instant
  admittedAt : Instant
  replyTo : Option MessageKey
  phase : Option String
  confidentiality : Confidentiality
  expiresAt : Instant
  maxDeliveryAttempts : UInt32
  senderEvidence : SenderEvidence
deriving DecidableEq

def Envelope.isExpiredAt (envelope : Envelope) (now : Instant) : Bool := envelope.expiresAt ≤ now

def payloadRefFor (digest : Hash) : String := "work/payloads/" ++ digest

inductive DeliveryAdapter where
  | pull
  | claudePostToolUse
  | codexPostToolUse
  | harnessTurn
deriving DecidableEq

inductive ObserverId where
  | boundary
  | seat (reporting : AdvisorySeatId)
  | adapter (reporting : DeliveryAdapter)
deriving DecidableEq

inductive DeliveryOutcome where
  | submitted
  | failed (reason : String)
deriving DecidableEq

inductive ContextObservation where
  | observed (evidence : String)
  | unknown (reason : String)
deriving DecidableEq

def ContextObservation.strength : ContextObservation → Nat
  | .unknown _ => 0
  | .observed _ => 1

inductive Disposition where
  | considered
  | deferred
  | rejected
deriving DecidableEq

inductive Stage where
  | admitted
  | deliveryAttempted (adapter : DeliveryAdapter) (mechanism : String) (outcome : DeliveryOutcome)
  | contextDelivered (adapter : DeliveryAdapter) (observation : ContextObservation)
  | consumed (disposition : Disposition) (reply : Option MessageKey) (noteDigest : Option Hash)
  | expired
deriving DecidableEq

structure Receipt where
  schemaVersion : UInt16
  key : MessageKey
  payloadDigest : Hash
  observer : ObserverId
  at_ : Instant
  stage : Stage
deriving DecidableEq

def Receipt.forEnvelope (envelope : Envelope) (observer : ObserverId) (at_ : Instant) (stage : Stage) :
    Receipt where
  schemaVersion := workMessageSchemaVersion
  key := envelope.key
  payloadDigest := envelope.payloadDigest
  observer := observer
  at_ := at_
  stage := stage

structure DeliveryAttemptView where
  adapter : DeliveryAdapter
  mechanism : String
  outcome : DeliveryOutcome
  at_ : Instant
deriving DecidableEq

structure ContextDeliveredView where
  adapter : DeliveryAdapter
  observation : ContextObservation
  at_ : Instant
deriving DecidableEq

structure ConsumptionView where
  disposition : Disposition
  reply : Option MessageKey
  noteDigest : Option Hash
  at_ : Instant
  late : Bool
deriving DecidableEq

structure EnvelopeView where
  envelope : Envelope
  admitted : Option Instant := none
  deliveryAttempts : List DeliveryAttemptView := []
  contextDelivered : Option ContextDeliveredView := none
  consumed : Option ConsumptionView := none
  expired : Bool := false
  recipientBound : Bool := true
deriving DecidableEq

abbrev EnvelopeView.key (view : EnvelopeView) : MessageKey := view.envelope.key

inductive ProjectionFinding where
  | orphanReceipt (key : MessageKey)
  | receiptDigestMismatch (key : MessageKey)
  | consumptionByNonRecipient (key : MessageKey)
  | earlierRevision (key : MessageKey)
  | recipientNotBound (key : MessageKey)
deriving DecidableEq

def ProjectionFinding.isCorrupt : ProjectionFinding → Bool
  | .orphanReceipt _ | .receiptDigestMismatch _ | .consumptionByNonRecipient _ => true
  | .earlierRevision _ | .recipientNotBound _ => false

structure SeatUsage where
  messages : UInt32
  bytes : UInt64
deriving DecidableEq

structure WorkProjection where
  revision : ScopeRevision
  budget : MessageBudget
  envelopes : List EnvelopeView
  findings : List ProjectionFinding
deriving DecidableEq

def saturatingAdd32 (a b : UInt32) : UInt32 :=
  if a.toNat + b.toNat < 2 ^ 32 then a + b else 4294967295

def saturatingAdd64 (a b : UInt64) : UInt64 :=
  if a.toNat + b.toNat < 2 ^ 64 then a + b else 18446744073709551615

def WorkProjection.get (projection : WorkProjection) (key : MessageKey) : Option EnvelopeView :=
  Keyed.get EnvelopeView.key key projection.envelopes

def SeatUsage.add (usage : SeatUsage) (view : EnvelopeView) : SeatUsage where
  messages := saturatingAdd32 usage.messages 1
  bytes := saturatingAdd64 usage.bytes view.envelope.payloadBytes

def WorkProjection.usage (projection : WorkProjection) (seat : AdvisorySeatId) : SeatUsage :=
  (projection.envelopes.filter fun view => view.envelope.sender = seat).foldl SeatUsage.add ⟨0, 0⟩

inductive Admission where
  | admitNew (envelope : Envelope)
  | duplicate (envelope : Envelope)
deriving DecidableEq

def Admission.envelope : Admission → Envelope
  | .admitNew admitted => admitted
  | .duplicate known => known

def maxDurationSeconds : Nat := 9223372036854775

def maxInstant : Instant := 8210266876799999999999

def trySeconds (seconds : UInt64) : Option Int :=
  if seconds.toNat ≤ maxDurationSeconds then some (seconds.toNat * nanosPerSecond) else none

def checkedAddSigned (instant : Instant) (duration : Int) : Option Instant :=
  if instant + duration ≤ maxInstant then some (instant + duration) else none

def retryMatches (envelope : Envelope) (submission : Submission) (defaultTtlSecs : UInt64) : Bool :=
  if envelope.payloadDigest ≠ submission.payloadDigest then false
  else if submission.senderEvidence ≠ .admittedNonLocal then true
  else
    let ttl := submission.ttlSecs.getD defaultTtlSecs
    let sameTtl := ttl.toNat < 2 ^ 63 ∧ numSeconds (envelope.expiresAt - envelope.admittedAt) = ttl.toNat
    envelope.scopeRevision = submission.scopeRevision ∧ envelope.sender = submission.sender ∧
      envelope.recipient = submission.recipient ∧ envelope.replyTo = submission.replyTo ∧
        envelope.phase = submission.phase ∧ envelope.confidentiality = submission.confidentiality ∧ sameTtl

def WorkScope.requireMember (scope : WorkScope) (role : String) (seat : AdvisorySeatId) :
    Except WorkMessageError Unit :=
  if scope.seats.get seat = none then .error (.notAMember role seat) else .ok ()

def Submission.messageKey (submission : Submission) : MessageKey :=
  submission.key.getD
    (MessageKey.derive hashing submission.sender submission.recipient submission.payloadDigest)

def WorkProjection.withinBudget (existing : WorkProjection) (budget : MessageBudget)
    (submission : Submission) : Except WorkMessageError Unit :=
  let used := existing.usage submission.sender
  let messages := saturatingAdd64 used.messages.toUInt64 1
  let bytes := saturatingAdd64 used.bytes submission.payloadBytes
  if budget.maxMessagesPerSeat.toUInt64 < messages then
    .error (.seatBudgetExhausted submission.sender "messages" messages budget.maxMessagesPerSeat.toUInt64)
  else if budget.maxBytesPerSeat < bytes then
    .error (.seatBudgetExhausted submission.sender "bytes" bytes budget.maxBytesPerSeat)
  else .ok ()

def expiry (ttl : UInt64) (now : Instant) : Except WorkMessageError Instant :=
  match (if 0 < ttl then trySeconds ttl else none).bind (checkedAddSigned now) with
  | some expiresAt => .ok expiresAt
  | none => .error (.invalidTtl ttl)

/-- The checks that know nothing of other messages. They give the current revision. -/
def Submission.require (scope : WorkScope) (submission : Submission) :
    Except WorkMessageError ScopeRevision := do
  scope.validate
  if submission.scopeOwner ≠ scope.owner then
    .error (.wrongScopeOwner submission.scopeOwner scope.owner)
  else
    let current ← scope.revision hashing
    if submission.scopeRevision ≠ current then
      .error (.staleScopeRevision submission.scopeRevision current)
    else
      scope.requireMember "sender" submission.sender
      scope.requireMember "recipient" submission.recipient
      if scope.budget.maxPayloadBytes < submission.payloadBytes then
        .error (.payloadTooLarge submission.payloadBytes scope.budget.maxPayloadBytes)
      else .ok current

def Submission.envelope (submission : Submission) (scope : WorkScope) (current : ScopeRevision)
    (key : MessageKey) (expiresAt now : Instant) : Envelope where
  schemaVersion := workMessageSchemaVersion
  scopeOwner := scope.owner
  scopeRevision := current
  sender := submission.sender
  recipient := submission.recipient
  key := key
  payloadDigest := submission.payloadDigest
  payloadBytes := submission.payloadBytes
  payloadRef := payloadRefFor submission.payloadDigest
  senderTime := submission.senderTime
  admittedAt := now
  replyTo := submission.replyTo
  phase := submission.phase
  confidentiality := submission.confidentiality
  expiresAt := expiresAt
  maxDeliveryAttempts := scope.budget.maxDeliveryAttempts
  senderEvidence := submission.senderEvidence

def WorkProjection.unknownReply (existing : WorkProjection) (reply : Option MessageKey) :
    Option MessageKey := reply.filter fun key => (existing.get key).isNone

def admitSubmission (scope : WorkScope) (existing : WorkProjection) (submission : Submission) (now : Instant) :
    Except WorkMessageError Admission := do
  let current ← submission.require hashing scope
  let key := submission.messageKey hashing
  match existing.get key with
  | some view =>
    if retryMatches view.envelope submission scope.budget.defaultTtlSecs then
      .ok (.duplicate view.envelope)
    else .error (.keyCollision key)
  | none =>
    match existing.unknownReply submission.replyTo with
    | some reply => .error (.replyToUnknown reply)
    | none =>
      existing.withinBudget scope.budget submission
      let expiresAt ← expiry (submission.ttlSecs.getD scope.budget.defaultTtlSecs) now
      .ok (.admitNew (submission.envelope scope current key expiresAt now))

def recipientBoundNow (scope : WorkScope) (earlier : List (ScopeRevision × WorkScope))
    (envelope : Envelope) : Bool :=
  let holderThen := (earlier.find? fun past => past.1 = envelope.scopeRevision).bind
    fun past => past.2.holder envelope.recipient
  let holderNow := scope.holder envelope.recipient
  holderThen.isSome && holderThen = holderNow

def revisions (history : List WorkScope) : Except WorkMessageError (List (ScopeRevision × WorkScope)) :=
  history.mapM fun past => (past.revision hashing).map fun revision => (revision, past)

def isRecipientBound (scope : WorkScope) (revision : ScopeRevision)
    (earlier : List (ScopeRevision × WorkScope)) (envelope : Envelope) : Bool :=
  envelope.scopeRevision = revision || recipientBoundNow scope earlier envelope

def openView (scope : WorkScope) (revision : ScopeRevision) (earlier : List (ScopeRevision × WorkScope))
    (now : Instant) (envelope : Envelope) : EnvelopeView where
  envelope := envelope
  expired := envelope.isExpiredAt now
  recipientBound := isRecipientBound scope revision earlier envelope

def scopeFindings (scope : WorkScope) (revision : ScopeRevision)
    (earlier : List (ScopeRevision × WorkScope)) (envelope : Envelope) : List ProjectionFinding :=
  if envelope.scopeRevision = revision then []
  else if recipientBoundNow scope earlier envelope then [.earlierRevision envelope.key]
  else [.earlierRevision envelope.key, .recipientNotBound envelope.key]

def EnvelopeView.note (view : EnvelopeView) (receipt : Receipt) : EnvelopeView × List ProjectionFinding :=
  if receipt.payloadDigest ≠ view.envelope.payloadDigest then
    (view, [.receiptDigestMismatch receipt.key])
  else
    match receipt.stage with
    | .admitted => ({ view with admitted := some (view.admitted.getD receipt.at_) }, [])
    | .deliveryAttempted adapter mechanism outcome =>
      ({ view with
          deliveryAttempts := view.deliveryAttempts ++ [⟨adapter, mechanism, outcome, receipt.at_⟩] }, [])
    | .contextDelivered adapter observation =>
      if view.contextDelivered.all fun kept => kept.observation.strength < observation.strength then
        ({ view with contextDelivered := some ⟨adapter, observation, receipt.at_⟩ }, [])
      else (view, [])
    | .consumed disposition reply noteDigest =>
      if receipt.observer ≠ .seat view.envelope.recipient then
        (view, [.consumptionByNonRecipient receipt.key])
      else if view.consumed.isNone then
        ({ view with
            consumed :=
              some ⟨disposition, reply, noteDigest, receipt.at_, view.envelope.isExpiredAt receipt.at_⟩ }, [])
      else (view, [])
    | .expired => ({ view with expired := true }, [])

def noteReceipt (folded : List EnvelopeView × List ProjectionFinding) (receipt : Receipt) :
    List EnvelopeView × List ProjectionFinding :=
  match Keyed.get EnvelopeView.key receipt.key folded.1 with
  | none => (folded.1, folded.2 ++ [.orphanReceipt receipt.key])
  | some view =>
    (Keyed.set EnvelopeView.key (view.note receipt).1 folded.1, folded.2 ++ (view.note receipt).2)

def foldWithHistory (scope : WorkScope) (history : List WorkScope) (envelopes : List Envelope)
    (receipts : List Receipt) (now : Instant) : Except WorkMessageError WorkProjection := do
  let revision ← scope.revision hashing
  let earlier ← revisions hashing history
  let views := envelopes.foldl
    (fun views envelope => Keyed.insert EnvelopeView.key (openView scope revision earlier now envelope) views) []
  let folded := receipts.foldl noteReceipt (views, envelopes.flatMap (scopeFindings scope revision earlier))
  .ok ⟨revision, scope.budget, folded.1, folded.2⟩

def Stage.isConsumed : Stage → Bool
  | .consumed _ _ _ => true
  | .admitted | .deliveryAttempted _ _ _ | .contextDelivered _ _ | .expired => false

structure Receipt.Fits (receipt : Receipt) (envelope : Envelope) : Prop where
  key : envelope.key = receipt.key
  digest : receipt.payloadDigest = envelope.payloadDigest
  reporter : receipt.stage.isConsumed → receipt.observer = .seat envelope.recipient

def Receipt.Consumes (receipt : Receipt) (envelope : Envelope) : Prop :=
  receipt.Fits envelope ∧ receipt.stage.isConsumed

def EnvelopeView.attemptsBy (view : EnvelopeView) (adapter : DeliveryAdapter) : List DeliveryAttemptView :=
  view.deliveryAttempts.filter fun attempt => attempt.adapter = adapter

def EnvelopeView.rested (view : EnvelopeView) (budget : MessageBudget) (adapter : DeliveryAdapter)
    (now : Instant) : Bool :=
  let attempts := view.attemptsBy adapter
  let wait := trySeconds budget.redeliverAfterSecs
  attempts.length < view.envelope.maxDeliveryAttempts.toNat &&
    match (attempts.map DeliveryAttemptView.at_).max? with
    | none => true
    | some last => (wait.bind (checkedAddSigned last)).any fun ready => ready ≤ now

def deliverable (projection : WorkProjection) (seat : AdvisorySeatId) (adapter : DeliveryAdapter)
    (now : Instant) : List Envelope :=
  (projection.envelopes.filter fun view =>
    view.envelope.recipient = seat && view.consumed.isNone && view.recipientBound &&
      (!view.expired && !view.envelope.isExpiredAt now) && view.rested projection.budget adapter now).map
    EnvelopeView.envelope

inductive Consumption where
  | record (receipt : Receipt)
  | duplicate (view : ConsumptionView)
deriving DecidableEq

def acceptConsumption (projection : WorkProjection) (reporter : AdvisorySeatId) (key : MessageKey)
    (disposition : Disposition) (reply : Option MessageKey) (noteDigest : Option Hash) (now : Instant) :
    Except WorkMessageError Consumption :=
  match projection.get key with
  | none => .error (.unknownEnvelope key)
  | some view =>
    if reporter ≠ view.envelope.recipient then
      .error (.notTheRecipient reporter view.envelope.recipient)
    else
      match view.consumed with
      | some existing => .ok (.duplicate existing)
      | none =>
        match projection.unknownReply reply with
        | some reply => .error (.replyToUnknown reply)
        | none =>
          .ok (.record (Receipt.forEnvelope view.envelope (.seat reporter) now
            (.consumed disposition reply noteDigest)))

end Cosmon.Core.WorkMessage
