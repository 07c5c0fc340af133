import Cosmon.State.WorkStore

namespace Cosmon.State.WorkOps

open Cosmon.State.Molecule Cosmon.Core.WorkMessage Cosmon.Core.WorkProjection
open Cosmon.State.WorkStore Cosmon.Lib.Checks

structure SendRequest where
  scopeRevision : ScopeRevision
  recipient : AdvisorySeatId
  key : Option MessageKey
  senderTime : Instant
  replyTo : Option MessageKey
  phase : Option String
  confidentiality : Confidentiality
  ttlSecs : Option UInt64

structure PullRequest where
  scopeRevision : ScopeRevision
  adapter : DeliveryAdapter
  mechanism : String
  peek : Bool
  contextObservation : Option ContextObservation

/-- What a pull does with one candidate envelope. -/
inductive PageDecision where
  | include_
  | stop
  | skip
deriving DecidableEq

structure PulledMessage where
  envelope : Envelope
  payload : List UInt8
deriving DecidableEq

structure BoundedPull where
  messages : List PulledMessage
  undeliverable : List Envelope
deriving DecidableEq

structure AcknowledgeRequest where
  scopeRevision : ScopeRevision
  key : MessageKey
  payloadDigest : Hash
  disposition : Disposition
  reply : Option MessageKey
  note : Option (List UInt8)

inductive AcknowledgeOutcome where
  | recorded (receipt : Receipt)
  | duplicate
deriving DecidableEq

variable (hashing : Hashing)

def SendRequest.submission (request : SendRequest) (caller : AdmittedWorkCaller) (payload : List UInt8) :
    Submission where
  scopeOwner := caller.scopeOwner
  scopeRevision := request.scopeRevision
  sender := caller.seat
  recipient := request.recipient
  key := request.key
  payloadDigest := hashing.ofBytes payload
  payloadBytes := UInt64.ofNat payload.length
  senderTime := request.senderTime
  replyTo := request.replyTo
  phase := request.phase
  confidentiality := request.confidentiality
  ttlSecs := request.ttlSecs
  senderEvidence := caller.senderEvidence

def send (s : Store) (caller : AdmittedWorkCaller) (request : SendRequest) (payload : List UInt8)
    (admittedAt : Instant) : Store × Except StoreError Admission :=
  s.submit hashing (request.submission hashing caller payload) payload admittedAt none

def currentProjection (s : Store) (caller : AdmittedWorkCaller) (expectedRevision : ScopeRevision)
    (now : Instant) : Except StoreError WorkProjection := do
  let records ← s.loadAll
  match records.scope with
  | none => .error .noScope
  | some scope =>
    if scope.owner ≠ caller.scopeOwner then
      .error (.domain (.wrongScopeOwner caller.scopeOwner scope.owner))
    else if scope.seats.get caller.seat = none then .error (.domain (.notAMember "caller" caller.seat))
    else do
      let current ← (scope.revision hashing).mapError .domain
      if expectedRevision ≠ current then
        .error (.domain (.staleScopeRevision expectedRevision current))
      else do
        let projection ← (foldWithHistory hashing scope records.history records.envelopes
          records.receipts now).mapError .domain
        if projection.findings.any ProjectionFinding.isCorrupt then .error .corruptEvidence
        else .ok projection

/-- Select a page of the envelopes. The transport decides on each message that it is
shown, after those that it has seen. -/
def selectPage (s : Store) (maxMessages : Nat) (maxPayloadBytes : UInt64)
    (decide : List PulledMessage → PulledMessage → Except StoreError PageDecision) :
    List Envelope → List PulledMessage → BoundedPull → Except StoreError BoundedPull
  | [], _, page => .ok page
  | envelope :: rest, seen, page =>
    if maxMessages ≤ page.messages.length ∨ maxMessages ≤ page.undeliverable.length then .ok page
    else if maxPayloadBytes < envelope.payloadBytes then
      selectPage s maxMessages maxPayloadBytes decide rest seen
        { page with undeliverable := page.undeliverable ++ [envelope] }
    else do
      let payload ← s.readPayload hashing envelope
      let message : PulledMessage := ⟨envelope, payload⟩
      match ← decide seen message with
      | .include_ =>
        selectPage s maxMessages maxPayloadBytes decide rest (seen ++ [message])
          { page with messages := page.messages ++ [message] }
      | .skip =>
        selectPage s maxMessages maxPayloadBytes decide rest (seen ++ [message])
          { page with undeliverable := page.undeliverable ++ [envelope] }
      | .stop => .ok page

def PullRequest.observations (request : PullRequest) (now : Instant) (message : PulledMessage) : List Write :=
  .receipt (Receipt.forEnvelope message.envelope (.adapter request.adapter) now
      (.deliveryAttempted request.adapter request.mechanism .submitted)) ::
    (request.contextObservation.map fun observation =>
      Write.receipt (Receipt.forEnvelope message.envelope (.adapter request.adapter) now
        (.contextDelivered request.adapter observation))).toList

def pullPage (s : Store) (caller : AdmittedWorkCaller) (request : PullRequest) (now : Instant)
    (maxMessages : Nat) (maxPayloadBytes : UInt64)
    (decide : List PulledMessage → PulledMessage → Except StoreError PageDecision) :
    Except StoreError (BoundedPull × List Write) := do
  let projection ← currentProjection hashing s caller request.scopeRevision now
  let page ← selectPage hashing s maxMessages maxPayloadBytes decide
    (deliverable projection caller.seat request.adapter now) [] ⟨[], []⟩
  .ok (page, if request.peek then [] else page.messages.flatMap (request.observations now))

def pullBounded (s : Store) (caller : AdmittedWorkCaller) (request : PullRequest) (now : Instant)
    (maxMessages : Nat) (maxPayloadBytes : UInt64)
    (decide : List PulledMessage → PulledMessage → Except StoreError PageDecision) :
    Store × Except StoreError BoundedPull :=
  match pullPage hashing s caller request now maxMessages maxPayloadBytes decide with
  | .error e => (s, .error e)
  | .ok (page, writes) => s.perform hashing writes page none

def maxUsize : Nat := 18446744073709551615

def pull (s : Store) (caller : AdmittedWorkCaller) (request : PullRequest) (now : Instant) :
    Store × Except StoreError (List PulledMessage) :=
  let pulled := pullBounded hashing s caller request now maxUsize 18446744073709551615
    fun _ _ => .ok .include_
  (pulled.1, pulled.2.map BoundedPull.messages)

def AcknowledgeRequest.noteWrites (request : AcknowledgeRequest) : List Write :=
  (request.note.map fun note => Write.note (hashing.ofBytes note) note).toList

def acknowledgment (s : Store) (caller : AdmittedWorkCaller) (request : AcknowledgeRequest)
    (now : Instant) : Except StoreError (AcknowledgeOutcome × List Write) := do
  let projection ← currentProjection hashing s caller request.scopeRevision now
  match projection.get request.key with
  | none => .error (.domain (.unknownEnvelope request.key))
  | some view =>
    if caller.senderEvidence = .admittedNonLocal ∧ view.consumed.isNone = true ∧
        view.envelope.isExpiredAt now = true then
      .error (.domain (.envelopeExpired request.key))
    else if view.envelope.payloadDigest ≠ request.payloadDigest then
      .error (.domain
        (.envelopeDigestMismatch request.key request.payloadDigest view.envelope.payloadDigest))
    else
      match request.note.filter fun note => projection.budget.maxPayloadBytes < UInt64.ofNat note.length with
      | some note =>
        .error (.domain (.payloadTooLarge (UInt64.ofNat note.length) projection.budget.maxPayloadBytes))
      | none => do
        match ← (acceptConsumption projection caller.seat request.key request.disposition request.reply
          (request.note.map hashing.ofBytes) now).mapError .domain with
        | .record receipt => .ok (.recorded receipt, request.noteWrites hashing ++ [.receipt receipt])
        | .duplicate _ => .ok (.duplicate, [])

def acknowledge (s : Store) (caller : AdmittedWorkCaller) (request : AcknowledgeRequest) (now : Instant) :
    Store × Except StoreError AcknowledgeOutcome :=
  match acknowledgment hashing s caller request now with
  | .error e => (s, .error e)
  | .ok (outcome, writes) => s.perform hashing writes outcome none

section Inversion

variable {hashing} {s : Store} {caller : AdmittedWorkCaller} {now : Instant} {projection : WorkProjection}

theorem currentProjection_ok {expectedRevision : ScopeRevision}
    (h : currentProjection hashing s caller expectedRevision now = .ok projection) :
    ∃ records scope, s.loadAll = .ok records ∧ records.scope = some scope ∧
      foldWithHistory hashing scope records.history records.envelopes records.receipts now =
        .ok projection := by
  obtain ⟨records, hload, h⟩ := bind_ok h
  cases hscope : records.scope with
  | none =>
    simp only [hscope] at h
    cases h
  | some scope =>
    simp only [hscope] at h
    obtain ⟨_, h⟩ := guard_ok.mp h
    obtain ⟨_, h⟩ := guard_ok.mp h
    obtain ⟨current, _, h⟩ := bind_ok h
    obtain ⟨_, h⟩ := guard_ok.mp h
    obtain ⟨found, hfold, h⟩ := bind_ok h
    obtain ⟨_, h⟩ := guard_ok.mp h
    cases h
    exact ⟨records, scope, hload, hscope, mapError_ok hfold⟩

def BoundedPull.envelopes (page : BoundedPull) : List Envelope :=
  page.messages.map PulledMessage.envelope ++ page.undeliverable

theorem selectPage_sublist {maxMessages : Nat} {maxPayloadBytes : UInt64}
    {decide : List PulledMessage → PulledMessage → Except StoreError PageDecision}
    {candidates : List Envelope} {seen : List PulledMessage} {page page' : BoundedPull}
    (h : selectPage hashing s maxMessages maxPayloadBytes decide candidates seen page = .ok page') :
    ∃ chosen skipped, chosen.Sublist candidates ∧ skipped.Sublist candidates ∧
      page'.messages.map PulledMessage.envelope = page.messages.map PulledMessage.envelope ++ chosen ∧
        page'.undeliverable = page.undeliverable ++ skipped := by
  induction candidates generalizing seen page with
  | nil =>
    cases h
    exact ⟨[], [], List.nil_sublist _, List.nil_sublist _, (List.append_nil _).symm, (List.append_nil _).symm⟩
  | cons candidate rest ih =>
    rw [selectPage] at h
    split at h
    · cases h
      exact ⟨[], [], List.nil_sublist _, List.nil_sublist _, (List.append_nil _).symm, (List.append_nil _).symm⟩
    split at h
    · obtain ⟨chosen, skipped, hchosen, hskipped, hmessages, hundeliverable⟩ := ih h
      refine ⟨chosen, candidate :: skipped, hchosen.cons _, hskipped.cons_cons _, hmessages, ?_⟩
      rw [hundeliverable, List.append_assoc, List.singleton_append]
    obtain ⟨payload, _, h⟩ := bind_ok h
    obtain ⟨decision, _, h⟩ := bind_ok h
    cases decision with
    | include_ =>
      obtain ⟨chosen, skipped, hchosen, hskipped, hmessages, hundeliverable⟩ := ih h
      refine ⟨candidate :: chosen, skipped, hchosen.cons_cons _, hskipped.cons _, ?_, hundeliverable⟩
      rw [hmessages, List.map_append, List.append_assoc, List.map_singleton, List.singleton_append]
    | skip =>
      obtain ⟨chosen, skipped, hchosen, hskipped, hmessages, hundeliverable⟩ := ih h
      refine ⟨chosen, candidate :: skipped, hchosen.cons _, hskipped.cons_cons _, hmessages, ?_⟩
      rw [hundeliverable, List.append_assoc, List.singleton_append]
    | stop =>
      cases h
      exact ⟨[], [], List.nil_sublist _, List.nil_sublist _, (List.append_nil _).symm, (List.append_nil _).symm⟩

theorem pullPage_ok {request : PullRequest} {maxMessages : Nat} {maxPayloadBytes : UInt64}
    {decide : List PulledMessage → PulledMessage → Except StoreError PageDecision} {page : BoundedPull}
    {writes : List Write}
    (h : pullPage hashing s caller request now maxMessages maxPayloadBytes decide = .ok (page, writes)) :
    ∃ projection, currentProjection hashing s caller request.scopeRevision now = .ok projection ∧
      (∀ envelope ∈ page.envelopes, envelope ∈ deliverable projection caller.seat request.adapter now) ∧
        ∀ write ∈ writes, ∃ message ∈ page.messages, write ∈ request.observations now message := by
  obtain ⟨projection, hprojection, h⟩ := bind_ok h
  obtain ⟨selected, hselect, h⟩ := bind_ok h
  cases h
  refine ⟨projection, hprojection, fun envelope hmem => ?_, fun write hmem => ?_⟩
  · obtain ⟨chosen, skipped, hchosen, hskipped, hmessages, hundeliverable⟩ := selectPage_sublist hselect
    rw [BoundedPull.envelopes, hmessages, hundeliverable] at hmem
    exact (List.mem_append.mp hmem).elim (fun hmem => hchosen.subset hmem) fun hmem => hskipped.subset hmem
  · split at hmem
    · cases hmem
    · exact List.mem_flatMap.mp hmem

/-- An acknowledgment that passes every check and is the first one. -/
structure Accepted (hashing : Hashing) (s : Store) (caller : AdmittedWorkCaller) (request : AcknowledgeRequest)
    (now : Instant) (projection : WorkProjection) (view : EnvelopeView) : Prop where
  current : currentProjection hashing s caller request.scopeRevision now = .ok projection
  found : projection.get request.key = some view
  unexpired : ¬(caller.senderEvidence = .admittedNonLocal ∧ view.consumed.isNone = true ∧
    view.envelope.isExpiredAt now = true)
  digest : view.envelope.payloadDigest = request.payloadDigest
  note : request.note.filter
    (fun note => projection.budget.maxPayloadBytes < UInt64.ofNat note.length) = none
  recipient : caller.seat = view.envelope.recipient
  first : view.consumed = none
  reply : projection.unknownReply request.reply = none

def AcknowledgeRequest.report (request : AcknowledgeRequest) (hashing : Hashing) (envelope : Envelope)
    (seat : AdvisorySeatId) (now : Instant) : Receipt :=
  Receipt.forEnvelope envelope (.seat seat) now
    (.consumed request.disposition request.reply (request.note.map hashing.ofBytes))

theorem acknowledgment_iff {request : AcknowledgeRequest} {receipt : Receipt} {writes : List Write} :
    acknowledgment hashing s caller request now = .ok (.recorded receipt, writes) ↔
      ∃ projection view, Accepted hashing s caller request now projection view ∧
        receipt = request.report hashing view.envelope caller.seat now ∧
          writes = request.noteWrites hashing ++ [.receipt receipt] := by
  constructor
  · intro h
    obtain ⟨projection, hcurrent, h⟩ := bind_ok h
    cases hget : projection.get request.key with
    | none =>
      simp only [hget] at h
      cases h
    | some view =>
      simp only [hget] at h
      obtain ⟨hunexpired, h⟩ := guard_ok.mp h
      obtain ⟨hdigest, h⟩ := guard_ok.mp h
      cases hnote : request.note.filter
          (fun note => projection.budget.maxPayloadBytes < UInt64.ofNat note.length) with
      | some note =>
        simp only [hnote] at h
        cases h
      | none =>
        simp only [hnote] at h
        obtain ⟨consumption, haccept, h⟩ := bind_ok h
        cases consumption with
        | duplicate existing => cases h
        | record found =>
          cases h
          obtain ⟨known, hknown, hrecipient, hfirst, hreply, rfl⟩ :=
            acceptConsumption_record.mp (mapError_ok haccept)
          rw [hget] at hknown
          cases hknown
          exact ⟨projection, view,
            ⟨hcurrent, hget, hunexpired, of_not_not hdigest, hnote, hrecipient, hfirst, hreply⟩, rfl, rfl⟩
  · rintro ⟨projection, view, h, rfl, rfl⟩
    have haccept : acceptConsumption projection caller.seat request.key request.disposition request.reply
        (request.note.map hashing.ofBytes) now =
          .ok (.record (request.report hashing view.envelope caller.seat now)) :=
      acceptConsumption_record.mpr ⟨view, h.found, h.recipient, h.first, h.reply, rfl⟩
    rw [acknowledgment, h.current]
    simp only [bind, Except.bind, h.found, if_neg h.unexpired, h.digest, ne_eq, not_true_eq_false, if_false,
      h.note, haccept, Except.mapError]

theorem acknowledgment_duplicate {request : AcknowledgeRequest} {writes : List Write}
    (h : acknowledgment hashing s caller request now = .ok (.duplicate, writes)) : writes = [] := by
  obtain ⟨projection, _, h⟩ := bind_ok h
  cases hget : projection.get request.key with
  | none =>
    simp only [hget] at h
    cases h
  | some view =>
    simp only [hget] at h
    obtain ⟨_, h⟩ := guard_ok.mp h
    obtain ⟨_, h⟩ := guard_ok.mp h
    cases hnote : request.note.filter
        (fun note => projection.budget.maxPayloadBytes < UInt64.ofNat note.length) with
    | some note =>
      simp only [hnote] at h
      cases h
    | none =>
      simp only [hnote] at h
      obtain ⟨consumption, _, h⟩ := bind_ok h
      cases consumption with
      | duplicate existing =>
        cases h
        rfl
      | record receipt => cases h

end Inversion

end Cosmon.State.WorkOps
