import Cosmon.State.Molecule

namespace Cosmon.Core.CollapseContract

open Cosmon.State.Molecule

abbrev IdempotencyKey := String
abbrev RequestDigest := String

abbrev MoleculeRevision := String

def receiptSchema : String := "cosmon.collapse-receipt.v1"

inductive CollapsibleStatus where
  | pending
  | queued
  | running
  | frozen
  | starved
deriving DecidableEq

def CollapsibleStatus.status : CollapsibleStatus → MoleculeStatus
  | .pending => .pending
  | .queued => .queued
  | .running => .running
  | .frozen => .frozen
  | .starved => .starved

def CollapsibleStatus.asStr : CollapsibleStatus → String
  | .pending => "pending"
  | .queued => "queued"
  | .running => "running"
  | .frozen => "frozen"
  | .starved => "starved"

inductive CallerContext where
  | «local» (session : Option String)
  | remote (subject : String)
deriving DecidableEq

def CallerContext.actor : CallerContext → Option String
  | .«local» session => session
  | .remote subject => some ("jwt:" ++ subject)

structure CollapseCondition where
  key : IdempotencyKey
  expectStatus : CollapsibleStatus
  expectRevision : MoleculeRevision
  approvalDigest : Option String := none
  notAfter : Option Instant := none
deriving DecidableEq

/-- Everything a collapse request commits to, in the shape that is hashed.
The deadline is hashed in a rendering that keeps its nanoseconds. -/
structure CollapseIntentV1 where
  target : String
  reason : String
  cause : Option String
  account : Option String
  kind : Option String
  reasonKind : Option String
  expectedStatus : String
  expectedRevision : String
  actor : Option String
  approvalDigest : Option String
  notAfter : Option Instant
deriving DecidableEq

inductive KeyPhase where
  | reserved
  | committed
deriving DecidableEq

/-- The record of one key. It is created once, as reserved, and binds the key
to a molecule and a digest. -/
structure CollapseKeyRecord where
  schema : String
  key : IdempotencyKey
  molecule : MoleculeId
  digest : RequestDigest
  phase : KeyPhase
  receipt : Option CollapseReceipt
deriving DecidableEq

def CollapseKeyRecord.reserved (key : IdempotencyKey) (molecule : MoleculeId)
    (digest : RequestDigest) : CollapseKeyRecord :=
  { schema := receiptSchema
    key := key
    molecule := molecule
    digest := digest
    phase := .reserved
    receipt := none }

def CollapseKeyRecord.committed (record : CollapseKeyRecord) (receipt : CollapseReceipt) :
    CollapseKeyRecord :=
  { record with phase := .committed, receipt := some receipt }

inductive CollapseOutcomeKind where
  | idempotencyKeyReused
  | replayed
  | unleasedPilotGesture
  | alreadyCompleted
  | alreadyCollapsed
  | approvalExpired
  | unexpectedStatus
  | staleRevision
  | transitioned
deriving DecidableEq

def CollapseOutcomeKind.isSuccess (outcome : CollapseOutcomeKind) : Bool :=
  outcome = .replayed || outcome = .transitioned

inductive CollapseRefusal where
  | idempotencyKeyReused (boundMolecule : MoleculeId)
  | unleasedPilotGesture (why : String)
  | alreadyCompleted
  | alreadyCollapsed (byKey : Option IdempotencyKey)
  | approvalExpired (notAfter : Instant)
  | unexpectedStatus (actual : MoleculeStatus)
  | staleRevision (actual : MoleculeRevision)
deriving DecidableEq

def CollapseRefusal.kind : CollapseRefusal → CollapseOutcomeKind
  | .idempotencyKeyReused _ => .idempotencyKeyReused
  | .unleasedPilotGesture _ => .unleasedPilotGesture
  | .alreadyCompleted => .alreadyCompleted
  | .alreadyCollapsed _ => .alreadyCollapsed
  | .approvalExpired _ => .approvalExpired
  | .unexpectedStatus _ => .unexpectedStatus
  | .staleRevision _ => .staleRevision

theorem kind_not_success (refusal : CollapseRefusal) : refusal.kind.isSuccess = false := by
  cases refusal <;> rfl

inductive CollapseDecision where
  | refuse (refusal : CollapseRefusal)
  | replay (receipt : CollapseReceipt) (finalize : Bool)
  | admitted (reserve : Bool)
deriving DecidableEq

structure DecisionInput where
  target : MoleculeId
  condition : CollapseCondition
  digest : RequestDigest
  keyRecord : Option CollapseKeyRecord
  status : MoleculeStatus
  revision : MoleculeRevision
  stateReceipt : Option CollapseReceipt
  leaseRefusal : Option String
  now : Instant

def DecisionInput.stateReceiptForKey (input : DecisionInput) : Option CollapseReceipt :=
  input.stateReceipt.filter (fun r => r.key = input.condition.key)

def DecisionInput.reused (input : DecisionInput) : Option CollapseRefusal :=
  match input.keyRecord.filter (fun r => r.molecule ≠ input.target ∨ r.digest ≠ input.digest) with
  | some record => some (.idempotencyKeyReused record.molecule)
  | none =>
    (input.stateReceiptForKey.filter (fun r => r.digest ≠ input.digest)).map
      fun r => .idempotencyKeyReused r.molecule

/-- The receipt to give back, and whether the key's record still has to be
marked committed. -/
def DecisionInput.replayed (input : DecisionInput) : Option (CollapseReceipt × Bool) :=
  match input.stateReceiptForKey with
  | some receipt => some (receipt, input.keyRecord.all (fun r => r.phase ≠ .committed))
  | none =>
    match input.keyRecord with
    | some record => if record.phase = .committed then record.receipt.map (·, false) else none
    | none => none

def DecisionInput.precondition (input : DecisionInput) : Option CollapseRefusal :=
  match input.leaseRefusal with
  | some why => some (.unleasedPilotGesture why)
  | none =>
    if input.status = .completed then some .alreadyCompleted
    else if input.status = .collapsed then
      some (.alreadyCollapsed (input.stateReceipt.map CollapseReceipt.key))
    else
      match input.condition.notAfter.filter (fun notAfter => notAfter < input.now) with
      | some notAfter => some (.approvalExpired notAfter)
      | none =>
        if input.status ≠ input.condition.expectStatus.status then
          some (.unexpectedStatus input.status)
        else if input.revision ≠ input.condition.expectRevision then
          some (.staleRevision input.revision)
        else none

def decide (input : DecisionInput) : CollapseDecision :=
  match input.reused with
  | some refusal => .refuse refusal
  | none =>
    match input.replayed with
    | some (receipt, finalize) => .replay receipt finalize
    | none =>
      match input.precondition with
      | some refusal => .refuse refusal
      | none => .admitted input.keyRecord.isNone

/-- The record read for the key, if there is one, is this request's. -/
def DecisionInput.RecordAgrees (input : DecisionInput) : Prop :=
  ∀ record, input.keyRecord = some record →
    record.molecule = input.target ∧ record.digest = input.digest

theorem recordAgrees_of_reused {input : DecisionInput} (h : input.reused = none) :
    input.RecordAgrees := by
  intro record hrecord
  simp only [DecisionInput.reused, hrecord, Option.filter_some] at h
  by_contra hne
  rw [not_and_or] at hne
  simp [hne] at h

theorem stateReceiptForKey_some {input : DecisionInput} {receipt : CollapseReceipt}
    (h : input.stateReceiptForKey = some receipt) :
    input.stateReceipt = some receipt ∧ receipt.key = input.condition.key := by
  simpa [DecisionInput.stateReceiptForKey, Option.filter_eq_some_iff] using h

theorem filter_of_recordAgrees {input : DecisionInput} (h : input.RecordAgrees) :
    input.keyRecord.filter (fun r => r.molecule ≠ input.target ∨ r.digest ≠ input.digest) = none := by
  cases hrecord : input.keyRecord with
  | none => rfl
  | some record => simp [h record hrecord]

theorem digest_of_reused {input : DecisionInput} {receipt : CollapseReceipt}
    (h : input.reused = none) (hr : input.stateReceiptForKey = some receipt) :
    receipt.digest = input.digest := by
  simp only [DecisionInput.reused, filter_of_recordAgrees (recordAgrees_of_reused h), hr] at h
  by_contra hne
  simp [hne] at h

theorem precondition_none {input : DecisionInput} (h : input.precondition = none) :
    input.status ≠ .collapsed ∧ input.status = input.condition.expectStatus.status ∧
      input.revision = input.condition.expectRevision := by
  simp only [DecisionInput.precondition] at h
  split at h
  · cases h
  · split at h
    · cases h
    · split at h
      · cases h
      · rename_i hcollapsed
        split at h
        · cases h
        · split at h
          · cases h
          · rename_i hstatus
            split at h
            · cases h
            · rename_i hrevision
              exact ⟨hcollapsed, not_ne_iff.mp hstatus, not_ne_iff.mp hrevision⟩

theorem decide_admitted {input : DecisionInput} {reserve : Bool}
    (h : decide input = .admitted reserve) :
    input.RecordAgrees ∧ input.replayed = none ∧ input.status ≠ .collapsed ∧
      input.status = input.condition.expectStatus.status ∧
      input.revision = input.condition.expectRevision ∧ reserve = input.keyRecord.isNone := by
  simp only [decide] at h
  split at h
  · cases h
  · rename_i hreused
    split at h
    · cases h
    · rename_i hreplayed
      split at h
      · cases h
      · rename_i hpre
        obtain ⟨hcollapsed, hstatus, hrevision⟩ := precondition_none hpre
        cases h
        exact ⟨recordAgrees_of_reused hreused, hreplayed, hcollapsed, hstatus, hrevision, rfl⟩

/-- Where the receipt of a replay comes from: the state, or else the record of
the key, which is then committed. -/
theorem decide_replay {input : DecisionInput} {receipt : CollapseReceipt} {finalize : Bool}
    (h : decide input = .replay receipt finalize) :
    input.RecordAgrees ∧
      ((input.stateReceipt = some receipt ∧ receipt.key = input.condition.key ∧
          receipt.digest = input.digest ∧
          finalize = input.keyRecord.all (fun r => r.phase ≠ .committed)) ∨
        (finalize = false ∧
          ∃ record, input.keyRecord = some record ∧ record.phase = .committed ∧
            record.receipt = some receipt)) := by
  simp only [decide] at h
  split at h
  · cases h
  · rename_i hreused
    refine ⟨recordAgrees_of_reused hreused, ?_⟩
    split at h
    · rename_i r f hreplayed
      cases h
      simp only [DecisionInput.replayed] at hreplayed
      split at hreplayed
      · rename_i r hr
        cases hreplayed
        obtain ⟨hstate, hkey⟩ := stateReceiptForKey_some hr
        exact .inl ⟨hstate, hkey, digest_of_reused hreused hr, rfl⟩
      · split at hreplayed
        · rename_i record hrecord
          split at hreplayed
          · rename_i hphase
            obtain ⟨r, hr, heq⟩ := Option.map_eq_some_iff.mp hreplayed
            cases heq
            exact .inr ⟨rfl, record, hrecord, hphase, hr⟩
          · cases hreplayed
        · cases hreplayed
    · split at h <;> cases h

theorem decide_of_stateReceipt {input : DecisionInput} {receipt : CollapseReceipt}
    (hagrees : input.RecordAgrees) (hstate : input.stateReceipt = some receipt)
    (hkey : receipt.key = input.condition.key) (hdigest : receipt.digest = input.digest) :
    ∃ finalize, decide input = .replay receipt finalize := by
  have hforKey : input.stateReceiptForKey = some receipt := by
    simp [DecisionInput.stateReceiptForKey, hstate, hkey]
  have hreused : input.reused = none := by
    simp only [DecisionInput.reused, filter_of_recordAgrees hagrees, hforKey]
    simp [hdigest]
  exact ⟨_, by simp only [decide, hreused, DecisionInput.replayed, hforKey]; rfl⟩

/-- A record that is still to be committed is admitted under or replayed with
`finalize`; a committed one is neither. -/
theorem not_committed_of_admitted {input : DecisionInput} {record : CollapseKeyRecord}
    (h : input.replayed = none) (hrecord : input.keyRecord = some record)
    (hphase : record.phase = .committed) : record.receipt = none := by
  simp only [DecisionInput.replayed, hrecord, hphase] at h
  split at h
  · cases h
  · simpa using h

inductive ReceiptLookup where
  | committed (receipt : CollapseReceipt)
  | reservedNotApplied (digest : RequestDigest)
  | inconsistent (detail : String)
  | boundElsewhere
  | unknown
deriving DecidableEq

/-- Classify a lookup from what was read. The state's rename is the commit
point: a receipt in the state reads as committed whatever the record's phase. -/
def classifyLookup (target : MoleculeId) (key : IdempotencyKey)
    (keyRecord : Option CollapseKeyRecord) (status : MoleculeStatus)
    (stateReceipt : Option CollapseReceipt) : ReceiptLookup :=
  if keyRecord.any (fun r => r.molecule ≠ target) then .boundElsewhere
  else
    match keyRecord, stateReceipt.filter (fun r => r.key = key) with
    | none, none => .unknown
    | record, some receipt =>
      if status ≠ .collapsed then
        .inconsistent ("state carries the receipt but its status is " ++ status.asStr)
      else if record.any (fun r => r.digest ≠ receipt.digest) then
        .inconsistent "key record and state receipt name different digests"
      else if record.any (fun r => r.receipt.any (fun stored => stored ≠ receipt)) then
        .inconsistent "key record and state carry different receipts"
      else .committed receipt
    | some record, none =>
      match record.phase with
      | .reserved => .reservedNotApplied record.digest
      | .committed => .inconsistent ("key record is committed but the state of " ++ target ++
          " does not carry its receipt (status " ++ status.asStr ++ ")")

end Cosmon.Core.CollapseContract
