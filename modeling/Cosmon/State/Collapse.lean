import Cosmon.Filestore.Layout

namespace Cosmon.State.Collapse

open Cosmon.Core Cosmon.State.Molecule Cosmon.Core.CollapseContract Cosmon.Filestore.Layout

inductive CollapseError where
  | moleculeNotFound (id : MoleculeId)
  | invalidCause (raw : String)
  | mismatchedAccountKind (cause : String)
  | alreadyCompleted (id : MoleculeId)
  | storeUnavailable (message : String)
deriving DecidableEq

def CollapseError.fromCosmon (id : MoleculeId) : CosmonError → CollapseError
  | .moleculeNotFound _ => .moleculeNotFound id
  | .stateStore reason => .storeUnavailable (CosmonError.stateStore reason).toString
  | .other message => .storeUnavailable (CosmonError.other message).toString

structure CollapseRequest where
  reason : String
  cause : Option String := none
  account : Option String := none
  kind : Option String := none
  reasonKind : Option CollapseReason := none
deriving DecidableEq

def collapseCauseFromStr (s : String) : Option CollapseCause :=
  if s = "rate_limit" ∨ s = "ratelimit" then some (.rateLimit none none)
  else if s = "inference_stall" ∨ s = "inferencestall" then some .inferenceStall
  else if s = "manual" then some .manual
  else if s = "process_death" ∨ s = "processdeath" then some .processDeath
  else if s = "unknown" then some .unknown
  else none

def collapseReasonAsStr : CollapseReason → String
  | .workerCrashed => "worker_crashed"
  | .gateFailed => "gate_failed"
  | .blockerStuck => "blocker_stuck"
  | .manualAbort => "manual_abort"
  | .resourceExhausted => "resource_exhausted"
  | .agentLoopFailed => "agent_loop_failed"
  | .other text => text

def parseCause (request : CollapseRequest) : Except CollapseError (Option CollapseCause) :=
  match request.cause with
  | none =>
    if request.account.isSome || request.kind.isSome then .error (.mismatchedAccountKind "<absent>")
    else .ok none
  | some raw =>
    match collapseCauseFromStr raw with
    | none => .error (.invalidCause raw)
    | some (.rateLimit _ _) => .ok (some (.rateLimit request.account request.kind))
    | some cause =>
      if request.account.isSome || request.kind.isSome then .error (.mismatchedAccountKind raw)
      else .ok (some cause)

/-- A molecule frozen by `cs stuck`, which left its marker. -/
def previousWasStuck (status : MoleculeStatus) (mol : MoleculeData) : Bool :=
  status = .frozen && mol.stuckAt.isSome

/-- The collapsed form of `mol`. A live process record is cleared with it. -/
def collapsedRecord (mol : MoleculeData) (request : CollapseRequest) (cause : Option CollapseCause)
    (receipt : Option CollapseReceipt) (now : Instant) : MoleculeData :=
  let released := if mol.process.isSome then mol.releaseProcess now else mol
  { released with
    status := .collapsed
    collapseReason := some request.reason
    collapseCause := cause
    collapseReasonKind := request.reasonKind
    collapsedStep := some mol.currentStep
    updatedAt := now
    collapseReceipt := receipt }

structure Call where
  id : MoleculeId
  caller : CallerContext
  request : CollapseRequest
  cause : Option CollapseCause
  condition : CollapseCondition
  parsed : parseCause request = .ok cause

def Call.key (c : Call) : IdempotencyKey := c.condition.key

def Call.intent (c : Call) : CollapseIntentV1 where
  target := c.id
  reason := c.request.reason
  cause := c.request.cause
  account := c.request.account
  kind := c.request.kind
  reasonKind := c.request.reasonKind.map collapseReasonAsStr
  expectedStatus := c.condition.expectStatus.asStr
  expectedRevision := c.condition.expectRevision
  actor := c.caller.actor
  approvalDigest := c.condition.approvalDigest
  notAfter := c.condition.notAfter

def Call.digest (env : Env) (c : Call) : RequestDigest := env.digestOf c.intent

def Call.reservation (env : Env) (c : Call) : CollapseKeyRecord :=
  .reserved c.key c.id (c.digest env)

structure KeyedCollapse where
  outcome : CollapseOutcomeKind
  digest : RequestDigest
  receipt : Option CollapseReceipt
  refusal : Option CollapseRefusal
  announced : Bool
  molecule : Option MoleculeData
  previousWasStuck : Bool
deriving DecidableEq

structure View where
  keyRecord : Option CollapseKeyRecord
  mol : MoleculeData
  revision : MoleculeRevision
  lease : Option String

def Call.decisionInput (env : Env) (c : Call) (view : View) (now : Instant) : DecisionInput where
  target := c.id
  condition := c.condition
  digest := c.digest env
  keyRecord := view.keyRecord
  status := view.mol.status
  revision := view.revision
  stateReceipt := view.mol.collapseReceipt
  leaseRefusal := view.lease
  now := now

def Call.receipt (env : Env) (c : Call) (view : View) (now : Instant) : CollapseReceipt where
  schema := receiptSchema
  key := c.key
  digest := c.digest env
  molecule := c.id
  previousStatus := view.mol.status
  previousRevision := view.revision
  committedAt := now

/-- The collapsed record a call saves at its commit point. -/
def Call.updated (env : Env) (c : Call) (view : View) (now : Instant) : MoleculeData :=
  collapsedRecord view.mol c.request c.cause (some (c.receipt env view now)) now

def Call.refused (env : Env) (c : Call) (view : View) (refusal : CollapseRefusal) : KeyedCollapse where
  outcome := refusal.kind
  digest := c.digest env
  receipt := none
  refusal := some refusal
  announced := false
  molecule := none
  previousWasStuck := previousWasStuck view.mol.status view.mol

def Call.replayed (env : Env) (c : Call) (view : View) (receipt : CollapseReceipt) (finalize : Bool) :
    KeyedCollapse where
  outcome := .replayed
  digest := c.digest env
  receipt := some receipt
  refusal := none
  announced := finalize
  molecule := none
  previousWasStuck := finalize && previousWasStuck receipt.previousStatus view.mol

def Call.transitioned (env : Env) (c : Call) (view : View) (updated : MoleculeData)
    (receipt : CollapseReceipt) : KeyedCollapse where
  outcome := .transitioned
  digest := c.digest env
  receipt := some receipt
  refusal := none
  announced := true
  molecule := some updated
  previousWasStuck := previousWasStuck view.mol.status view.mol

/-- Where a keyed call stands. In `queued` it waits for the dispatch lock in
directory `d`, from `locked` to `returning` it holds that lock; `second` marks
the second round of its loop.
`decided`, `reserved` and `stateSaved` are the stages a crash test names. -/
inductive CallState where
  | idle
  | waiting (c : Call)
  | queued (c : Call) (d : Dir)
  | locked (c : Call) (d : Dir)
  | keyRead (c : Call) (d : Dir) (record : Option CollapseKeyRecord)
  | deciding (c : Call) (d : Dir) (view : View) (second : Bool)
  | decided (c : Call) (d : Dir) (view : View) (second : Bool) (now : Instant) (reserve : Bool)
  | outrun (c : Call) (d : Dir) (view : View) (second : Bool)
  | reserved (c : Call) (d : Dir) (view : View) (now : Instant)
  | stateSaved (c : Call) (d : Dir) (view : View) (updated : MoleculeData) (receipt : CollapseReceipt)
  | finalizing (c : Call) (d : Dir) (view : View) (receipt : CollapseReceipt)
  | returning (c : Call) (d : Dir) (result : Except CollapseError KeyedCollapse)
  | ended (c : Call) (result : Except CollapseError KeyedCollapse)
  | crashed (c : Call)

def CallState.call : CallState → Option Call
  | .idle => none
  | .waiting c => some c
  | .queued c _ => some c
  | .locked c _ => some c
  | .keyRead c _ _ => some c
  | .deciding c _ _ _ => some c
  | .decided c _ _ _ _ _ => some c
  | .outrun c _ _ _ => some c
  | .reserved c _ _ _ => some c
  | .stateSaved c _ _ _ _ => some c
  | .finalizing c _ _ _ => some c
  | .returning c _ _ => some c
  | .ended c _ => some c
  | .crashed c => some c

def CallState.holds : CallState → Option (Dir × MoleculeId)
  | .locked c d => some (d, c.id)
  | .keyRead c d _ => some (d, c.id)
  | .deciding c d _ _ => some (d, c.id)
  | .decided c d _ _ _ _ => some (d, c.id)
  | .outrun c d _ _ => some (d, c.id)
  | .reserved c d _ _ => some (d, c.id)
  | .stateSaved c d _ _ _ => some (d, c.id)
  | .finalizing c d _ _ => some (d, c.id)
  | .returning c d _ => some (d, c.id)
  | _ => none

/-- What a step takes from outside: the authority's answer and the clock. -/
structure Choice where
  lease : Except CosmonError (Option String) := .ok none
  now : Instant := 0

/-- The next step of a keyed call on the store, `free` telling which dispatch
locks nobody holds. -/
def CallState.next (env : Env) (s : FileStore) (free : Dir × MoleculeId → Bool) (choice : Choice) :
    CallState → CallState × FileStore
  | .idle => (.idle, s)
  | .waiting c =>
    match s.loadMolecule c.id with
    | .error e => (.ended c (.error (.fromCosmon c.id e)), s)
    | .ok _ => (.queued c (s.moleculeDir c.id), s)
  | .queued c d => if free (d, c.id) then (.locked c d, s) else (.queued c d, s)
  | .locked c d =>
    match s.readCollapseKey env c.key with
    | .error e => (.returning c d (.error (.fromCosmon c.id e)), s)
    | .ok record => (.keyRead c d record, s)
  | .keyRead c d record =>
    match s.loadMoleculeRevisioned env c.id with
    | .error e => (.returning c d (.error (.fromCosmon c.id e)), s)
    | .ok (mol, revision) =>
      match choice.lease with
      | .error e => (.returning c d (.error (.storeUnavailable e.toString)), s)
      | .ok lease =>
        (.deciding c d { keyRecord := record, mol := mol, revision := revision, lease := lease } false, s)
  | .deciding c d view second =>
    -- The clock is read here, in each round, after the lock and the reads.
    match CollapseContract.decide (c.decisionInput env view choice.now) with
    | .refuse refusal => (.returning c d (.ok (c.refused env view refusal)), s)
    | .replay receipt true => (.finalizing c d view receipt, s)
    | .replay receipt false => (.returning c d (.ok (c.replayed env view receipt false)), s)
    | .admitted reserve => (.decided c d view second choice.now reserve, s)
  | .decided c d view second now reserve =>
    if reserve then
      match s.reserveCollapseKey env (c.reservation env) with
      | (s', true) => (.reserved c d view now, s')
      | (s', false) => (.outrun c d view second, s')
    else (.reserved c d view now, s)
  | .outrun c d view second =>
    match s.readCollapseKey env c.key with
    | .error e => (.returning c d (.error (.fromCosmon c.id e)), s)
    | .ok record =>
      if second then
        (.returning c d (.error (.storeUnavailable ("collapse key record for " ++ c.id ++
          " changed twice during one decision"))), s)
      else (.deciding c d { view with keyRecord := record } true, s)
  | .reserved c d view now =>
    match s.saveMoleculeDurable env (c.updated env view now) with
    | .error e => (.returning c d (.error (.fromCosmon c.id e)), s)
    | .ok s' => (.stateSaved c d view (c.updated env view now) (c.receipt env view now), s')
  | .stateSaved c d view updated receipt =>
    (.returning c d (.ok (c.transitioned env view updated receipt)),
      s.commitCollapseKey env ((c.reservation env).committed receipt))
  | .finalizing c d view receipt =>
    (.returning c d (.ok (c.replayed env view receipt true)),
      s.commitCollapseKey env ((view.keyRecord.getD (c.reservation env)).committed receipt))
  | .returning c _ result => (.ended c result, s)
  | .ended c result => (.ended c result, s)
  | .crashed c => (.crashed c, s)

/-- A load-modify-save of another verb. None of them renames a molecule, moves
it to another fleet or invents a receipt. -/
structure Edit where
  apply : MoleculeData → MoleculeData
  id : ∀ m, (apply m).id = m.id
  fleet : ∀ m, (apply m).fleetId = m.fleetId
  receipt : ∀ m, (apply m).collapseReceipt = m.collapseReceipt ∨ (apply m).collapseReceipt = none

theorem collapsedRecord_id (mol : MoleculeData) (request : CollapseRequest)
    (cause : Option CollapseCause) (receipt : Option CollapseReceipt) (now : Instant) :
    (collapsedRecord mol request cause receipt now).id = mol.id ∧
      (collapsedRecord mol request cause receipt now).fleetId = mol.fleetId := by
  simp only [collapsedRecord]
  split <;> exact ⟨rfl, rfl⟩

def Edit.unconditional (request : CollapseRequest) (cause : Option CollapseCause) (now : Instant) :
    Edit where
  apply := fun mol => collapsedRecord mol request cause none now
  id := fun mol => (collapsedRecord_id mol request cause none now).1
  fleet := fun mol => (collapsedRecord_id mol request cause none now).2
  receipt := fun _ => .inr rfl

inductive LookupState where
  | idle
  | keyRead (id : MoleculeId) (key : IdempotencyKey) (record : Option CollapseKeyRecord)
  | answered (id : MoleculeId) (key : IdempotencyKey) (answer : Except CollapseError ReceiptLookup)
deriving DecidableEq

/-- The first read of `lookup_receipt`: the record of the key. -/
def lookupKey (env : Env) (s : FileStore) (id : MoleculeId) (key : IdempotencyKey) : LookupState :=
  match s.readCollapseKey env key with
  | .error e => .answered id key (.error (.fromCosmon id e))
  | .ok record => .keyRead id key record

/-- The second read of `lookup_receipt`: the state, and with it the answer. -/
def lookupState (s : FileStore) (id : MoleculeId) (key : IdempotencyKey)
    (record : Option CollapseKeyRecord) : LookupState :=
  match s.loadMolecule id with
  | .error e => .answered id key (.error (.fromCosmon id e))
  | .ok mol => .answered id key (.ok (classifyLookup id key record mol.status mol.collapseReceipt))

/-- What a commit point put in place of what. -/
structure Commit where
  call : Call
  receipt : CollapseReceipt
  replaced : Option MoleculeData

/-- The store, the dispatch locks, the keyed calls, the commit points they
passed, the records other writers have loaded, and the lookups. -/
structure World where
  store : FileStore
  locks : Dir × MoleculeId → Option Nat
  calls : Nat → CallState
  commits : Nat → Option Commit
  writers : Nat → Option MoleculeData
  lookups : Nat → LookupState

def World.start (s : FileStore) : World where
  store := s
  locks := fun _ => none
  calls := fun _ => .idle
  commits := fun _ => none
  writers := fun _ => none
  lookups := fun _ => .idle

/-- One step of somebody. A `crash` ends a call where it stands, as a kill or a
failing write does, and its lock goes with it. A `save` is lock-free; with
`checked` it is refused unless the state still has the revision loaded. -/
inductive Op where
  | call (p : Nat) (c : Call)
  | advance (p : Nat) (choice : Choice)
  | crash (p : Nat)
  | load (q : Nat) (id : MoleculeId)
  | save (q : Nat) (edit : Edit) (checked : Bool)
  | create (data : MoleculeData)
  | lookup (l : Nat) (id : MoleculeId) (key : IdempotencyKey)
  | answer (l : Nat)

/-- The locks after call `p` went from holding `before` to holding `after`. -/
def relock (locks : Dir × MoleculeId → Option Nat) (p : Nat) :
    Option (Dir × MoleculeId) → Option (Dir × MoleculeId) → Dir × MoleculeId → Option Nat
  | none, some l => Function.update locks l (some p)
  | some l, none => Function.update locks l none
  | _, _ => locks

/-- The commit point a call passes when it gets to `next`. -/
def CallState.commit (s : FileStore) : CallState → Option Commit
  | .stateSaved c _ _ updated receipt => some ⟨c, receipt, s.current updated.id⟩
  | _ => none

def World.become (w : World) (p : Nat) (next : CallState × FileStore) : World :=
  { w with
    store := next.2
    locks := relock w.locks p (w.calls p).holds next.1.holds
    calls := Function.update w.calls p next.1
    commits := Function.update w.commits p ((next.1.commit w.store).or (w.commits p)) }

def World.step (env : Env) (w : World) : Op → World
  | .call p c =>
    match w.calls p with
    | .idle => w.become p (.waiting c, w.store)
    | _ => w
  | .advance p choice =>
    w.become p ((w.calls p).next env w.store (fun l => (w.locks l).isNone) choice)
  | .crash p =>
    match w.calls p with
    | .ended _ _ => w
    | pc =>
      match pc.call with
      | none => w
      | some c => w.become p (.crashed c, w.store)
  | .load q id =>
    match w.store.loadMolecule id with
    | .error _ => w
    | .ok m => { w with writers := Function.update w.writers q (some m) }
  | .save q edit checked =>
    match w.writers q with
    | none => w
    | some m =>
      match (if checked then w.store.saveMoleculeIfRevision env (edit.apply m) (env.revisionOf m)
          else w.store.saveMolecule env (edit.apply m)) with
      | .error _ => w
      | .ok s => { w with store := s }
  | .create data =>
    if (w.store.current data.id).isSome then w
    else
      match w.store.saveMolecule env
          { data with fleetId := env.home data.id, collapseReceipt := none } with
      | .error _ => w
      | .ok s => { w with store := s }
  | .lookup l id key =>
    match w.lookups l with
    | .idle => { w with lookups := Function.update w.lookups l (lookupKey env w.store id key) }
    | _ => w
  | .answer l =>
    match w.lookups l with
    | .keyRead id key record =>
      { w with lookups := Function.update w.lookups l (lookupState w.store id key record) }
    | _ => w

end Cosmon.State.Collapse
