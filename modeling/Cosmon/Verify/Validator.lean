import Cosmon.Lib.Text
import Cosmon.State.Molecule
import Mathlib.Logic.Function.Basic

namespace Cosmon.Verify

open Cosmon.Lib.Text Cosmon.State.Molecule

inductive ScopedKind where
  | moleculeStuck
  | expired
  | gateStarted
  | gateCompleted
  | gateFailed
  | nativeStarted
  | nativeCompleted
  | nativeFailed
  | resurrected
deriving DecidableEq

inductive TraceEvent where
  | moleculeNucleated (moleculeId : MoleculeId) (formulaId : String)
  | moleculeStatusChanged (moleculeId : MoleculeId) (source target : String)
  | moleculeStepCompleted (moleculeId : MoleculeId) (step total : Nat)
  | moleculeCompleted (moleculeId : MoleculeId)
  | moleculeCollapsed (moleculeId : MoleculeId)
  | ofMolecule (kind : ScopedKind) (moleculeId : MoleculeId)
  | workerSpawned (workerId : WorkerId)
  | workerKilled (workerId : WorkerId)
  | mergeDispatched (molecule : MoleculeId) (branch : String)
  | mergeCompleted (molecule : MoleculeId) (branch result : String)
  | decaySpliced (parent : MoleculeId) (children : List MoleculeId)
  | observed (name : String)
deriving DecidableEq

structure Envelope where
  seq : Nat
  event : TraceEvent
deriving DecidableEq

structure MoleculeTraceState where
  status : MoleculeStatus
  lastStep : Option Nat := none
  totalSteps : Option Nat := none
  formulaId : String
deriving DecidableEq

structure WorkerTraceState where
  alive : Bool
deriving DecidableEq

structure SchedulerState where
  molecules : MoleculeId → Option MoleculeTraceState := fun _ => none
  /-- The number of keys of `molecules`. -/
  moleculeCount : Nat := 0
  workers : WorkerId → Option WorkerTraceState := fun _ => none
  pendingMerges : MoleculeId → Option String := fun _ => none
  completedMerges : MoleculeId → Option String := fun _ => none
  eventsSeen : Nat := 0

def SchedulerState.new : SchedulerState := {}

variable (s : SchedulerState)

def SchedulerState.statusOf (id : MoleculeId) : Option MoleculeStatus :=
  (s.molecules id).map MoleculeTraceState.status

def isTerminal (status : MoleculeStatus) : Bool := status = .completed ∨ status = .collapsed

def canTransitionTo : MoleculeStatus → MoleculeStatus → Bool
  | .frozen, .running | .starved, .running => true
  | .pending, .collapsed | .running, .collapsed | .starved, .collapsed => true
  | .running, .completed | .running, .frozen | .running, .starved => true
  | _, _ => false

inductive Complaint where
  | unknownMolecule (id : MoleculeId)
  | unparseableFrom (source : String) (id : MoleculeId)
  | unparseableTo (target : String) (id : MoleculeId)
  | otherStatus (id : MoleculeId) (source current : MoleculeStatus)
  | illegalTransition (id : MoleculeId) (source target : MoleculeStatus)
  | alreadyTerminal (id : MoleculeId) (status : MoleculeStatus) (kind : String)
  | stepBelow (id : MoleculeId) (step prev : Nat)
  | stepOutOfRange (id : MoleculeId) (step total : Nat)
  | totalChanged (id : MoleculeId) (prev total : Nat)
  | unknownWorker (worker : WorkerId)
  | otherBranch (molecule : MoleculeId) (branch pending : String)
  | noDispatch (molecule : MoleculeId)
deriving DecidableEq

/-- The text of a complaint; `debug` quotes a string. -/
def Complaint.message (debug : String → String) : Complaint → String
  | .unknownMolecule id => "event references unknown molecule " ++ id
  | .unparseableFrom source id => "unparseable 'from' status " ++ debug source ++ " on " ++ id
  | .unparseableTo target id => "unparseable 'to' status " ++ debug target ++ " on " ++ id
  | .otherStatus id source current =>
    id ++ " status_changed says from=" ++ source.asStr ++ " but recorded state is " ++ current.asStr
  | .illegalTransition id source target =>
    id ++ " illegal transition " ++ source.asStr ++ " → " ++ target.asStr
  | .alreadyTerminal id status kind => id ++ " is already " ++ status.asStr ++ ", rejecting " ++ kind
  | .stepBelow id step prev =>
    id ++ " step " ++ step.repr ++ " is below last observed step " ++ prev.repr
  | .stepOutOfRange id step total => id ++ " step " ++ step.repr ++ " ≥ total " ++ total.repr
  | .totalChanged id prev total => id ++ " total changed from " ++ prev.repr ++ " to " ++ total.repr
  | .unknownWorker worker => "worker_killed for unknown worker " ++ worker
  | .otherBranch molecule branch pending =>
    "merge_completed on " ++ molecule ++ " branch " ++ debug branch ++
      " does not match pending dispatch " ++ debug pending
  | .noDispatch molecule => "merge_completed on " ++ molecule ++ " with no prior merge_dispatched"

structure Violation where
  invariant : String
  seq : Option Nat
  line : Nat
  message : String
deriving DecidableEq

structure Invariant where
  id : String
  description : String
  check : SchedulerState → TraceEvent → Except Complaint Unit

def TraceEvent.referenced : TraceEvent → Option MoleculeId
  | .moleculeStatusChanged id _ _ | .moleculeStepCompleted id _ _ | .moleculeCompleted id
  | .moleculeCollapsed id | .ofMolecule _ id | .mergeDispatched id _ | .mergeCompleted id _ _
  | .decaySpliced id _ => some id
  | .moleculeNucleated _ _ | .workerSpawned _ | .workerKilled _ | .observed _ => none

def moleculeExistsBeforeUse : Invariant where
  id := "molecule_exists_before_use"
  description := "every event that names a molecule_id must be preceded by a molecule_nucleated for that id"
  check s event :=
    match event.referenced with
    | none => .ok ()
    | some id => if (s.molecules id).isNone then .error (.unknownMolecule id) else .ok ()

def allowed (source target : MoleculeStatus) : Bool :=
  canTransitionTo source target ||
    match source, target with
    | .pending, .queued | .pending, .pending | .pending, .running => true
    | .queued, .running | .queued, .pending => true
    | _, _ => false

def statusTransitionLegal : Invariant where
  id := "status_transition_legal"
  description :=
    "molecule_status_changed.from must equal the current status and to must be a legal successor"
  check s
    | .moleculeStatusChanged id source target =>
      match s.statusOf id with
      | none => .ok ()
      | some current =>
        match MoleculeStatus.fromStr source with
        | none => .error (.unparseableFrom source id)
        | some parsedFrom =>
          match MoleculeStatus.fromStr target with
          | none => .error (.unparseableTo target id)
          | some parsedTo =>
            if parsedFrom ≠ current then .error (.otherStatus id parsedFrom current)
            else if allowed parsedFrom parsedTo then .ok ()
            else .error (.illegalTransition id parsedFrom parsedTo)
    | _ => .ok ()

def TraceEvent.lifecycle : TraceEvent → Option (MoleculeId × String)
  | .moleculeStepCompleted id _ _ => some (id, "molecule_step_completed")
  | .moleculeCompleted id => some (id, "molecule_completed")
  | .moleculeCollapsed id => some (id, "molecule_collapsed")
  | .moleculeStatusChanged id _ _ => some (id, "molecule_status_changed")
  | _ => none

def noEventsAfterTerminal : Invariant where
  id := "no_events_after_terminal"
  description :=
    "after molecule_completed or molecule_collapsed, no further lifecycle events may reference the molecule"
  check s event :=
    match event.lifecycle with
    | none => .ok ()
    | some (id, kind) =>
      match s.statusOf id with
      | none => .ok ()
      | some status =>
        if isTerminal status then .error (.alreadyTerminal id status kind) else .ok ()

def stepMonotone : Invariant where
  id := "step_monotone"
  description := "consecutive molecule_step_completed events must have non-decreasing step indices"
  check s
    | .moleculeStepCompleted id step _ =>
      match (s.molecules id).bind MoleculeTraceState.lastStep with
      | none => .ok ()
      | some prev => if step < prev then .error (.stepBelow id step prev) else .ok ()
    | _ => .ok ()

def stepWithinTotal : Invariant where
  id := "step_within_total"
  description := "molecule_step_completed.step must be < total and total must not change across events"
  check s
    | .moleculeStepCompleted id step total =>
      if total ≤ step then .error (.stepOutOfRange id step total)
      else
        match (s.molecules id).bind MoleculeTraceState.totalSteps with
        | none => .ok ()
        | some prev => if prev ≠ total then .error (.totalChanged id prev total) else .ok ()
    | _ => .ok ()

def workerSpawnedBeforeKilled : Invariant where
  id := "worker_spawned_before_killed"
  description := "worker_killed must follow a prior worker_spawned for the same worker_id"
  check s
    | .workerKilled worker => if (s.workers worker).isNone then .error (.unknownWorker worker) else .ok ()
    | _ => .ok ()

def mergeCompletionPairsDispatch : Invariant where
  id := "merge_completion_pairs_dispatch"
  description := "merge_completed must follow a prior merge_dispatched with the same molecule and branch"
  check s
    | .mergeCompleted molecule branch _ =>
      match s.pendingMerges molecule with
      | none => .error (.noDispatch molecule)
      | some pending => if pending = branch then .ok () else .error (.otherBranch molecule branch pending)
    | _ => .ok ()

def baselineInvariants : List Invariant :=
  [moleculeExistsBeforeUse, statusTransitionLegal, noEventsAfterTerminal, stepMonotone, stepWithinTotal,
    workerSpawnedBeforeKilled, mergeCompletionPairsDispatch]

def SchedulerState.orInsert (id : MoleculeId) (formulaId : String) : SchedulerState :=
  match s.molecules id with
  | some _ => s
  | none =>
    { s with
      molecules := Function.update s.molecules id (some { status := .pending, formulaId })
      moleculeCount := s.moleculeCount + 1 }

def SchedulerState.amend (id : MoleculeId) (f : MoleculeTraceState → MoleculeTraceState) : SchedulerState :=
  { s with molecules := Function.update s.molecules id ((s.molecules id).map f) }

def SchedulerState.project (s : SchedulerState) : TraceEvent → SchedulerState
  | .moleculeNucleated id formulaId => s.orInsert id formulaId
  | .moleculeStatusChanged id _ target =>
    match MoleculeStatus.fromStr target with
    | none => s
    | some parsed => s.amend id fun m => { m with status := parsed }
  | .moleculeStepCompleted id step total =>
    s.amend id fun m => { m with lastStep := some step, totalSteps := some total }
  | .moleculeCompleted id => s.amend id fun m => { m with status := .completed }
  | .moleculeCollapsed id => s.amend id fun m => { m with status := .collapsed }
  | .workerSpawned worker =>
    { s with workers := Function.update s.workers worker (some ((s.workers worker).getD ⟨true⟩)) }
  | .workerKilled worker =>
    { s with
      workers := Function.update s.workers worker ((s.workers worker).map fun w => { w with alive := false }) }
  | .mergeDispatched molecule branch =>
    { s with pendingMerges := Function.update s.pendingMerges molecule (some branch) }
  | .mergeCompleted molecule _ result =>
    { s with
      pendingMerges := Function.update s.pendingMerges molecule none
      completedMerges := Function.update s.completedMerges molecule (some result) }
  | .decaySpliced _ children => children.foldl (fun s child => s.orInsert child "") s
  | .ofMolecule _ _ | .observed _ => s

def SchedulerState.apply (event : TraceEvent) : SchedulerState :=
  { s with eventsSeen := s.eventsSeen + 1 }.project event

structure TraceValidator where
  invariants : List Invariant
  skipUnknown : Bool := false
  /-- How a string is quoted in a message. -/
  debug : String → String

inductive ValidationOutcome where
  | ok (eventsReplayed moleculesSeen skippedUnknown : Nat)
  | violation (eventsReplayedBefore : Nat) (violation : Violation)
deriving DecidableEq

def ValidationOutcome.isOk : ValidationOutcome → Bool
  | .ok _ _ _ => true
  | .violation _ _ => false

inductive ValidationError (ε : Type) where
  | parse (line : Nat) (source : ε)
deriving DecidableEq

variable {ε : Type}

def firstComplaint (invariants : List Invariant) (event : TraceEvent) : Option (Invariant × Complaint) :=
  invariants.findSome? fun inv =>
    match inv.check s event with
    | .ok _ => none
    | .error complaint => some (inv, complaint)

def TraceValidator.checkAll (v : TraceValidator) (envelope : Envelope) (line : Nat) : Except Violation Unit :=
  match firstComplaint s v.invariants envelope.event with
  | none => .ok ()
  | some (inv, complaint) => .error ⟨inv.id, some envelope.seq, line, complaint.message v.debug⟩

def trimmed (raw : String) : String := String.ofList (trim raw.toList)

/-- The replay of the lines of a trace, from the one after `lineNo` on. -/
def TraceValidator.replay (v : TraceValidator) (fromLine : String → Except ε Envelope)
    (s : SchedulerState) (lineNo replayed skippedUnknown : Nat) :
    List String → Except (ValidationError ε) ValidationOutcome
  | [] => .ok (.ok replayed s.moleculeCount skippedUnknown)
  | raw :: rest =>
    if trimmed raw = "" then v.replay fromLine s (lineNo + 1) replayed skippedUnknown rest
    else
      match fromLine (trimmed raw) with
      | .error source =>
        if v.skipUnknown then v.replay fromLine s (lineNo + 1) replayed (skippedUnknown + 1) rest
        else .error (.parse (lineNo + 1) source)
      | .ok envelope =>
        match v.checkAll s envelope (lineNo + 1) with
        | .error violation => .ok (.violation replayed violation)
        | .ok _ =>
          v.replay fromLine (s.apply envelope.event) (lineNo + 1) (replayed + 1) skippedUnknown rest

def TraceValidator.validateStr (v : TraceValidator) (fromLine : String → Except ε Envelope)
    (lines : List String) : Except (ValidationError ε) ValidationOutcome :=
  v.replay fromLine .new 0 0 0 lines

def Legal (s : SchedulerState) : TraceEvent → Prop
  | .moleculeStatusChanged id source target =>
    ∃ m parsed, s.molecules id = some m ∧ MoleculeStatus.fromStr source = some m.status ∧
      MoleculeStatus.fromStr target = some parsed ∧ allowed m.status parsed = true ∧
      isTerminal m.status = false
  | .moleculeStepCompleted id step total =>
    ∃ m, s.molecules id = some m ∧ isTerminal m.status = false ∧
      (∀ prev, m.lastStep = some prev → prev ≤ step) ∧ step < total ∧
      ∀ prev, m.totalSteps = some prev → prev = total
  | .moleculeCompleted id | .moleculeCollapsed id =>
    ∃ m, s.molecules id = some m ∧ isTerminal m.status = false
  | .ofMolecule _ id | .mergeDispatched id _ | .decaySpliced id _ => (s.molecules id).isSome = true
  | .mergeCompleted id branch _ => (s.molecules id).isSome = true ∧ s.pendingMerges id = some branch
  | .workerKilled worker => (s.workers worker).isSome = true
  | .moleculeNucleated _ _ | .workerSpawned _ | .observed _ => True

theorem firstComplaint_none {invariants : List Invariant} {event : TraceEvent} :
    firstComplaint s invariants event = none ↔ ∀ inv ∈ invariants, inv.check s event = .ok () := by
  rw [firstComplaint, List.findSome?_eq_none_iff]
  apply forall₂_congr
  intro inv _
  cases inv.check s event with
  | error complaint => simp
  | ok done => simp

theorem baseline_accepts {event : TraceEvent} :
    firstComplaint s baselineInvariants event = none ↔ Legal s event := by
  rw [firstComplaint_none]
  simp only [baselineInvariants, List.forall_mem_cons, List.not_mem_nil, IsEmpty.forall_iff, implies_true,
    and_true, moleculeExistsBeforeUse, statusTransitionLegal, noEventsAfterTerminal, stepMonotone,
    stepWithinTotal, workerSpawnedBeforeKilled, mergeCompletionPairsDispatch, SchedulerState.statusOf]
  cases event with
  | moleculeStatusChanged id source target =>
    cases hm : s.molecules id with
    | none => simp [TraceEvent.referenced, TraceEvent.lifecycle, Legal, hm]
    | some m =>
      cases hsource : MoleculeStatus.fromStr source with
      | none => simp [TraceEvent.referenced, TraceEvent.lifecycle, Legal, hm, hsource]
      | some parsedFrom =>
        cases htarget : MoleculeStatus.fromStr target with
        | none => simp [TraceEvent.referenced, TraceEvent.lifecycle, Legal, hm, hsource, htarget]
        | some parsedTo =>
          by_cases hsame : parsedFrom = m.status
          · simp [TraceEvent.referenced, TraceEvent.lifecycle, Legal, hm, hsource, htarget, hsame]
          · simp [TraceEvent.referenced, TraceEvent.lifecycle, Legal, hm, hsource, htarget, hsame]
  | moleculeStepCompleted id step total =>
    cases hm : s.molecules id with
    | none => simp [TraceEvent.referenced, TraceEvent.lifecycle, Legal, hm]
    | some m => 
      simp [TraceEvent.referenced, TraceEvent.lifecycle, Legal, hm]
      intro _
      apply and_congr
      · cases m.lastStep with
        | none => simp
        | some prev => simp
      · by_cases hlt : total ≤ step
        · simp [hlt, Nat.not_lt.mpr hlt]
        · cases m.totalSteps with
          | none => simp [hlt, Nat.lt_of_not_le hlt]
          | some prev => simp [hlt, Nat.lt_of_not_le hlt]
  | moleculeCompleted id | moleculeCollapsed id | ofMolecule kind id | mergeDispatched id branch
  | decaySpliced id children =>
    cases hm : s.molecules id <;> simp [TraceEvent.referenced, TraceEvent.lifecycle, Legal, hm]
  | mergeCompleted id branch result =>
    cases hm : s.molecules id
    all_goals
      cases hp : s.pendingMerges id <;> simp [TraceEvent.referenced, TraceEvent.lifecycle, Legal, hm, hp]
  | workerKilled worker =>
    cases hw : s.workers worker <;> simp [TraceEvent.referenced, TraceEvent.lifecycle, Legal, hw]
  | moleculeNucleated id formulaId => simp [TraceEvent.referenced, TraceEvent.lifecycle, Legal]
  | workerSpawned worker => simp [TraceEvent.referenced, TraceEvent.lifecycle, Legal]
  | observed name => simp [TraceEvent.referenced, TraceEvent.lifecycle, Legal]

def Certified (s : SchedulerState) : List TraceEvent → Prop
  | [] => True
  | event :: rest => Legal s event ∧ Certified (s.apply event) rest

def SchedulerState.after (events : List TraceEvent) : SchedulerState := events.foldl .apply s

theorem certified_append (first second : List TraceEvent) :
    Certified s (first ++ second) ↔ Certified s first ∧ Certified (s.after first) second := by
  induction first generalizing s with
  | nil => simp [Certified, SchedulerState.after]
  | cons event rest ih =>
    rw [List.cons_append, Certified, Certified, ih, and_assoc]
    rfl

def Reads (fromLine : String → Except ε Envelope) (lines : List String) (envelopes : List Envelope) : Prop :=
  (lines.filter fun raw => trimmed raw ≠ "").map (fun raw => fromLine (trimmed raw)) = envelopes.map .ok

theorem replay_isOk {v : TraceValidator} (hv : v.invariants = baselineInvariants)
    {fromLine : String → Except ε Envelope} {lines : List String} {envelopes : List Envelope}
    (hread : Reads fromLine lines envelopes) (lineNo replayed skipped : Nat) :
    (∃ outcome, v.replay fromLine s lineNo replayed skipped lines = .ok outcome ∧ outcome.isOk = true) ↔
      Certified s (envelopes.map Envelope.event) := by
  induction lines generalizing s envelopes lineNo replayed with
  | nil =>
    obtain rfl : envelopes = [] := by simpa [Reads] using hread.symm
    exact iff_of_true ⟨_, rfl, rfl⟩ trivial
  | cons raw rest ih =>
    by_cases hblank : trimmed raw = ""
    · rw [TraceValidator.replay, if_pos hblank]
      apply ih
      simpa [Reads, hblank] using hread
    · cases envelopes with
      | nil => simp [Reads, hblank] at hread
      | cons envelope envelopes =>
        have hlines : fromLine (trimmed raw) = .ok envelope ∧ Reads fromLine rest envelopes := by
          simpa [Reads, hblank] using hread
        rw [TraceValidator.replay, if_neg hblank, hlines.1]
        simp only [TraceValidator.checkAll, hv, List.map_cons, Certified]
        cases hfirst : firstComplaint s baselineInvariants envelope.event with
        | none =>
          rw [and_iff_right ((baseline_accepts s).mp hfirst)]
          exact ih _ hlines.2 _ _
        | some found =>
          have hnot : ¬Legal s envelope.event := by
            rw [← baseline_accepts, hfirst]
            exact Option.some_ne_none found
          simp [hnot, ValidationOutcome.isOk]

theorem validateStr_isOk {v : TraceValidator} (hv : v.invariants = baselineInvariants)
    {fromLine : String → Except ε Envelope} {lines : List String} {envelopes : List Envelope}
    (hread : Reads fromLine lines envelopes) :
    (∃ outcome, v.validateStr fromLine lines = .ok outcome ∧ outcome.isOk = true) ↔
      Certified .new (envelopes.map Envelope.event) :=
  replay_isOk .new hv hread 0 0 0

end Cosmon.Verify
