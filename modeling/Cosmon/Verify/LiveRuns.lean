import Cosmon.Runtime.DispatchLedger
import Cosmon.State.Projection
import Cosmon.Verify.Validator

namespace Cosmon.Verify

open Cosmon.State.Molecule Cosmon.Core.Formulas Cosmon.Core.Evolve Cosmon.State.Rebuild
open Cosmon.State.LiveOps Cosmon.State.Projection Cosmon.Runtime.DispatchLedger

/-- What the validator reads of an event that an operation of the store emits. The
operations here complete no merge. -/
def view : EventV2 → Option TraceEvent
  | .moleculeNucleated id formulaId _ _ => some (.moleculeNucleated id formulaId)
  | .moleculeStatusChanged id source target => some (.moleculeStatusChanged id source target)
  | .moleculeStepCompleted id step total _ => some (.moleculeStepCompleted id step total)
  | .moleculeCompleted id _ _ => some (.moleculeCompleted id)
  | .moleculeCollapsed id _ _ => some (.moleculeCollapsed id)
  | .moleculeStuck id _ => some (.ofMolecule .moleculeStuck id)
  | .promptSealed _ _ _ _ _ => some (.observed "prompt_sealed")
  | .briefingSealed _ _ _ _ _ _ => some (.observed "briefing_sealed")
  | .bootstrapSealed _ _ _ _ _ _ => some (.observed "bootstrap_sealed")
  | .mergeCompleted _ => none
  | .decaySpliced parent children => some (.decaySpliced parent children)
  | .other name => some (.observed name)

structure Ran where
  mol : MoleculeData
  events : List TraceEvent := []
  ok : Bool

inductive LlmRun where
  | unknownProvider
  /-- The prompt, the output file or an attempt failed, after so many timeouts. -/
  | stopped (timeouts : Nat)
  | completed (timeouts : Nat)
  | gaveUp (timeouts : Nat) (outcome : String)

/-- What the steps that `tackle` runs itself meet on the machine. -/
structure StepMachine where
  repoRoot : Bool := true
  trusted : Except String Unit := .ok ()
  /-- How a command ends, and whether it was over its time. -/
  shell : String → ShellRun × Bool
  /-- The registered functions, with what they return. -/
  native : String → Option (Except String Unit)
  query : QuerySpec → Except String String
  llm : RawLlmSpec → LlmRun

def SelfRun (step : Step) : Bool :=
  step.command.isSome || step.query.isSome || step.llm.isSome || step.native.isSome

section

variable (formula : Formula) (mol : MoleculeData) (step : Step) (machine : StepMachine) (now : Instant)

def markRunning : MoleculeData :=
  if mol.status = .pending ∨ mol.status = .queued then { mol with status := .running, updatedAt := now }
  else mol

def collapseStep (reason : Option String) : MoleculeData :=
  { mol with status := .collapsed, collapseReason := reason, updatedAt := now }

def stepEvents (id : MoleculeId) (outcome : EvolveOutcome) : List TraceEvent :=
  .moleculeStepCompleted id outcome.completedStep.index formula.steps.length ::
    if outcome.newState = .completed then [.moleculeCompleted id] else []

/-- Advance a molecule past a step that was run here. Nothing comes between the two
reads of its record. -/
def advanceGateStep : Ran :=
  match Core.Evolve.evolve mol.status mol.currentStep mol.completedSteps formula
      "gate step completed (exit 0)" with
  | .error _ => { mol, ok := false }
  | .ok outcome =>
    match simpleId "StepId" outcome.completedStep.id with
    | .error _ => { mol, ok := false }
    | .ok stepId =>
      let noted := { mol with completedSteps := mol.completedSteps ++ [stepId], updatedAt := now }
      { mol :=
          match outcome.newState with
          | .active currentStep _ _ => { noted with currentStep := currentStep }
          | .completed => { noted with status := if formula.freezeOnLastStep then .frozen else .completed }
        events := stepEvents formula mol.id outcome
        ok := true }

def Ran.after (first : List TraceEvent) (ran : Ran) : Ran := { ran with events := first ++ ran.events }

def executeGate : Ran :=
  let started : List TraceEvent := [.ofMolecule .gateStarted mol.id]
  let updated := markRunning mol now
  if machine.repoRoot = false then ⟨updated, started, false⟩
  else
    match machine.trusted with
    | .error _ => ⟨updated, started, false⟩
    | .ok _ =>
      let (run, timedOut) := machine.shell (step.command.getD "")
      match run with
      | .spawnError _ =>
        ⟨collapseStep updated now updated.collapseReason, started ++ [.ofMolecule .gateFailed mol.id], false⟩
      | .exited _ _ _ =>
        if run.success = true ∧ timedOut = false then
          (advanceGateStep formula updated now).after (started ++ [.ofMolecule .gateCompleted mol.id])
        else
          ⟨collapseStep updated now updated.collapseReason, started ++ [.ofMolecule .gateFailed mol.id], true⟩

def executeNative : Ran :=
  let started : List TraceEvent := [.ofMolecule .nativeStarted mol.id]
  let failed := started ++ [.ofMolecule .nativeFailed mol.id]
  match machine.native (step.native.getD "") with
  | none => ⟨collapseStep mol now mol.collapseReason, failed, false⟩
  | some result =>
    let updated := markRunning mol now
    if machine.repoRoot = false then ⟨updated, started, false⟩
    else
      match result with
      | .ok _ =>
        (advanceGateStep formula updated now).after (started ++ [.ofMolecule .nativeCompleted mol.id])
      | .error _ => ⟨collapseStep updated now updated.collapseReason, failed, false⟩

def executeQuery (query : QuerySpec) : Ran :=
  let updated := markRunning mol now
  match machine.query query with
  | .error e => { mol := collapseStep updated now (some e), ok := false }
  | .ok _ =>
    (advanceGateStep formula { updated with updatedAt := now } now).after [.observed "query_step_evaluated"]

def executeLlm (spec : RawLlmSpec) : Ran :=
  let timedOut (n : Nat) : List TraceEvent := List.replicate n (.observed "external_channel_timeout")
  let updated := markRunning mol now
  match machine.llm spec with
  | .unknownProvider =>
    { mol := collapseStep mol now
        (some ("unknown llm provider \"" ++ spec.provider ++ "\" (registered providers: mock)"))
      ok := false }
  | .stopped n => ⟨updated, timedOut n, false⟩
  | .completed n => (advanceGateStep formula updated now).after (timedOut n)
  | .gaveUp n outcome =>
    ⟨collapseStep updated now (some ("llm step failed after " ++ n.repr ++ " attempt(s): " ++ outcome)),
      timedOut n, false⟩

def nativeCascade : Nat → MoleculeData → Ran
  | 0, mol => { mol, ok := true }
  | fuel + 1, mol =>
    if mol.status ≠ .running then { mol, ok := true }
    else
      match formula.steps[mol.currentStep]? with
      | none => { mol, ok := true }
      | some next =>
        if next.native.isNone then { mol, ok := true }
        else
          let ran := executeNative formula mol next machine now
          if ran.ok then (nativeCascade fuel ran.mol).after ran.events else ran

end

theorem advanceGateStep_leads {formula : Formula} {mol : MoleculeData} {now : Instant}
    (hok : (advanceGateStep formula mol now).ok = true)
    (hrunning : (advanceGateStep formula mol now).mol.status = .running) :
    (advanceGateStep formula mol now).mol.currentStep = mol.currentStep + 1 := by
  unfold advanceGateStep at hok hrunning ⊢
  split at hok
  · cases hok
  · rename_i outcome hcore
    split at hok
    · cases hok
    · rename_i stepId hid
      simp only [hcore, hid] at hrunning ⊢
      obtain ⟨-, -, -, -, ⟨-, hstate⟩ | ⟨next, -, hstate⟩⟩ := evolve_ok hcore
      · simp only [hstate] at hrunning
        cases hfreeze : formula.freezeOnLastStep <;> simp [hfreeze] at hrunning
      · simp only [hstate]

theorem executeNative_leads {formula : Formula} {mol : MoleculeData} {step : Step} {machine : StepMachine}
    {now : Instant} (hok : (executeNative formula mol step machine now).ok = true)
    (hrunning : (executeNative formula mol step machine now).mol.status = .running) :
    (executeNative formula mol step machine now).mol.currentStep = mol.currentStep + 1 := by
  have hcurrent : (markRunning mol now).currentStep = mol.currentStep := by
    unfold markRunning
    split <;> rfl
  unfold executeNative at hok hrunning ⊢
  split at hok
  · cases hok
  · rename_i result hnative
    simp only [hnative] at hrunning ⊢
    split at hok
    · cases hok
    · rename_i hroot
      rw [if_neg hroot] at hrunning ⊢
      cases result with
      | error e => cases hok
      | ok done => exact (advanceGateStep_leads hok hrunning).trans (congrArg (· + 1) hcurrent)

theorem nativeCascade_enough {formula : Formula} {machine : StepMachine} {now : Instant} {fuel : Nat}
    {mol : MoleculeData} (h : formula.steps.length ≤ mol.currentStep + fuel) :
    nativeCascade formula machine now (fuel + 1) mol = nativeCascade formula machine now fuel mol := by
  induction fuel generalizing mol with
  | zero =>
    have hnone : formula.steps[mol.currentStep]? = none := List.getElem?_eq_none h
    simp [nativeCascade, hnone]
  | succ fuel ih =>
    rw [nativeCascade, nativeCascade]
    split
    · rfl
    · cases hnext : formula.steps[mol.currentStep]? with
      | none => rfl
      | some next =>
        dsimp only
        split
        · rfl
        · split
          · rename_i hok
            by_cases hrunning : (executeNative formula mol next machine now).mol.status = .running
            · rw [ih (by rw [executeNative_leads hok hrunning]; omega)]
            · have hstop (n : Nat) : nativeCascade formula machine now n
                  (executeNative formula mol next machine now).mol =
                  { mol := (executeNative formula mol next machine now).mol, ok := true } := by
                cases n with
                | zero => rfl
                | succ n => rw [nativeCascade, if_pos hrunning]
              rw [hstop, hstop]
          · rfl

/-- How the dispatch of a worker goes, once a molecule is routed to one. -/
inductive Dispatch where
  | refused
  | recorded (record : DispatchRecord) (env : Env)
  /-- The worker was recorded, and then could not be started. -/
  | rolledBack (record : DispatchRecord) (env : Env)

structure TackleCall where
  force : Bool := false
  tackledBy : TackledBy := .human
  /-- Whether the pilot holds the molecule. -/
  held : Bool := false
  /-- Whether one of the guards before the routing refuses. -/
  guarded : Bool := false
  machine : StepMachine
  dispatch : Dispatch
  /-- The events about the choice of an adapter and of a model. -/
  notes : List String := []
  now : Instant := 0

def refuses (mol : MoleculeData) (call : TackleCall) : Bool :=
  (call.tackledBy ≠ .human && call.held) || (mol.process.isSome && !call.force) ||
    isTerminal mol.status || (mol.status = .running && mol.process.isNone && !call.force) || call.guarded

def dispatchWorker (mol : MoleculeData) (call : TackleCall) : Ran :=
  match call.dispatch with
  | .refused => { mol, ok := false }
  | .recorded record env =>
    ⟨dispatched mol record env, call.notes.map .observed ++ [.workerSpawned record.worker], true⟩
  | .rolledBack record env =>
    ⟨restoreClaim (dispatched mol record env) mol env.undoneAt,
      call.notes.map .observed ++ [.workerSpawned record.worker], false⟩

def tackle (formula : Formula) (mol : MoleculeData) (call : TackleCall) : Ran :=
  if refuses mol call then { mol, ok := false }
  else
    match formula.steps[mol.currentStep]? with
    | none => dispatchWorker mol call
    | some step =>
      if step.command.isSome then executeGate formula mol step call.machine call.now
      else
        match step.query with
        | some query => executeQuery formula mol call.machine call.now query
        | none =>
          match step.llm with
          | some spec => executeLlm formula mol call.machine call.now spec
          | none =>
            if step.native.isSome then
              let ran := executeNative formula mol step call.machine call.now
              if ran.ok then
                (nativeCascade formula call.machine call.now formula.steps.length ran.mol).after ran.events
              else ran
            else dispatchWorker mol call

structure AcceptCall where
  expectedStep : Nat
  /-- The evidence of the turn, unless its output is rejected. -/
  evidence : Option String
  machine : Machine
  now : Instant := 0

def verified (machine : Machine) (step : Step) : Bool :=
  step.verification.all fun verification =>
    verification.criteria = "" || (machine.trusted.toBool && (machine.shell verification.criteria).success)

def accepted (mol : MoleculeData) (stepId : StepId) (outcome : EvolveOutcome) (now : Instant) : MoleculeData :=
  let noted := { mol with completedSteps := mol.completedSteps ++ [stepId], updatedAt := now }
  match outcome.newState with
  | .active currentStep _ _ => { noted with currentStep := currentStep, status := .running }
  | .completed =>
    { noted with
      currentStep := mol.totalSteps
      status := if mol.freezeOnLastStep then .frozen else .completed }

def acceptWorkerTurn (formula : Formula) (mol : MoleculeData) (call : AcceptCall) : Ran :=
  match formula.steps[call.expectedStep]? with
  | none => { mol, ok := false }
  | some step =>
    match simpleId "StepId" step.id with
    | .error _ => { mol, ok := false }
    | .ok stepId =>
      if mol.status = .collapsed then { mol, ok := false }
      else if stepId ∈ mol.completedSteps then { mol, ok := true }
      else if mol.currentStep ≠ call.expectedStep then { mol, ok := false }
      else
        match call.evidence with
        | none => { mol, ok := false }
        | some evidence =>
          if verified call.machine step = false then { mol, ok := false }
          else
            match Core.Evolve.evolve mol.status mol.currentStep mol.completedSteps formula evidence with
            | .error _ => { mol, ok := false }
            | .ok outcome =>
              { mol := accepted mol stepId outcome call.now
                events := stepEvents formula mol.id outcome
                ok := true }

inductive MolOp where
  | live (op : State.Projection.Op)
  | tackle (call : TackleCall)
  | accept (call : AcceptCall)

def MolOp.apply (formula : Formula) (mol : MoleculeData) : MolOp → MoleculeData × List TraceEvent
  | .live op => ((applyOp formula mol op).1, (applyOp formula mol op).2.filterMap view)
  | .tackle call =>
    let ran := Verify.tackle formula mol call
    (ran.mol, ran.events)
  | .accept call =>
    let ran := acceptWorkerTurn formula mol call
    (ran.mol, ran.events)

inductive Op where
  | nucleate (formula : Formula) (request : NucleateRequest)
  | on (id : MoleculeId) (op : MolOp)

/-- The molecules, each with the formula it follows, and the log of their events. -/
structure World where
  mols : MoleculeId → Option (Formula × MoleculeData) := fun _ => none
  log : List TraceEvent := []

def World.put (w : World) (id : MoleculeId) (formula : Formula) (mol : MoleculeData)
    (events : List TraceEvent) : World where
  mols := Function.update w.mols id (some (formula, mol))
  log := w.log ++ events

/-- An id is given once, and an operation on a molecule that is not there is refused. -/
def World.step (w : World) : Op → World
  | .nucleate formula request =>
    match w.mols request.id with
    | some _ => w
    | none =>
      w.put request.id formula (nucleate formula request) ((nucleateEvents formula request).filterMap view)
  | .on id op =>
    match w.mols id with
    | none => w
    | some (formula, mol) => w.put id formula (op.apply formula mol).1 (op.apply formula mol).2

def World.empty : World := {}

def run (ops : List Op) : World := ops.foldl World.step .empty

end Cosmon.Verify
