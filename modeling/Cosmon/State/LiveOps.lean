import Cosmon.Core.Evolve
import Cosmon.State.Collapse
import Cosmon.State.Rebuild

namespace Cosmon.State.LiveOps

open Cosmon.Lib.Text Cosmon.State.Molecule Cosmon.Core.Formulas Cosmon.Core.Evolve
open Cosmon.State.Collapse Cosmon.State.Rebuild

structure Applied (ε ν : Type) where
  mol : MoleculeData
  events : List EventV2
  result : Except ε ν

inductive FreezeError where
  | moleculeNotFound (id : MoleculeId)
  | terminalStatus (id : MoleculeId) (status : MoleculeStatus)
deriving DecidableEq

structure FreezeView where
  id : MoleculeId
  previousStatus : MoleculeStatus
  alreadyFrozen : Bool
deriving DecidableEq

def freeze (mol : MoleculeData) (reason : Option String) (now : Instant) :
    Applied FreezeError FreezeView :=
  if mol.status = .frozen then ⟨mol, [], .ok ⟨mol.id, mol.status, true⟩⟩
  else if mol.status = .completed ∨ mol.status = .collapsed then
    ⟨mol, [], .error (.terminalStatus mol.id mol.status)⟩
  else
    { mol := { mol with status := .frozen, updatedAt := now }
      events := .moleculeStatusChanged mol.id mol.status.asStr "frozen" ::
        reason.toList.map fun reason => .moleculeStuck mol.id (.from_ reason)
      result := .ok ⟨mol.id, mol.status, false⟩ }

inductive ThawError where
  | moleculeNotFound (id : MoleculeId)
  | invalidStatus (id : MoleculeId) (status : MoleculeStatus)
deriving DecidableEq

structure ThawView where
  id : MoleculeId
  previousStatus : MoleculeStatus
  alreadyThawed : Bool
deriving DecidableEq

def thaw (mol : MoleculeData) (_reason : Option String) (now : Instant) : Applied ThawError ThawView :=
  if mol.status = .running then ⟨mol, [], .ok ⟨mol.id, mol.status, true⟩⟩
  else if mol.status ≠ .frozen then ⟨mol, [], .error (.invalidStatus mol.id mol.status)⟩
  else
    { mol := { mol with status := .running, updatedAt := now, stuckAt := none }
      events := [.moleculeStatusChanged mol.id mol.status.asStr "running"]
      result := .ok ⟨mol.id, mol.status, false⟩ }

inductive StuckError where
  | moleculeNotFound (id : MoleculeId)
  | emptyReason
  | terminalStatus (id : MoleculeId) (status : MoleculeStatus)
deriving DecidableEq

structure StuckView where
  id : MoleculeId
  previousStatus : MoleculeStatus
  reason : String
  alreadyFrozen : Bool
deriving DecidableEq

def stuck (mol : MoleculeData) (reason : String) (now : Instant) : Applied StuckError StuckView :=
  if isBlank reason then ⟨mol, [], .error .emptyReason⟩
  else if mol.status = .completed ∨ mol.status = .collapsed then
    ⟨mol, [], .error (.terminalStatus mol.id mol.status)⟩
  else
    let alreadyFrozen := decide (mol.status = .frozen)
    { mol := { mol with status := .frozen, updatedAt := now, stuckAt := some now }
      events :=
        (if alreadyFrozen then [] else [.moleculeStatusChanged mol.id mol.status.asStr "frozen"]) ++
          [.moleculeStuck mol.id (.from_ reason)]
      result := .ok ⟨mol.id, mol.status, reason, alreadyFrozen⟩ }

structure CollapseView where
  id : MoleculeId
  previousStatus : MoleculeStatus
  reason : String
  cause : Option CollapseCause
  alreadyCollapsed : Bool
  previousWasStuck : Bool
deriving DecidableEq

/-- `collapse` of the route: unconditional, and with no lease to check. -/
def collapse (mol : MoleculeData) (request : CollapseRequest) (now : Instant) :
    Applied CollapseError CollapseView :=
  match parseCause request with
  | .error e => ⟨mol, [], .error e⟩
  | .ok cause =>
    let wasStuck := previousWasStuck mol.status mol
    if mol.status = .collapsed then
      ⟨mol, [], .ok ⟨mol.id, mol.status, request.reason, cause, true, wasStuck⟩⟩
    else if mol.status = .completed then ⟨mol, [], .error (.alreadyCompleted mol.id)⟩
    else
      { mol := collapsedRecord mol request cause none now
        events := [
          .moleculeStatusChanged mol.id (if wasStuck then "stuck" else mol.status.asStr) "collapsed",
          .moleculeCollapsed mol.id request.reason request.reasonKind]
        result := .ok ⟨mol.id, mol.status, request.reason, cause, false, wasStuck⟩ }

/-- The arguments of a nucleation that are left when its formula is read, its kind,
tags and blockers are parsed, its variables are resolved and its id is generated. -/
structure NucleateRequest where
  id : MoleculeId
  kind : Option MoleculeKind := none
  tags : Finset Tag := ∅
  fleet : FleetId := "default"
  blockedBy : List MoleculeId := []
  adapter : Option String := none
  /-- The seal of the prompt, where it could be read back. -/
  promptSeal : Option BriefingSeal := none
  now : Instant := 0

/-- The record that `persist_and_record` saves. -/
def nucleate (formula : Formula) (request : NucleateRequest) : MoleculeData where
  id := request.id
  fleetId := request.fleet
  formulaId := formula.name
  status := .pending
  updatedAt := request.now
  totalSteps := formula.steps.length
  kind := request.kind
  typedLinks := request.blockedBy.map MoleculeLink.blockedBy
  tags := request.tags
  freezeOnLastStep := formula.freezeOnLastStep
  adapter := request.adapter
  promptSeal := request.promptSeal

def nucleateEvents (formula : Formula) (request : NucleateRequest) : List EventV2 :=
  .moleculeNucleated request.id formula.name none [] ::
    request.promptSeal.toList.map fun s =>
      .promptSealed request.id s.hash s.sealedAt s.briefingBytes s.canonicalVersion

/-- How a shell command ended. -/
inductive ShellRun where
  | exited (code : Option Int) (stdout stderr : String)
  | spawnError (message : String)
deriving DecidableEq

def ShellRun.success : ShellRun → Bool
  | .exited code _ _ => code = some 0
  | .spawnError _ => false

structure Machine where
  trusted : Except String Unit
  shell : String → ShellRun

/-- Who asks for an advance: the route, which runs no shell command, or the command
line. -/
inductive Caller where
  | remote
  | cli (machine : Machine)

inductive StepRefusal where
  | retry (output : String) (retriesRemaining : Nat)
  | exhausted (reason : String)
  | unsupported (what : String)
  | other (message : String)
deriving DecidableEq

def trimText (text : String) : String := String.ofList (trim text.toList)

def Caller.verifyStep (caller : Caller) (step : Step) : Except StepRefusal Unit :=
  match step.verification with
  | none => .ok ()
  | some verification =>
    if verification.criteria = "" then .ok ()
    else
      match caller with
      | .remote => .error (.unsupported "it declares a shell verification command")
      | .cli machine =>
        match machine.trusted with
        | .error e => .error (.other e)
        | .ok _ =>
          match machine.shell verification.criteria with
          | .spawnError e => .error (.other ("failed to run verification command: " ++ e))
          | .exited code stdout stderr =>
            let combined := trimText (if stderr = "" then stdout else stdout ++ stderr)
            if code = some 0 then .ok ()
            else if 0 < verification.maxRetries then .error (.retry combined verification.maxRetries)
            else
              .error (.exhausted ("verification failed after " ++ verification.maxRetries.repr ++
                " retries: " ++ combined))

inductive EvolveOpError where
  | moleculeNotFound (id : MoleculeId)
  | notRunnable (id : MoleculeId) (status : MoleculeStatus)
  | refused (error : EvolveError)
  | energyExhausted (cap : Nat)
  | verificationRetry (step output : String) (retriesRemaining : Nat)
  | verificationExhausted (reason : String)
  | artifactsMissing (step : String) (missing : List String)
  | unsupported (step what : String)
  | storeUnavailable (message : String)
  | effect (message : String)
deriving DecidableEq

/-- The arguments of one advance, with what it meets on disk: the artifacts that are
present after any were moved, and the seal of the new briefing. -/
structure EvolveCall where
  evidence : String
  caller : Caller := .remote
  artifactPresent : String → Bool := fun _ => true
  briefingSeal : Option BriefingSeal := none
  now : Instant := 0

structure EvolveView where
  updated : MoleculeData
  outcome : EvolveOutcome

def nonEmpty (text : String) : Option String := if isBlank text then none else some text

/-- The record after an advance: the step is noted, the status and the counter
follow the new state. -/
def advanced (mol : MoleculeData) (outcome : EvolveOutcome) (now : Instant) : MoleculeData :=
  let noted := { mol with
    completedSteps := mol.completedSteps ++ [outcome.completedStep.id]
    energyBudget := mol.energyBudget.map StepBudget.consume
    updatedAt := now }
  match outcome.newState with
  | .active currentStep _ _ => { noted with currentStep := currentStep, status := .running }
  | .completed =>
    { noted with
      status := if mol.freezeOnLastStep then .frozen else .completed
      currentStep := mol.totalSteps }

structure Hooked where
  mol : MoleculeData
  events : List EventV2
  result : Except String Unit

def gatePassed (updated : MoleculeData) (outcome : EvolveOutcome) (now : Instant) : MoleculeData :=
  let noted := { updated with
    completedSteps := updated.completedSteps ++ [outcome.completedStep.id], updatedAt := now }
  match outcome.newState with
  | .active currentStep _ _ => { noted with currentStep := currentStep }
  | .completed =>
    { noted with
      status := if updated.freezeOnLastStep then .frozen else .completed
      currentStep := updated.totalSteps }

def gateFailed (updated : MoleculeData) (reason : String) (now : Instant) : MoleculeData :=
  { updated with status := .collapsed, collapseReason := some reason, updatedAt := now }

def gateFailure (step : Step) : ShellRun → String
  | .exited code stdout stderr =>
    "gate step \"" ++ step.id ++ "\" failed (exit " ++ (code.getD (-1)).repr ++ "): " ++
      trimText stdout ++ trimText stderr
  | .spawnError e => "gate step \"" ++ step.id ++ "\" spawn error: " ++ e

/-- Run the gate step that the molecule has reached. Its own advance is announced
here, before the advance that led to it. -/
def runGate (machine : Machine) (formula : Formula) (updated : MoleculeData) (next : Step)
    (command : String) (now : Instant) : Hooked :=
  match machine.trusted with
  | .error e => ⟨updated, [], .error e⟩
  | .ok _ =>
    let ran := machine.shell command
    if ran.success then
      match simpleId "StepId" next.id with
      | .error e => ⟨updated, [], .error e.toString⟩
      | .ok _ =>
        let evidence := "gate step \"" ++ next.id ++ "\" auto-executed (exit 0)"
        match Core.Evolve.evolve updated.status updated.currentStep updated.completedSteps formula
            evidence with
        | .error e => ⟨updated, [], .error e.toString⟩
        | .ok outcome =>
          { mol := gatePassed updated outcome now
            events :=
              .moleculeStepCompleted updated.id outcome.completedStep.index formula.steps.length
                  (some evidence) ::
                (if outcome.newState = .completed then
                  [.moleculeCompleted updated.id
                    ("gate step \"" ++ next.id ++ "\" auto-executed, all steps done") (some evidence)]
                else [])
            result := .ok () }
    else ⟨gateFailed updated (gateFailure next ran) now, [], .ok ()⟩

def Caller.afterAdvance (caller : Caller) (formula : Formula) (updated : MoleculeData)
    (outcome : EvolveOutcome) (now : Instant) : Hooked :=
  match caller, outcome.newState with
  | .cli machine, .active currentStep _ _ =>
    match formula.steps[currentStep]? with
    | none => ⟨updated, [], .ok ()⟩
    | some next =>
      match next.command with
      | none => ⟨updated, [], .ok ()⟩
      | some command => runGate machine formula updated next command now
  | _, _ => ⟨updated, [], .ok ()⟩

def advanceEvents (mol : MoleculeData) (outcome : EvolveOutcome) (evidence : String) : List EventV2 :=
  .moleculeStepCompleted mol.id outcome.completedStep.index mol.totalSteps (nonEmpty evidence) ::
    (if outcome.newState = .completed then
      [.moleculeCompleted mol.id "all steps completed" (nonEmpty evidence)]
    else [])

def sealBriefing (mol : MoleculeData) : Option BriefingSeal → MoleculeData × List EventV2
  | none => (mol, [])
  | some s =>
    ({ mol with briefingSeals := mol.briefingSeals ++ [s] },
      [.briefingSealed mol.id s.step s.hash s.sealedAt s.briefingBytes s.canonicalVersion])

/-- Park a molecule: the record is frozen, and only the blocker is announced. -/
def parkFrozen (mol : MoleculeData) (reason : StuckReason) (now : Instant) :
    MoleculeData × List EventV2 :=
  ({ mol with status := .frozen, updatedAt := now }, [.moleculeStuck mol.id reason])

def commitAdvance (formula : Formula) (mol : MoleculeData) (outcome : EvolveOutcome)
    (call : EvolveCall) : Applied EvolveOpError EvolveView :=
  let saved := advanced mol outcome call.now
  let hooked := call.caller.afterAdvance formula saved outcome call.now
  match hooked.result with
  | .error e => ⟨hooked.mol, hooked.events, .error (.effect e)⟩
  | .ok _ =>
    let (sealed, sealEvents) := sealBriefing hooked.mol call.briefingSeal
    { mol := sealed
      events := hooked.events ++ advanceEvents hooked.mol outcome call.evidence ++ sealEvents
      result := .ok ⟨hooked.mol, outcome⟩ }

def evolve (formula : Formula) (mol : MoleculeData) (call : EvolveCall) :
    Applied EvolveOpError EvolveView :=
  if mol.status = .completed ∨ mol.status = .collapsed then
    ⟨mol, [], .error (.notRunnable mol.id mol.status)⟩
  else
    match mol.energyBudget.filter StepBudget.isExhausted with
    | some budget =>
      let (parked, events) := parkFrozen mol .energyExhausted call.now
      ⟨parked, events, .error (.energyExhausted budget.cap)⟩
    | none =>
      match Core.Evolve.evolve mol.status mol.currentStep mol.completedSteps formula call.evidence with
      | .error e => ⟨mol, [], .error (.refused e)⟩
      | .ok outcome =>
        match formula.steps[outcome.completedStep.index]? with
        | none => ⟨mol, [], .error (.refused (.stepOutOfRange mol.currentStep formula.steps.length))⟩
        | some step =>
          match call.caller.verifyStep step with
          | .error (.retry output retries) =>
            ⟨mol, [], .error (.verificationRetry outcome.completedStep.id output retries)⟩
          | .error (.exhausted reason) =>
            let (parked, events) := parkFrozen mol (.from_ reason) call.now
            ⟨parked, events, .error (.verificationExhausted reason)⟩
          | .error (.unsupported what) =>
            ⟨mol, [], .error (.unsupported outcome.completedStep.id what)⟩
          | .error (.other message) => ⟨mol, [], .error (.effect message)⟩
          | .ok _ =>
            let missing := step.expectedArtifacts.filter fun a => call.artifactPresent a = false
            if missing ≠ [] then
              ⟨mol, [], .error (.artifactsMissing outcome.completedStep.id missing)⟩
            else
              match simpleId "StepId" outcome.completedStep.id with
              | .error e => ⟨mol, [], .error (.storeUnavailable e.toString)⟩
              | .ok _ => commitAdvance formula mol outcome call

/-- What a call to `evolve` can do: refuse and change nothing, park the molecule, or
commit an advance that the core admits. -/
theorem evolve_cases (formula : Formula) (mol : MoleculeData) (call : EvolveCall) :
    (∃ e, evolve formula mol call = ⟨mol, [], .error e⟩ ∧
        ∀ err, e = .refused err →
          Core.Evolve.evolve mol.status mol.currentStep mol.completedSteps formula call.evidence =
            .error err ∨ ∃ index total, err = .stepOutOfRange index total) ∨
    (∃ reason e, evolve formula mol call =
        ⟨{ mol with status := .frozen, updatedAt := call.now }, [.moleculeStuck mol.id reason], .error e⟩ ∧
        ((∃ budget, mol.energyBudget = some budget ∧ e = .energyExhausted budget.cap) ∨
          ∃ text, e = .verificationExhausted text)) ∨
    ∃ outcome, Core.Evolve.evolve mol.status mol.currentStep mol.completedSteps formula call.evidence =
        .ok outcome ∧ evolve formula mol call = commitAdvance formula mol outcome call := by
  rw [evolve]
  split
  · exact Or.inl ⟨_, rfl, fun _ h => nomatch h⟩
  · split
    · rename_i budget hbudget
      obtain ⟨hsome, -⟩ := Option.filter_eq_some_iff.mp hbudget
      exact Or.inr (Or.inl ⟨_, _, rfl, Or.inl ⟨budget, hsome, rfl⟩⟩)
    · split
      · rename_i e he
        exact Or.inl ⟨_, rfl, fun err h => Or.inl (by cases h; exact he)⟩
      · rename_i outcome houtcome
        split
        · exact Or.inl ⟨_, rfl, fun err h => Or.inr ⟨_, _, (EvolveOpError.refused.inj h).symm⟩⟩
        · split
          · exact Or.inl ⟨_, rfl, fun _ h => nomatch h⟩
          · exact Or.inr (Or.inl ⟨_, _, rfl, Or.inr ⟨_, rfl⟩⟩)
          · exact Or.inl ⟨_, rfl, fun _ h => nomatch h⟩
          · exact Or.inl ⟨_, rfl, fun _ h => nomatch h⟩
          · dsimp only
            split
            · exact Or.inl ⟨_, rfl, fun _ h => nomatch h⟩
            · split
              · exact Or.inl ⟨_, rfl, fun _ h => nomatch h⟩
              · exact Or.inr (Or.inr ⟨outcome, houtcome, rfl⟩)

end Cosmon.State.LiveOps
