import Cosmon.Lib.Runs
import Cosmon.State.EvolveRuns

namespace Cosmon.State.Projection

open Cosmon.Lib.Runs Cosmon.Lib.Text Cosmon.State.Molecule Cosmon.Core.Formulas Cosmon.Core.Evolve
open Cosmon.State.Collapse Cosmon.State.Rebuild Cosmon.State.LiveOps Cosmon.State.EvolveRuns

/-- Where a molecule stands: what the log and the record are compared on. -/
structure Position where
  status : MoleculeStatus
  currentStep : Nat
  completedSteps : List StepId
deriving DecidableEq

def position (data : MoleculeData) : Position :=
  ⟨data.status, data.currentStep, data.completedSteps⟩

def reduce (p : Position) : EventV2 → Position
  | .moleculeStatusChanged _ _ target =>
    { p with status := (MoleculeStatus.fromStr target).getD p.status }
  | .moleculeStepCompleted _ step _ _ =>
    { p with
      currentStep := if p.currentStep < step + 1 then step + 1 else p.currentStep
      completedSteps :=
        if stepName step ∈ p.completedSteps then p.completedSteps else p.completedSteps ++ [stepName step] }
  | .moleculeCompleted _ _ _ => { p with status := .completed }
  | .moleculeCollapsed _ _ _ => { p with status := .collapsed }
  | _ => p

def subject : EventV2 → Option MoleculeId
  | .moleculeNucleated _ _ _ _ => none
  | .moleculeStatusChanged id _ _ => some id
  | .moleculeStepCompleted id _ _ _ => some id
  | .moleculeCompleted id _ _ => some id
  | .moleculeCollapsed id _ _ => some id
  | .moleculeStuck id _ => some id
  | .promptSealed id _ _ _ _ => some id
  | .briefingSealed id _ _ _ _ _ => some id
  | .bootstrapSealed id _ _ _ _ _ => some id
  | .mergeCompleted id => some id
  | .decaySpliced id _ => some id
  | .other _ => none

theorem amend_self (out : Projection) (id : MoleculeId) (f : MoleculeData → MoleculeData) :
    amend out id f id = (out id).map f := by
  rw [amend, Function.update_self]

theorem applyEvent_position {env : Envelope} {id : MoleculeId} (h : subject env.event = some id)
    (out : Projection) :
    (applyEvent env out id).map position = (out id).map fun data => reduce (position data) env.event := by
  obtain ⟨timestamp, event⟩ := env
  cases event
  all_goals cases h
  all_goals
    simp only [applyEvent, amend_self, Option.map_map]
    rfl

theorem foldl_position {id : MoleculeId} {envelopes : List Envelope}
    (h : ∀ env ∈ envelopes, subject env.event = some id) (out : Projection) :
    (envelopes.foldl (fun out env => applyEvent env out) out id).map position =
      (out id).map fun data => (envelopes.map Envelope.event).foldl reduce (position data) := by
  induction envelopes generalizing out with
  | nil => rfl
  | cons env envelopes ih =>
    obtain ⟨henv, hrest⟩ := List.forall_mem_cons.mp h
    rw [List.foldl_cons, ih hrest]
    have hone := applyEvent_position henv out
    cases hout : out id with
    | none =>
      rw [hout] at hone
      rw [Option.map_eq_none_iff.mp hone]
      rfl
    | some data =>
      rw [hout] at hone
      obtain ⟨data', hdata', hpos⟩ := Option.map_eq_some_iff.mp hone
      rw [hdata', Option.map_some, hpos]
      rfl

theorem project_position {id formulaId : MoleculeId} {events : List EventV2} {envelopes : List Envelope}
    (hsubject : ∀ event ∈ events, subject event = some id)
    (henv : envelopes.map Envelope.event = .moleculeNucleated id formulaId none [] :: events) :
    (projectMoleculesFromEvents envelopes id).map position =
      some (events.foldl reduce ⟨.pending, 0, []⟩) := by
  obtain ⟨first, rest, rfl, hfirst, hrest⟩ := List.map_eq_cons_iff.mp henv
  have hall : ∀ env ∈ rest, subject env.event = some id := by
    intro env hmem
    apply hsubject
    rw [← hrest]
    exact List.mem_map_of_mem hmem
  rw [projectMoleculesFromEvents, List.foldl_cons, foldl_position hall, hrest]
  simp only [applyEvent, hfirst, Function.update_self, Option.map_some]
  rfl

inductive Op where
  | nucleate (request : NucleateRequest)
  | evolve (call : EvolveCall)
  | freeze (reason : Option String) (now : Instant)
  | thaw (reason : Option String) (now : Instant)
  | stuck (reason : String) (now : Instant)
  | collapse (request : CollapseRequest) (now : Instant)

/-- What an operation makes of the record, and the events it adds. A further
nucleation is another molecule. -/
def applyOp (formula : Formula) (mol : MoleculeData) : Op → MoleculeData × List EventV2
  | .nucleate _ => (mol, [])
  | .evolve call => ((evolve formula mol call).mol, (evolve formula mol call).events)
  | .freeze reason now => ((freeze mol reason now).mol, (freeze mol reason now).events)
  | .thaw reason now => ((thaw mol reason now).mol, (thaw mol reason now).events)
  | .stuck reason now => ((stuck mol reason now).mol, (stuck mol reason now).events)
  | .collapse request now => ((collapse mol request now).mol, (collapse mol request now).events)

structure Live where
  mol : Option MoleculeData
  events : List EventV2

def step (formula : Formula) (s : Live) (op : Op) : Live :=
  match s.mol with
  | none =>
    match op with
    | .nucleate request => ⟨some (nucleate formula request), s.events ++ nucleateEvents formula request⟩
    | _ => s
  | some mol =>
    ⟨some (applyOp formula mol op).1, s.events ++ (applyOp formula mol op).2⟩

def start : Live := ⟨none, []⟩

def run (formula : Formula) (ops : List Op) : Live := ops.foldl (step formula) start

/-- Whether an advance from here runs the step after the current one as an inline
gate. -/
def runsGate (formula : Formula) (mol : MoleculeData) : Op → Bool
  | .evolve call =>
    match call.caller with
    | .remote => false
    | .cli _ => (formula.steps[mol.currentStep + 1]?).any fun next => next.command.isSome
  | _ => false

/-- Whether the operation announces the status it leaves: not a last advance that
freezes the molecule, and not a failed verification that parks it. -/
def announcesStatus (formula : Formula) (mol : MoleculeData) : Op → Prop
  | .evolve call =>
    match (evolve formula mol call).result with
    | .ok view => view.outcome.newState = .completed → mol.freezeOnLastStep = false
    | .error (.verificationExhausted _) => False
    | .error _ => True
  | _ => True

structure Inv (formula : Formula) (id : MoleculeId) (mol : MoleculeData) (events : List EventV2) :
    Prop where
  same : mol.id = id
  subject : ∀ event ∈ events, subject event = some id
  total : mol.totalSteps = formula.steps.length
  budget : mol.energyBudget = none
  status : mol.status ≠ .queued
  length : mol.completedSteps.length = mol.currentStep
  current : (events.foldl reduce ⟨.pending, 0, []⟩).currentStep = mol.currentStep
  completed : (events.foldl reduce ⟨.pending, 0, []⟩).completedSteps =
    (List.range mol.currentStep).map stepName

theorem stepName_injective {a b : Nat} (h : stepName a = stepName b) : a = b := append_repr_injective h

def stepless : EventV2 → Bool
  | .moleculeStepCompleted _ _ _ _ => false
  | _ => true

theorem foldl_stepless {events : List EventV2} (h : ∀ event ∈ events, stepless event = true)
    (p : Position) :
    (events.foldl reduce p).currentStep = p.currentStep ∧
      (events.foldl reduce p).completedSteps = p.completedSteps := by
  induction events generalizing p with
  | nil => exact ⟨rfl, rfl⟩
  | cons event events ih =>
    obtain ⟨hevent, hrest⟩ := List.forall_mem_cons.mp h
    have hone : (reduce p event).currentStep = p.currentStep ∧
        (reduce p event).completedSteps = p.completedSteps := by
      cases event
      case moleculeStepCompleted => cases hevent
      all_goals exact ⟨rfl, rfl⟩
    obtain ⟨hcur, hdone⟩ := ih hrest (reduce p event)
    exact ⟨hcur.trans hone.1, hdone.trans hone.2⟩

/-- An operation that completes no step, with the events it adds. -/
structure Steady (mol next : MoleculeData) (more : List EventV2) : Prop where
  id : next.id = mol.id
  total : next.totalSteps = mol.totalSteps
  budget : next.energyBudget = mol.energyBudget
  current : next.currentStep = mol.currentStep
  completed : next.completedSteps = mol.completedSteps
  more : ∀ event ∈ more, subject event = some mol.id ∧ stepless event = true
  queued : mol.status ≠ .queued → next.status ≠ .queued

theorem inv_steady {formula : Formula} {id : MoleculeId} {mol next : MoleculeData} {events more : List EventV2}
    (h : Inv formula id mol events) (hs : Steady mol next more) : Inv formula id next (events ++ more) := by
  obtain ⟨hcur, hcomp⟩ := foldl_stepless (fun event he => (hs.more event he).2)
    (events.foldl reduce ⟨.pending, 0, []⟩)
  constructor
  · exact hs.id.trans h.same
  · intro event hevent
    obtain hold | hnew := List.mem_append.mp hevent
    · exact h.subject event hold
    · rw [← h.same]
      exact (hs.more event hnew).1
  · exact hs.total.trans h.total
  · exact hs.budget.trans h.budget
  · exact hs.queued h.status
  · rw [hs.completed, hs.current]
    exact h.length
  · rw [List.foldl_append, hcur, hs.current]
    exact h.current
  · rw [List.foldl_append, hcomp, hs.current]
    exact h.completed

theorem steady_refl (mol : MoleculeData) : Steady mol mol [] where
  id := rfl
  total := rfl
  budget := rfl
  current := rfl
  completed := rfl
  more := fun _ he => absurd he List.not_mem_nil
  queued := fun h => h

def Announces (mol next : MoleculeData) (more : List EventV2) : Prop :=
  ∀ p : Position, p.status = mol.status → (more.foldl reduce p).status = next.status

theorem refused_steady (mol : MoleculeData) : Steady mol mol [] ∧ Announces mol mol [] :=
  ⟨steady_refl mol, fun _ hp => hp⟩

theorem freeze_steady (mol : MoleculeData) (reason : Option String) (now : Instant) :
    Steady mol (freeze mol reason now).mol (freeze mol reason now).events ∧
      Announces mol (freeze mol reason now).mol (freeze mol reason now).events := by
  rw [freeze]
  split
  · exact refused_steady mol
  · split
    · exact refused_steady mol
    · cases reason with
      | none =>
        exact ⟨⟨rfl, rfl, rfl, rfl, rfl, by simp [subject, stepless], fun _ h => nomatch h⟩, fun _ _ => rfl⟩
      | some reason =>
        exact ⟨⟨rfl, rfl, rfl, rfl, rfl, by simp [subject, stepless], fun _ h => nomatch h⟩, fun _ _ => rfl⟩

theorem thaw_steady (mol : MoleculeData) (reason : Option String) (now : Instant) :
    Steady mol (thaw mol reason now).mol (thaw mol reason now).events ∧
      Announces mol (thaw mol reason now).mol (thaw mol reason now).events := by
  rw [thaw]
  split
  · exact refused_steady mol
  · split
    · exact refused_steady mol
    · exact ⟨⟨rfl, rfl, rfl, rfl, rfl, by simp [subject, stepless], fun _ h => nomatch h⟩, fun _ _ => rfl⟩

theorem stuck_steady (mol : MoleculeData) (reason : String) (now : Instant) :
    Steady mol (stuck mol reason now).mol (stuck mol reason now).events ∧
      Announces mol (stuck mol reason now).mol (stuck mol reason now).events := by
  rw [stuck]
  split
  · exact refused_steady mol
  · split
    · exact refused_steady mol
    · dsimp only
      by_cases hfrozen : mol.status = .frozen
      · simp only [hfrozen, decide_true, if_true, List.nil_append]
        exact ⟨⟨rfl, rfl, rfl, rfl, rfl, by simp [subject, stepless], fun _ h => nomatch h⟩,
          fun _ hp => hp.trans hfrozen⟩
      · simp only [hfrozen, decide_false]
        exact ⟨⟨rfl, rfl, rfl, rfl, rfl, by simp [subject, stepless], fun _ h => nomatch h⟩, fun _ _ => rfl⟩

theorem collapsedRecord_keeps (mol : MoleculeData) (request : CollapseRequest)
    (cause : Option CollapseCause) (now : Instant) :
    let next := collapsedRecord mol request cause none now
    next.totalSteps = mol.totalSteps ∧ next.energyBudget = mol.energyBudget ∧
      next.currentStep = mol.currentStep ∧ next.completedSteps = mol.completedSteps ∧
      next.status = .collapsed := by
  cases hprocess : mol.process with
  | none => simp [collapsedRecord, hprocess]
  | some process => simp [collapsedRecord, hprocess, MoleculeData.releaseProcess]

theorem collapse_steady (mol : MoleculeData) (request : CollapseRequest) (now : Instant) :
    Steady mol (collapse mol request now).mol (collapse mol request now).events ∧
      Announces mol (collapse mol request now).mol (collapse mol request now).events := by
  rw [collapse]
  split
  · exact refused_steady mol
  · rename_i cause _
    dsimp only
    split
    · exact refused_steady mol
    · split
      · exact refused_steady mol
      · obtain ⟨htotal, hbudget, hcurrent, hdone, hstatus⟩ := collapsedRecord_keeps mol request cause now
        refine ⟨⟨(collapsedRecord_id mol request cause none now).1, htotal, hbudget, hcurrent, hdone,
          by simp [subject, stepless], fun _ => ?_⟩, fun _ _ => hstatus.symm⟩
        rw [hstatus]
        exact fun h => nomatch h

theorem commitAdvance_quiet {formula : Formula} {mol : MoleculeData} {outcome : EvolveOutcome}
    {call : EvolveCall} (hgate : runsGate formula mol (.evolve call) = false)
    (hcore : Core.Evolve.evolve mol.status mol.currentStep mol.completedSteps formula call.evidence =
      .ok outcome) :
    let saved := advanced mol outcome call.now
    commitAdvance formula mol outcome call =
      ⟨(sealBriefing saved call.briefingSeal).1,
        advanceEvents saved outcome call.evidence ++ (sealBriefing saved call.briefingSeal).2,
        .ok ⟨saved, outcome⟩⟩ := by
  have hquiet : call.caller.afterAdvance formula (advanced mol outcome call.now) outcome call.now =
      ⟨advanced mol outcome call.now, [], .ok ()⟩ := by
    obtain ⟨-, step, -, -, hnew⟩ := evolve_ok hcore
    cases hcaller : call.caller with
    | remote => rfl
    | cli machine =>
      obtain ⟨-, hstate⟩ | ⟨next, hnext, hstate⟩ := hnew
      · simp only [Caller.afterAdvance, hstate]
      · have hcommand : next.command = none := by
          simpa [runsGate, hcaller, hnext] using hgate
        simp only [Caller.afterAdvance, hstate, hnext, hcommand]
  simp only [commitAdvance, hquiet, List.nil_append]

theorem advanced_fields (mol : MoleculeData) (outcome : EvolveOutcome) (now : Instant) :
    (advanced mol outcome now).id = mol.id ∧
      (advanced mol outcome now).totalSteps = mol.totalSteps ∧
      (advanced mol outcome now).energyBudget = mol.energyBudget.map StepBudget.consume ∧
      (advanced mol outcome now).completedSteps = mol.completedSteps ++ [outcome.completedStep.id] := by
  cases hstate : outcome.newState with
  | active k id title => simp [advanced, hstate]
  | completed => simp [advanced, hstate]

theorem advanced_current {formula : Formula} {mol : MoleculeData} {outcome : EvolveOutcome}
    {evidence : String} (htotal : mol.totalSteps = formula.steps.length)
    (hcore : Core.Evolve.evolve mol.status mol.currentStep mol.completedSteps formula evidence =
      .ok outcome) (now : Instant) :
    (advanced mol outcome now).currentStep = mol.currentStep + 1 ∧
      (advanced mol outcome now).status ≠ .queued := by
  obtain ⟨-, step, hstep, -, hnew⟩ := evolve_ok hcore
  have hlt : mol.currentStep < formula.steps.length := (List.getElem?_eq_some_iff.mp hstep).1
  obtain ⟨hnone, hstate⟩ | ⟨next, -, hstate⟩ := hnew
  · have hlen := List.getElem?_eq_none_iff.mp hnone
    refine ⟨?_, ?_⟩
    · simp only [advanced, hstate, htotal]
      omega
    · simp only [advanced, hstate]
      split
      · intro h
        cases h
      · intro h
        cases h
  · simp [advanced, hstate]

theorem subject_advanceEvents {mol : MoleculeData} {outcome : EvolveOutcome} {evidence : String}
    {event : EventV2} (h : event ∈ advanceEvents mol outcome evidence) : subject event = some mol.id := by
  obtain rfl | hlast := List.mem_cons.mp h
  · rfl
  · split at hlast
    · rw [List.mem_singleton.mp hlast]
      rfl
    · cases hlast

theorem stepName_fresh (k : Nat) : stepName k ∉ (List.range k).map stepName := by
  intro hmem
  obtain ⟨i, hi, hname⟩ := List.mem_map.mp hmem
  have := stepName_injective hname
  have := List.mem_range.mp hi
  omega

/-- The log takes note of an advance by the number of its step. The completion that
follows the last step says nothing about the steps. -/
theorem foldl_advanceEvents {outcome : EvolveOutcome} {p : Position}
    (hcurrent : p.currentStep = outcome.completedStep.index)
    (hcompleted : p.completedSteps = (List.range p.currentStep).map stepName)
    (mol : MoleculeData) (evidence : String) :
    ((advanceEvents mol outcome evidence).foldl reduce p).currentStep = p.currentStep + 1 ∧
      ((advanceEvents mol outcome evidence).foldl reduce p).completedSteps =
        (List.range (p.currentStep + 1)).map stepName := by
  have hone : (reduce p (.moleculeStepCompleted mol.id outcome.completedStep.index mol.totalSteps
      (nonEmpty evidence))).currentStep = p.currentStep + 1 ∧
      (reduce p (.moleculeStepCompleted mol.id outcome.completedStep.index mol.totalSteps
        (nonEmpty evidence))).completedSteps = (List.range (p.currentStep + 1)).map stepName := by
    rw [← hcurrent]
    simp [reduce, hcompleted, stepName_fresh, List.range_succ]
  rw [advanceEvents, List.foldl_cons]
  split
  · exact hone
  · exact hone

theorem inv_advance {formula : Formula} {id : MoleculeId} {mol : MoleculeData} {events : List EventV2}
    {outcome : EvolveOutcome} {evidence : String} (h : Inv formula id mol events)
    (hcore : Core.Evolve.evolve mol.status mol.currentStep mol.completedSteps formula evidence =
      .ok outcome) (now : Instant) :
    Inv formula id (advanced mol outcome now)
      (events ++ advanceEvents (advanced mol outcome now) outcome evidence) := by
  obtain ⟨hid, htotal, hbudget, hsteps⟩ := advanced_fields mol outcome now
  obtain ⟨hcurrent, hstatus⟩ := advanced_current h.total hcore now
  obtain ⟨-, step, -, hdone, -⟩ := evolve_ok hcore
  have hindex : (events.foldl reduce ⟨.pending, 0, []⟩).currentStep = outcome.completedStep.index := by
    rw [hdone]
    exact h.current
  obtain ⟨hcur, hcomp⟩ := foldl_advanceEvents hindex (h.current ▸ h.completed)
    (advanced mol outcome now) evidence
  rw [h.current, ← hcurrent] at hcur hcomp
  constructor
  · exact hid.trans h.same
  · intro event hevent
    obtain hold | hnew := List.mem_append.mp hevent
    · exact h.subject event hold
    · rw [subject_advanceEvents hnew, hid, h.same]
  · exact htotal.trans h.total
  · rw [hbudget, h.budget]
    rfl
  · exact hstatus
  · rw [hsteps, List.length_append, h.length, hcurrent]
    rfl
  · rw [List.foldl_append]
    exact hcur
  · rw [List.foldl_append]
    exact hcomp

theorem seal_steady (mol : MoleculeData) (s : Option BriefingSeal) :
    Steady mol (sealBriefing mol s).1 (sealBriefing mol s).2 ∧
      Announces mol (sealBriefing mol s).1 (sealBriefing mol s).2 := by
  cases s with
  | none => exact refused_steady mol
  | some s =>
    exact ⟨⟨rfl, rfl, rfl, rfl, rfl, by simp [sealBriefing, subject, stepless], fun h => h⟩, fun _ hp => hp⟩

theorem inv_evolve {formula : Formula} {id : MoleculeId} {mol : MoleculeData} {events : List EventV2}
    {call : EvolveCall}
    (h : Inv formula id mol events) (hgate : runsGate formula mol (.evolve call) = false) :
    Inv formula id (evolve formula mol call).mol (events ++ (evolve formula mol call).events) := by
  obtain ⟨e, heq, -⟩ | ⟨reason, e, heq, -⟩ | ⟨outcome, hcore, heq⟩ := evolve_cases formula mol call
  · rw [heq]
    exact inv_steady h (steady_refl mol)
  · rw [heq]
    exact inv_steady h
      ⟨rfl, rfl, rfl, rfl, rfl, by simp [subject, stepless], fun _ h => nomatch h⟩
  · rw [heq, commitAdvance_quiet hgate hcore, ← List.append_assoc]
    exact inv_steady (inv_advance h hcore call.now) (seal_steady _ call.briefingSeal).1

theorem inv_applyOp {formula : Formula} {id : MoleculeId} {mol : MoleculeData} {events : List EventV2} {op : Op}
    (h : Inv formula id mol events) (hgate : runsGate formula mol op = false) :
    Inv formula id (applyOp formula mol op).1 (events ++ (applyOp formula mol op).2) := by
  cases op with
  | nucleate request => exact inv_steady h (steady_refl mol)
  | evolve call => exact inv_evolve h hgate
  | freeze reason now => exact inv_steady h (freeze_steady mol reason now).1
  | thaw reason now => exact inv_steady h (thaw_steady mol reason now).1
  | stuck reason now => exact inv_steady h (stuck_steady mol reason now).1
  | collapse request now => exact inv_steady h (collapse_steady mol request now).1

theorem evolve_announces {formula : Formula} {id : MoleculeId} {mol : MoleculeData} {events : List EventV2}
    {call : EvolveCall} (h : Inv formula id mol events)
    (hgate : runsGate formula mol (.evolve call) = false)
    (hstatus : announcesStatus formula mol (.evolve call)) :
    Announces mol (evolve formula mol call).mol (evolve formula mol call).events := by
  obtain ⟨e, heq, -⟩ | ⟨reason, e, heq, hparked⟩ | ⟨outcome, hcore, heq⟩ := evolve_cases formula mol call
  · rw [heq]
    exact fun _ hp => hp
  · rw [announcesStatus, heq] at hstatus
    obtain ⟨budget, hbudget, -⟩ | ⟨text, rfl⟩ := hparked
    · rw [h.budget] at hbudget
      cases hbudget
    · cases hstatus
  · rw [commitAdvance_quiet hgate hcore] at heq
    rw [announcesStatus, heq] at hstatus
    rw [heq]
    intro p hp
    rw [List.foldl_append]
    apply (seal_steady (advanced mol outcome call.now) call.briefingSeal).2
    obtain ⟨hrunnable, step, -, -, hnew⟩ := evolve_ok hcore
    have hrunning : mol.status = .running := hrunnable.resolve_right h.status
    obtain ⟨-, hstate⟩ | ⟨next, -, hstate⟩ := hnew
    · simp [advanceEvents, advanced, reduce, hstate, hstatus hstate]
    · simp [advanceEvents, advanced, reduce, hstate, hp, hrunning]

theorem applyOp_announces {formula : Formula} {id : MoleculeId} {mol : MoleculeData} {events : List EventV2} {op : Op}
    (h : Inv formula id mol events) (hgate : runsGate formula mol op = false)
    (hstatus : announcesStatus formula mol op) :
    Announces mol (applyOp formula mol op).1 (applyOp formula mol op).2 := by
  cases op with
  | nucleate request => exact fun _ hp => hp
  | evolve call => exact evolve_announces h hgate hstatus
  | freeze reason now => exact (freeze_steady mol reason now).2
  | thaw reason now => exact (thaw_steady mol reason now).2
  | stuck reason now => exact (stuck_steady mol reason now).2
  | collapse request now => exact (collapse_steady mol request now).2

/-- The log of a live molecule starts with its nucleation, and the record agrees
with what follows. -/
def Tracked (formula : Formula) (s : Live) : Prop :=
  (s.mol = none ∧ s.events = []) ∨
    ∃ id mol events, s.mol = some mol ∧
      s.events = .moleculeNucleated id formula.name none [] :: events ∧ Inv formula id mol events

def StatusTracked (s : Live) : Prop :=
  ∀ mol, s.mol = some mol → (s.events.tail.foldl reduce ⟨.pending, 0, []⟩).status = mol.status

theorem inv_nucleate (formula : Formula) (request : NucleateRequest) :
    Inv formula request.id (nucleate formula request) (nucleateEvents formula request).tail where
  same := rfl
  subject := by
    intro event hevent
    obtain ⟨s, -, rfl⟩ := List.mem_map.mp hevent
    rfl
  total := rfl
  budget := rfl
  status := fun h => nomatch h
  length := rfl
  current := by cases hseal : request.promptSeal <;> simp [nucleateEvents, hseal, reduce, nucleate]
  completed := by cases hseal : request.promptSeal <;> simp [nucleateEvents, hseal, reduce, nucleate]

theorem tracked_step {formula : Formula} {s : Live} {op : Op} (h : Tracked formula s)
    (hgate : ∀ mol, s.mol = some mol → runsGate formula mol op = false) :
    Tracked formula (step formula s op) := by
  obtain ⟨hmol, hevents⟩ | ⟨id, mol, events, hmol, hevents, hinv⟩ := h
  · simp only [step, hmol]
    cases op with
    | nucleate request =>
      refine Or.inr ⟨request.id, nucleate formula request, _, rfl, ?_, inv_nucleate formula request⟩
      rw [hevents]
      rfl
    | _ => exact Or.inl ⟨hmol, hevents⟩
  · simp only [step, hmol]
    refine Or.inr ⟨id, _, _, rfl, ?_, inv_applyOp hinv (hgate mol hmol)⟩
    rw [hevents]
    rfl

theorem statusTracked_step {formula : Formula} {s : Live} {op : Op} (h : Tracked formula s)
    (hs : StatusTracked s) (hgate : ∀ mol, s.mol = some mol → runsGate formula mol op = false)
    (hstatus : ∀ mol, s.mol = some mol → announcesStatus formula mol op) :
    StatusTracked (step formula s op) := by
  obtain ⟨hmol, hevents⟩ | ⟨id, mol, events, hmol, hevents, hinv⟩ := h
  · cases op with
    | nucleate request =>
      intro mol hnew
      simp only [step, hmol, hevents, List.nil_append, Option.some.injEq] at hnew ⊢
      subst hnew
      cases hseal : request.promptSeal with
      | none => simp [nucleateEvents, hseal, nucleate]
      | some s => simp [nucleateEvents, hseal, nucleate, reduce]
    | _ =>
      simp only [step, hmol]
      exact hs
  · intro next hnew
    have hold := hs mol hmol
    simp only [step, hmol, Option.some.injEq] at hnew ⊢
    subst hnew
    rw [hevents] at hold ⊢
    rw [List.cons_append, List.tail_cons, List.foldl_append]
    exact applyOp_announces hinv (hgate mol hmol) (hstatus mol hmol) _ hold

def Gateless (formula : Formula) (ops : List Op) : Prop :=
  ∀ n op mol, ops[n]? = some op → (stateAt (step formula) start ops n).mol = some mol →
    runsGate formula mol op = false

def StatusAnnounced (formula : Formula) (ops : List Op) : Prop :=
  ∀ n op mol, ops[n]? = some op → (stateAt (step formula) start ops n).mol = some mol →
    announcesStatus formula mol op

theorem tracked_stateAt {formula : Formula} {ops : List Op} (hgate : Gateless formula ops) (n : Nat) :
    Tracked formula (stateAt (step formula) start ops n) := by
  apply stateAt_preserves start _ (Nat.zero_le n)
  · exact Or.inl ⟨rfl, rfl⟩
  · intro k op hop htracked
    exact tracked_step htracked fun mol hmol => hgate k op mol hop hmol

theorem statusTracked_stateAt {formula : Formula} {ops : List Op} (hgate : Gateless formula ops)
    (hstatus : StatusAnnounced formula ops) (n : Nat) :
    StatusTracked (stateAt (step formula) start ops n) := by
  apply stateAt_preserves start _ (Nat.zero_le n)
  · exact fun mol hmol => nomatch hmol
  · intro k op hop htracked
    exact statusTracked_step (tracked_stateAt hgate k) htracked
      (fun mol hmol => hgate k op mol hop hmol) (fun mol hmol => hstatus k op mol hop hmol)

/-- The projection of the log gives a molecule the step of its record, one positional
name for each completed step, in order, and its status as long as every operation
announces the status it leaves. -/
theorem projection_agrees {formula : Formula} {ops : List Op} (hgate : Gateless formula ops)
    {mol : MoleculeData} (hmol : (run formula ops).mol = some mol) {envelopes : List Envelope}
    (henv : envelopes.map Envelope.event = (run formula ops).events) :
    ∃ data, projectMoleculesFromEvents envelopes mol.id = some data ∧
      data.currentStep = mol.currentStep ∧
      data.completedSteps = (List.range mol.completedSteps.length).map stepName ∧
      (StatusAnnounced formula ops → data.status = mol.status) := by
  have hrun : run formula ops = stateAt (step formula) start ops ops.length :=
    (stateAt_length (step formula) start ops).symm
  have htracked := tracked_stateAt hgate ops.length
  rw [← hrun] at htracked
  obtain ⟨hnone, -⟩ | ⟨id, mol', events, hmol', hevents, hinv⟩ := htracked
  · rw [hmol] at hnone
    cases hnone
  · rw [hmol] at hmol'
    cases hmol'
    have hpos := project_position hinv.subject (henv.trans hevents)
    obtain ⟨data, hdata, hdata'⟩ := Option.map_eq_some_iff.mp hpos
    refine ⟨data, ?_, ?_, ?_, ?_⟩
    · rw [hinv.same]
      exact hdata
    · rw [← hinv.current, ← hdata']
      rfl
    · rw [hinv.length, ← hinv.completed, ← hdata']
      rfl
    · intro hstatus
      have hlast := statusTracked_stateAt hgate hstatus ops.length
      rw [← hrun] at hlast
      have hst := hlast mol hmol
      rw [hevents, List.tail_cons, ← hdata'] at hst
      exact hst

def exampleRaw : RawFormula := { formula := "ship", steps := [{ id := "build" }] }

def exampleFormula : Formula :=
  { name := "ship", description := "", freezeOnLastStep := false, tier := .zero
    requiresCapabilities := []
    steps := [
      { id := "build", title := "", description := "", exitCriteria := none, expectedArtifacts := []
        responseArtifact := none, dependsOn := [], order := 0, validationMode := none
        verification := none, command := none, native := none, parallelLimit := none, query := none
        llm := none }] }

def exampleOps : List Op :=
  [.nucleate { id := "task-20260101-0001" }, .freeze none 1, .thaw none 2, .evolve { evidence := "done" }]

def exampleMol : MoleculeData :=
  { nucleate exampleFormula { id := "task-20260101-0001" } with
    status := .completed, currentStep := 1, completedSteps := ["build"] }

def exampleEnvelopes : List Envelope := (run exampleFormula exampleOps).events.map fun event => ⟨0, event⟩

theorem projection_agrees_ship :
    ∃ data, projectMoleculesFromEvents exampleEnvelopes exampleMol.id = some data ∧
      data.currentStep = 1 ∧ data.completedSteps = ["step-0"] ∧ data.status = .completed := by
  have hremote : ∀ op ∈ exampleOps, ∀ mol, runsGate exampleFormula mol op = false := by
    intro op hop mol
    simp only [exampleOps, List.mem_cons, List.not_mem_nil, or_false] at hop
    obtain rfl | rfl | rfl | rfl := hop
    all_goals rfl
  have hgate : Gateless exampleFormula exampleOps :=
    fun n op mol hop _ => hremote op (List.mem_of_getElem? hop) mol
  have hstatus : StatusAnnounced exampleFormula exampleOps := by
    intro n op mol hop hmol
    match n with
    | 0 | 1 | 2 =>
      cases hop
      trivial
    | 3 =>
      cases hop
      cases hmol
      exact fun _ => rfl
    | n + 4 => cases hop
  have hmol : (run exampleFormula exampleOps).mol = some exampleMol := by decide
  have henv : exampleEnvelopes.map Envelope.event = (run exampleFormula exampleOps).events := by decide
  obtain ⟨data, hdata, hcurrent, hsteps, hdata'⟩ := projection_agrees hgate hmol henv
  exact ⟨data, hdata, hcurrent, hsteps, hdata' hstatus⟩

/-- The log knows the step `build` of the formula as `step-0` only. -/
theorem projection_renames_steps :
    ¬∀ (toml : String → Except String RawFormula) (text : String) (formula : Formula) (ops : List Op)
      (mol : MoleculeData) (envelopes : List Envelope),
      Formula.parse toml text = .ok formula → (run formula ops).mol = some mol →
      envelopes.map Envelope.event = (run formula ops).events →
      ∃ data, projectMoleculesFromEvents envelopes mol.id = some data ∧ position data = position mol := by
  intro h
  obtain ⟨data, hdata, hpos⟩ := h (fun _ => .ok exampleRaw) "" exampleFormula exampleOps exampleMol
    exampleEnvelopes (by decide) (by decide) (by decide)
  have hprojected : (projectMoleculesFromEvents exampleEnvelopes exampleMol.id).map position =
      some ⟨.completed, 1, ["step-0"]⟩ := by decide
  rw [hdata, Option.map_some, hpos] at hprojected
  revert hprojected
  decide

section Lifecycle

variable {formula : Formula} {mol : MoleculeData}

/-- What holds of a molecule whatever was done to it. -/
structure Walked (formula : Formula) (mol : MoleculeData) : Prop where
  total : mol.totalSteps = formula.steps.length
  freeze : mol.freezeOnLastStep = formula.freezeOnLastStep
  le : mol.currentStep ≤ formula.steps.length
  completed : mol.completedSteps = (stepIds formula).take mol.currentStep
  ended : mol.status = .completed → mol.currentStep = formula.steps.length

theorem walked_of_progress (h : Progress formula mol) : Walked formula mol where
  total := h.total
  freeze := h.freeze
  le := h.le
  completed := h.completed
  ended hstatus := by
    by_contra hne
    simpa [hstatus] using h.under (Nat.lt_of_le_of_ne h.le hne)

theorem Walked.evolve (h : Walked formula mol) (call : EvolveCall) :
    Walked formula (evolve formula mol call).mol ∧ mol.currentStep ≤ (evolve formula mol call).mol.currentStep := by
  obtain ⟨e, heq, -⟩ | ⟨reason, e, heq, -⟩ | ⟨outcome, hcore, heq⟩ := evolve_cases formula mol call
  · rw [heq]
    exact ⟨h, Nat.le_refl _⟩
  · rw [heq]
    exact ⟨⟨h.total, h.freeze, h.le, h.completed, fun hstatus => by cases hstatus⟩, Nat.le_refl _⟩
  · obtain ⟨hstatus, step, hstep, -⟩ := evolve_ok hcore
    have hlt : mol.currentStep < formula.steps.length := (List.getElem?_eq_some_iff.mp hstep).1
    have hp : Progress formula mol := ⟨h.total, h.freeze, h.le, h.completed, fun _ => hstatus.imp_right Or.inl,
      fun hlast => absurd hlast (Nat.ne_of_lt hlt)⟩
    obtain ⟨hsaved, hk, hrun⟩ := progress_advanced hp hcore call.now
    obtain ⟨hhooked, hnext⟩ := progress_hooked hsaved hrun call.caller call.now
    obtain ⟨hsealed, hsame⟩ := progress_sealed hhooked call.briefingSeal
    rw [heq, commitAdvance]
    dsimp only
    split
    · exact ⟨walked_of_progress hhooked, by dsimp only; omega⟩
    · exact ⟨walked_of_progress hsealed, by dsimp only; omega⟩

theorem applyOp_keeps (formula : Formula) (mol : MoleculeData) {op : Op} (hop : ∀ call, op ≠ .evolve call) :
    (applyOp formula mol op).1.freezeOnLastStep = mol.freezeOnLastStep ∧
      ((applyOp formula mol op).1.status = .completed → mol.status = .completed) := by
  cases op <;> grind [applyOp, freeze, thaw, stuck, collapse, collapsedRecord, MoleculeData.releaseProcess]

theorem Walked.applyOp (h : Walked formula mol) (op : Op) :
    Walked formula (applyOp formula mol op).1 ∧ mol.currentStep ≤ (applyOp formula mol op).1.currentStep := by
  have hkept (hop : ∀ call, op ≠ .evolve call)
      (hs : Steady mol (Projection.applyOp formula mol op).1 (Projection.applyOp formula mol op).2) :
      Walked formula (Projection.applyOp formula mol op).1 ∧
        mol.currentStep ≤ (Projection.applyOp formula mol op).1.currentStep := by
    obtain ⟨hfreeze, hstatus⟩ := applyOp_keeps formula mol hop
    exact ⟨⟨hs.total.trans h.total, hfreeze.trans h.freeze, hs.current.trans_le h.le,
      by rw [hs.completed, hs.current, h.completed], fun hc => hs.current.trans (h.ended (hstatus hc))⟩, hs.current.ge⟩
  cases op with
  | nucleate request => exact ⟨h, Nat.le_refl _⟩
  | evolve call => exact h.evolve call
  | freeze reason now => exact hkept (by simp) (freeze_steady mol reason now).1
  | thaw reason now => exact hkept (by simp) (thaw_steady mol reason now).1
  | stuck reason now => exact hkept (by simp) (stuck_steady mol reason now).1
  | collapse request now => exact hkept (by simp) (collapse_steady mol request now).1

theorem applyOp_ended (h : mol.status = .completed ∨ mol.status = .collapsed) (op : Op) :
    applyOp formula mol op = (mol, []) := by
  cases op <;> grind [applyOp, LiveOps.evolve, freeze, thaw, stuck, collapse]

theorem step_some {s : Live} (h : s.mol = some mol) (op : Op) :
    step formula s op = ⟨some (applyOp formula mol op).1, s.events ++ (applyOp formula mol op).2⟩ := by
  simp only [step, h]

theorem walked_stateAt {ops : List Op} {n : Nat} (h : (stateAt (step formula) start ops n).mol = some mol) :
    Walked formula mol := by
  refine stateAt_preserves (P := fun s => ∀ mol, s.mol = some mol → Walked formula mol) start
    (fun k op _ ih next hnext => ?_) (Nat.zero_le n) (fun _ hmol => by cases hmol) mol h
  cases hmol : (stateAt (step formula) start ops k).mol with
  | none =>
    simp only [step, hmol] at hnext
    cases op with
    | nucleate request =>
      cases hnext
      exact ⟨rfl, rfl, Nat.zero_le _, rfl, fun hstatus => by cases hstatus⟩
    | _ => exact ih next hnext
  | some before =>
    rw [step_some hmol] at hnext
    cases hnext
    exact ((ih before hmol).applyOp op).1

/-- Whatever is done to a molecule, gates and failed advances included, its completed steps are
the first ones of the formula and none is taken back. What has ended stays as it is. -/
theorem run_walks {ops : List Op} {n m : Nat} (hnm : n ≤ m)
    (h : (stateAt (step formula) start ops n).mol = some mol) :
    ∃ later, (stateAt (step formula) start ops m).mol = some later ∧ Walked formula later ∧
      mol.completedSteps <+: later.completedSteps ∧
      (mol.status = .completed ∨ mol.status = .collapsed →
        stateAt (step formula) start ops m = stateAt (step formula) start ops n) := by
  obtain ⟨later, hlater, hle, hended⟩ := stateAt_preserves (P := fun s => ∃ later, s.mol = some later ∧
    mol.currentStep ≤ later.currentStep ∧ (mol.status = .completed ∨ mol.status = .collapsed →
      s = stateAt (step formula) start ops n)) start (fun k op _ ⟨before, hbefore, hle, hended⟩ => by
      refine ⟨_, congrArg Live.mol (step_some hbefore op),
        hle.trans ((walked_stateAt hbefore).applyOp op).2, fun hend => ?_⟩
      have hsame := hended hend
      cases (hsame ▸ hbefore).symm.trans h
      rw [step_some hbefore, applyOp_ended hend, List.append_nil, ← hbefore]
      exact hsame) hnm ⟨mol, h, Nat.le_refl _, fun _ => rfl⟩
  have hw := walked_stateAt hlater
  refine ⟨later, hlater, hw, ?_, hended⟩
  rw [(walked_stateAt h).completed, hw.completed]
  exact List.take_prefix_take_left hle

theorem run_walks_ship : stateAt (step exampleFormula) start (exampleOps ++ [.freeze none 3]) 5 =
    stateAt (step exampleFormula) start (exampleOps ++ [.freeze none 3]) 4 := by
  obtain ⟨later, -, -, -, hended⟩ :=
    @run_walks exampleFormula exampleMol (exampleOps ++ [.freeze none 3]) 4 5 (by decide) (by decide)
  exact hended (.inl rfl)

end Lifecycle

end Cosmon.State.Projection
