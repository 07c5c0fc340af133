import Cosmon.Verify.LiveRuns

namespace Cosmon.Verify

open Cosmon.State.Molecule Cosmon.Core.Formulas Cosmon.Core.Evolve Cosmon.State.Rebuild
open Cosmon.State.LiveOps Cosmon.State.Projection

def About (id : MoleculeId) : TraceEvent → Prop
  | .moleculeStatusChanged i _ _ | .moleculeStepCompleted i _ _ | .moleculeCompleted i
  | .moleculeCollapsed i | .ofMolecule _ i => i = id
  | .workerSpawned _ | .observed _ => True
  | _ => False

def MoleculeTraceState.next (m : MoleculeTraceState) : TraceEvent → MoleculeTraceState
  | .moleculeStatusChanged _ _ target => { m with status := (MoleculeStatus.fromStr target).getD m.status }
  | .moleculeStepCompleted _ step total => { m with lastStep := some step, totalSteps := some total }
  | .moleculeCompleted _ => { m with status := .completed }
  | .moleculeCollapsed _ => { m with status := .collapsed }
  | _ => m

def MoleculeTraceState.Legal (m : MoleculeTraceState) : TraceEvent → Prop
  | .moleculeStatusChanged _ source target =>
    ∃ parsed, MoleculeStatus.fromStr source = some m.status ∧ MoleculeStatus.fromStr target = some parsed ∧
      allowed m.status parsed = true ∧ isTerminal m.status = false
  | .moleculeStepCompleted _ step total =>
    isTerminal m.status = false ∧ (∀ prev, m.lastStep = some prev → prev ≤ step) ∧ step < total ∧
      ∀ prev, m.totalSteps = some prev → prev = total
  | .moleculeCompleted _ | .moleculeCollapsed _ => isTerminal m.status = false
  | _ => True

def MoleculeTraceState.Certified (m : MoleculeTraceState) : List TraceEvent → Prop
  | [] => True
  | event :: rest => m.Legal event ∧ MoleculeTraceState.Certified (m.next event) rest

variable {s : SchedulerState} {id : MoleculeId} {m : MoleculeTraceState}

theorem about_legal {event : TraceEvent} (hm : s.molecules id = some m) (h : About id event) :
    Legal s event ↔ m.Legal event := by
  cases event
  all_goals cases h
  all_goals simp [Legal, MoleculeTraceState.Legal, hm]

theorem about_apply {event : TraceEvent} (hm : s.molecules id = some m) (h : About id event) :
    (s.apply event).molecules = Function.update s.molecules id (some (m.next event)) := by
  have hsame : Function.update s.molecules id (some m) = s.molecules := by
    rw [← hm, Function.update_eq_self]
  cases event
  all_goals cases h
  case moleculeStatusChanged source target =>
    simp only [SchedulerState.apply, SchedulerState.project, MoleculeTraceState.next]
    cases MoleculeStatus.fromStr target with
    | none => exact hsame.symm
    | some parsed => simp [SchedulerState.amend, hm]
  all_goals
    simp [SchedulerState.apply, SchedulerState.project, MoleculeTraceState.next, SchedulerState.amend, hm,
      hsame]

theorem about_certified {events : List TraceEvent} (hm : s.molecules id = some m)
    (h : ∀ event ∈ events, About id event) :
    (Certified s events ↔ m.Certified events) ∧
      (s.after events).molecules = Function.update s.molecules id (some (events.foldl .next m)) := by
  induction events generalizing s m with
  | nil => simp [Certified, MoleculeTraceState.Certified, SchedulerState.after, ← hm]
  | cons event rest ih =>
    obtain ⟨hevent, hrest⟩ := List.forall_mem_cons.mp h
    have happly := about_apply hm hevent
    have hnext : (s.apply event).molecules id = some (m.next event) := by
      rw [happly, Function.update_self]
    obtain ⟨hcert, hafter⟩ := ih hnext hrest
    constructor
    · rw [Certified, MoleculeTraceState.Certified, about_legal hm hevent, hcert]
    · rw [happly, Function.update_idem] at hafter
      exact hafter

theorem MoleculeTraceState.certified_append (first second : List TraceEvent) :
    m.Certified (first ++ second) ↔
      m.Certified first ∧ MoleculeTraceState.Certified (first.foldl .next m) second := by
  induction first generalizing m with
  | nil => simp [MoleculeTraceState.Certified]
  | cons event rest ih =>
    rw [List.cons_append, MoleculeTraceState.Certified, MoleculeTraceState.Certified, ih, and_assoc]
    rfl

def Spent (formula : Formula) (mol : MoleculeData) : Prop :=
  mol.status = .completed ∨ mol.status = .collapsed ∨ formula.steps.length ≤ mol.currentStep ∨
    mol.status = .frozen ∧ ∃ step, formula.steps[mol.currentStep]? = some step ∧ SelfRun step = true

/-- The replay knows a molecule as far as the log tells: it takes it for pending until
its last step is completed. -/
structure Matches (formula : Formula) (mol : MoleculeData) (m : MoleculeTraceState) : Prop where
  total : mol.totalSteps = formula.steps.length
  seen : ∀ total, m.totalSteps = some total → total = formula.steps.length
  last : ∀ step, m.lastStep = some step → step ≤ mol.currentStep
  status : m.status = .pending ∨ m.status = .completed ∧ Spent formula mol

/-- What comes of a molecule when no step is completed. -/
structure Idle (formula : Formula) (mol next : MoleculeData) : Prop where
  id : next.id = mol.id
  total : next.totalSteps = mol.totalSteps
  current : mol.currentStep ≤ next.currentStep
  spent : Spent formula mol → Spent formula next

def Silent (id : MoleculeId) : TraceEvent → Prop
  | .ofMolecule _ i => i = id
  | .workerSpawned _ | .observed _ => True
  | _ => False

inductive Chain (formula : Formula) : MoleculeData → MoleculeData → List TraceEvent → Prop where
  | idle {mol next : MoleculeData} {events : List TraceEvent} (h : Idle formula mol next)
      (hsilent : ∀ event ∈ events, Silent mol.id event) : Chain formula mol next events
  | advance {mol next : MoleculeData} {outcome : EvolveOutcome} {evidence : String}
      (hcore : Core.Evolve.evolve mol.status mol.currentStep mol.completedSteps formula evidence = .ok outcome)
      (hid : next.id = mol.id) (htotal : next.totalSteps = mol.totalSteps)
      (hcurrent : mol.currentStep ≤ next.currentStep)
      (hspent : outcome.newState = .completed → Spent formula next) :
      Chain formula mol next (stepEvents formula mol.id outcome)
  | trans {mol mid next : MoleculeData} {first second : List TraceEvent} (h : Chain formula mol mid first)
      (h' : Chain formula mid next second) : Chain formula mol next (first ++ second)

variable {formula : Formula} {mol next : MoleculeData} {events : List TraceEvent}

theorem Chain.same (h : Chain formula mol next events) : next.id = mol.id := by
  induction h with
  | idle h => exact h.id
  | advance _ hid => exact hid
  | trans _ _ ih ih' => exact ih'.trans ih

theorem Chain.about (h : Chain formula mol next events) : ∀ event ∈ events, About mol.id event := by
  induction h with
  | idle _ hsilent =>
    intro event hevent
    have := hsilent event hevent
    cases event
    all_goals first | exact this | cases this
  | @advance mol next outcome =>
    intro event hevent
    obtain rfl | hlast := List.mem_cons.mp hevent
    · rfl
    · split at hlast
      · rw [List.mem_singleton.mp hlast]
        rfl
      · cases hlast
  | trans h _ ih ih' =>
    intro event hevent
    obtain hfirst | hsecond := List.mem_append.mp hevent
    · exact ih event hfirst
    · exact h.same ▸ ih' event hsecond

theorem Spent.not_advanced {evidence : String} {outcome : EvolveOutcome} (h : Spent formula mol)
    (hcore : Core.Evolve.evolve mol.status mol.currentStep mol.completedSteps formula evidence =
      .ok outcome) : False := by
  obtain ⟨hstatus, step, hstep, -⟩ := evolve_ok hcore
  have hlt := (List.getElem?_eq_some_iff.mp hstep).1
  obtain h | h | h | ⟨h, -⟩ := h
  · simp [h] at hstatus
  · simp [h] at hstatus
  · omega
  · simp [h] at hstatus

theorem silent_certified (h : ∀ event ∈ events, Silent id event) :
    m.Certified events ∧ events.foldl .next m = m := by
  induction events with
  | nil => exact ⟨trivial, rfl⟩
  | cons event rest ih =>
    obtain ⟨hevent, hrest⟩ := List.forall_mem_cons.mp h
    have hone : m.Legal event ∧ m.next event = m := by
      cases event
      all_goals first | exact ⟨trivial, rfl⟩ | cases hevent
    rw [MoleculeTraceState.Certified, List.foldl_cons, hone.2]
    exact ⟨⟨hone.1, (ih hrest).1⟩, (ih hrest).2⟩

theorem Chain.certified (h : Chain formula mol next events) (hm : Matches formula mol m) :
    m.Certified events ∧ Matches formula next (events.foldl .next m) := by
  induction h generalizing m with
  | @idle mol next events h hsilent =>
    obtain ⟨hcert, hsame⟩ := silent_certified (m := m) hsilent
    rw [hsame]
    exact ⟨hcert, h.total.trans hm.total, hm.seen, fun step hstep => (hm.last step hstep).trans h.current,
      hm.status.imp_right fun hdone => ⟨hdone.1, h.spent hdone.2⟩⟩
  | @advance mol next outcome evidence hcore hid htotal hcurrent hspent =>
    obtain ⟨-, step, hstep, hdone, -⟩ := evolve_ok hcore
    have hlt := (List.getElem?_eq_some_iff.mp hstep).1
    have hpending : m.status = .pending := hm.status.resolve_right fun hdone => hdone.2.not_advanced hcore
    have hlegal : m.Legal (.moleculeStepCompleted mol.id outcome.completedStep.index formula.steps.length) := by
      rw [hdone]
      exact ⟨by rw [hpending]; rfl, hm.last, hlt, hm.seen⟩
    have hseen : ∀ total, some formula.steps.length = some total → total = formula.steps.length :=
      fun total h => (Option.some.inj h).symm
    have hreached : ∀ step, some outcome.completedStep.index = some step → step ≤ next.currentStep := by
      intro step h
      rw [← Option.some.inj h, hdone]
      exact hcurrent
    by_cases hlast : outcome.newState = .completed
    · rw [stepEvents, if_pos hlast]
      refine ⟨⟨hlegal, ?_, trivial⟩, htotal.trans hm.total, hseen, hreached, Or.inr ⟨rfl, hspent hlast⟩⟩
      rw [MoleculeTraceState.Legal, MoleculeTraceState.next, hpending]
      rfl
    · rw [stepEvents, if_neg hlast]
      exact ⟨⟨hlegal, trivial⟩, htotal.trans hm.total, hseen, hreached, Or.inl hpending⟩
  | trans _ _ ih ih' =>
    obtain ⟨hfirst, hmid⟩ := ih hm
    obtain ⟨hsecond, hnext⟩ := ih' hmid
    rw [MoleculeTraceState.certified_append, List.foldl_append]
    exact ⟨⟨hfirst, hsecond⟩, hnext⟩

theorem Idle.refl (formula : Formula) (mol : MoleculeData) : Idle formula mol mol :=
  ⟨rfl, rfl, le_rfl, fun h => h⟩

theorem Chain.refl (formula : Formula) (mol : MoleculeData) : Chain formula mol mol [] :=
  .idle (.refl formula mol) (List.forall_mem_nil _)

theorem Chain.after {mid : MoleculeData} {first : List TraceEvent} (h : Idle formula mol mid)
    (hsilent : ∀ event ∈ first, Silent mol.id event) (h' : Chain formula mid next events) :
    Chain formula mol next (first ++ events) :=
  .trans (.idle h hsilent) h'

theorem markRunning_idle (formula : Formula) (mol : MoleculeData) (now : Instant) :
    Idle formula mol (markRunning mol now) := by
  unfold markRunning
  split
  · rename_i hwaiting
    refine ⟨rfl, rfl, le_rfl, ?_⟩
    rintro (h | h | h | ⟨h, -⟩)
    · simp [h] at hwaiting
    · simp [h] at hwaiting
    · exact Or.inr (Or.inr (Or.inl h))
    · simp [h] at hwaiting
  · exact .refl formula mol

@[simp] theorem markRunning_currentStep (mol : MoleculeData) (now : Instant) :
    (markRunning mol now).currentStep = mol.currentStep := by
  unfold markRunning
  split <;> rfl

theorem collapseStep_idle (formula : Formula) (mol : MoleculeData) (now : Instant) (reason : Option String) :
    Idle formula mol (collapseStep mol now reason) :=
  ⟨rfl, rfl, le_rfl, fun _ => Or.inr (Or.inl rfl)⟩

theorem Idle.trans {mid : MoleculeData} (h : Idle formula mol mid) (h' : Idle formula mid next) :
    Idle formula mol next :=
  ⟨h'.id.trans h.id, h'.total.trans h.total, h.current.trans h'.current, fun hs => h'.spent (h.spent hs)⟩

section

variable {step : Step} (hstep : formula.steps[mol.currentStep]? = some step) (hself : SelfRun step = true)
include hstep hself

theorem advanceGateStep_chain (now : Instant) :
    Chain formula mol (advanceGateStep formula mol now).mol (advanceGateStep formula mol now).events := by
  unfold advanceGateStep
  split
  · exact .refl formula mol
  · rename_i outcome hcore
    split
    · exact .refl formula mol
    · obtain ⟨-, -, -, -, hnew⟩ := evolve_ok hcore
      obtain ⟨-, hstate⟩ | ⟨after, -, hstate⟩ := hnew
      · simp only [hstate]
        refine .advance hcore rfl rfl le_rfl fun _ => ?_
        cases formula.freezeOnLastStep
        · exact Or.inl rfl
        · exact Or.inr (Or.inr (Or.inr ⟨rfl, step, hstep, hself⟩))
      · simp only [hstate]
        exact .advance hcore rfl rfl (Nat.le_succ _) fun hlast => (by rw [hstate] at hlast; cases hlast)

theorem ranStep_chain {first : List TraceEvent} (hsilent : ∀ event ∈ first, Silent mol.id event)
    {mid : MoleculeData} (h : Idle formula mol mid) (hcurrent : mid.currentStep = mol.currentStep)
    (now : Instant) :
    Chain formula mol ((advanceGateStep formula mid now).after first).mol
      ((advanceGateStep formula mid now).after first).events := by
  refine .after h hsilent (advanceGateStep_chain ?_ hself now)
  rw [hcurrent]
  exact hstep

theorem executeGate_chain (machine : StepMachine) (now : Instant) :
    Chain formula mol (executeGate formula mol step machine now).mol
      (executeGate formula mol step machine now).events := by
  have hrunning := markRunning_idle formula mol now
  have hcollapsed (reason : Option String) := hrunning.trans (collapseStep_idle formula _ now reason)
  unfold executeGate
  dsimp only
  split
  · exact .idle hrunning (by simp [Silent])
  · split
    · exact .idle hrunning (by simp [Silent])
    · split
      · exact .idle (hcollapsed _) (by simp [Silent])
      · split
        · exact ranStep_chain hstep hself (by simp [Silent]) hrunning (markRunning_currentStep mol now) now
        · exact .idle (hcollapsed _) (by simp [Silent])

theorem executeNative_chain (machine : StepMachine) (now : Instant) :
    Chain formula mol (executeNative formula mol step machine now).mol
      (executeNative formula mol step machine now).events := by
  have hrunning := markRunning_idle formula mol now
  unfold executeNative
  dsimp only
  split
  · exact .idle (collapseStep_idle formula mol now _) (by simp [Silent])
  · split
    · exact .idle hrunning (by simp [Silent])
    · split
      · exact ranStep_chain hstep hself (by simp [Silent]) hrunning (markRunning_currentStep mol now) now
      · exact .idle (hrunning.trans (collapseStep_idle formula _ now _)) (by simp [Silent])

theorem executeQuery_chain (machine : StepMachine) (now : Instant) (query : QuerySpec) :
    Chain formula mol (executeQuery formula mol machine now query).mol
      (executeQuery formula mol machine now query).events := by
  have hrunning := markRunning_idle formula mol now
  unfold executeQuery
  dsimp only
  split
  · exact .idle (hrunning.trans (collapseStep_idle formula _ now _)) (List.forall_mem_nil _)
  · refine ranStep_chain hstep hself (by simp [Silent]) ?_ ?_ now
    · exact ⟨hrunning.id, hrunning.total, hrunning.current, hrunning.spent⟩
    · exact markRunning_currentStep mol now

theorem executeLlm_chain (machine : StepMachine) (now : Instant) (spec : RawLlmSpec) :
    Chain formula mol (executeLlm formula mol machine now spec).mol
      (executeLlm formula mol machine now spec).events := by
  have hrunning := markRunning_idle formula mol now
  have htimeouts (n : Nat) :
      ∀ event ∈ List.replicate n (TraceEvent.observed "external_channel_timeout"), Silent mol.id event := by
    intro event hevent
    rw [List.eq_of_mem_replicate hevent]
    trivial
  unfold executeLlm
  dsimp only
  split
  · exact .idle (collapseStep_idle formula mol now _) (List.forall_mem_nil _)
  · exact .idle hrunning (htimeouts _)
  · exact ranStep_chain hstep hself (htimeouts _) hrunning (markRunning_currentStep mol now) now
  · exact .idle (hrunning.trans (collapseStep_idle formula _ now _)) (htimeouts _)

end

theorem nativeCascade_chain (machine : StepMachine) (now : Instant) (fuel : Nat) (mol : MoleculeData) :
    Chain formula mol (nativeCascade formula machine now fuel mol).mol
      (nativeCascade formula machine now fuel mol).events := by
  induction fuel generalizing mol with
  | zero => exact .refl formula mol
  | succ fuel ih =>
    unfold nativeCascade
    split
    · exact .refl formula mol
    · split
      · exact .refl formula mol
      · rename_i next hnext
        split
        · exact .refl formula mol
        · rename_i hnative
          have hself : SelfRun next = true := by
            cases hn : next.native with
            | none => simp [hn] at hnative
            | some native => simp [SelfRun, hn]
          have hone := executeNative_chain hnext hself machine now
          dsimp only
          split
          · exact .trans hone (ih _)
          · exact hone

/-- The dispatch of a worker wakes no molecule that was frozen at a step of this
process. -/
theorem dispatchWorker_chain (call : TackleCall) (halive : isTerminal mol.status = false)
    (hroute : ∀ step, formula.steps[mol.currentStep]? = some step → SelfRun step = false) :
    Chain formula mol (dispatchWorker mol call).mol (dispatchWorker mol call).events := by
  have hspent : Spent formula mol → formula.steps.length ≤ mol.currentStep := by
    rintro (h | h | h | ⟨-, step, hstep, hself⟩)
    · simp [h, isTerminal] at halive
    · simp [h, isTerminal] at halive
    · exact h
    · rw [hroute step hstep] at hself
      cases hself
  have hidle {next : MoleculeData} (hid : next.id = mol.id) (htotal : next.totalSteps = mol.totalSteps)
      (hcurrent : next.currentStep = mol.currentStep) : Idle formula mol next :=
    ⟨hid, htotal, hcurrent.ge, fun h => Or.inr (Or.inr (Or.inl (hcurrent ▸ hspent h)))⟩
  have hnotes (worker : WorkerId) :
      ∀ event ∈ call.notes.map TraceEvent.observed ++ [.workerSpawned worker], Silent mol.id event := by
    intro event hevent
    obtain hnote | hspawn := List.mem_append.mp hevent
    · obtain ⟨note, -, rfl⟩ := List.mem_map.mp hnote
      trivial
    · rw [List.mem_singleton.mp hspawn]
      trivial
  unfold dispatchWorker
  cases call.dispatch with
  | refused => exact .refl formula mol
  | recorded record env => exact .idle (hidle rfl rfl rfl) (hnotes record.worker)
  | rolledBack record env => exact .idle (hidle rfl rfl rfl) (hnotes record.worker)

theorem tackle_chain (formula : Formula) (mol : MoleculeData) (call : TackleCall) :
    Chain formula mol (tackle formula mol call).mol (tackle formula mol call).events := by
  unfold tackle
  by_cases hrefused : refuses mol call = true
  · rw [if_pos hrefused]
    exact .refl formula mol
  · have halive : isTerminal mol.status = false := by
      simp only [refuses, Bool.or_eq_true, not_or, Bool.not_eq_true] at hrefused
      exact hrefused.1.1.2
    rw [if_neg hrefused]
    cases hstep : formula.steps[mol.currentStep]? with
    | none =>
      refine dispatchWorker_chain call halive fun step h => ?_
      rw [hstep] at h
      cases h
    | some step =>
      dsimp only
      by_cases hgate : step.command.isSome = true
      · rw [if_pos hgate]
        exact executeGate_chain hstep (by simp [SelfRun, hgate]) call.machine call.now
      · rw [if_neg hgate]
        cases hquery : step.query with
        | some query => exact executeQuery_chain hstep (by simp [SelfRun, hquery]) call.machine call.now query
        | none =>
          cases hllm : step.llm with
          | some spec => exact executeLlm_chain hstep (by simp [SelfRun, hllm]) call.machine call.now spec
          | none =>
            dsimp only
            by_cases hnative : step.native.isSome = true
            · have hone := executeNative_chain hstep (by simp [SelfRun, hnative]) call.machine call.now
              rw [if_pos hnative]
              split
              · exact .trans hone (nativeCascade_chain call.machine call.now _ _)
              · exact hone
            · rw [if_neg hnative]
              refine dispatchWorker_chain call halive fun other h => ?_
              obtain rfl : step = other := Option.some.inj (hstep.symm.trans h)
              simp [SelfRun, hquery, hllm, hgate, hnative]

theorem accepted_chain {evidence : String} {outcome : EvolveOutcome}
    (htotal : mol.totalSteps = formula.steps.length)
    (hcore : Core.Evolve.evolve mol.status mol.currentStep mol.completedSteps formula evidence = .ok outcome)
    (stepId : StepId) (now : Instant) :
    Chain formula mol (accepted mol stepId outcome now) (stepEvents formula mol.id outcome) := by
  obtain ⟨-, step, hstep, -, hnew⟩ := evolve_ok hcore
  have hlt := (List.getElem?_eq_some_iff.mp hstep).1
  unfold accepted
  obtain ⟨-, hstate⟩ | ⟨after, -, hstate⟩ := hnew
  · simp only [hstate]
    exact .advance hcore rfl rfl (htotal ▸ hlt.le) fun _ => Or.inr (Or.inr (Or.inl htotal.ge))
  · simp only [hstate]
    exact .advance hcore rfl rfl (Nat.le_succ _) fun hlast => (by rw [hstate] at hlast; cases hlast)

theorem acceptWorkerTurn_chain (htotal : mol.totalSteps = formula.steps.length) (call : AcceptCall) :
    Chain formula mol (acceptWorkerTurn formula mol call).mol
      (acceptWorkerTurn formula mol call).events := by
  unfold acceptWorkerTurn
  split
  · exact .refl formula mol
  · split
    · exact .refl formula mol
    · split
      · exact .refl formula mol
      · split
        · exact .refl formula mol
        · split
          · exact .refl formula mol
          · split
            · exact .refl formula mol
            · split
              · exact .refl formula mol
              · split
                · exact .refl formula mol
                · rename_i hcore
                  exact accepted_chain htotal hcore _ call.now

/-- An advance of the command line that goes through, and runs the step after as a gate
that passes. -/
def PassesGate (formula : Formula) (mol : MoleculeData) (call : EvolveCall) : Prop :=
  ∃ machine next command result, call.caller = .cli machine ∧
    formula.steps[mol.currentStep + 1]? = some next ∧ next.command = some command ∧
    machine.trusted = .ok () ∧ (machine.shell command).success = true ∧
    (evolve formula mol call).result = .ok result

theorem afterAdvance_cases (caller : Caller) (formula : Formula) (updated : MoleculeData)
    (outcome : EvolveOutcome) (now : Instant) :
    let hooked := caller.afterAdvance formula updated outcome now
    (hooked.events = [] ∧ (hooked.mol = updated ∨ ∃ reason, hooked.mol = gateFailed updated reason now)) ∨
    ∃ machine k next command, caller = .cli machine ∧
      (∃ stepId title, outcome.newState = .active k stepId title) ∧
      formula.steps[k]? = some next ∧ next.command = some command ∧
      machine.trusted = .ok () ∧ (machine.shell command).success = true ∧ hooked.result = .ok () := by
  cases caller with
  | remote => exact Or.inl ⟨rfl, Or.inl rfl⟩
  | cli machine =>
    cases hstate : outcome.newState with
    | completed => simp [Caller.afterAdvance, hstate]
    | active k stepId title =>
      cases hnext : formula.steps[k]? with
      | none => simp [Caller.afterAdvance, hstate, hnext]
      | some next =>
        cases hcommand : next.command with
        | none => simp [Caller.afterAdvance, hstate, hnext, hcommand]
        | some command =>
          simp only [Caller.afterAdvance, hstate, hnext, hcommand]
          unfold runGate
          split
          · exact Or.inl ⟨rfl, Or.inl rfl⟩
          · rename_i htrusted
            dsimp only
            split
            · rename_i hran
              split
              · exact Or.inl ⟨rfl, Or.inl rfl⟩
              · split
                · exact Or.inl ⟨rfl, Or.inl rfl⟩
                · exact Or.inr ⟨machine, k, next, command, rfl, ⟨stepId, title, rfl⟩, hnext, hcommand,
                    htrusted, hran, rfl⟩
            · exact Or.inl ⟨rfl, Or.inr ⟨_, rfl⟩⟩

theorem filterMap_advanceEvents (mol : MoleculeData) (outcome : EvolveOutcome) (evidence : String)
    (htotal : mol.totalSteps = formula.steps.length) :
    (advanceEvents mol outcome evidence).filterMap view = stepEvents formula mol.id outcome := by
  unfold advanceEvents stepEvents
  by_cases hlast : outcome.newState = .completed
  · simp [hlast, view, htotal]
  · simp [hlast, view, htotal]

theorem seal_chain (formula : Formula) (mol : MoleculeData) (briefing : Option BriefingSeal) :
    Chain formula mol (sealBriefing mol briefing).1 ((sealBriefing mol briefing).2.filterMap view) := by
  cases briefing with
  | none => exact .refl formula mol
  | some briefing =>
    exact .idle ⟨rfl, rfl, le_rfl, fun h => h⟩ (by simp [sealBriefing, view, Silent])

theorem evolve_chain (htotal : mol.totalSteps = formula.steps.length) {call : EvolveCall}
    (hquiet : ¬PassesGate formula mol call) :
    Chain formula mol (evolve formula mol call).mol ((evolve formula mol call).events.filterMap view) := by
  obtain ⟨e, heq, -⟩ | ⟨reason, e, heq, -⟩ | ⟨outcome, hcore, heq⟩ := evolve_cases formula mol call
  · rw [heq]
    exact .refl formula mol
  · have hopen : ¬(mol.status = .completed ∨ mol.status = .collapsed) := by
      intro hdone
      rw [State.LiveOps.evolve, if_pos hdone] at heq
      have := congrArg (fun a : Applied EvolveOpError EvolveView => a.events) heq
      cases this
    rw [heq]
    refine .idle ⟨rfl, rfl, le_rfl, ?_⟩ (by simp [view, Silent])
    rintro (h | h | h | ⟨-, h⟩)
    · exact absurd (Or.inl h) hopen
    · exact absurd (Or.inr h) hopen
    · exact Or.inr (Or.inr (Or.inl h))
    · exact Or.inr (Or.inr (Or.inr ⟨rfl, h⟩))
  · obtain ⟨hid, hsteps, -, -⟩ := advanced_fields mol outcome call.now
    have hcurrent := (advanced_current htotal hcore call.now).1
    have hhook := afterAdvance_cases call.caller formula (advanced mol outcome call.now) outcome call.now
    dsimp only at hhook
    rw [heq, commitAdvance]
    set hooked := call.caller.afterAdvance formula (advanced mol outcome call.now) outcome call.now with hset
    obtain ⟨hsilent, hmol⟩ | ⟨machine, k, next, command, hcaller, ⟨stepId, title, hstate⟩, hnext, hcommand,
      htrusted, hran, hresult⟩ := hhook
    · have hleft : hooked.mol.id = mol.id ∧ hooked.mol.totalSteps = mol.totalSteps ∧
          hooked.mol.currentStep = mol.currentStep + 1 := by
        obtain hmol | ⟨reason, hmol⟩ := hmol
        · rw [hmol]
          exact ⟨hid, hsteps, hcurrent⟩
        · rw [hmol]
          exact ⟨hid, hsteps, hcurrent⟩
      obtain ⟨hid', htotal', hcurrent'⟩ := hleft
      dsimp only
      split
      · rw [hsilent]
        exact .idle ⟨hid', htotal', (Nat.le_succ _).trans hcurrent'.ge,
          fun h => (h.not_advanced hcore).elim⟩ (List.forall_mem_nil _)
      · rw [hsilent, List.nil_append, List.filterMap_append,
          filterMap_advanceEvents _ _ _ (htotal'.trans htotal), hid']
        refine .trans (.advance hcore hid' htotal' ((Nat.le_succ _).trans hcurrent'.ge) fun hlast => ?_)
          (seal_chain formula _ _)
        obtain ⟨-, step, hstep, -, ⟨hnone, -⟩ | ⟨after, -, hstate⟩⟩ := evolve_ok hcore
        · have hlen := List.getElem?_eq_none_iff.mp hnone
          exact Or.inr (Or.inr (Or.inl (hcurrent' ▸ hlen)))
        · rw [hstate] at hlast
          cases hlast
    · obtain ⟨-, step, hstep, -, ⟨-, hcompleted⟩ | ⟨after, hafter, hstate'⟩⟩ := evolve_ok hcore
      · rw [hstate] at hcompleted
        cases hcompleted
      · rw [hstate] at hstate'
        obtain ⟨rfl, -, -⟩ := NewState.active.inj hstate'
        refine absurd ⟨machine, next, command, ⟨hooked.mol, outcome⟩, hcaller, hnext, hcommand, htrusted, hran,
          ?_⟩ hquiet
        rw [heq, commitAdvance, ← hset]
        simp only [hresult]

end Cosmon.Verify
