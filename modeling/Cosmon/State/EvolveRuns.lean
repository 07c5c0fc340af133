import Cosmon.State.LiveOps

namespace Cosmon.State.EvolveRuns

open Cosmon.State.Molecule Cosmon.Core.Formulas Cosmon.Core.Evolve Cosmon.State.LiveOps

def stepIds (formula : Formula) : List StepId := formula.steps.map Step.id

def lastStatus (formula : Formula) : MoleculeStatus :=
  if formula.freezeOnLastStep then .frozen else .completed

/-- A molecule nucleated from the formula and handed to a worker, before its first
advance. -/
structure Started (formula : Formula) (mol : MoleculeData) : Prop where
  total : mol.totalSteps = formula.steps.length
  freeze : mol.freezeOnLastStep = formula.freezeOnLastStep
  current : mol.currentStep = 0
  completed : mol.completedSteps = []
  status : mol.status = .running ∨ mol.status = .queued

theorem started_nucleate (formula : Formula) (request : NucleateRequest) {status : MoleculeStatus}
    (h : status = .running ∨ status = .queued) :
    Started formula { nucleate formula request with status := status } :=
  ⟨rfl, rfl, rfl, rfl, h⟩

def evolveAll (formula : Formula) : MoleculeData → List EvolveCall → Except EvolveOpError MoleculeData
  | mol, [] => .ok mol
  | mol, call :: calls =>
    match (evolve formula mol call).result with
    | .error e => .error e
    | .ok _ => evolveAll formula (evolve formula mol call).mol calls

/-- The steps completed are the first ones, and the status follows their number. -/
structure Progress (formula : Formula) (mol : MoleculeData) : Prop where
  total : mol.totalSteps = formula.steps.length
  freeze : mol.freezeOnLastStep = formula.freezeOnLastStep
  le : mol.currentStep ≤ formula.steps.length
  completed : mol.completedSteps = (stepIds formula).take mol.currentStep
  under : mol.currentStep < formula.steps.length →
    mol.status = .running ∨ mol.status = .queued ∨ mol.status = .collapsed
  last : mol.currentStep = formula.steps.length → mol.status = lastStatus formula

theorem Started.progress {formula : Formula} {mol : MoleculeData} (h : Started formula mol)
    (hne : formula.steps ≠ []) : Progress formula mol where
  total := h.total
  freeze := h.freeze
  le := by
    rw [h.current]
    exact Nat.zero_le _
  completed := by
    rw [h.completed, h.current]
    rfl
  under := fun _ => h.status.imp id Or.inl
  last := by
    rw [h.current]
    intro hlen
    exact absurd (List.length_eq_zero_iff.mp hlen.symm) hne

theorem take_stepIds_succ {formula : Formula} {k : Nat} {step : Step}
    (h : formula.steps[k]? = some step) :
    (stepIds formula).take (k + 1) = (stepIds formula).take k ++ [step.id] := by
  rw [List.take_add_one, stepIds, List.getElem?_map, h]
  rfl

/-- One admitted advance. The gate of the command line notes its step in the same
way, so the record is taken apart into what both change. -/
theorem progress_next {formula : Formula} {mol next : MoleculeData} {outcome : EvolveOutcome}
    {evidence : String} (h : Progress formula mol)
    (hcore : Core.Evolve.evolve mol.status mol.currentStep mol.completedSteps formula evidence =
      .ok outcome)
    (htotal : next.totalSteps = mol.totalSteps) (hfreeze : next.freezeOnLastStep = mol.freezeOnLastStep)
    (hsteps : next.completedSteps = mol.completedSteps ++ [outcome.completedStep.id])
    (hactive : ∀ k id title, outcome.newState = .active k id title →
      next.currentStep = k ∧ next.status = .running)
    (hcompleted : outcome.newState = .completed → next.currentStep = mol.totalSteps ∧
      next.status = if mol.freezeOnLastStep then .frozen else .completed) :
    Progress formula next ∧ next.currentStep = mol.currentStep + 1 ∧
      (outcome.newState ≠ .completed → next.status = .running) := by
  obtain ⟨-, step, hstep, hdone, hnew⟩ := evolve_ok hcore
  have hlt : mol.currentStep < formula.steps.length := (List.getElem?_eq_some_iff.mp hstep).1
  have hids : next.completedSteps = (stepIds formula).take (mol.currentStep + 1) := by
    rw [hsteps, hdone, h.completed, take_stepIds_succ hstep]
  obtain ⟨hnone, hstate⟩ | ⟨after, hafter, hstate⟩ := hnew
  · have hlen : formula.steps.length = mol.currentStep + 1 := by
      have := List.getElem?_eq_none_iff.mp hnone
      omega
    obtain ⟨hcur, hstatus⟩ := hcompleted hstate
    have hcur' : next.currentStep = mol.currentStep + 1 := by rw [hcur, h.total, hlen]
    refine ⟨⟨htotal.trans h.total, hfreeze.trans h.freeze, ?_, ?_, ?_, ?_⟩, hcur', ?_⟩
    · omega
    · rw [hcur', hids]
    · intro hunder
      omega
    · intro _
      rw [hstatus, h.freeze]
      rfl
    · exact fun hn => absurd hstate hn
  · have hlen : mol.currentStep + 1 < formula.steps.length := (List.getElem?_eq_some_iff.mp hafter).1
    obtain ⟨hcur, hstatus⟩ := hactive _ _ _ hstate
    refine ⟨⟨htotal.trans h.total, hfreeze.trans h.freeze, ?_, ?_, ?_, ?_⟩, hcur, fun _ => hstatus⟩
    · omega
    · rw [hcur, hids]
    · exact fun _ => Or.inl hstatus
    · intro hlast
      omega

theorem progress_advanced {formula : Formula} {mol : MoleculeData} {outcome : EvolveOutcome}
    {evidence : String} (h : Progress formula mol)
    (hcore : Core.Evolve.evolve mol.status mol.currentStep mol.completedSteps formula evidence =
      .ok outcome) (now : Instant) :
    Progress formula (advanced mol outcome now) ∧
      (advanced mol outcome now).currentStep = mol.currentStep + 1 ∧
      (outcome.newState ≠ .completed → (advanced mol outcome now).status = .running) := by
  apply progress_next h hcore
  all_goals
    cases hstate : outcome.newState with
    | active k id title => simp [advanced, hstate]
    | completed => simp [advanced, hstate]

theorem progress_gatePassed {formula : Formula} {mol : MoleculeData} {outcome : EvolveOutcome}
    {evidence : String} (h : Progress formula mol) (hrun : mol.status = .running)
    (hcore : Core.Evolve.evolve mol.status mol.currentStep mol.completedSteps formula evidence =
      .ok outcome) (now : Instant) :
    Progress formula (gatePassed mol outcome now) ∧
      (gatePassed mol outcome now).currentStep = mol.currentStep + 1 ∧
      (outcome.newState ≠ .completed → (gatePassed mol outcome now).status = .running) := by
  apply progress_next h hcore
  all_goals
    cases hstate : outcome.newState with
    | active k id title => simp [gatePassed, hstate, hrun]
    | completed => simp [gatePassed, hstate]

theorem lastStatus_ne_running (formula : Formula) : lastStatus formula ≠ .running := by
  rw [lastStatus]
  split
  · exact fun h => nomatch h
  · exact fun h => nomatch h

theorem lt_of_running {formula : Formula} {mol : MoleculeData} (h : Progress formula mol)
    (hrun : mol.status = .running) : mol.currentStep < formula.steps.length := by
  apply Nat.lt_of_le_of_ne h.le
  intro hlast
  exact lastStatus_ne_running formula ((h.last hlast).symm.trans hrun)

theorem progress_gateFailed {formula : Formula} {mol : MoleculeData} (h : Progress formula mol)
    (hrun : mol.status = .running) (reason : String) (now : Instant) :
    Progress formula (gateFailed mol reason now) where
  total := h.total
  freeze := h.freeze
  le := h.le
  completed := h.completed
  under := fun _ => Or.inr (Or.inr rfl)
  last := fun hlast : mol.currentStep = _ => absurd hlast (Nat.ne_of_lt (lt_of_running h hrun))

theorem progress_runGate {formula : Formula} {mol : MoleculeData} (h : Progress formula mol)
    (hrun : mol.status = .running) (machine : Machine) (next : Step) (command : String) (now : Instant) :
    let hooked := runGate machine formula mol next command now
    Progress formula hooked.mol ∧
      (hooked.mol.currentStep = mol.currentStep ∨
        (Caller.cli machine ≠ .remote ∧ hooked.mol.currentStep = mol.currentStep + 1)) := by
  dsimp only
  rw [runGate]
  split
  · exact ⟨h, Or.inl rfl⟩
  · dsimp only
    split
    · split
      · exact ⟨h, Or.inl rfl⟩
      · split
        · exact ⟨h, Or.inl rfl⟩
        · rename_i outcome hcore
          obtain ⟨hp, hk, -⟩ := progress_gatePassed h hrun hcore now
          exact ⟨hp, Or.inr ⟨(fun hc => nomatch hc), hk⟩⟩
    · exact ⟨progress_gateFailed h hrun _ now, Or.inl rfl⟩

theorem progress_hooked {formula : Formula} {mol : MoleculeData} {outcome : EvolveOutcome}
    (h : Progress formula mol) (hrun : outcome.newState ≠ .completed → mol.status = .running)
    (caller : Caller) (now : Instant) :
    let hooked := caller.afterAdvance formula mol outcome now
    Progress formula hooked.mol ∧
      (hooked.mol.currentStep = mol.currentStep ∨
        (caller ≠ .remote ∧ hooked.mol.currentStep = mol.currentStep + 1)) := by
  cases caller with
  | remote => exact ⟨h, Or.inl rfl⟩
  | cli machine =>
    cases hstate : outcome.newState with
    | completed =>
      have hquiet : (Caller.cli machine).afterAdvance formula mol outcome now = ⟨mol, [], .ok ()⟩ := by
        simp only [Caller.afterAdvance, hstate]
      rw [hquiet]
      exact ⟨h, Or.inl rfl⟩
    | active k id title =>
      have hmol : mol.status = .running := hrun (by rw [hstate]; exact fun h => nomatch h)
      simp only [Caller.afterAdvance, hstate]
      split
      · exact ⟨h, Or.inl rfl⟩
      · split
        · exact ⟨h, Or.inl rfl⟩
        · exact progress_runGate h hmol machine _ _ now

theorem progress_sealed {formula : Formula} {mol : MoleculeData} (h : Progress formula mol)
    (s : Option BriefingSeal) :
    Progress formula (sealBriefing mol s).1 ∧ (sealBriefing mol s).1.currentStep = mol.currentStep := by
  cases s with
  | none => exact ⟨h, rfl⟩
  | some s => exact ⟨⟨h.total, h.freeze, h.le, h.completed, h.under, h.last⟩, rfl⟩

/-- A successful call completes the current step, and with an inline gate the one
after it. -/
theorem progress_evolve {formula : Formula} {mol : MoleculeData} {call : EvolveCall} {view : EvolveView}
    (h : Progress formula mol) (hok : (evolve formula mol call).result = .ok view) :
    Progress formula (evolve formula mol call).mol ∧
      view.outcome.completedStep.index = mol.currentStep ∧
      ((evolve formula mol call).mol.currentStep = mol.currentStep + 1 ∨
        (call.caller ≠ .remote ∧ (evolve formula mol call).mol.currentStep = mol.currentStep + 2)) := by
  obtain ⟨e, heq, -⟩ | ⟨reason, e, heq, -⟩ | ⟨outcome, hcore, heq⟩ := evolve_cases formula mol call
  · rw [heq] at hok
    cases hok
  · rw [heq] at hok
    cases hok
  · rw [heq] at hok ⊢
    obtain ⟨hsaved, hk, hrun⟩ := progress_advanced h hcore call.now
    obtain ⟨hhooked, hstep⟩ := progress_hooked hsaved hrun call.caller call.now
    obtain ⟨-, step, -, hdone, -⟩ := evolve_ok hcore
    simp only [commitAdvance] at hok ⊢
    split at hok
    · cases hok
    · cases hok
      obtain ⟨hsealed, hsame⟩ := progress_sealed hhooked call.briefingSeal
      refine ⟨hsealed, by rw [hdone], ?_⟩
      rw [hsame]
      obtain hstep | ⟨hcli, hstep⟩ := hstep
      · exact Or.inl (hstep.trans hk)
      · exact Or.inr ⟨hcli, by rw [hstep, hk]⟩

theorem progress_evolveAll {formula : Formula} {mol mol' : MoleculeData} {calls : List EvolveCall}
    (h : Progress formula mol) (hrun : evolveAll formula mol calls = .ok mol') :
    Progress formula mol' ∧ mol.currentStep + calls.length ≤ mol'.currentStep ∧
      ((∀ call ∈ calls, call.caller = .remote) → mol'.currentStep = mol.currentStep + calls.length) := by
  induction calls generalizing mol with
  | nil =>
    cases hrun
    exact ⟨h, Nat.le_refl _, fun _ => rfl⟩
  | cons call calls ih =>
    rw [evolveAll] at hrun
    split at hrun
    · cases hrun
    · rename_i view hok
      obtain ⟨hnext, -, hstep⟩ := progress_evolve h hok
      obtain ⟨hend, hle, hremote⟩ := ih hnext hrun
      rw [List.length_cons]
      refine ⟨hend, ?_, ?_⟩
      · omega
      · intro hall
        obtain ⟨hcall, hrest⟩ := List.forall_mem_cons.mp hall
        have := hremote hrest
        obtain hstep | ⟨hcli, -⟩ := hstep
        · omega
        · exact absurd hcall hcli

theorem evolve_not_unmet {formula : Formula} {mol : MoleculeData} (hf : Ordered formula.steps)
    (h : Progress formula mol) (call : EvolveCall) (step dependency : String) :
    (evolve formula mol call).result ≠ .error (.refused (.unmetDependency step dependency)) := by
  intro hunmet
  obtain ⟨e, heq, hrefused⟩ | ⟨reason, e, heq, hparked⟩ | ⟨outcome, hcore, heq⟩ :=
    evolve_cases formula mol call
  · rw [heq] at hunmet
    obtain hcore | ⟨_, _, hrange⟩ := hrefused _ (Except.error.inj hunmet)
    · rw [h.completed] at hcore
      exact evolve_no_unmet hf _ _ _ hcore
    · cases hrange
  · rw [heq] at hunmet
    cases hunmet
    obtain ⟨_, -, hbudget⟩ | ⟨_, htext⟩ := hparked
    · cases hbudget
    · cases htext
  · rw [heq] at hunmet
    simp only [commitAdvance] at hunmet
    split at hunmet
    · cases hunmet
    · cases hunmet

/-- In a formula that `parse` accepts the step ids are unique, each step stands at its
order and depends on earlier steps only. A run of successful advances from the first
step therefore completes the steps in order, without an unmet dependency, and ends
after the last of them. -/
theorem parsed_formula_runs {toml : String → Except String RawFormula} {text : String}
    {formula : Formula} (h : Formula.parse toml text = .ok formula) :
    (stepIds formula).Nodup ∧
    (∀ (i : Nat) (step : Step), formula.steps[i]? = some step → step.order = i ∧
      ∀ dep ∈ step.dependsOn,
        ∃ (j : Nat) (earlier : Step), j < i ∧ formula.steps[j]? = some earlier ∧ earlier.id = dep) ∧
    ∀ mol, Started formula mol → ∀ calls mol', evolveAll formula mol calls = .ok mol' →
      mol'.totalSteps = formula.steps.length ∧ mol'.currentStep ≤ mol'.totalSteps ∧
      mol'.completedSteps = (stepIds formula).take mol'.currentStep ∧
      mol'.completedSteps.length = mol'.currentStep ∧
      calls.length ≤ mol'.currentStep ∧
      ((∀ call ∈ calls, call.caller = .remote) → mol'.currentStep = calls.length) ∧
      (mol'.currentStep < mol'.totalSteps →
        mol'.status = .running ∨ mol'.status = .queued ∨ mol'.status = .collapsed) ∧
      (mol'.currentStep = mol'.totalSteps →
        mol'.status = lastStatus formula ∧ mol'.completedSteps = stepIds formula) ∧
      ∀ call step dependency,
        (evolve formula mol' call).result ≠ .error (.refused (.unmetDependency step dependency)) := by
  have hf := parse_ordered h
  refine ⟨hf.nodup, ?_, ?_⟩
  · intro i step hstep
    exact ⟨hf.order i step hstep, hf.depends i step hstep⟩
  · intro mol hstarted calls mol' hrun
    obtain ⟨hp, hle, hremote⟩ := progress_evolveAll (hstarted.progress hf.nonempty) hrun
    rw [hstarted.current, Nat.zero_add] at hle hremote
    have hlen : (stepIds formula).length = formula.steps.length := List.length_map _
    refine ⟨hp.total, ?_, hp.completed, ?_, hle, hremote, ?_, ?_, ?_⟩
    · rw [hp.total]
      exact hp.le
    · rw [hp.completed, List.length_take, hlen]
      exact Nat.min_eq_left hp.le
    · rw [hp.total]
      exact hp.under
    · rw [hp.total]
      intro hlast
      refine ⟨hp.last hlast, ?_⟩
      rw [hp.completed, hlast, ← hlen, List.take_length]
    · intro call step dependency
      exact evolve_not_unmet hf hp call step dependency

def exampleRaw : RawFormula :=
  { formula := "ship"
    freezeOnLastStep := true
    steps := [
      { id := "test", needs := ["build", "build"] },
      { id := "lint" },
      { id := "build" }] }

def exampleFormula : Formula :=
  let step (id : String) (needs : List String) (order : Nat) : Step :=
    { id := id, title := "", description := "", exitCriteria := none, expectedArtifacts := []
      responseArtifact := none, dependsOn := needs, order := order, validationMode := none
      verification := none, command := none, native := none, parallelLimit := none, query := none
      llm := none }
  { name := "ship", description := "", freezeOnLastStep := true, tier := .zero
    requiresCapabilities := []
    steps := [step "build" [] 0, step "test" ["build", "build"] 1, step "lint" [] 2] }

theorem exampleFormula_parsed : Formula.parse (fun _ => .ok exampleRaw) "" = .ok exampleFormula := by
  decide

def exampleStarted : MoleculeData :=
  { nucleate exampleFormula { id := "task-20260101-0001" } with status := .running }

/-- Three advances complete a formula of three steps. -/
theorem parsed_formula_runs_ship :
    ∃ mol', evolveAll exampleFormula exampleStarted (List.replicate 3 { evidence := "done" }) = .ok mol' ∧
      mol'.status = .frozen ∧ mol'.completedSteps = ["build", "test", "lint"] := by
  have hruns := parsed_formula_runs exampleFormula_parsed
  obtain ⟨mol', hrun⟩ : ∃ mol', evolveAll exampleFormula exampleStarted
      (List.replicate 3 { evidence := "done" }) = .ok mol' := ⟨_, rfl⟩
  obtain ⟨htotal, -, -, -, -, hremote, -, hlast, -⟩ :=
    hruns.2.2 exampleStarted (started_nucleate _ _ (Or.inl rfl)) _ mol' hrun
  have hcur : mol'.currentStep = 3 := hremote (by simp)
  exact ⟨mol', hrun, hlast (hcur.trans htotal.symm)⟩

end Cosmon.State.EvolveRuns
