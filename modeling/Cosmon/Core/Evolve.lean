import Cosmon.Core.Formulas
import Cosmon.Lib.Checks

namespace Cosmon.Core.Formulas

open Cosmon.Lib.Checks Cosmon.Graph.Toposort

theorem collectIds_ok {steps : List RawStep} {seen ids : List String} (hseen : seen.Nodup)
    (h : collectIds seen steps = .ok ids) :
    (∀ id, id ∈ ids ↔ id ∈ seen ∨ id ∈ steps.map RawStep.id) ∧ (steps.map RawStep.id).Nodup ∧
      ∀ id ∈ steps.map RawStep.id, id ∉ seen := by
  induction steps generalizing seen with
  | nil =>
    cases h
    exact ⟨by simp, List.nodup_nil, by simp⟩
  | cons step rest ih =>
    rw [collectIds] at h
    split at h
    · cases h
    · rename_i hfresh
      obtain ⟨hids, hnodup, hrest⟩ := ih (List.nodup_cons.mpr ⟨hfresh, hseen⟩) h
      refine ⟨?_, ?_, ?_⟩
      · intro id
        rw [hids, List.map_cons, List.mem_cons, List.mem_cons, or_assoc, or_left_comm]
      · rw [List.map_cons, List.nodup_cons]
        exact ⟨fun hmem => hrest step.id hmem List.mem_cons_self, hnodup⟩
      · rw [List.map_cons, List.forall_mem_cons]
        exact ⟨hfresh, fun id hid hmem => hrest id hid (List.mem_cons_of_mem _ hmem)⟩

theorem mem_needEdges {steps : List RawStep} {e : String × String} :
    e ∈ needEdges steps ↔ ∃ step ∈ steps, e.1 ∈ step.needs ∧ e.2 = step.id := by
  simp only [needEdges, List.mem_flatMap, List.mem_map]
  constructor
  · rintro ⟨step, hstep, dep, hdep, rfl⟩
    exact ⟨step, hstep, hdep, rfl⟩
  · rintro ⟨step, hstep, hdep, hid⟩
    exact ⟨step, hstep, e.1, hdep, Prod.ext rfl hid.symm⟩

structure Sound (steps : List RawStep) : Prop where
  nodup : (steps.map RawStep.id).Nodup
  needs : ∀ step ∈ steps, ∀ dep ∈ step.needs, dep ∈ steps.map RawStep.id

theorem Sound.mem_of_node {steps : List RawStep} (hs : Sound steps) {id : String}
    (h : id ∈ nodes (needEdges steps)) : id ∈ steps.map RawStep.id := by
  obtain ⟨e, he, hend⟩ := mem_nodes.mp h
  obtain ⟨step, hstep, hdep, hto⟩ := mem_needEdges.mp he
  obtain rfl | rfl := hend
  · exact hs.needs step hstep _ hdep
  · rw [hto]
    exact List.mem_map_of_mem hstep

theorem Sound.append_isolated {steps : List RawStep} (hs : Sound steps) {sorted : List String}
    (hnodup : sorted.Nodup) (hmem : ∀ id ∈ sorted, id ∈ steps.map RawStep.id) :
    (sorted ++ ((steps.filter fun s => s.id ∉ sorted).map RawStep.id).insertionSort (· ≤ ·)).Perm
      (steps.map RawStep.id) := by
  refine ((List.perm_insertionSort (· ≤ ·) _).append_left sorted).trans ?_
  have hisolated : ∀ id, id ∈ (steps.filter fun s => s.id ∉ sorted).map RawStep.id ↔
      id ∈ steps.map RawStep.id ∧ id ∉ sorted := by
    intro id
    simp only [List.mem_map, List.mem_filter, decide_eq_true_eq]
    constructor
    · rintro ⟨step, ⟨hstep, hout⟩, rfl⟩
      exact ⟨⟨step, hstep, rfl⟩, hout⟩
    · rintro ⟨⟨step, hstep, rfl⟩, hout⟩
      exact ⟨step, ⟨hstep, hout⟩, rfl⟩
  have hall : (sorted ++ (steps.filter fun s => s.id ∉ sorted).map RawStep.id).Nodup := by
    refine List.nodup_append.mpr ⟨hnodup, hs.nodup.sublist (List.filter_sublist.map _), ?_⟩
    rintro id hid _ hout rfl
    exact ((hisolated id).mp hout).2 hid
  apply (List.perm_ext_iff_of_nodup hall hs.nodup).mpr
  intro id
  rw [List.mem_append, hisolated]
  constructor
  · rintro (hid | hid)
    · exact hmem id hid
    · exact hid.1
  · intro hid
    by_cases hin : id ∈ sorted
    · exact Or.inl hin
    · exact Or.inr ⟨hid, hin⟩

theorem topologicalSort_ok {steps : List RawStep} {ordered : List String} (hs : Sound steps)
    (h : topologicalSort steps = .ok ordered) :
    ordered.Perm (steps.map RawStep.id) ∧
      ∀ step ∈ steps, ∀ dep ∈ step.needs, ordered.idxOf dep < ordered.idxOf step.id := by
  rw [topologicalSort] at h
  split at h
  · cases h
  · rename_i result hresult
    cases h
    obtain ⟨hnodup, hmem⟩ := toposort_nodes hresult
    refine ⟨hs.append_isolated hnodup fun id hid => hs.mem_of_node ((hmem id).mp hid), ?_⟩
    intro step hstep dep hdep
    obtain ⟨hto, hlt⟩ := toposort_ordered hresult (dep, step.id)
      (mem_needEdges.mpr ⟨step, hstep, hdep, rfl⟩)
    have hfrom : dep ∈ result := List.idxOf_lt_length_iff.mp
      (Nat.lt_trans hlt (List.idxOf_lt_length_iff.mpr hto))
    rw [List.idxOf_append_of_mem hfrom, List.idxOf_append_of_mem hto]
    exact hlt

def Step.place (s : Step) : String × List String × Nat := (s.id, s.dependsOn, s.order)

def RawStep.place (ordered : List String) (r : RawStep) : String × List String × Nat :=
  (r.id, r.needs, ordered.idxOf r.id)

theorem buildStep_ok (ordered : List String) (raw : RawStep) (step : Step)
    (h : buildStep ordered raw = .ok step) : step.place = raw.place ordered := by
  rw [buildStep] at h
  obtain ⟨_, -, h⟩ := bind_ok h
  obtain ⟨_, -, h⟩ := bind_ok h
  obtain ⟨_, -, h⟩ := bind_ok h
  obtain ⟨_, -, h⟩ := bind_ok h
  obtain ⟨_, -, h⟩ := bind_ok h
  cases h
  rfl

/-- The steps of a formula stand in an order that an advance accepts. -/
structure Ordered (steps : List Step) : Prop where
  nonempty : steps ≠ []
  nodup : (steps.map Step.id).Nodup
  order : ∀ (i : Nat) (step : Step), steps[i]? = some step → step.order = i
  depends : ∀ (i : Nat) (step : Step), steps[i]? = some step → ∀ dep ∈ step.dependsOn,
    ∃ (j : Nat) (earlier : Step), j < i ∧ steps[j]? = some earlier ∧ earlier.id = dep

theorem map_idxOf_of_nodup {ids : List String} (h : ids.Nodup) :
    ids.map (fun id => ids.idxOf id) = List.range ids.length := by
  apply List.ext_getElem
  · rw [List.length_map, List.length_range]
  · intro i hi _
    rw [List.getElem_map, List.getElem_range, h.idxOf_getElem]

section Built

variable {raw : List RawStep} {ordered : List String} {steps : List Step}
  (hplace : steps.map Step.place = raw.map (RawStep.place ordered))
include hplace

theorem built_from {step : Step} (h : step ∈ steps) : ∃ r ∈ raw,
    step.id = r.id ∧ step.dependsOn = r.needs ∧ step.order = ordered.idxOf r.id := by
  have hmem := List.mem_map_of_mem (f := Step.place) h
  rw [hplace] at hmem
  obtain ⟨r, hr, heq⟩ := List.mem_map.mp hmem
  simp only [Step.place, RawStep.place, Prod.mk.injEq] at heq
  exact ⟨r, hr, heq.1.symm, heq.2.1.symm, heq.2.2.symm⟩

theorem built_ids : steps.map Step.id = raw.map RawStep.id := by
  simpa [Step.place, RawStep.place, Function.comp_def] using congrArg (List.map Prod.fst) hplace

theorem built_orders : steps.map Step.order = (raw.map RawStep.id).map fun id => ordered.idxOf id := by
  simpa [Step.place, RawStep.place, Function.comp_def] using congrArg (List.map fun p => p.2.2) hplace

theorem sorted_orders (hperm : ordered.Perm (raw.map RawStep.id)) (hnodup : ordered.Nodup) :
    (steps.insertionSort fun a b => a.order ≤ b.order).map Step.order = List.range ordered.length := by
  rw [List.map_insertionSort (fun a b : Step => a.order ≤ b.order) (· ≤ ·) Step.order steps
    (fun _ _ _ _ => Iff.rfl)]
  refine List.Perm.eq_of_sortedLE (List.sortedLE_insertionSort) (List.sortedLT_range _).sortedLE ?_
  refine (List.perm_insertionSort (· ≤ ·) _).trans ?_
  rw [built_orders hplace, ← map_idxOf_of_nodup hnodup]
  exact hperm.symm.map _

theorem ordered_of_built (hne : raw ≠ []) (hs : Sound raw) (hsort : topologicalSort raw = .ok ordered) :
    Ordered (steps.insertionSort fun a b => a.order ≤ b.order) := by
  obtain ⟨hperm, hbefore⟩ := topologicalSort_ok hs hsort
  have hrange := sorted_orders hplace hperm (hperm.nodup_iff.mpr hs.nodup)
  have hsteps := List.perm_insertionSort (fun a b : Step => a.order ≤ b.order) steps
  have horder : ∀ (i : Nat) (step : Step),
      (steps.insertionSort fun a b => a.order ≤ b.order)[i]? = some step → step.order = i := by
    intro i step hi
    have hget := congrArg (fun l => l[i]?) hrange
    simp only [List.getElem?_map, hi, Option.map_some] at hget
    obtain ⟨hlt, hval⟩ := List.getElem?_eq_some_iff.mp hget.symm
    rw [← hval, List.getElem_range]
  refine ⟨?_, ?_, horder, ?_⟩
  · intro hnil
    rw [hnil, List.nil_perm] at hsteps
    rw [hsteps] at hplace
    exact hne (List.map_eq_nil_iff.mp hplace.symm)
  · rw [(hsteps.map Step.id).nodup_iff, built_ids hplace]
    exact hs.nodup
  · intro i step hi dep hdep
    obtain ⟨r, hr, -, hneeds, hord⟩ := built_from hplace (hsteps.mem_iff.mp (List.mem_of_getElem? hi))
    rw [hneeds] at hdep
    have hlt := hbefore r hr dep hdep
    rw [← hord, horder i step hi] at hlt
    have hilt : i < (steps.insertionSort fun a b => a.order ≤ b.order).length :=
      (List.getElem?_eq_some_iff.mp hi).1
    have hget := List.getElem?_eq_getElem (Nat.lt_trans hlt hilt)
    -- The step at the place of the dependency is the dependency.
    obtain ⟨r', hr', hid', -, hord'⟩ :=
      built_from hplace (hsteps.mem_iff.mp (List.mem_of_getElem? hget))
    rw [horder _ _ hget] at hord'
    have hdepmem : dep ∈ ordered := hperm.mem_iff.mpr (hs.needs r hr dep hdep)
    refine ⟨_, _, hlt, hget, ?_⟩
    rw [hid']
    exact ((List.idxOf_inj hdepmem).mp hord').symm

end Built

theorem parse_ordered {toml : String → Except String RawFormula} {text : String} {formula : Formula}
    (h : Formula.parse toml text = .ok formula) : Ordered formula.steps := by
  rw [Formula.parse] at h
  obtain ⟨raw, -, h⟩ := bind_ok h
  obtain ⟨name, -, h⟩ := bind_ok h
  split at h
  · cases h
  · rename_i hne
    obtain ⟨seen, hseen, h⟩ := bind_ok h
    obtain ⟨_, -, h⟩ := bind_ok h
    obtain ⟨_, hneeds, h⟩ := bind_ok h
    obtain ⟨ordered, hsort, h⟩ := bind_ok h
    obtain ⟨steps, hsteps, h⟩ := bind_ok h
    obtain ⟨_, -, h⟩ := bind_ok h
    obtain ⟨_, -, h⟩ := bind_ok h
    obtain ⟨_, -, h⟩ := bind_ok h
    cases h
    obtain ⟨hids, hnodup, -⟩ := collectIds_ok List.nodup_nil hseen
    have hs : Sound raw.steps := by
      refine ⟨hnodup, ?_⟩
      intro step hstep dep hdep
      have hcheck := forM_ok hneeds step hstep
      rw [checkNeeds] at hcheck
      split at hcheck
      · cases hcheck
      · rename_i hnone
        have hknown := List.find?_eq_none.mp hnone dep hdep
        simpa [hids] using hknown
    exact ordered_of_built (mapM_ok (buildStep_ok ordered) hsteps) hne hs hsort

end Cosmon.Core.Formulas

namespace Cosmon.Core.Evolve

open Cosmon.State.Molecule Cosmon.Core.Formulas

inductive EvolveError where
  | notRunnable (status : MoleculeStatus)
  | missingEvidence (stepId : String)
  | stepOutOfRange (index total : Nat)
  | unmetDependency (step dependency : String)
deriving DecidableEq

def EvolveError.toString : EvolveError → String
  | .notRunnable status => "molecule is " ++ status.asStr ++ ", must be running to evolve"
  | .missingEvidence stepId => "--evidence is required to evolve past step \"" ++ stepId ++ "\""
  | .stepOutOfRange index total =>
    "current step index " ++ index.repr ++ " is out of range (formula has " ++ total.repr ++ " steps)"
  | .unmetDependency step dependency =>
    "step \"" ++ step ++ "\" depends on \"" ++ dependency ++ "\" which is not yet completed"

structure CompletedStepInfo where
  id : String
  title : String
  index : Nat
deriving DecidableEq

inductive NewState where
  | active (currentStep : Nat) (stepId stepTitle : String)
  | completed
deriving DecidableEq

structure EvolveOutcome where
  completedStep : CompletedStepInfo
  newState : NewState
deriving DecidableEq

def evolve (status : MoleculeStatus) (currentStep : Nat) (completedSteps : List StepId)
    (formula : Formula) (evidence : String) : Except EvolveError EvolveOutcome :=
  if status ≠ .running ∧ status ≠ .queued then .error (.notRunnable status)
  else
    match formula.steps[currentStep]? with
    | none => .error (.stepOutOfRange currentStep formula.steps.length)
    | some step =>
      if isBlank evidence then .error (.missingEvidence step.id)
      else
        match step.dependsOn.find? (fun dep => dep ∉ completedSteps) with
        | some dep => .error (.unmetDependency step.id dep)
        | none =>
          .ok {
            completedStep := ⟨step.id, step.title, currentStep⟩
            newState :=
              match formula.steps[currentStep + 1]? with
              | none => .completed
              | some next => .active (currentStep + 1) next.id next.title }

theorem evolve_ok {status : MoleculeStatus} {currentStep : Nat} {completedSteps : List StepId}
    {formula : Formula} {evidence : String} {outcome : EvolveOutcome}
    (h : evolve status currentStep completedSteps formula evidence = .ok outcome) :
    (status = .running ∨ status = .queued) ∧
      ∃ step, formula.steps[currentStep]? = some step ∧
        outcome.completedStep = ⟨step.id, step.title, currentStep⟩ ∧
        ((formula.steps[currentStep + 1]? = none ∧ outcome.newState = .completed) ∨
          ∃ next, formula.steps[currentStep + 1]? = some next ∧
            outcome.newState = .active (currentStep + 1) next.id next.title) := by
  rw [evolve] at h
  split at h
  · cases h
  · rename_i hstatus
    split at h
    · cases h
    · rename_i step hstep
      split at h
      · cases h
      · split at h
        · cases h
        · cases h
          refine ⟨?_, step, hstep, rfl, ?_⟩
          · by_cases hr : status = .running
            · exact Or.inl hr
            · exact Or.inr (not_not.mp fun hq => hstatus ⟨hr, hq⟩)
          · cases hnext : formula.steps[currentStep + 1]? with
            | none => exact Or.inl ⟨rfl, rfl⟩
            | some next => exact Or.inr ⟨next, rfl, rfl⟩

theorem evolve_no_unmet {status : MoleculeStatus} {currentStep : Nat} {formula : Formula}
    (hf : Ordered formula.steps) (evidence step dep : String) :
    evolve status currentStep ((formula.steps.map Step.id).take currentStep) formula evidence ≠
      .error (.unmetDependency step dep) := by
  rw [evolve]
  split
  · exact fun h => nomatch h
  · split
    · exact fun h => nomatch h
    · rename_i s hs
      split
      · exact fun h => nomatch h
      · split
        · rename_i missing hfind
          have hmem := List.mem_of_find?_eq_some hfind
          have habsent := List.find?_some hfind
          obtain ⟨j, earlier, hlt, hj, hid⟩ := hf.depends currentStep s hs missing hmem
          have hdone : missing ∈ (formula.steps.map Step.id).take currentStep := by
            apply List.mem_of_getElem? (i := j)
            rw [List.getElem?_take_of_lt hlt, List.getElem?_map, hj, Option.map_some, hid]
          exact absurd hdone (of_decide_eq_true habsent)
        · exact fun h => nomatch h

end Cosmon.Core.Evolve
