import Cosmon.Core.Formulas

namespace Cosmon.State.Rebuild

open Cosmon.State.Molecule

inductive StuckReason where
  | blockerFailed
  | timeout
  | mergeConflict
  | missingPrerequisite
  | humanRequested
  | energyExhausted
  | other (text : String)
deriving DecidableEq

def StuckReason.from_ : String → StuckReason
  | "blocker_failed" => .blockerFailed
  | "timeout" => .timeout
  | "merge_conflict" => .mergeConflict
  | "missing_prerequisite" => .missingPrerequisite
  | "human_requested" => .humanRequested
  | "energy_exhausted" => .energyExhausted
  | s => .other s

inductive EventV2 where
  | moleculeNucleated (moleculeId : MoleculeId) (formulaId : String) (parentId : Option MoleculeId)
      (blocks : List MoleculeId)
  | moleculeStatusChanged (moleculeId : MoleculeId) (source target : String)
  | moleculeStepCompleted (moleculeId : MoleculeId) (step total : Nat) (evidence : Option String)
  | moleculeCompleted (moleculeId : MoleculeId) (reason : String) (summary : Option String)
  | moleculeCollapsed (moleculeId : MoleculeId) (reason : String) (kind : Option CollapseReason)
  | moleculeStuck (moleculeId : MoleculeId) (reason : StuckReason)
  | promptSealed (moleculeId : MoleculeId) (hash : String) (sealedAt : Instant)
      (bytes canonicalVersion : Nat)
  | briefingSealed (moleculeId : MoleculeId) (step : Nat) (hash : String) (sealedAt : Instant)
      (bytes canonicalVersion : Nat)
  | bootstrapSealed (moleculeId : MoleculeId) (step : Nat) (hash : String) (sealedAt : Instant)
      (bytes canonicalVersion : Nat)
  | mergeCompleted (molecule : MoleculeId)
  | decaySpliced (parent : MoleculeId) (children : List MoleculeId)
  | other (name : String)
deriving DecidableEq

structure Envelope where
  timestamp : Instant
  event : EventV2
deriving DecidableEq

abbrev Projection := MoleculeId → Option MoleculeData

def amend (out : Projection) (id : MoleculeId) (f : MoleculeData → MoleculeData) : Projection :=
  Function.update out id ((out id).map f)

def emptyMoleculeData (id : MoleculeId) (formulaId : String) (createdAt : Instant) : MoleculeData where
  id := id
  formulaId := if formulaId = "" then "unknown" else formulaId
  updatedAt := createdAt

def stepName (step : Nat) : StepId := "step-" ++ step.repr

def applyEvent (env : Envelope) (out : Projection) : Projection :=
  match env.event with
  | .moleculeNucleated id formulaId parentId blocks =>
    let data := emptyMoleculeData id formulaId env.timestamp
    let data := { data with
      typedLinks := (parentId.toList.map MoleculeLink.decayedFrom) ++ blocks.map MoleculeLink.blocks }
    Function.update out id (some ((out id).getD data))
  | .moleculeStatusChanged id _ target =>
    amend out id fun data =>
      { data with status := (MoleculeStatus.fromStr target).getD data.status, updatedAt := env.timestamp }
  | .moleculeStepCompleted id step total _ =>
    amend out id fun data =>
      { data with
        totalSteps := total
        currentStep := if data.currentStep < step + 1 then step + 1 else data.currentStep
        completedSteps :=
          if stepName step ∈ data.completedSteps then data.completedSteps
          else data.completedSteps ++ [stepName step]
        updatedAt := env.timestamp }
  | .moleculeCompleted id _ _ =>
    amend out id fun data => { data with status := .completed, updatedAt := env.timestamp }
  | .moleculeCollapsed id reason kind =>
    amend out id fun data =>
      { data with
        status := .collapsed
        collapseReason := some reason
        collapseReasonKind := if data.collapseReasonKind.isNone then kind else data.collapseReasonKind
        updatedAt := env.timestamp }
  | .moleculeStuck id _ =>
    -- Stuck is no status of its own; only the clock moves.
    amend out id fun data => { data with updatedAt := env.timestamp }
  | .promptSealed id hash sealedAt bytes canonicalVersion =>
    amend out id fun data =>
      { data with promptSeal := some ⟨0, hash, sealedAt, bytes, canonicalVersion, none⟩ }
  | .briefingSealed id step hash sealedAt bytes canonicalVersion =>
    amend out id fun data =>
      { data with
        briefingSeals := data.briefingSeals ++ [⟨step, hash, sealedAt, bytes, canonicalVersion, none⟩] }
  | .bootstrapSealed id step hash sealedAt bytes canonicalVersion =>
    amend out id fun data =>
      { data with
        bootstrapSeals := data.bootstrapSeals ++ [⟨step, hash, sealedAt, bytes, canonicalVersion, none⟩] }
  | .mergeCompleted id =>
    amend out id fun data => { data with mergedAt := some env.timestamp, updatedAt := env.timestamp }
  | .decaySpliced parent children =>
    amend out parent fun data =>
      { data with
        typedLinks := data.typedLinks ++ children.map MoleculeLink.decayProduct
        updatedAt := env.timestamp }
  | .other _ => out

def projectMoleculesFromEvents (envelopes : List Envelope) : Projection :=
  envelopes.foldl (fun out env => applyEvent env out) fun _ => none

end Cosmon.State.Rebuild
