import Cosmon.Filestore.Layout
import Cosmon.Lib.Runs

namespace Cosmon.Runtime.Actions

open Cosmon.State.Molecule Cosmon.Core.CollapseContract Cosmon.Filestore.Layout Cosmon.Lib.Runs

inductive RuntimeError where
  | state (error : CosmonError)
  | unsupported (action : String)
  | dispatch (id : MoleculeId) (reason : String)
  | dispatchRefused (id : MoleculeId) (reason : String)
deriving DecidableEq

def isHumanClaimed (mol : MoleculeData) : Bool := mol.tackledBy = some .human

/-- `apply_evolve` passes over what is running or finished, and over what a
person has taken. -/
def evolveSkips (mol : MoleculeData) : Bool :=
  mol.status = .running || mol.status = .completed || mol.status = .collapsed || isHumanClaimed mol

/-- The optimistic claim `apply_evolve` saves before it dispatches. -/
def evolveClaim (pid : Nat) (mol : MoleculeData) (now : Instant) : MoleculeData :=
  { mol with status := .running }.markTackled (.runtime pid) now

/-- A failed dispatch is rolled back only while the claim is untouched. -/
def rollbackApplies (mol current : MoleculeData) : Bool :=
  current.status = .running && current.updatedAt = mol.updatedAt && current.currentStep = mol.currentStep

inductive Transition where
  | complete
  | freeze
  | collapse (reason : String)
deriving DecidableEq

def Transition.skips : Transition → MoleculeData → Bool
  | .complete, mol => mol.status = .completed
  | .freeze, mol => mol.status ≠ .completed
  | .collapse _, mol => mol.status = .collapsed

def Transition.record : Transition → MoleculeData → Instant → MoleculeData
  | .complete, mol, now =>
    { mol with status := .completed, currentStep := mol.totalSteps, updatedAt := now }
  | .freeze, mol, now => { mol with status := .frozen, updatedAt := now }
  | .collapse reason, mol, now =>
    { mol with status := .collapsed, collapseReason := some reason, updatedAt := now }

/-- The runtime between two calls of the store or the executor. `fresh` is the
record `apply_evolve` has read, `mol` what it, or a transition, goes on with. -/
inductive Activity where
  | idle
  | claiming (fresh : MoleculeData) (revision : MoleculeRevision)
  | dispatching (fresh mol : MoleculeData)
  | waiting (mol : MoleculeData)
  | unclaiming (current : MoleculeData) (revision : MoleculeRevision)
  | writing (transition : Transition) (mol : MoleculeData)

structure World where
  store : FileStore
  activity : Activity := .idle

/-- Which action is begun is arbitrary: the policy chose it on a snapshot that
may be stale. `other` is a save of any other writer, also of the loop's own
orphan reset and merge stamp. `outcome` is what the executor answers. -/
inductive Op where
  | other (data : MoleculeData) (expected : Option MoleculeRevision)
  | beginEvolve (id : MoleculeId)
  | beginTransition (transition : Transition) (id : MoleculeId)
  | proceed (now : Instant) (outcome : Except RuntimeError Unit)

def saved (env : Env) (s : FileStore) (data : MoleculeData) (expected : Option MoleculeRevision) :
    FileStore :=
  match s.writeMoleculeChecked env data expected with
  | .ok s' => s'
  | .error _ => s

def proceed (env : Env) (pid : Nat) (w : World) (now : Instant) (outcome : Except RuntimeError Unit) :
    World :=
  match w.activity with
  | .idle => w
  | .claiming fresh revision =>
    let mol := evolveClaim pid fresh now
    match w.store.saveMoleculeIfRevision env mol revision with
    | .ok store => ⟨store, .dispatching fresh mol⟩
    | .error _ => { w with activity := .idle }
  | .dispatching _ mol => { w with activity := .waiting mol }
  | .waiting mol =>
    match outcome, w.store.loadMoleculeRevisioned env mol.id with
    | .error _, .ok (current, revision) =>
      if rollbackApplies mol current then { w with activity := .unclaiming current revision }
      else { w with activity := .idle }
    | _, _ => { w with activity := .idle }
  | .unclaiming current revision =>
    ⟨saved env w.store { current with status := .pending, updatedAt := now } (some revision), .idle⟩
  | .writing transition mol => ⟨saved env w.store (transition.record mol now) none, .idle⟩

def step (env : Env) (pid : Nat) (w : World) : Op → World
  | .other data expected => { w with store := saved env w.store data expected }
  | .beginEvolve id =>
    match w.activity, w.store.loadMoleculeRevisioned env id with
    | .idle, .ok (mol, revision) =>
      if evolveSkips mol then w else { w with activity := .claiming mol revision }
    | _, _ => w
  | .beginTransition transition id =>
    match w.activity, w.store.loadMolecule id with
    | .idle, .ok mol => if transition.skips mol then w else { w with activity := .writing transition mol }
    | _, _ => w
  | .proceed now outcome => proceed env pid w now outcome

def Dispatches (w : World) (op : Op) (id : MoleculeId) : Prop :=
  ∃ fresh mol now outcome, w.activity = .dispatching fresh mol ∧ mol.id = id ∧ op = .proceed now outcome

section Saves

variable {env : Env} {s : FileStore} {id : MoleculeId}

/-- No transition takes a molecule out of `Collapsed`; completing one keeps it
`Completed`, and freezing one takes it to `Frozen` only. -/
structure Respects (transition : Transition) (before after : MoleculeStatus) : Prop where
  collapsed : before = .collapsed → after = .collapsed
  complete : transition = .complete → before = .completed → after = .completed
  freeze : transition = .freeze → before = .completed → after = .completed ∨ after = .frozen

end Saves

section Runs

variable (env : Env) (pid : Nat) (start : FileStore) (ops : List Op)

/-- The world before the `n`-th operation of a run that starts idle. -/
def worldAt (n : Nat) : World := stateAt (step env pid) ⟨start, .idle⟩ ops n

variable {env pid start ops}

end Runs

section Instances

def exampleEnv : Env := ⟨"", fun _ => "default", id, fun m => toString m.updatedAt, fun _ => ""⟩

end Instances

end Cosmon.Runtime.Actions
