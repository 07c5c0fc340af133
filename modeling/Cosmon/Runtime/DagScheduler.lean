import Cosmon.Graph.Affinity
import Cosmon.Graph.CriticalPath
import Cosmon.Runtime.CompilePlan
import Cosmon.State.Frontier

namespace Cosmon.Runtime.DagScheduler

open Cosmon.Lib.Enumerate Cosmon.Graph.Affinity Cosmon.Graph.CriticalPath Cosmon.Graph.Mutation
open Cosmon.Graph.PlanReducer Cosmon.Runtime.CompilePlan Cosmon.State.Molecule Cosmon.State.Frontier

structure FleetSnapshot where
  molecules : List MoleculeData

inductive RuntimeAction where
  | nucleate (formula : FormulaId) (vars : List (String × String))
  | evolve (id : MoleculeId) (evidence : String)
  | complete (id : MoleculeId) (reason : String)
  | collapse (id : MoleculeId) (reason : String)
  | noOp
deriving DecidableEq

abbrev ModelResolver := MoleculeData → Option String

abbrev StepKey := FormulaId × Nat

structure DagPolicy where
  edges : List MoleculeEdge
  plan : Plan MoleculeId
  knownMolecules : Finset MoleculeId
  completed : Finset MoleculeId := ∅
  evidence : String := "dag-policy: critical-path dispatch"
  limits : List (StepKey × Nat) := []
  needsRecompile : Bool := false
  affinity : Option ModelResolver := none
  resident : Option String := none
  affinitySwitchesSaved : Nat := 0

def DagPolicy.new (plan : Plan MoleculeId) (edges : List MoleculeEdge) : DagPolicy :=
  { edges := edges, plan := plan, knownMolecules := nodeUniverse edges plan.ready }

def DagPolicy.withAffinity (p : DagPolicy) (resolver : ModelResolver) : DagPolicy :=
  { p with affinity := some resolver }

def DagPolicy.withResidentModel (p : DagPolicy) (model : Option String) : DagPolicy :=
  { p with resident := model }

def DagPolicy.withLimits (p : DagPolicy) (limits : List (StepKey × Nat)) : DagPolicy :=
  { p with limits := limits }

def DagPolicy.withEvidence (p : DagPolicy) (evidence : String) : DagPolicy :=
  { p with evidence := evidence }

/-- Rebuild the plan with the completed molecules as its skip set. A cyclic
edge list keeps the old plan. -/
def DagPolicy.rebuildPlan (p : DagPolicy) : DagPolicy :=
  match Plan.newWithRoots p.edges p.completed p.knownMolecules with
  | .ok plan => { p with plan := plan }
  | .error _ => p

def DagPolicy.preComplete (acc : DagPolicy × Bool) (id : MoleculeId) : DagPolicy × Bool :=
  let p := { acc.1 with knownMolecules := insert id acc.1.knownMolecules }
  if id ∈ p.completed then (p, acc.2)
  else ({ p with completed := insert id p.completed, plan := (p.plan.markDone id).1 }, true)

def DagPolicy.withPreCompleted (p : DagPolicy) (ids : List MoleculeId) : DagPolicy :=
  let (p, changed) := ids.foldl DagPolicy.preComplete (p, false)
  if changed then p.rebuildPlan else p

def spliceTarget : MoleculeLink → Option MoleculeId
  | .decayProduct id => some id
  | .blocks target => some target
  | _ => none

def DagPolicy.absorbTerminal (p : DagPolicy) (id : MoleculeId) (links : List MoleculeLink) :
    DagPolicy × Bool :=
  let p := { p with completed := insert id p.completed }
  let products := links.filterMap spliceTarget
  if products = [] then ({ p with plan := (p.plan.markDone id).1 }, false)
  else
    match insertSubgraph p.edges (products.map fun c => (id, c)) with
    | .ok merged =>
      ({ p with edges := merged, knownMolecules := p.knownMolecules ∪ products.toFinset }, true)
    | .error _ => ({ p with plan := (p.plan.markDone id).1 }, false)

/-- Drop the edges whose endpoints are both completed. The source also
computes `prune_completed` here and discards it. -/
def DagPolicy.gc (p : DagPolicy) : DagPolicy :=
  { p with edges := p.edges.filter fun e => ¬(e.1 ∈ p.completed ∧ e.2 ∈ p.completed) }.rebuildPlan

/-- A tracked molecule is finished when it is terminal, or parked by
`freeze_on_last_step` without being stuck. -/
def finished (m : MoleculeData) : Bool :=
  match m.status with
  | .completed => true
  | .collapsed => true
  | .frozen => m.freezeOnLastStep && m.stuckAt.isNone
  | _ => false

def DagPolicy.newlyTerminal (p : DagPolicy) (snapshot : FleetSnapshot) :
    List (MoleculeId × List MoleculeLink) :=
  (enumerate p.knownMolecules).filterMap fun id =>
    if id ∈ p.completed then none
    else
      match byId snapshot.molecules id with
      | none => none
      | some mol => if finished mol then some (mol.id, mol.typedLinks) else none

/-- Return to the ready set whatever the store reports as pending. -/
def DagPolicy.selfHeal (p : DagPolicy) (snapshot : FleetSnapshot) : DagPolicy :=
  snapshot.molecules.foldl
    (fun p mol => if mol.status = .pending then { p with plan := p.plan.markReady mol.id } else p) p

def DagPolicy.absorb (p : DagPolicy) (snapshot : FleetSnapshot) : DagPolicy :=
  let (p, needsRebuild) := (p.newlyTerminal snapshot).foldl
    (fun (acc : DagPolicy × Bool) t =>
      let r := acc.1.absorbTerminal t.1 t.2
      (r.1, acc.2 || r.2)) (p, false)
  if needsRebuild then { p with needsRecompile := true }.rebuildPlan else p

/-- The critical path of the current edges; none if they are cyclic. -/
def DagPolicy.critical (p : DagPolicy) : List MoleculeId :=
  match criticalPathWeighted p.edges (fun _ => 1) with
  | .ok path => path
  | .error _ => []

def priority (critical : List MoleculeId) (a b : MoleculeId) : Prop :=
  (a ∈ critical ∧ b ∉ critical) ∨ ((a ∈ critical ↔ b ∈ critical) ∧ a ≤ b)

instance (critical : List MoleculeId) : DecidableRel (priority critical) :=
  fun _ _ => inferInstanceAs (Decidable (_ ∨ _))

def DagPolicy.eligible (p : DagPolicy) (snapshot : FleetSnapshot) : List MoleculeId :=
  ((enumerate p.plan.ready).filter fun id => id ∈ computeFromMolecules snapshot.molecules).insertionSort
    (priority p.critical)

def stepKey (m : MoleculeData) : StepKey := (m.formulaId, m.currentStep)

def runningPerKey (molecules : List MoleculeData) : StepKey → Nat :=
  molecules.foldl
    (fun counts mol => if mol.status = .running
      then Function.update counts (stepKey mol) (counts (stepKey mol) + 1) else counts)
    (fun _ => 0)

/-- One round of the admission loop. An id without a record is dropped, as
is one whose cap is reached. -/
def admitOne (limits : List (StepKey × Nat)) (molecules : List MoleculeData)
    (acc : (StepKey → Nat) × List MoleculeId) (id : MoleculeId) : (StepKey → Nat) × List MoleculeId :=
  match byId molecules id with
  | none => acc
  | some mol =>
    match limits.lookup (stepKey mol) with
    | none => (acc.1, acc.2 ++ [id])
    | some cap =>
      if acc.1 (stepKey mol) < cap
      then (Function.update acc.1 (stepKey mol) (acc.1 (stepKey mol) + 1), acc.2 ++ [id])
      else acc

def DagPolicy.admitted (p : DagPolicy) (snapshot : FleetSnapshot) (eligible : List MoleculeId) :
    List MoleculeId :=
  if p.limits = [] then eligible
  else (eligible.foldl (admitOne p.limits snapshot.molecules) (runningPerKey snapshot.molecules, [])).2

/-- Cluster the batch by model. The model of the last molecule dispatched is
resident when the next tick begins. -/
def DagPolicy.affinityReorder (p : DagPolicy) (eligible : List MoleculeId)
    (molecules : List MoleculeData) : DagPolicy × List MoleculeId :=
  match p.affinity with
  | none => (p, eligible)
  | some resolver =>
    let modelOf := fun id => (byId molecules id).bind resolver
    let naive := modelSwitchCount modelOf eligible p.resident
    let ordered := affinityOrder eligible modelOf p.resident
    let clustered := modelSwitchCount modelOf ordered p.resident
    ({ p with
        affinitySwitchesSaved := p.affinitySwitchesSaved + (naive - clustered)
        resident := match ordered.getLast?.bind modelOf with
          | some m => some m
          | none => p.resident },
      ordered)

def DagPolicy.nextActions (p : DagPolicy) (snapshot : FleetSnapshot) :
    DagPolicy × List RuntimeAction :=
  let p := (p.selfHeal snapshot).absorb snapshot
  let (p, batch) := p.affinityReorder (p.admitted snapshot (p.eligible snapshot)) snapshot.molecules
  ({ p with plan := batch.foldl Plan.markRunning p.plan },
    batch.map fun id => .evolve id p.evidence)

/-- Reload the edges from the store. A failure leaves the policy as it is. -/
def DagPolicy.recompile (p : DagPolicy) (store : StateStore) : DagPolicy × Except CosmonError Unit :=
  match compilePlan store (enumerate p.knownMolecules) with
  | .error e => (p, .error e)
  | .ok (_, edges) =>
    let p := { p with knownMolecules := nodeUniverse edges p.knownMolecules, edges := edges }.rebuildPlan
    ({ p with needsRecompile := false }, .ok ())

def referencesKnown (known : Finset MoleculeId) (m : MoleculeData) : Bool :=
  (m.status = .pending || m.status = .running) && m.typedLinks.any fun link =>
    match link with
    | .blockedBy source => source ∈ known
    | .decayProduct id => id ∈ known
    | _ => false

/-- Widen the scope by one scan of the store, then recompile. The widened
scope stays when the recompilation fails. -/
def DagPolicy.refreshScope (p : DagPolicy) (store : StateStore) :
    DagPolicy × Except CosmonError Unit :=
  match store.listMolecules with
  | .error e => (p, .error e)
  | .ok all =>
    let known := all.foldl
      (fun known mol => if referencesKnown known mol then insert mol.id known else known)
      p.knownMolecules
    { p with knownMolecules := known }.recompile store

inductive Op where
  | withAffinity (resolver : ModelResolver)
  | withResidentModel (model : Option String)
  | withLimits (limits : List (StepKey × Nat))
  | withPreCompleted (ids : List MoleculeId)
  | withEvidence (evidence : String)
  | nextActions (snapshot : FleetSnapshot)
  | recompile (store : StateStore)
  | refreshScope (store : StateStore)
  | gc

def DagPolicy.apply (p : DagPolicy) : Op → DagPolicy
  | .withAffinity resolver => p.withAffinity resolver
  | .withResidentModel model => p.withResidentModel model
  | .withLimits limits => p.withLimits limits
  | .withPreCompleted ids => p.withPreCompleted ids
  | .withEvidence evidence => p.withEvidence evidence
  | .nextActions snapshot => (p.nextActions snapshot).1
  | .recompile store => (p.recompile store).1
  | .refreshScope store => (p.refreshScope store).1
  | .gc => p.gc

def DagPolicy.run (p : DagPolicy) (ops : List Op) : DagPolicy := ops.foldl DagPolicy.apply p

end Cosmon.Runtime.DagScheduler
