import Cosmon.Graph.PlanReducer
import Cosmon.Lib.BreadthFirst
import Cosmon.State.Molecule
import Mathlib.Data.Finset.Union

namespace Cosmon.Runtime.CompilePlan

open Cosmon.Lib.Enumerate Cosmon.Graph.Toposort Cosmon.Graph.PlanReducer Cosmon.State.Molecule
open Cosmon.Lib.BreadthFirst (Search discover_pending)

abbrev MoleculeEdge := MoleculeId × MoleculeId

/-- A state store at one moment. Only finitely many ids have a record; a
load of any other id reports it as not found, and a load of a stored one may fail. -/
structure StateStore where
  loadMolecule : MoleculeId → Except CosmonError MoleculeData
  listMolecules : Except CosmonError (List MoleculeData)
  stored : Finset MoleculeId
  absent : ∀ id, id ∉ stored → loadMolecule id = .error (.moleculeNotFound id)

def storeOf (molecules : List MoleculeData) : StateStore where
  loadMolecule id :=
    match byId molecules id with
    | some m => .ok m
    | none => .error (.moleculeNotFound id)
  listMolecules := .ok molecules
  stored := (molecules.map MoleculeData.id).toFinset
  absent id hid := by
    cases h : byId molecules id with
    | none => rfl
    | some m =>
      obtain ⟨hm, rfl⟩ := byId_some h
      exact absurd (List.mem_toFinset.mpr (List.mem_map_of_mem hm)) hid

def neighbours (m : MoleculeData) : List MoleculeId := m.blockedBy ++ m.blocks ++ m.decayProducts

theorem mem_filterMap_links {links : List MoleculeLink} {f : MoleculeLink → Option MoleculeId}
    (link : MoleculeId → MoleculeLink) (hf : ∀ l b, f l = some b ↔ l = link b) {b : MoleculeId} :
    b ∈ links.filterMap f ↔ link b ∈ links := by
  simp only [List.mem_filterMap, hf]
  constructor
  · rintro ⟨l, hl, rfl⟩
    exact hl
  · exact fun h => ⟨_, h, rfl⟩

structure Walk where
  visited : Finset MoleculeId
  queue : List MoleculeId
  loaded : List (MoleculeId × List MoleculeLink)

def Walk.visit (w : Walk) (id : MoleculeId) : Walk :=
  if id ∈ w.visited then w
  else { w with visited := insert id w.visited, queue := w.queue ++ [id] }

def Walk.start (roots : List MoleculeId) : Walk := roots.foldl Walk.visit ⟨∅, [], []⟩

/-- The breadth-first walk. A missing molecule contributes no edges; any
other load failure ends the walk. -/
def walk (store : StateStore) : Nat → Walk → Except CosmonError Walk
  | 0, w => .ok w
  | fuel + 1, w =>
    match w.queue with
    | [] => .ok w
    | id :: rest =>
      match store.loadMolecule id with
      | .error (.moleculeNotFound _) => walk store fuel { w with queue := rest }
      | .error e => .error e
      | .ok data => walk store fuel ((neighbours data).foldl Walk.visit
          { w with queue := rest, loaded := w.loaded ++ [(id, data.typedLinks)] })

def reach (store : StateStore) (roots : List MoleculeId) : Finset MoleculeId :=
  roots.toFinset ∪ store.stored.biUnion fun id =>
    match store.loadMolecule id with
    | .ok data => (neighbours data).toFinset
    | .error _ => ∅

/-- The edge of one typed link of `id`, both endpoints having been loaded. A
`Blocks` link is left to its `BlockedBy` counterpart when there is one. -/
def linkEdge (loaded : List (MoleculeId × List MoleculeLink)) (id : MoleculeId) :
    MoleculeLink → Option MoleculeEdge
  | .blockedBy source => if (loaded.lookup source).isSome then some (source, id) else none
  | .blocks target =>
    match loaded.lookup target with
    | some links => if .blockedBy id ∈ links then none else some (id, target)
    | none => none
  | .decayProduct child => if (loaded.lookup child).isSome then some (id, child) else none
  | _ => none

def edgesOf (loaded : List (MoleculeId × List MoleculeLink)) : List MoleculeEdge :=
  (enumerate (loaded.map Prod.fst).toFinset).flatMap fun id =>
    ((loaded.lookup id).getD []).filterMap (linkEdge loaded id)

/-- Build a plan and its edge list from the store, starting at `roots`. -/
def compilePlan (store : StateStore) (roots : List MoleculeId) :
    Except CosmonError (Plan MoleculeId × List MoleculeEdge) :=
  match walk store (reach store roots).card (Walk.start roots) with
  | .error e => .error e
  | .ok w =>
    let edges := edgesOf w.loaded
    let standalone := roots.toFinset.filter fun root => (w.loaded.lookup root).isSome
    match Plan.newWithRoots edges ∅ standalone with
    | .ok plan => .ok (plan, edges)
    | .error e =>
      .error (.stateStore ("dependency cycle in compiled DAG at molecule " ++ e.node))

def pending (u : Finset MoleculeId) (w : Walk) : Nat := (u \ w.visited).card + w.queue.length

theorem visits_discover (ids : List MoleculeId) (w : Walk) :
    ids.foldl Walk.visit w =
      ⟨(Search.discover ⟨w.visited, w.queue⟩ ids).visited, (Search.discover ⟨w.visited, w.queue⟩ ids).queue,
        w.loaded⟩ := by
  induction ids generalizing w with
  | nil => rfl
  | cons id ids ih =>
    have hstep : Search.discover ⟨w.visited, w.queue⟩ (id :: ids) =
        ((⟨w.visited, w.queue⟩ : Search MoleculeId).visit id).discover ids := rfl
    have hvisit : (⟨(w.visit id).visited, (w.visit id).queue⟩ : Search MoleculeId) =
        (⟨w.visited, w.queue⟩ : Search MoleculeId).visit id := by
      unfold Walk.visit Search.visit
      split <;> rfl
    have hloaded : (w.visit id).loaded = w.loaded := by
      unfold Walk.visit
      split <;> rfl
    rw [List.foldl_cons, ih, hstep, hvisit, hloaded]

theorem visits_pending {u : Finset MoleculeId} (ids : List MoleculeId) (w : Walk)
    (h : ∀ id ∈ ids, id ∈ u) : pending u (ids.foldl Walk.visit w) = pending u w := by
  rw [visits_discover]
  exact discover_pending ids ⟨w.visited, w.queue⟩ h

theorem neighbours_reach {store : StateStore} {id : MoleculeId} {data : MoleculeData}
    (roots : List MoleculeId) (h : store.loadMolecule id = .ok data) :
    ∀ a ∈ neighbours data, a ∈ reach store roots := by
  intro a ha
  have hs : id ∈ store.stored := by
    by_contra hn
    rw [store.absent id hn] at h
    cases h
  refine Finset.mem_union_right _ (Finset.mem_biUnion.mpr ⟨id, hs, ?_⟩)
  simpa only [h, List.mem_toFinset] using ha

theorem walk_exhausts (store : StateStore) (roots : List MoleculeId) (fuel : Nat) {w w' : Walk}
    (hw : pending (reach store roots) w ≤ fuel) (h : walk store fuel w = .ok w') : w'.queue = [] := by
  induction fuel generalizing w with
  | zero =>
    cases h
    simp only [pending] at hw
    exact List.length_eq_zero_iff.mp (by omega)
  | succ fuel ih =>
    simp only [walk] at h
    split at h
    · next hq => cases h; exact hq
    · next id rest hq =>
      have hpop : pending (reach store roots) { w with queue := rest } ≤ fuel := by
        simp only [pending, hq, List.length_cons] at hw ⊢
        omega
      split at h
      · exact ih hpop h
      · cases h
      · next data hd =>
        refine ih ?_ h
        rw [visits_pending _ _ (neighbours_reach roots hd)]
        exact hpop

theorem compilePlan_walk (store : StateStore) (roots : List MoleculeId) {w : Walk}
    (h : walk store (reach store roots).card (Walk.start roots) = .ok w) : w.queue = [] := by
  refine walk_exhausts store roots _ ?_ h
  rw [Walk.start, visits_pending]
  · simp [pending]
  · exact fun id hid => Finset.mem_union_left _ (List.mem_toFinset.mpr hid)

end Cosmon.Runtime.CompilePlan
