import Cosmon.Lib.Checks
import Cosmon.Lib.Cycles
import Cosmon.Lib.DepthFirst
import Cosmon.Runtime.CompilePlan
import Cosmon.State.Frontier
import Mathlib.Data.Finset.Sort

namespace Cosmon.Harvest.Ancestry

open Relation
open Cosmon.Lib.Checks Cosmon.Lib.DepthFirst Cosmon.Lib.KeyedSort
open Cosmon.Runtime.CompilePlan Cosmon.State.Frontier Cosmon.State.Molecule

structure MissionAncestry where
  root : MoleculeId
  edges : List (MoleculeId × List MoleculeId)

def sortedParents (parents : List MoleculeId) : List MoleculeId := sortBy (fun parent => parent) parents

structure Found where
  roots : Finset MoleculeId
  edges : List (MoleculeId × List MoleculeId)

def Found.note (molecule : MoleculeId) (parents : List MoleculeId) (found : Found) : Found where
  roots := if parents = [] then insert molecule found.roots else found.roots
  edges := found.edges ++ [(molecule, sortedParents parents)]

def ancestors (store : StateStore) : Lib.DepthFirst.Graph MoleculeId CosmonError where
  next molecule := (store.loadMolecule molecule).map MoleculeData.blockedBy
  nodes := store.stored
  mem_nodes molecule parents h := by
    by_contra habsent
    rw [store.absent molecule habsent] at h
    cases h

def unavailable (reason : String) : CosmonError := .stateStore ("harvest_facts_unavailable: " ++ reason)

def strictMissionAncestry (store : StateStore) (molecule : MoleculeId) : Except CosmonError MissionAncestry := do
  let found ← search (ancestors store) (unavailable "mission ancestry has a cycle") Found.note (start molecule ⟨∅, []⟩)
  if found.roots.card ≠ 1 then .error (unavailable "mission ancestry has no unique root")
  else
    match found.roots.sort.head? with
    | none => .error (unavailable "mission root absent")
    | some root => .ok ⟨root, sortBy Prod.fst found.edges⟩

def strictMissionRoot (store : StateStore) (molecule : MoleculeId) : Except CosmonError MoleculeId :=
  (strictMissionAncestry store molecule).map MissionAncestry.root

def Parent (store : StateStore) (a b : MoleculeId) : Prop :=
  ∃ mol, store.loadMolecule a = .ok mol ∧ .blockedBy b ∈ mol.typedLinks

/-- A molecule that the first one leads to, and that is blocked by none. -/
def IsRoot (store : StateStore) (molecule root : MoleculeId) : Prop :=
  ReflTransGen (Parent store) molecule root ∧ (∃ mol, store.loadMolecule root = .ok mol) ∧ ∀ b, ¬ Parent store root b

structure Rooted (store : StateStore) (molecule : MoleculeId) : Prop where
  loads : ∀ a, ReflTransGen (Parent store) molecule a → ∃ mol, store.loadMolecule a = .ok mol
  acyclic : ∀ a, ReflTransGen (Parent store) molecule a → ¬ TransGen (Parent store) a a
  one : ∃! root, IsRoot store molecule root

/-- All ancestors once, with their sorted parents, and the root that they all lead to. -/
structure Describes (store : StateStore) (molecule : MoleculeId) (ancestry : MissionAncestry) : Prop where
  root : IsRoot store molecule ancestry.root
  ends : ∀ a, ReflTransGen (Parent store) molecule a → ReflTransGen (Parent store) a ancestry.root
  once : (ancestry.edges.map Prod.fst).Pairwise (· < ·)
  edges : ∀ a parents, (a, parents) ∈ ancestry.edges ↔ ReflTransGen (Parent store) molecule a ∧
    ∃ mol, store.loadMolecule a = .ok mol ∧ parents.Perm mol.blockedBy ∧ parents.Pairwise (· ≤ ·)

def Reordered (store store' : StateStore) : Prop :=
  ∀ a, Option.Rel (fun mol mol' => mol.typedLinks.Perm mol'.typedLinks)
    (store.loadMolecule a).toOption (store'.loadMolecule a).toOption

section Found

variable {store : StateStore} {molecule a b : MoleculeId} {order : List MoleculeId} {found : Found}

theorem next_eq : (ancestors store).next a = (store.loadMolecule a).map MoleculeData.blockedBy := rfl

theorem edge_eq (store : StateStore) : Edge (ancestors store) = Parent store := by
  funext a b
  refine propext ⟨?_, ?_⟩
  · rintro ⟨_, hl, hb⟩
    obtain ⟨mol, hmol, rfl⟩ := map_ok hl
    exact ⟨mol, hmol, mem_blockedBy.mp hb⟩
  · rintro ⟨mol, hmol, hb⟩
    exact ⟨mol.blockedBy, by rw [next_eq, hmol]; rfl, mem_blockedBy.mpr hb⟩

end Found

section Ancestors

variable {store store' : StateStore} {molecule a b : MoleculeId} {ancestry : MissionAncestry}

theorem sound_iff : Sound (ancestors store) molecule ↔
    (∀ a, ReflTransGen (Parent store) molecule a → ∃ mol, store.loadMolecule a = .ok mol) ∧
      ∀ a, ReflTransGen (Parent store) molecule a → ¬ TransGen (Parent store) a a := by
  have hload (a : MoleculeId) : (∃ l, (ancestors store).next a = .ok l) ↔ ∃ mol, store.loadMolecule a = .ok mol := by
    rw [next_eq]
    refine ⟨fun ⟨_, hl⟩ => ?_, fun ⟨mol, hmol⟩ => ⟨mol.blockedBy, by rw [hmol]; rfl⟩⟩
    obtain ⟨mol, hmol, -⟩ := map_ok hl
    exact ⟨mol, hmol⟩
  simp only [Sound, edge_eq, hload]
  exact ⟨fun h => ⟨fun a ha => (h a ha).1, fun a ha => (h a ha).2⟩, fun h a ha => ⟨h.1 a ha, h.2 a ha⟩⟩

theorem Reordered.symm (h : Reordered store store') : Reordered store' store := by
  intro a
  have ha := h a
  generalize (store.loadMolecule a).toOption = loaded at ha ⊢
  generalize (store'.loadMolecule a).toOption = loaded' at ha ⊢
  cases ha with
  | none => exact .none
  | some hperm => exact .some hperm.symm

theorem Reordered.load (h : Reordered store store') {mol : MoleculeData} (hmol : store.loadMolecule a = .ok mol) :
    ∃ mol', store'.loadMolecule a = .ok mol' ∧ mol.typedLinks.Perm mol'.typedLinks := by
  have ha := h a
  rw [hmol] at ha
  cases hload : store'.loadMolecule a with
  | error e =>
    rw [hload] at ha
    cases ha
  | ok mol' =>
    rw [hload] at ha
    cases ha with
    | some hperm => exact ⟨mol', rfl, hperm⟩

theorem Reordered.parent (h : Reordered store store') : Parent store = Parent store' := by
  have hmono {store store' : StateStore} (h : Reordered store store') {a b : MoleculeId} (hab : Parent store a b) :
      Parent store' a b := by
    obtain ⟨mol, hmol, hb⟩ := hab
    obtain ⟨mol', hmol', hperm⟩ := h.load hmol
    exact ⟨mol', hmol', hperm.mem_iff.mp hb⟩
  funext a b
  exact propext ⟨hmono h, hmono h.symm⟩

theorem Reordered.isRoot (h : Reordered store store') : IsRoot store molecule a ↔ IsRoot store' molecule a := by
  have hload : (∃ mol, store.loadMolecule a = .ok mol) ↔ ∃ mol, store'.loadMolecule a = .ok mol :=
    ⟨fun ⟨_, hmol⟩ => (h.load hmol).imp fun _ => And.left, fun ⟨_, hmol⟩ => (h.symm.load hmol).imp fun _ => And.left⟩
  rw [IsRoot, IsRoot, h.parent, hload]

theorem Reordered.rooted (h : Reordered store store') (hrooted : Rooted store molecule) : Rooted store' molecule where
  loads a ha := by
    obtain ⟨mol, hmol⟩ := hrooted.loads a (h.parent ▸ ha)
    exact (h.load hmol).imp fun _ => And.left
  acyclic a ha := by
    have hacyclic := hrooted.acyclic a (h.parent ▸ ha)
    rwa [h.parent] at hacyclic
  one := (existsUnique_congr fun _ => h.isRoot).mp hrooted.one

theorem Describes.once_edges (h : Describes store molecule ancestry) :
    ancestry.edges.Pairwise fun edge edge' => edge.1 < edge'.1 := List.pairwise_map.mp h.once

theorem Describes.unique {ancestry' : MissionAncestry} (hreordered : Reordered store store')
    (hrooted : Rooted store molecule)
    (h : Describes store molecule ancestry) (h' : Describes store' molecule ancestry') : ancestry' = ancestry := by
  have hroot : ancestry'.root = ancestry.root := hrooted.one.unique (hreordered.isRoot.mpr h'.root) h.root
  have hless {edges : List (MoleculeId × List MoleculeId)}
      (hsorted : edges.Pairwise fun edge edge' => edge.1 < edge'.1) :
      edges.Nodup := List.nodup_iff_pairwise_ne.mpr (hsorted.imp fun hlt heq => hlt.ne (congrArg Prod.fst heq))
  have hmem (edge : MoleculeId × List MoleculeId) : edge ∈ ancestry'.edges ↔ edge ∈ ancestry.edges := by
    obtain ⟨a, parents⟩ := edge
    rw [h.edges, h'.edges, ← hreordered.parent]
    refine and_congr_right fun _ => ⟨?_, ?_⟩
    · rintro ⟨mol, hmol, hperm, hsorted⟩
      obtain ⟨mol', hmol', hlinks⟩ := hreordered.symm.load hmol
      exact ⟨mol', hmol', hperm.trans (hlinks.filterMap _), hsorted⟩
    · rintro ⟨mol, hmol, hperm, hsorted⟩
      obtain ⟨mol', hmol', hlinks⟩ := hreordered.load hmol
      exact ⟨mol', hmol', hperm.trans (hlinks.filterMap _), hsorted⟩
  have hperm : ancestry'.edges.Perm ancestry.edges :=
    (List.perm_ext_iff_of_nodup (hless h'.once_edges) (hless h.once_edges)).mpr hmem
  have hedges : ancestry'.edges = ancestry.edges :=
    hperm.eq_of_pairwise (fun _ _ _ _ hlt hgt => absurd hgt (lt_asymm hlt)) h'.once_edges h.once_edges
  cases ancestry'
  cases ancestry
  exact congrArg₂ MissionAncestry.mk hroot hedges

end Ancestors

end Cosmon.Harvest.Ancestry
