import Cosmon.Runtime.CompilePlan

namespace Cosmon.State.Deps

open Relation
open Cosmon.Lib.BreadthFirst Cosmon.State.Molecule Cosmon.Runtime.CompilePlan

inductive DepsError where
  | moleculeNotFound (query : String)
  | ambiguousPrefix (query : String) (count : Nat)
  | storeUnavailable (reason : String)
deriving DecidableEq

def DepsError.ofCosmon (e : CosmonError) : DepsError := .storeUnavailable e.toString

inductive Direction where
  | upstream
  | downstream
deriving DecidableEq

def refinesTarget : MoleculeLink → Option MoleculeId
  | .refines target => some target
  | _ => none

def refinedBySource : MoleculeLink → Option MoleculeId
  | .refinedBy source => some source
  | _ => none

def lineage : Direction → MoleculeLink → Option MoleculeId
  | .upstream, .decayedFrom id => some id
  | .downstream, .decayProduct id => some id
  | _, _ => none

def directNeighbors (mol : MoleculeData) (dir : Direction) : List MoleculeId :=
  let kin := mol.typedLinks.filterMap (lineage dir)
  match dir with
  | .upstream => (mol.blockedBy ++ kin ++ mol.typedLinks.filterMap refinedBySource).eraseDups
  | .downstream => (mol.blocks ++ kin ++ mol.typedLinks.filterMap refinesTarget).eraseDups

/-- What the walk queues when it pops an id: a molecule that cannot be loaded is not expanded. -/
def expand (store : StateStore) (dir : Direction) (id : MoleculeId) : List MoleculeId :=
  match store.loadMolecule id with
  | .ok mol => directNeighbors mol dir
  | .error _ => []

def linked (store : StateStore) (dir : Direction) : Finset MoleculeId :=
  store.stored ∪ store.stored.biUnion fun id => (expand store dir id).toFinset

/-- Breadth-first closure from `startId` in one direction, in discovery order. The store
bounds the rounds (`walkEdges_closure`). -/
def walkEdges (store : StateStore) (startId : MoleculeId) (dir : Direction) :
    Except DepsError (List MoleculeId) :=
  match store.loadMolecule startId with
  | .error e => .error (.ofCosmon e)
  | .ok start =>
    .ok (search (expand store dir) (linked store dir).card
      (Search.discover ⟨{startId}, []⟩ (directNeighbors start dir)))

def Links (store : StateStore) (id : MoleculeId) (link : MoleculeLink) : Prop :=
  ∃ mol, store.loadMolecule id = .ok mol ∧ link ∈ mol.typedLinks

def Neighbour (store : StateStore) : Direction → MoleculeId → MoleculeId → Prop
  | .upstream, a, b =>
    Links store a (.blockedBy b) ∨ Links store a (.decayedFrom b) ∨ Links store a (.refinedBy b)
  | .downstream, a, b =>
    Links store a (.blocks b) ∨ Links store a (.decayProduct b) ∨ Links store a (.refines b)

structure Mirrored (store : StateStore) : Prop where
  blocks : ∀ a b, Links store a (.blocks b) ↔ Links store b (.blockedBy a)
  decay : ∀ a b, Links store a (.decayProduct b) ↔ Links store b (.decayedFrom a)
  refines : ∀ a b, Links store a (.refines b) ↔ Links store b (.refinedBy a)

theorem mem_directNeighbors {mol : MoleculeData} {dir : Direction} {b : MoleculeId} :
    b ∈ directNeighbors mol dir ↔
      match dir with
      | .upstream => .blockedBy b ∈ mol.typedLinks ∨ .decayedFrom b ∈ mol.typedLinks ∨
          .refinedBy b ∈ mol.typedLinks
      | .downstream => .blocks b ∈ mol.typedLinks ∨ .decayProduct b ∈ mol.typedLinks ∨
          .refines b ∈ mol.typedLinks := by
  cases dir with
  | upstream =>
    simp only [directNeighbors, List.mem_eraseDups, List.mem_append, MoleculeData.blockedBy, or_assoc]
    rw [mem_filterMap_links .blockedBy, mem_filterMap_links .decayedFrom,
      mem_filterMap_links .refinedBy]
    all_goals
      intro l b
      cases l <;> simp [MoleculeLink.blockedBySource, lineage, refinedBySource]
  | downstream =>
    simp only [directNeighbors, List.mem_eraseDups, List.mem_append, MoleculeData.blocks, or_assoc]
    rw [mem_filterMap_links .blocks, mem_filterMap_links .decayProduct,
      mem_filterMap_links .refines]
    all_goals
      intro l b
      cases l <;> simp [MoleculeLink.blocksTarget, lineage, refinesTarget]

theorem mem_expand {store : StateStore} {dir : Direction} {a b : MoleculeId} :
    b ∈ expand store dir a ↔ Neighbour store dir a b := by
  unfold expand
  cases hload : store.loadMolecule a with
  | error e => cases dir <;> simp [Neighbour, Links, hload]
  | ok mol =>
    dsimp only
    rw [mem_directNeighbors]
    cases dir <;> simp [Neighbour, Links, hload]

theorem expand_linked {store : StateStore} {dir : Direction} :
    ∀ a ∈ linked store dir, ∀ b ∈ expand store dir a, b ∈ linked store dir := by
  intro a _ b hb
  have hs : a ∈ store.stored := by
    by_contra hn
    simp only [expand, store.absent a hn, List.not_mem_nil] at hb
  exact Finset.mem_union_right _ (Finset.mem_biUnion.mpr ⟨a, hs, List.mem_toFinset.mpr hb⟩)

theorem Mirrored.swap {store : StateStore} (h : Mirrored store) (a b : MoleculeId) :
    Neighbour store .downstream a b ↔ Neighbour store .upstream b a := by
  rw [Neighbour, Neighbour, h.blocks, h.decay, h.refines]

theorem neighbour_loads {store : StateStore} {dir : Direction} {a b : MoleculeId}
    (h : Neighbour store dir a b) : ∃ mol, store.loadMolecule a = .ok mol := by
  cases dir with
  | upstream =>
    rcases h with ⟨mol, hmol, -⟩ | ⟨mol, hmol, -⟩ | ⟨mol, hmol, -⟩ <;> exact ⟨mol, hmol⟩
  | downstream =>
    rcases h with ⟨mol, hmol, -⟩ | ⟨mol, hmol, -⟩ | ⟨mol, hmol, -⟩ <;> exact ⟨mol, hmol⟩

theorem walkEdges_ok {store : StateStore} {start : MoleculeId} {dir : Direction} {out : List MoleculeId}
    (h : walkEdges store start dir = .ok out) : start ∈ linked store dir ∧
      search (expand store dir) (linked store dir).card
        (Search.discover ⟨{start}, []⟩ (expand store dir start)) = out := by
  unfold walkEdges at h
  split at h
  · cases h
  · next mol hload =>
    cases h
    refine ⟨Finset.mem_union_left _ ?_, ?_⟩
    · by_contra hn
      rw [store.absent start hn] at hload
      cases hload
    · simp only [expand, hload]

theorem walkEdges_loads {store : StateStore} {start : MoleculeId} {dir : Direction} :
    (∃ out, walkEdges store start dir = .ok out) ↔ ∃ mol, store.loadMolecule start = .ok mol := by
  unfold walkEdges
  cases store.loadMolecule start with
  | error e => simp
  | ok mol => simp

theorem mem_walkEdges {store : StateStore} {start : MoleculeId} {dir : Direction} {out : List MoleculeId}
    (h : walkEdges store start dir = .ok out) : out.Nodup ∧
      ∀ id, id ∈ out ↔ id ≠ start ∧ ReflTransGen (Neighbour store dir) start id := by
  obtain ⟨hstart, rfl⟩ := walkEdges_ok h
  have hstep : Neighbour store dir = fun a b => b ∈ expand store dir a := by
    funext a b
    exact propext mem_expand.symm
  rw [hstep]
  exact search_from expand_linked hstart le_rfl

/-- The walk of a readable molecule contains another one exactly when links lead to it. -/
theorem walks_to_iff {store : StateStore} {a b : MoleculeId} {dir : Direction} :
    (∃ out, walkEdges store a dir = .ok out ∧ b ∈ out) ↔
      b ≠ a ∧ ReflTransGen (Neighbour store dir) a b := by
  constructor
  · rintro ⟨out, hout, hb⟩
    exact ((mem_walkEdges hout).2 b).mp hb
  · rintro ⟨hne, hreach⟩
    obtain heq | ⟨c, hstep, -⟩ := ReflTransGen.cases_head hreach
    · exact absurd heq.symm hne
    · obtain ⟨out, hout⟩ := walkEdges_loads.mpr (neighbour_loads hstep)
      exact ⟨out, hout, ((mem_walkEdges hout).2 b).mpr ⟨hne, hreach⟩⟩

/-- The walk ends, and lists once each what the links lead to: everything but the start
itself. Where both endpoints record every edge, the two directions mirror each other. -/
theorem walkEdges_closure (store : StateStore) :
    (∀ start dir, (∃ out, walkEdges store start dir = .ok out) ↔
      ∃ mol, store.loadMolecule start = .ok mol) ∧
    (∀ start dir out, walkEdges store start dir = .ok out → out.Nodup ∧
      (∀ id, id ∈ out ↔ id ≠ start ∧ ReflTransGen (Neighbour store dir) start id) ∧
      ∀ more, search (expand store dir) ((linked store dir).card + more)
        (Search.discover ⟨{start}, []⟩ (expand store dir start)) = out) ∧
    (Mirrored store → ∀ a b,
      (∃ out, walkEdges store a .downstream = .ok out ∧ b ∈ out) ↔
        ∃ out, walkEdges store b .upstream = .ok out ∧ a ∈ out) := by
  refine ⟨fun start dir => walkEdges_loads, fun start dir out h => ?_, fun hmirrored a b => ?_⟩
  · obtain ⟨hnodup, hmem⟩ := mem_walkEdges h
    refine ⟨hnodup, hmem, fun more => ?_⟩
    obtain ⟨hstart, heq⟩ := walkEdges_ok h
    exact (search_from_enough expand_linked hstart le_rfl more).trans heq
  · rw [walks_to_iff, walks_to_iff, ne_comm]
    apply and_congr_right
    intro _
    have hswap : Neighbour store .downstream = Function.swap (Neighbour store .upstream) := by
      funext a b
      exact propext (hmirrored.swap a b)
    rw [hswap, reflTransGen_swap]

end Cosmon.State.Deps
