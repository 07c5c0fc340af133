import Cosmon.Graph.Toposort
import Mathlib.Data.Finset.SDiff

namespace Cosmon.Graph.ReadyFrontier

open Cosmon.Lib.Enumerate
open Cosmon.Graph.Toposort Cosmon.Graph.Mutation

variable {N : Type} [LinearOrder N]

def depsOf (edges : List (N × N)) (node : N) : List N :=
  (edges.filter (fun e => e.2 = node)).map Prod.fst

def readyFrontier (edges : List (N × N)) (completed : Finset N) : List N :=
  enumerate ((nodes edges).filter (fun node =>
    node ∉ completed ∧ (depsOf edges node).all (fun d => d ∈ completed)))

def pruneCompleted (edges : List (N × N)) (completed : Finset N) : List (N × N) × List N :=
  let pruned := (edges.filter (fun e => e.1 ∉ completed)).insertionSort edgeLe
  (pruned, enumerate (nodes edges \ nodes pruned))

theorem mem_depsOf {edges : List (N × N)} {node d : N} : d ∈ depsOf edges node ↔ (d, node) ∈ edges := by
  simp [depsOf]

theorem mem_readyFrontier {edges : List (N × N)} {completed : Finset N} {n : N} :
    n ∈ readyFrontier edges completed ↔
      n ∈ nodes edges ∧ n ∉ completed ∧ ∀ d, (d, n) ∈ edges → d ∈ completed := by
  simp [readyFrontier, mem_depsOf]

section Pruning

variable (edges : List (N × N)) (completed : Finset N)

theorem mem_pruned (e : N × N) :
    e ∈ (pruneCompleted edges completed).1 ↔ e ∈ edges ∧ e.1 ∉ completed := by
  simp [pruneCompleted]

theorem mem_removed (n : N) :
    n ∈ (pruneCompleted edges completed).2 ↔
      n ∈ nodes edges ∧ n ∉ nodes (pruneCompleted edges completed).1 := by
  simp [pruneCompleted]

theorem pruned_nodes {n : N} (hn : n ∈ nodes (pruneCompleted edges completed).1) : n ∈ nodes edges := by
  obtain ⟨e, he, hend⟩ := mem_nodes.mp hn
  exact mem_nodes.mpr ⟨e, ((mem_pruned edges completed e).mp he).1, hend⟩

theorem ready_of_pruned {n : N} (hn : n ∈ readyFrontier (pruneCompleted edges completed).1 ∅) :
    n ∈ readyFrontier edges completed := by
  obtain ⟨hmem, _, hdeps⟩ := mem_readyFrontier.mp hn
  have hno : ∀ d, (d, n) ∉ (pruneCompleted edges completed).1 :=
    fun d hd => Finset.notMem_empty d (hdeps d hd)
  refine mem_readyFrontier.mpr ⟨pruned_nodes edges completed hmem, ?_, ?_⟩
  · -- the edge that still mentions `n` starts there
    obtain ⟨⟨a, b⟩, he, rfl | rfl⟩ := mem_nodes.mp hmem
    · exact ((mem_pruned edges completed _).mp he).2
    · exact absurd he (hno a)
  · intro d hd
    by_contra hopen
    exact hno d ((mem_pruned edges completed _).mpr ⟨hd, hopen⟩)

theorem ready_of_removed {n : N} (hn : n ∈ (pruneCompleted edges completed).2) (hopen : n ∉ completed) :
    n ∈ readyFrontier edges completed := by
  obtain ⟨hmem, hgone⟩ := (mem_removed edges completed n).mp hn
  refine mem_readyFrontier.mpr ⟨hmem, hopen, fun d hd => ?_⟩
  by_contra hdep
  exact hgone (snd_mem_nodes ((mem_pruned edges completed (d, n)).mpr ⟨hd, hdep⟩))

theorem pruned_or_removed {n : N} (hn : n ∈ readyFrontier edges completed) :
    n ∈ readyFrontier (pruneCompleted edges completed).1 ∅ ∨
      n ∈ (pruneCompleted edges completed).2 ∧ n ∉ completed := by
  obtain ⟨hmem, hopen, hdeps⟩ := mem_readyFrontier.mp hn
  by_cases hleft : n ∈ nodes (pruneCompleted edges completed).1
  · refine .inl (mem_readyFrontier.mpr ⟨hleft, Finset.notMem_empty n, fun d hd => ?_⟩)
    obtain ⟨hedge, hd⟩ := (mem_pruned edges completed (d, n)).mp hd
    exact absurd (hdeps d hedge) hd
  · exact .inr ⟨(mem_removed edges completed n).mpr ⟨hmem, hleft⟩, hopen⟩

/-- Pruning splits the ready frontier into what the pruned graph still shows and what fell
off it without being completed. -/
theorem readyFrontier_prune :
    (readyFrontier edges completed).toFinset =
        (readyFrontier (pruneCompleted edges completed).1 ∅).toFinset ∪
          (pruneCompleted edges completed).2.toFinset \ completed ∧
      Disjoint (readyFrontier (pruneCompleted edges completed).1 ∅).toFinset
        ((pruneCompleted edges completed).2.toFinset \ completed) := by
  constructor
  · ext n
    simp only [Finset.mem_union, Finset.mem_sdiff, List.mem_toFinset]
    constructor
    · exact pruned_or_removed edges completed
    · rintro (hn | ⟨hn, hopen⟩)
      · exact ready_of_pruned edges completed hn
      · exact ready_of_removed edges completed hn hopen
  · rw [Finset.disjoint_left]
    intro n hready hremoved
    have hn := (mem_readyFrontier.mp (List.mem_toFinset.mp hready)).1
    have hgone := List.mem_toFinset.mp (Finset.mem_sdiff.mp hremoved).1
    exact ((mem_removed edges completed n).mp hgone).2 hn

end Pruning

example : readyFrontier [(1, 2), (2, 3)] {1} = [2] ∧ pruneCompleted [(1, 2)] {1} = ([], [1, 2]) := by
  decide

end Cosmon.Graph.ReadyFrontier
