import Cosmon.Graph.Cycles

namespace Cosmon.Graph.Splices

open Cosmon.Graph.Toposort Cosmon.Graph.Mutation Cosmon.Graph.Cycles Cosmon.Lib.Enumerate

variable {N : Type} [LinearOrder N]

instance : Std.Total (edgeLe (N := N)) where
  total a b := by
    rcases lt_trichotomy a.1 b.1 with h | h | h
    · exact .inl (.inl h)
    · rcases le_total a.2 b.2 with h' | h'
      · exact .inl (.inr ⟨h, h'⟩)
      · exact .inr (.inr ⟨h.symm, h'⟩)
    · exact .inr (.inl h)

instance : IsTrans (N × N) edgeLe where
  trans a b c := by
    rintro (hab | ⟨hab, hab'⟩) (hbc | ⟨hbc, hbc'⟩)
    · exact .inl (hab.trans hbc)
    · exact .inl (hbc ▸ hab)
    · exact .inl (hab ▸ hbc)
    · exact .inr ⟨hab.trans hbc, hab'.trans hbc'⟩

instance : Std.Antisymm (edgeLe (N := N)) where
  antisymm a b := by
    rintro (hab | ⟨hab, hab'⟩) (hba | ⟨hba, hba'⟩)
    · exact absurd hba hab.not_gt
    · exact absurd hba.symm hab.ne
    · exact absurd hab.symm hba.ne
    · exact Prod.ext hab (le_antisymm hab' hba')

structure Lists (merged : List (N × N)) (set : N × N → Prop) : Prop where
  sorted : merged.Pairwise edgeLe
  nodup : merged.Nodup
  mem : ∀ e, e ∈ merged ↔ set e

theorem Lists.unique {merged merged' : List (N × N)} {set : N × N → Prop}
    (h : Lists merged set) (h' : Lists merged' set) : merged = merged' := by
  have hperm : merged.Perm merged' := by
    rw [List.perm_ext_iff_of_nodup h.nodup h'.nodup]
    exact fun e => (h.mem e).trans (h'.mem e).symm
  exact hperm.eq_of_pairwise' h.sorted h'.sorted

theorem Lists.congr {merged : List (N × N)} {set set' : N × N → Prop} (h : Lists merged set)
    (hset : ∀ e, set e ↔ set' e) : Lists merged set' :=
  ⟨h.sorted, h.nodup, fun e => (h.mem e).trans (hset e)⟩

omit [LinearOrder N] in
theorem acyclic_congr {edges edges' : List (N × N)} (hsame : ∀ e, e ∈ edges' ↔ e ∈ edges) :
    Acyclic edges' ↔ Acyclic edges := by
  simp only [Acyclic, hsame]

theorem insertSubgraph_ok {edges newEdges merged : List (N × N)} :
    insertSubgraph edges newEdges = .ok merged ↔
      Acyclic merged ∧ Lists merged (fun e => e ∈ edges ∨ e ∈ newEdges) := by
  have hunion : ∀ e, e ∈ (edges ++ newEdges).eraseDups ↔ e ∈ edges ∨ e ∈ newEdges := by
    intro e
    rw [List.mem_eraseDups, List.mem_append]
  have hlists : Lists ((edges ++ newEdges).eraseDups.insertionSort edgeLe)
      (fun e => e ∈ edges ∨ e ∈ newEdges) := by
    refine ⟨List.pairwise_insertionSort _ _, ?_, ?_⟩
    · rw [(List.perm_insertionSort _ _).nodup_iff]
      exact nodup_eraseDups _
    · intro e
      rw [List.mem_insertionSort, hunion]
  constructor
  · intro h
    refine ⟨insertSubgraph_acyclic h, ?_⟩
    simp only [insertSubgraph] at h
    split at h
    · cases h
    · cases h
      exact hlists
  · rintro ⟨hacyclic, h⟩
    have hmerged : Acyclic (edges ++ newEdges).eraseDups :=
      (acyclic_congr (fun e => (hunion e).trans (h.mem e).symm)).mpr hacyclic
    obtain ⟨order, ho⟩ := (toposort_ok_iff _).mpr hmerged
    simp only [insertSubgraph, ho, hlists.unique h]

theorem insertSubgraph_accepts {edges newEdges : List (N × N)} :
    (∃ merged, insertSubgraph edges newEdges = .ok merged) ↔ Acyclic (edges ++ newEdges) := by
  have hmerged : Acyclic (edges ++ newEdges).eraseDups ↔ Acyclic (edges ++ newEdges) :=
    acyclic_congr fun _ => List.mem_eraseDups
  rw [← hmerged, ← toposort_ok_iff]
  constructor
  · rintro ⟨merged, h⟩
    simp only [insertSubgraph] at h
    split at h
    · cases h
    · next order ho => exact ⟨order, ho⟩
  · rintro ⟨order, ho⟩
    refine ⟨(edges ++ newEdges).eraseDups.insertionSort edgeLe, ?_⟩
    simp only [insertSubgraph, ho]

def insertAll (edges : List (N × N)) (subgraphs : List (List (N × N))) :
    Except (CycleError N) (List (N × N)) :=
  subgraphs.foldlM insertSubgraph edges

theorem insertAll_cons {edges subgraph merged : List (N × N)} {subgraphs : List (List (N × N))} :
    insertAll edges (subgraph :: subgraphs) = .ok merged ↔
      ∃ first, insertSubgraph edges subgraph = .ok first ∧ insertAll first subgraphs = .ok merged := by
  simp only [insertAll, List.foldlM_cons]
  cases insertSubgraph edges subgraph with
  | error e => simp [bind, Except.bind]
  | ok first => simp [bind, Except.bind]

theorem insertAll_ok (edges merged : List (N × N)) {subgraphs : List (List (N × N))}
    (hsome : subgraphs ≠ []) :
    insertAll edges subgraphs = .ok merged ↔
      Acyclic merged ∧ Lists merged (fun e => e ∈ edges ∨ ∃ subgraph ∈ subgraphs, e ∈ subgraph) := by
  induction subgraphs generalizing edges with
  | nil => exact absurd rfl hsome
  | cons subgraph subgraphs ih =>
    rw [insertAll_cons]
    by_cases hrest : subgraphs = []
    · subst hrest
      simp only [insertAll, List.foldlM_nil, List.mem_singleton, exists_eq_left, ← insertSubgraph_ok]
      simp [pure, Except.pure]
    · simp only [fun first => ih first hrest]
      constructor
      · rintro ⟨first, hfirst, hacyclic, hlists⟩
        refine ⟨hacyclic, hlists.congr fun e => ?_⟩
        rw [(insertSubgraph_ok.mp hfirst).2.mem, List.exists_mem_cons_iff, or_assoc]
      · rintro ⟨hacyclic, hlists⟩
        have hunion : Acyclic (edges ++ subgraph) := by
          obtain ⟨rank, hrank⟩ := hacyclic
          refine ⟨rank, fun e he => hrank e ((hlists.mem e).mpr ?_)⟩
          rw [List.exists_mem_cons_iff, ← or_assoc]
          exact .inl (List.mem_append.mp he)
        obtain ⟨first, hfirst⟩ := insertSubgraph_accepts.mpr hunion
        refine ⟨first, hfirst, hacyclic, hlists.congr fun e => ?_⟩
        rw [(insertSubgraph_ok.mp hfirst).2.mem, List.exists_mem_cons_iff, or_assoc]

theorem insertSubgraph_comm {edges newEdges merged : List (N × N)} :
    insertSubgraph edges newEdges = .ok merged ↔ insertSubgraph newEdges edges = .ok merged := by
  simp only [insertSubgraph_ok, or_comm (a := _ ∈ edges)]

theorem insertAll_pair {edges first second merged : List (N × N)} :
    (∃ both, insertSubgraph edges first = .ok both ∧ insertSubgraph both second = .ok merged) ↔
      Acyclic merged ∧ Lists merged (fun e => e ∈ edges ∨ e ∈ first ∨ e ∈ second) := by
  have h := insertAll_ok edges merged (List.cons_ne_nil first [second])
  simp only [List.exists_mem_cons_iff, List.not_mem_nil, false_and, exists_false, or_false] at h
  rw [← h, insertAll_cons]
  simp only [insertAll, List.foldlM_cons, List.foldlM_nil, bind_pure]

/-- Splices are accepted exactly when the union is acyclic and return its sorted list, so
that repeating, exchanging or regrouping them changes nothing: whatever the order in which
the same subgraphs come, either the same list results or some splice is refused. -/
theorem insertSubgraph_order_free (edges newEdges : List (N × N)) :
    ((∃ merged, insertSubgraph edges newEdges = .ok merged) ↔ ∀ n, ¬OnCycle (edges ++ newEdges) n) ∧
    (∀ merged, insertSubgraph edges newEdges = .ok merged →
      Lists merged (fun e => e ∈ edges ∨ e ∈ newEdges) ∧
      insertSubgraph merged newEdges = .ok merged ∧ insertSubgraph newEdges edges = .ok merged) ∧
    (∀ more merged,
      (∃ first, insertSubgraph edges newEdges = .ok first ∧ insertSubgraph first more = .ok merged) ↔
        ∃ last, insertSubgraph newEdges more = .ok last ∧ insertSubgraph edges last = .ok merged) ∧
    ∀ subgraphs subgraphs' : List (List (N × N)), subgraphs.Perm subgraphs' → ∀ merged,
      insertAll edges subgraphs = .ok merged ↔ insertAll edges subgraphs' = .ok merged := by
  refine ⟨?_, ?_, ?_, ?_⟩
  · rw [insertSubgraph_accepts, acyclic_iff]
  · intro merged h
    obtain ⟨hacyclic, hlists⟩ := insertSubgraph_ok.mp h
    refine ⟨hlists, insertSubgraph_ok.mpr ⟨hacyclic, ?_⟩, insertSubgraph_ok.mpr ⟨hacyclic, ?_⟩⟩
    · refine ⟨hlists.sorted, hlists.nodup, fun e => ?_⟩
      rw [hlists.mem, or_assoc, or_self]
    · exact hlists.congr fun e => or_comm
  · intro more merged
    have hlast : (∃ last, insertSubgraph newEdges more = .ok last ∧ insertSubgraph edges last = .ok merged) ↔
        ∃ last, insertSubgraph newEdges more = .ok last ∧ insertSubgraph last edges = .ok merged :=
      exists_congr fun last => and_congr_right fun _ => insertSubgraph_comm
    rw [hlast, insertAll_pair, insertAll_pair]
    apply and_congr_right
    intro _
    constructor
    · exact fun h => h.congr fun e => or_comm.trans or_assoc
    · exact fun h => h.congr fun e => or_assoc.symm.trans or_comm
  · intro subgraphs subgraphs' hperm merged
    by_cases hnil : subgraphs = []
    · subst hnil
      rw [hperm.nil_eq]
    · have hnil' : subgraphs' ≠ [] := fun h => hnil (List.perm_nil.mp (h ▸ hperm))
      simp only [insertAll_ok _ _ hnil, insertAll_ok _ _ hnil', hperm.mem_iff]

end Cosmon.Graph.Splices
