import Cosmon.Graph.SccSearch
import Mathlib.Data.List.Flatten

namespace Cosmon.Graph.Scc

open Relation

open Cosmon.Graph.Toposort Cosmon.Graph.Cycles

section Search

variable {V : Type} [DecidableEq V] {adj : V → List V} {vertices : List V} {s : Search V}
  (hall : ∀ v, v ∈ vertices) (hnodup : vertices.Nodup)

include hall hnodup

theorem visit_spec (h : Inv adj s) (hwork : s.work = []) (start : V) :
    ∃ s', visit adj (vertices.length + (vertices.flatMap adj).length) s start = .ok s' ∧ Inv adj s' ∧
      s'.work = [] ∧ (∃ i, s'.indices start = some i) ∧ ∀ x i, s.indices x = some i → s'.indices x = some i := by
  rw [visit]
  cases hstart : s.indices start with
  | some i => exact ⟨s, rfl, h, hwork, ⟨i, hstart⟩, fun _ _ hx => hx⟩
  | none =>
    have hstack : s.stack = [] := (hwork ▸ h.layers).stack_nil
    have hself : { s with work := [] } = s := by rw [← hwork]
    have hfound : Inv adj (discover start s) := by
      rw [← hself]
      apply discover_inv h hstart
      · rw [hstack]
        exact .nil
      · simp
    have hpending : pending adj vertices (discover start s) ≤ vertices.length + (vertices.flatMap adj).length := by
      rw [pending_discover hall hnodup hstart, pending, hwork, frameTurns, Nat.add_zero]
      have hsub : (whites vertices s).Sublist vertices := List.filter_sublist
      exact Nat.add_le_add hsub.length_le (hsub.flatMap adj).length_le
    obtain ⟨s', hloop, h', hdone, hkept⟩ := loop_finishes hall hnodup _ hfound hpending
    refine ⟨s', hloop, h', hdone, ⟨s.index, hkept start _ (Function.update_self ..)⟩, fun x i hx => ?_⟩
    exact hkept x i (discover_indices hstart x i hx).2

theorem visitAll_spec (starts : List V) (h : Inv adj s) (hwork : s.work = []) :
    ∃ s', visitAll adj (vertices.length + (vertices.flatMap adj).length) s starts = .ok s' ∧ Inv adj s' ∧
      s'.work = [] ∧ (∀ v ∈ starts, ∃ i, s'.indices v = some i) ∧
      ∀ x i, s.indices x = some i → s'.indices x = some i := by
  induction starts generalizing s with
  | nil => exact ⟨s, rfl, h, hwork, by simp, fun _ _ hx => hx⟩
  | cons start starts ih =>
    obtain ⟨s₁, hvisit, h₁, hwork₁, ⟨i, hi⟩, hkept⟩ := visit_spec hall hnodup h hwork start
    obtain ⟨s₂, hrest, h₂, hwork₂, hvisited, hkept'⟩ := ih h₁ hwork₁
    refine ⟨s₂, ?_, h₂, hwork₂, ?_, fun x i hx => hkept' x i (hkept x i hx)⟩
    · simp only [visitAll, hvisit]
      exact hrest
    · exact List.forall_mem_cons.mpr ⟨⟨i, hkept' start i hi⟩, hvisited⟩

variable (adj) in
theorem findSccs_spec :
    ∃ sccs, findSccs adj vertices = .ok sccs ∧ (∀ v, v ∈ sccs.flatten) ∧ sccs.flatten.Nodup ∧
      ∀ comp ∈ sccs, ∃ r ∈ comp, ∀ u, u ∈ comp ↔ Reach adj r u ∧ Reach adj u r := by
  have hempty : Inv adj empty := empty_inv
  obtain ⟨s, hrun, h, hwork, hvisited, _⟩ := visitAll_spec hall hnodup vertices hempty rfl
  have hstack : s.stack = [] := (hwork ▸ h.layers).stack_nil
  refine ⟨s.sccs, by simp only [findSccs, hrun], fun v => ?_, h.nodup, h.classes⟩
  rw [h.emitted, hstack]
  exact ⟨hvisited v (hall v), List.not_mem_nil⟩

end Search

variable {N : Type} [LinearOrder N]

theorem intern_spec {nodes : List N} (hnodup : nodes.Nodup) (n : N) :
    (intern nodes n).Nodup ∧ ∀ m, m ∈ intern nodes n ↔ m ∈ nodes ∨ m = n := by
  rw [intern]
  by_cases hn : n ∈ nodes
  · rw [if_pos hn]
    refine ⟨hnodup, fun m => ⟨.inl, ?_⟩⟩
    rintro (hm | rfl)
    · exact hm
    · exact hn
  · rw [if_neg hn]
    refine ⟨?_, by simp⟩
    exact List.nodup_append.mpr ⟨hnodup, List.nodup_singleton n,
      fun a ha b hb heq => hn ((heq.trans (List.mem_singleton.mp hb)) ▸ ha)⟩

theorem internAll_spec (vertices : List N) (edges : List (N × N)) :
    (internAll vertices edges).Nodup ∧
      ∀ n, n ∈ internAll vertices edges ↔ n ∈ vertices ∨ n ∈ nodes edges := by
  have hvertices : ∀ (vs acc : List N), acc.Nodup → (vs.foldl intern acc).Nodup ∧
      ∀ n, n ∈ vs.foldl intern acc ↔ n ∈ acc ∨ n ∈ vs := by
    intro vs
    induction vs with
    | nil => simp
    | cons v vs ih =>
      intro acc hacc
      obtain ⟨hnodup, hmem⟩ := intern_spec hacc v
      obtain ⟨hnodup', hmem'⟩ := ih _ hnodup
      refine ⟨hnodup', fun n => (hmem' n).trans ?_⟩
      rw [hmem, List.mem_cons, or_assoc]
  have hedges : ∀ (es : List (N × N)) (acc : List N), acc.Nodup →
      (es.foldl (fun nodes e => intern (intern nodes e.1) e.2) acc).Nodup ∧
      ∀ n, n ∈ es.foldl (fun nodes e => intern (intern nodes e.1) e.2) acc ↔ n ∈ acc ∨ n ∈ nodes es := by
    intro es
    induction es with
    | nil => simp [nodes]
    | cons e es ih =>
      intro acc hacc
      obtain ⟨hnodup₁, hmem₁⟩ := intern_spec hacc e.1
      obtain ⟨hnodup₂, hmem₂⟩ := intern_spec hnodup₁ e.2
      obtain ⟨hnodup, hmem⟩ := ih _ hnodup₂
      refine ⟨hnodup, fun n => (hmem n).trans ?_⟩
      rw [hmem₂, hmem₁, nodes, Finset.mem_insert, Finset.mem_insert]
      tauto
  obtain ⟨hnodup, hmem⟩ := hvertices vertices [] .nil
  obtain ⟨hnodup', hmem'⟩ := hedges edges _ hnodup
  refine ⟨hnodup', fun n => (hmem' n).trans ?_⟩
  rw [hmem]
  simp

theorem mem_dedup {α : Type} [DecidableEq α] (xs : List α) (a : α) : a ∈ dedup xs ↔ a ∈ xs := by
  induction xs using dedup.induct with
  | case1 => rfl
  | case2 b => rfl
  | case3 b rest ih =>
    rw [dedup, if_pos rfl, ih]
    simp
  | case4 b c rest hne ih =>
    rw [dedup, if_neg hne]
    exact List.mem_cons.trans ((or_congr_right ih).trans List.mem_cons.symm)

theorem idxOf_eq_some {nodes : List N} (hnodup : nodes.Nodup) {n : N} {i : Fin nodes.length} :
    idxOf nodes n = some i ↔ nodes.get i = n := by
  have hfound : ∀ {m i}, idxOf nodes m = some i → nodes.get i = m := by
    intro m i h
    rw [idxOf] at h
    simpa using List.find?_some h
  constructor
  · exact hfound
  · rintro rfl
    cases hfind : idxOf nodes (nodes.get i) with
    | none =>
      have h := List.find?_eq_none.mp hfind i (List.mem_finRange i)
      simp at h
    | some j =>
      rw [List.nodup_iff_injective_get.mp hnodup (hfound hfind)]

theorem mem_adjacency {nodes : List N} (hnodup : nodes.Nodup) (edges : List (N × N)) (i j : Fin nodes.length) :
    j ∈ adjacency nodes edges i ↔ Edge edges (nodes.get i) (nodes.get j) := by
  rw [adjacency, mem_dedup, List.mem_insertionSort, List.mem_filterMap]
  constructor
  · rintro ⟨e, he, hj⟩
    obtain ⟨he, hi⟩ := List.mem_filter.mp he
    have hi : e.1 = nodes.get i := of_decide_eq_true hi
    have hj : nodes.get j = e.2 := (idxOf_eq_some hnodup).mp hj
    rwa [Edge, ← hi, hj]
  · intro h
    refine ⟨(nodes.get i, nodes.get j), List.mem_filter.mpr ⟨h, decide_eq_true rfl⟩, ?_⟩
    exact (idxOf_eq_some hnodup).mpr rfl

section Interned

variable {nodes : List N} {edges : List (N × N)} (hnodup : nodes.Nodup)
  (hmem : ∀ n, n ∈ Toposort.nodes edges → n ∈ nodes)

include hnodup

theorem reach_edges {i j : Fin nodes.length} (h : Reach (adjacency nodes edges) i j) :
    ReflTransGen (Edge edges) (nodes.get i) (nodes.get j) := by
  induction h with
  | refl => exact .refl
  | tail _ hjk ih => exact ih.tail ((mem_adjacency hnodup edges _ _).mp hjk)

include hmem

theorem edges_reach {i : Fin nodes.length} {b : N} (h : ReflTransGen (Edge edges) (nodes.get i) b) :
    ∃ j, nodes.get j = b ∧ Reach (adjacency nodes edges) i j := by
  induction h with
  | refl => exact ⟨i, rfl, .refl⟩
  | tail _ hbc ih =>
    obtain ⟨k, rfl, hreach⟩ := ih
    obtain ⟨l, rfl⟩ := List.mem_iff_get.mp (hmem _ (snd_mem_nodes hbc))
    exact ⟨l, rfl, hreach.tail ((mem_adjacency hnodup edges k l).mpr hbc)⟩

theorem reach_iff (i j : Fin nodes.length) :
    Reach (adjacency nodes edges) i j ↔ ReflTransGen (Edge edges) (nodes.get i) (nodes.get j) := by
  refine ⟨reach_edges hnodup, fun h => ?_⟩
  obtain ⟨k, hk, hreach⟩ := edges_reach hnodup hmem h
  rwa [← List.nodup_iff_injective_get.mp hnodup hk]

theorem class_vertices {ixs : List (Fin nodes.length)} {r i : Fin nodes.length}
    (hr : ∀ i, i ∈ ixs ↔ Reach (adjacency nodes edges) r i ∧ Reach (adjacency nodes edges) i r) (hi : i ∈ ixs)
    (b : N) : b ∈ ixs.map nodes.get ↔
      ReflTransGen (Edge edges) (nodes.get i) b ∧ ReflTransGen (Edge edges) b (nodes.get i) := by
  obtain ⟨hri, hir⟩ := (hr i).mp hi
  constructor
  · intro hb
    obtain ⟨j, hj, rfl⟩ := List.mem_map.mp hb
    obtain ⟨hrj, hjr⟩ := (hr j).mp hj
    exact ⟨reach_edges hnodup (hir.trans hrj), reach_edges hnodup (hjr.trans hri)⟩
  · rintro ⟨hab, hba⟩
    obtain ⟨j, rfl, hij⟩ := edges_reach hnodup hmem hab
    have hji := (reach_iff hnodup hmem j i).mpr hba
    exact List.mem_map_of_mem ((hr j).mpr ⟨hri.trans hij, hji.trans hir⟩)

end Interned

def Mutual (edges : List (N × N)) (a b : N) : Prop :=
  ReflTransGen (Edge edges) a b ∧ ReflTransGen (Edge edges) b a

def headLt : List N → List N → Prop
  | a :: _, b :: _ => a < b
  | _, _ => False

/-- The classes of mutual reachability, in canonical form. -/
structure Partition (vertices : List N) (edges : List (N × N)) (sccs : List (List N)) : Prop where
  cover : ∀ n, n ∈ sccs.flatten ↔ n ∈ vertices ∨ n ∈ nodes edges
  nodup : sccs.flatten.Nodup
  nonempty : ∀ comp ∈ sccs, comp ≠ []
  classes : ∀ comp ∈ sccs, ∀ a ∈ comp, ∀ b, b ∈ comp ↔ Mutual edges a b
  ascending : ∀ comp ∈ sccs, comp.Pairwise (· < ·)
  ordered : sccs.Pairwise headLt

instance : Std.Irrefl (headLt (N := N)) where
  irrefl
    | [] => id
    | a :: _ => lt_irrefl a

instance : Std.Antisymm (headLt (N := N)) where
  antisymm
    | [], _, h, _ => h.elim
    | _ :: _, [], h, _ => h.elim
    | _ :: _, _ :: _, h, h' => absurd h' (lt_asymm h)

instance : Std.Total (headLe (N := N)) where
  total
    | [], _ => .inl trivial
    | _ :: _, [] => .inr trivial
    | a :: _, b :: _ => le_total a b

instance : IsTrans (List N) headLe where
  trans
    | [], _, _, _, _ => trivial
    | _ :: _, [], _, h, _ => h.elim
    | _ :: _, _ :: _, [], _, h => h.elim
    | _ :: _, _ :: _, _ :: _, h, h' => le_trans h h'

theorem Partition.unique {vertices : List N} {edges : List (N × N)} {sccs sccs' : List (List N)}
    (h : Partition vertices edges sccs) (h' : Partition vertices edges sccs') : sccs' = sccs := by
  have hsub : ∀ {sccs sccs' : List (List N)}, Partition vertices edges sccs → Partition vertices edges sccs' →
      ∀ comp ∈ sccs, comp ∈ sccs' := by
    intro sccs sccs' h h' comp hcomp
    obtain ⟨a, ha⟩ := List.exists_mem_of_ne_nil comp (h.nonempty comp hcomp)
    have hcover := (h'.cover a).mpr ((h.cover a).mp (List.mem_flatten_of_mem hcomp ha))
    obtain ⟨comp', hcomp', ha'⟩ := List.mem_flatten.mp hcover
    have hsame : comp = comp' := by
      apply (h.ascending comp hcomp).eq_of_mem_iff (h'.ascending comp' hcomp')
      exact fun b => (h.classes comp hcomp a ha b).trans (h'.classes comp' hcomp' a ha' b).symm
    exact hsame ▸ hcomp'
  exact h'.ordered.eq_of_mem_iff h.ordered fun comp => ⟨hsub h' h comp, hsub h h' comp⟩

theorem mem_materialise {nodes : List N} {sccs : List (List (Fin nodes.length))} {comp : List N} :
    comp ∈ materialise nodes sccs ↔
      ∃ ixs ∈ sccs, comp = (ixs.map nodes.get).insertionSort (· ≤ ·) := by
  simp [materialise, eq_comm]

theorem materialise_flatten (nodes : List N) (sccs : List (List (Fin nodes.length))) :
    (materialise nodes sccs).flatten.Perm (sccs.flatten.map nodes.get) := by
  refine (List.perm_insertionSort headLe _).flatten.trans ?_
  induction sccs with
  | nil => exact .refl _
  | cons ixs sccs ih =>
    rw [List.map_cons, List.flatten_cons, List.flatten_cons, List.map_append]
    exact (List.perm_insertionSort _ _).append ih

theorem headLt_of_headLe {c d : List N} (hle : headLe c d) (hc : c ≠ []) (hd : d ≠ []) (hdisjoint : c.Disjoint d) :
    headLt c d := by
  cases c with
  | nil => exact absurd rfl hc
  | cons a c =>
    cases d with
    | nil => exact absurd rfl hd
    | cons b d =>
      refine lt_of_le_of_ne hle ?_
      rintro rfl
      exact hdisjoint List.mem_cons_self List.mem_cons_self

theorem materialise_partition {vertices nodes : List N} {edges : List (N × N)}
    {sccs : List (List (Fin nodes.length))} (hnodup : nodes.Nodup)
    (hmem : ∀ n, n ∈ nodes ↔ n ∈ vertices ∨ n ∈ Toposort.nodes edges) (hall : ∀ i, i ∈ sccs.flatten)
    (honce : sccs.flatten.Nodup)
    (hclass : ∀ ixs ∈ sccs, ∃ r ∈ ixs, ∀ i, i ∈ ixs ↔
      Reach (adjacency nodes edges) r i ∧ Reach (adjacency nodes edges) i r) :
    Partition vertices edges (materialise nodes sccs) := by
  have hinj := List.nodup_iff_injective_get.mp hnodup
  have hflat := materialise_flatten nodes sccs
  have hends : ∀ n, n ∈ Toposort.nodes edges → n ∈ nodes := fun n hn => (hmem n).mpr (.inr hn)
  have hflatnodup : (materialise nodes sccs).flatten.Nodup := hflat.nodup_iff.mpr (honce.map hinj)
  have hnonempty : ∀ comp ∈ materialise nodes sccs, comp ≠ [] := by
    intro comp hcomp
    obtain ⟨ixs, hixs, rfl⟩ := mem_materialise.mp hcomp
    obtain ⟨r, hr, _⟩ := hclass ixs hixs
    exact List.ne_nil_of_mem ((List.mem_insertionSort _).mpr (List.mem_map_of_mem hr))
  constructor
  case nodup => exact hflatnodup
  case nonempty => exact hnonempty
  case cover =>
    intro n
    rw [hflat.mem_iff, ← hmem, List.mem_map, List.mem_iff_get]
    exact ⟨fun ⟨i, _, hi⟩ => ⟨i, hi⟩, fun ⟨i, hi⟩ => ⟨i, hall i, hi⟩⟩
  case classes =>
    intro comp hcomp a ha b
    obtain ⟨ixs, hixs, rfl⟩ := mem_materialise.mp hcomp
    obtain ⟨r, _, hr⟩ := hclass ixs hixs
    rw [List.mem_insertionSort] at ha ⊢
    obtain ⟨i, hi, rfl⟩ := List.mem_map.mp ha
    exact class_vertices hnodup hends hr hi b
  case ascending =>
    intro comp hcomp
    obtain ⟨ixs, hixs, rfl⟩ := mem_materialise.mp hcomp
    have hixsnodup : ixs.Nodup := (List.nodup_flatten.mp honce).1 ixs hixs
    have hsorted := List.pairwise_insertionSort (· ≤ ·) (ixs.map nodes.get)
    have hdistinct : ((ixs.map nodes.get).insertionSort (· ≤ ·)).Nodup :=
      (List.perm_insertionSort _ _).nodup_iff.mpr (hixsnodup.map hinj)
    exact (hsorted.and hdistinct).imp fun h => lt_of_le_of_ne h.1 h.2
  case ordered =>
    have hsorted : (materialise nodes sccs).Pairwise headLe := List.pairwise_insertionSort headLe _
    have hdisjoint := (List.nodup_flatten.mp hflatnodup).2
    refine (hsorted.and hdisjoint).imp_of_mem fun hc hd h => ?_
    exact headLt_of_headLe h.1 (hnonempty _ hc) (hnonempty _ hd) h.2

theorem tarjanScc_partition (vertices : List N) (edges : List (N × N)) :
    ∃ sccs, tarjanScc vertices edges = .ok sccs ∧ Partition vertices edges sccs := by
  obtain ⟨hnodup, hmem⟩ := internAll_spec vertices edges
  have hrange := List.nodup_finRange (internAll vertices edges).length
  obtain ⟨sccs, hfind, hall, honce, hclass⟩ := findSccs_spec (adjacency _ edges) List.mem_finRange hrange
  refine ⟨_, ?_, materialise_partition hnodup hmem hall honce hclass⟩
  simp only [tarjanScc, hfind]

theorem nonTrivial_iff {vertices : List N} {edges : List (N × N)} {sccs : List (List N)}
    (h : Partition vertices edges sccs) {comp : List N} (hcomp : comp ∈ sccs) :
    (2 ≤ comp.length ∨ comp.length = 1 ∧
      comp.head?.any (fun n => n ∈ (edges.filter (fun e => e.1 = e.2)).map Prod.fst)) ↔
    ∃ n ∈ comp, OnCycle edges n := by
  have hclass := h.classes comp hcomp
  have hascending := h.ascending comp hcomp
  rcases comp with _ | ⟨a, _ | ⟨b, comp⟩⟩
  · exact absurd rfl (h.nonempty _ hcomp)
  · have hself : a ∈ (edges.filter (fun e => e.1 = e.2)).map Prod.fst ↔ Edge edges a a := by
      simp [Edge]
    simp only [List.length_singleton, List.head?_cons, Option.any_some, decide_eq_true_eq, hself, true_and,
      List.mem_singleton, exists_eq_left]
    constructor
    · rintro (hlen | hloop)
      · omega
      · exact .single hloop
    · intro hcycle
      -- the next vertex of the cycle is in the component, so it is the same one
      obtain ⟨c, hac, hca⟩ := TransGen.head'_iff.mp hcycle
      have hc := (hclass a List.mem_cons_self c).mpr ⟨.single hac, hca⟩
      rw [List.mem_singleton.mp hc] at hac
      exact .inr hac
  · have hlen : 2 ≤ (a :: b :: comp).length := by simp
    refine ⟨fun _ => ⟨a, List.mem_cons_self, ?_⟩, fun _ => .inl hlen⟩
    have hb : b ∈ a :: b :: comp := List.mem_cons_of_mem _ List.mem_cons_self
    have hne : a ≠ b := ((List.pairwise_cons.mp hascending).1 b List.mem_cons_self).ne
    obtain ⟨hab, hba⟩ := (hclass a List.mem_cons_self b).mp hb
    cases reflTransGen_iff_eq_or_transGen.mp hab with
    | inl heq => exact absurd heq.symm hne
    | inr hab => exact hab.trans_left hba

/-- `tarjan_scc` returns the classes of mutual reachability in canonical form and fails no
`expect`; the result depends on nothing but which vertices and edges there are, and the
livelock filter keeps the components with a directed cycle. -/
theorem tarjan_scc_classes (vertices : List N) (edges : List (N × N)) :
    ∃ sccs, tarjanScc vertices edges = .ok sccs ∧ Partition vertices edges sccs ∧
      (∀ vertices' edges', (∀ n, n ∈ vertices' ↔ n ∈ vertices) → (∀ e, e ∈ edges' ↔ e ∈ edges) →
        tarjanScc vertices' edges' = .ok sccs) ∧
      ∃ livelocks, nonTrivialSccs vertices edges = .ok livelocks ∧ livelocks.Sublist sccs ∧
        ∀ comp, comp ∈ livelocks ↔ comp ∈ sccs ∧ ∃ n ∈ comp, OnCycle edges n := by
  obtain ⟨sccs, hrun, hpart⟩ := tarjanScc_partition vertices edges
  refine ⟨sccs, hrun, hpart, ?_, _, by rw [nonTrivialSccs, hrun], List.filter_sublist, ?_⟩
  · intro vertices' edges' hvertices hedges
    obtain ⟨sccs', hrun', hpart'⟩ := tarjanScc_partition vertices' edges'
    have hedge : Edge edges' = Edge edges := by
      funext a b
      exact propext (hedges (a, b))
    have hsame : Partition vertices edges sccs' := by
      refine ⟨fun n => ?_, hpart'.nodup, hpart'.nonempty, ?_, hpart'.ascending, hpart'.ordered⟩
      · rw [hpart'.cover, hvertices, nodes_congr hedges]
      · have hclasses := hpart'.classes
        simp only [Mutual, hedge] at hclasses
        exact hclasses
    rw [hrun', hpart.unique hsame]
  · intro comp
    rw [List.mem_filter, isLivelock, decide_eq_true_iff]
    exact and_congr_right fun hcomp => nonTrivial_iff hpart hcomp

end Cosmon.Graph.Scc
