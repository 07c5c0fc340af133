import Cosmon.Lib.Enumerate
import Mathlib.Data.Finset.Card
import Mathlib.Data.Finset.Lattice.Basic
import Mathlib.Data.List.Count

namespace Cosmon.Graph.Toposort

open Cosmon.Lib.Enumerate

variable {N : Type} [LinearOrder N]

/-- A cycle was detected during topological sort, which got stuck on the node. -/
structure CycleError (N : Type) where
  node : N
deriving DecidableEq, Repr

/-- The endpoints of an edge list. An edge `(a, b)` says that `a` must
complete before `b` can start. -/
def nodes : List (N × N) → Finset N
  | [] => ∅
  | (a, b) :: rest => insert a (insert b (nodes rest))

/-- The in-degree map, one increment for every listed edge. -/
def inDegree : List (N × N) → N → Nat
  | [] => fun _ => 0
  | (_, step) :: rest => Function.update (inDegree rest) step (inDegree rest step + 1)

def dependents (edges : List (N × N)) (node : N) : List N :=
  (edges.filter (fun e => e.1 = node)).map Prod.snd

structure Kahn (N : Type) where
  queue : List N
  degree : N → Nat
  result : List N

/-- One decrement of the inner loop; a node whose degree drops to zero is
appended to the newly ready ones. -/
def decrement (acc : (N → Nat) × List N) (dep : N) : (N → Nat) × List N :=
  let deg := acc.1 dep - 1
  (Function.update acc.1 dep deg, if deg = 0 then acc.2 ++ [dep] else acc.2)

def pop (edges : List (N × N)) (node : N) (rest : List N) (k : Kahn N) : Kahn N :=
  let relaxed := (dependents edges node).foldl decrement (k.degree, [])
  { queue := rest ++ relaxed.2.insertionSort (· ≤ ·)
    degree := relaxed.1
    result := k.result ++ [node] }

def loop (edges : List (N × N)) : Nat → Kahn N → Kahn N
  | 0, k => k
  | fuel + 1, k =>
    match k.queue with
    | [] => k
    | node :: rest => loop edges fuel (pop edges node rest k)

def start (edges : List (N × N)) : Kahn N :=
  { queue := enumerate ((nodes edges).filter (fun n => inDegree edges n = 0))
    degree := inDegree edges
    result := [] }

/-- The state in which the loop stops. Every round emits another node, so
the number of nodes bounds the rounds (`final_queue`). -/
def final (edges : List (N × N)) : Kahn N := loop edges (nodes edges).card (start edges)

/-- Kahn's algorithm. The node named by the error is whichever node the
in-degree map yields first; the model takes the least one. -/
def toposort : List (N × N) → Except (CycleError N) (List N)
  | [] => .ok []
  | e :: es =>
    let edges := e :: es
    let k := final edges
    if k.result.length = (nodes edges).card then .ok k.result
    else
      match (enumerate (nodes edges)).find? (fun n => 0 < k.degree n) with
      | some stuck => .error ⟨stuck⟩
      | none => .error ⟨k.result.getLast?.getD e.1⟩

theorem mem_nodes {edges : List (N × N)} {n : N} :
    n ∈ nodes edges ↔ ∃ e ∈ edges, e.1 = n ∨ e.2 = n := by
  induction edges with
  | nil => simp [nodes]
  | cons e rest ih =>
    obtain ⟨a, b⟩ := e
    simp only [nodes, Finset.mem_insert, ih, List.exists_mem_cons_iff]
    constructor
    · rintro (rfl | rfl | h)
      · exact .inl (.inl rfl)
      · exact .inl (.inr rfl)
      · exact .inr h
    · rintro ((rfl | rfl) | h)
      · exact .inl rfl
      · exact .inr (.inl rfl)
      · exact .inr (.inr h)

theorem fst_mem_nodes {edges : List (N × N)} {e : N × N} (h : e ∈ edges) : e.1 ∈ nodes edges :=
  mem_nodes.mpr ⟨e, h, .inl rfl⟩

theorem snd_mem_nodes {edges : List (N × N)} {e : N × N} (h : e ∈ edges) : e.2 ∈ nodes edges :=
  mem_nodes.mpr ⟨e, h, .inr rfl⟩

theorem mem_dependents {edges : List (N × N)} {node n : N} :
    n ∈ dependents edges node ↔ (node, n) ∈ edges := by
  simp only [dependents, List.mem_map, List.mem_filter, decide_eq_true_eq]
  constructor
  · rintro ⟨⟨a, b⟩, ⟨he, rfl⟩, rfl⟩
    exact he
  · intro h
    exact ⟨(node, n), ⟨h, rfl⟩, rfl⟩

-- Membership in a list of nodes is decided by this one instance below.
local instance lawfulBEq : LawfulBEq N := inferInstance

/-- Edges into `n` whose source the loop has not emitted yet. -/
def openEdges (edges : List (N × N)) (emitted : List N) (n : N) : Nat :=
  edges.countP (fun e => e.2 = n ∧ e.1 ∉ emitted)

theorem inDegree_eq (edges : List (N × N)) (n : N) : inDegree edges n = openEdges edges [] n := by
  induction edges with
  | nil => rfl
  | cons e rest ih =>
    obtain ⟨a, b⟩ := e
    by_cases h : n = b
    · subst h
      simp [inDegree, openEdges, ih]
    · simp [inDegree, openEdges, ih, h, Ne.symm h]

theorem openEdges_append (edges : List (N × N)) (emitted : List N) (node n : N)
    (h : node ∉ emitted) :
    openEdges edges emitted n =
      openEdges edges (emitted ++ [node]) n + (dependents edges node).count n := by
  induction edges with
  | nil => rfl
  | cons e rest ih =>
    obtain ⟨a, b⟩ := e
    simp only [openEdges, dependents] at ih ⊢
    by_cases ha : a = node <;> by_cases hb : b = n
    · subst ha hb
      simp only [List.countP_cons, List.filter_cons, decide_true, if_true, List.map_cons,
        List.count_cons_self, h, not_false_eq_true, and_self, List.mem_append, List.mem_singleton,
        or_true, not_true_eq_false, and_false, decide_false, Bool.false_eq_true, if_false] at ih ⊢
      omega
    · simpa [List.countP_cons, List.filter_cons, ha, hb] using ih
    · by_cases he : a ∈ emitted <;> simp [ha, hb, he] at ih ⊢ <;> omega
    · simpa [List.countP_cons, List.filter_cons, ha, hb] using ih

theorem openEdges_eq_zero {edges : List (N × N)} {emitted : List N} {n : N} :
    openEdges edges emitted n = 0 ↔ ∀ e ∈ edges, e.2 = n → e.1 ∈ emitted := by
  simp only [openEdges, List.countP_eq_zero, decide_eq_true_eq, not_and, not_not]

theorem decrement_foldl (ds : List N) (deg : N → Nat) (acc : List N)
    (h : ∀ n, ds.count n ≤ deg n) :
    (∀ n, (ds.foldl decrement (deg, acc)).1 n = deg n - ds.count n) ∧
    ∃ newly, (ds.foldl decrement (deg, acc)).2 = acc ++ newly ∧ newly.Nodup ∧
      ∀ n, n ∈ newly ↔ n ∈ ds ∧ deg n = ds.count n := by
  induction ds generalizing deg acc with
  | nil => exact ⟨fun n => rfl, [], by simp⟩
  | cons d ds ih =>
    have hd := h d
    rw [List.count_cons_self] at hd
    have hne : ∀ n, n ≠ d → (d :: ds).count n = ds.count n :=
      fun n hn => List.count_cons_of_ne (Ne.symm hn)
    have hle : ∀ n, ds.count n ≤ Function.update deg d (deg d - 1) n := by
      intro n
      by_cases hn : n = d
      · subst hn
        rw [Function.update_self]
        omega
      · rw [Function.update_of_ne hn, ← hne n hn]
        exact h n
    obtain ⟨hdeg, newly, hacc, hnd, hmem⟩ := ih (Function.update deg d (deg d - 1))
      (if deg d - 1 = 0 then acc ++ [d] else acc) hle
    refine ⟨fun n => ?_, ?_⟩
    · refine (hdeg n).trans ?_
      by_cases hn : n = d
      · subst hn
        rw [Function.update_self, List.count_cons_self]
        omega
      · rw [Function.update_of_ne hn, hne n hn]
    · by_cases hz : deg d - 1 = 0
      · -- `d` is emitted now, so it cannot occur again in `ds`
        have hds : ds.count d = 0 := by omega
        have hdn : d ∉ ds := List.count_eq_zero.mp hds
        refine ⟨d :: newly, ?_, ?_, fun n => ?_⟩
        · simpa [decrement, hz] using hacc
        · exact List.nodup_cons.mpr ⟨fun hm => hdn ((hmem d).mp hm).1, hnd⟩
        · by_cases hn : n = d
          · subst hn
            have h1 : deg n = 1 := by omega
            simp [hds, h1]
          · rw [List.mem_cons, hmem n, Function.update_of_ne hn, hne n hn]
            simp [hn]
      · refine ⟨newly, ?_, hnd, fun n => ?_⟩
        · simpa [decrement, hz] using hacc
        · rw [hmem n]
          by_cases hn : n = d
          · subst hn
            rw [Function.update_self, List.count_cons_self]
            constructor
            · rintro ⟨_, he⟩
              exact ⟨List.mem_cons_self, by omega⟩
            · rintro ⟨_, he⟩
              exact ⟨List.count_pos_iff.mp (by omega), by omega⟩
          · rw [Function.update_of_ne hn, hne n hn]
            simp [hn]

/-- What holds before every round: the degrees count the open edges, the
queue and the result together are exactly the nodes of degree zero, and
each emitted node comes after its dependencies. -/
structure Inv (edges : List (N × N)) (k : Kahn N) : Prop where
  nodup : (k.result ++ k.queue).Nodup
  degree : ∀ n, k.degree n = openEdges edges k.result n
  free : ∀ n, n ∈ k.result ++ k.queue ↔ n ∈ nodes edges ∧ k.degree n = 0
  ordered : ∀ e ∈ edges, e.2 ∈ k.result → k.result.idxOf e.1 < k.result.idxOf e.2

theorem start_inv (edges : List (N × N)) : Inv edges (start edges) where
  nodup := enumerate_nodup _
  degree := inDegree_eq edges
  free := by intro n; simp [start]
  ordered := by intro e _ h; simp [start] at h

/-- What one round does: it emits `node` and queues, in ascending order, the nodes
whose last open edge came from it. -/
theorem pop_spec {edges : List (N × N)} {k : Kahn N} {node : N} (rest : List N)
    (hk : ∀ n, k.degree n = openEdges edges k.result n) (hfresh : node ∉ k.result) :
    (∀ n, (pop edges node rest k).degree n = openEdges edges (k.result ++ [node]) n) ∧
    ∃ newly : List N, (pop edges node rest k).queue = rest ++ newly.insertionSort (· ≤ ·) ∧ newly.Nodup ∧
      ∀ n, n ∈ newly ↔ openEdges edges k.result n ≠ 0 ∧ openEdges edges (k.result ++ [node]) n = 0 := by
  have hopen := fun n => openEdges_append edges k.result node n hfresh
  have hcount : ∀ n, (dependents edges node).count n ≤ k.degree n := by
    intro n
    rw [hk, hopen]
    omega
  obtain ⟨hdeg, newly, hnewly, hnodup, hmem⟩ :=
    decrement_foldl (dependents edges node) k.degree [] hcount
  rw [List.nil_append] at hnewly
  refine ⟨?_, newly, ?_, hnodup, ?_⟩
  · intro n
    refine (hdeg n).trans ?_
    rw [hk, hopen]
    omega
  · simp only [pop, hnewly]
  · intro n
    rw [hmem n, hk, ← List.count_pos_iff, hopen]
    omega

theorem pop_inv {edges : List (N × N)} {k : Kahn N} {node : N} {rest : List N}
    (hk : Inv edges k) (hq : k.queue = node :: rest) : Inv edges (pop edges node rest k) := by
  have hnd := hk.nodup
  rw [hq] at hnd
  have hfresh : node ∉ k.result :=
    fun hm => (List.nodup_append.mp hnd).2.2 node hm node List.mem_cons_self rfl
  obtain ⟨hdeg, newly, hqueue, hnewnd, hmem⟩ := pop_spec rest hk.degree hfresh
  have hperm : ((pop edges node rest k).result ++ (pop edges node rest k).queue).Perm
      ((k.result ++ k.queue) ++ newly) := by
    rw [hq, List.append_assoc]
    change (k.result ++ [node] ++ _).Perm _
    rw [List.append_assoc, hqueue]
    exact (((List.perm_insertionSort _ newly).append_left rest).cons node).append_left k.result
  have hfree : ∀ n, n ∈ k.result ++ k.queue ↔ n ∈ nodes edges ∧ openEdges edges k.result n = 0 := by
    intro n
    rw [hk.free, hk.degree]
  constructor
  case nodup =>
    rw [hperm.nodup_iff, List.nodup_append]
    refine ⟨hk.nodup, hnewnd, ?_⟩
    -- a newly ready node had an open edge, so it was neither emitted nor queued
    rintro n hold _ hnew rfl
    exact ((hmem n).mp hnew).1 ((hfree n).mp hold).2
  case degree => exact hdeg
  case free =>
    intro n
    rw [hperm.mem_iff, List.mem_append, hfree, hmem, hdeg]
    have hopen := openEdges_append edges k.result node n hfresh
    constructor
    · rintro (⟨hn, hzero⟩ | ⟨hpos, hzero⟩)
      · exact ⟨hn, by omega⟩
      · have hin : n ∈ dependents edges node := List.count_pos_iff.mp (by omega)
        exact ⟨snd_mem_nodes (mem_dependents.mp hin), hzero⟩
    · rintro ⟨hn, hzero⟩
      by_cases hready : openEdges edges k.result n = 0
      · exact .inl ⟨hn, hready⟩
      · exact .inr ⟨hready, hzero⟩
  case ordered =>
    intro e he hm
    change e.2 ∈ k.result ++ [node] at hm
    change (k.result ++ [node]).idxOf e.1 < (k.result ++ [node]).idxOf e.2
    have hold : e.2 ∈ k.result ++ k.queue := by
      rw [hq]
      obtain h | h := List.mem_append.mp hm
      · exact List.mem_append_left _ h
      · rw [List.mem_singleton.mp h]
        exact List.mem_append_right _ List.mem_cons_self
    have hsrc : e.1 ∈ k.result := openEdges_eq_zero.mp ((hfree e.2).mp hold).2 e he rfl
    rw [List.idxOf_append_of_mem hsrc]
    by_cases hdst : e.2 ∈ k.result
    · rw [List.idxOf_append_of_mem hdst]
      exact hk.ordered e he hdst
    · rw [List.idxOf_append_of_notMem hdst]
      exact Nat.lt_add_right _ (List.idxOf_lt_length_of_mem hsrc)

theorem loop_inv (edges : List (N × N)) (fuel : Nat) (k : Kahn N) (hk : Inv edges k) :
    Inv edges (loop edges fuel k) := by
  induction fuel generalizing k with
  | zero => exact hk
  | succ fuel ih =>
    simp only [loop]
    split
    · exact hk
    · next node rest hq => exact ih _ (pop_inv hk hq)

theorem final_inv (edges : List (N × N)) : Inv edges (final edges) :=
  loop_inv edges _ _ (start_inv edges)

theorem result_length_le {edges : List (N × N)} {k : Kahn N} (hk : Inv edges k) :
    (k.result ++ k.queue).length ≤ (nodes edges).card := by
  rw [← List.toFinset_card_of_nodup hk.nodup]
  apply Finset.card_le_card
  intro n hn
  exact ((hk.free n).mp (List.mem_toFinset.mp hn)).1

theorem loop_queue (edges : List (N × N)) (fuel : Nat) (k : Kahn N) (hk : Inv edges k)
    (hf : (nodes edges).card ≤ k.result.length + fuel) : (loop edges fuel k).queue = [] := by
  induction fuel generalizing k with
  | zero =>
    have h := result_length_le hk
    rw [List.length_append] at h
    exact List.length_eq_zero_iff.mp (by simp only [loop]; omega)
  | succ fuel ih =>
    simp only [loop]
    split
    · assumption
    · next node rest hq =>
      apply ih _ (pop_inv hk hq)
      simp only [pop, List.length_append, List.length_singleton]
      omega

theorem final_queue (edges : List (N × N)) : (final edges).queue = [] :=
  loop_queue edges _ _ (start_inv edges) (by simp [start])

/-- An edge list is acyclic when its nodes can be numbered along the edges. -/
def Acyclic (edges : List (N × N)) : Prop :=
  ∃ rank : N → Nat, ∀ e ∈ edges, rank e.1 < rank e.2

theorem final_result_mem (edges : List (N × N)) (n : N) :
    n ∈ (final edges).result ↔ n ∈ nodes edges ∧ openEdges edges (final edges).result n = 0 := by
  have hk := final_inv edges
  have h := hk.free n
  rw [final_queue, List.append_nil, hk.degree] at h
  exact h

theorem final_complete_iff (edges : List (N × N)) :
    (final edges).result.length = (nodes edges).card ↔ ∀ n ∈ nodes edges, n ∈ (final edges).result := by
  have hnd := (final_inv edges).nodup
  rw [final_queue, List.append_nil] at hnd
  have hsub : (final edges).result.toFinset ⊆ nodes edges := by
    intro n hn
    exact ((final_result_mem edges n).mp (List.mem_toFinset.mp hn)).1
  rw [← List.toFinset_card_of_nodup hnd]
  constructor
  · intro hc n hn
    rw [← Finset.eq_of_subset_of_card_le hsub hc.ge] at hn
    exact List.mem_toFinset.mp hn
  · intro hall
    exact congrArg Finset.card
      (hsub.antisymm (fun n hn => List.mem_toFinset.mpr (hall n hn)))

/-- A complete run numbers the nodes by their position in the result. Conversely a
node of least rank among those left over would have no open edge. -/
theorem final_complete_iff_acyclic (edges : List (N × N)) :
    (final edges).result.length = (nodes edges).card ↔ Acyclic edges := by
  rw [final_complete_iff]
  constructor
  · intro hall
    refine ⟨fun n => (final edges).result.idxOf n, fun e he => ?_⟩
    exact (final_inv edges).ordered e he (hall e.2 (snd_mem_nodes he))
  · rintro ⟨rank, hrank⟩
    suffices h : ∀ r, ∀ n ∈ nodes edges, rank n = r → n ∈ (final edges).result from
      fun n hn => h (rank n) n hn rfl
    intro r
    induction r using Nat.strong_induction_on with
    | h r ih =>
      rintro n hn rfl
      refine (final_result_mem edges n).mpr ⟨hn, openEdges_eq_zero.mpr ?_⟩
      rintro e he rfl
      exact ih (rank e.1) (hrank e he) e.1 (fst_mem_nodes he) rfl

theorem toposort_ok {edges : List (N × N)} {order : List N} :
    toposort edges = .ok order ↔
      (final edges).result.length = (nodes edges).card ∧ order = (final edges).result := by
  cases edges with
  | nil =>
    constructor
    · rintro ⟨⟩
      exact ⟨rfl, rfl⟩
    · rintro ⟨_, rfl⟩
      rfl
  | cons e es =>
    simp only [toposort]
    constructor
    · intro h
      split at h
      · next hc =>
        cases h
        exact ⟨hc, rfl⟩
      · split at h <;> cases h
    · rintro ⟨hc, rfl⟩
      exact if_pos hc

theorem toposort_ok_iff (edges : List (N × N)) :
    (∃ order, toposort edges = .ok order) ↔ Acyclic edges := by
  rw [← final_complete_iff_acyclic]
  constructor
  · rintro ⟨order, h⟩
    exact (toposort_ok.mp h).1
  · exact fun hc => ⟨_, toposort_ok.mpr ⟨hc, rfl⟩⟩

theorem toposort_ordered {edges : List (N × N)} {order : List N} (h : toposort edges = .ok order)
    (e : N × N) (he : e ∈ edges) : e.2 ∈ order ∧ order.idxOf e.1 < order.idxOf e.2 := by
  obtain ⟨hc, rfl⟩ := toposort_ok.mp h
  have hmem := (final_complete_iff edges).mp hc e.2 (snd_mem_nodes he)
  exact ⟨hmem, (final_inv edges).ordered e he hmem⟩

theorem toposort_nodes {edges : List (N × N)} {order : List N} (h : toposort edges = .ok order) :
    order.Nodup ∧ ∀ n, n ∈ order ↔ n ∈ nodes edges := by
  obtain ⟨hc, rfl⟩ := toposort_ok.mp h
  have hnd := (final_inv edges).nodup
  rw [final_queue, List.append_nil] at hnd
  exact ⟨hnd, fun n => ⟨fun hn => ((final_result_mem edges n).mp hn).1, (final_complete_iff edges).mp hc n⟩⟩

example : toposort [(1, 2), (2, 3), (1, 3)] = .ok [1, 2, 3] := by decide

end Cosmon.Graph.Toposort

namespace Cosmon.Graph.Mutation

open Cosmon.Graph.Toposort

variable {N : Type} [LinearOrder N]

def edgeLe (a b : N × N) : Prop := a.1 < b.1 ∨ a.1 = b.1 ∧ a.2 ≤ b.2

instance : DecidableRel (edgeLe (N := N)) := fun _ _ => inferInstanceAs (Decidable (_ ∨ _))

/-- Splice new edges into a DAG. The union is checked before it is returned,
so a cyclic splice leaves the caller with its old edges. -/
def insertSubgraph (edges newEdges : List (N × N)) : Except (CycleError N) (List (N × N)) :=
  let merged := (edges ++ newEdges).eraseDups
  match toposort merged with
  | .error e => .error e
  | .ok _ => .ok (merged.insertionSort edgeLe)

theorem insertSubgraph_mem {edges newEdges merged : List (N × N)}
    (h : insertSubgraph edges newEdges = .ok merged) (e : N × N) :
    e ∈ merged ↔ e ∈ edges ∨ e ∈ newEdges := by
  simp only [insertSubgraph] at h
  split at h
  · cases h
  · cases h
    rw [List.mem_insertionSort, List.mem_eraseDups, List.mem_append]

theorem insertSubgraph_acyclic {edges newEdges merged : List (N × N)}
    (h : insertSubgraph edges newEdges = .ok merged) : Acyclic merged := by
  have hmem := insertSubgraph_mem h
  simp only [insertSubgraph] at h
  split at h
  · cases h
  · next order ho =>
    obtain ⟨rank, hrank⟩ := (toposort_ok_iff _).mp ⟨order, ho⟩
    refine ⟨rank, fun e he => hrank e ?_⟩
    rw [List.mem_eraseDups, List.mem_append]
    exact (hmem e).mp he

end Cosmon.Graph.Mutation
