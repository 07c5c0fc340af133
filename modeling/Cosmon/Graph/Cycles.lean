import Cosmon.Graph.Toposort
import Cosmon.Lib.Cycles

namespace Cosmon.Graph.Cycles

open Relation
open Cosmon.Lib.Cycles Cosmon.Lib.Enumerate
open Cosmon.Graph.Toposort Cosmon.Graph.Mutation

variable {N : Type} [LinearOrder N]

def Edge (edges : List (N × N)) (a b : N) : Prop := (a, b) ∈ edges

def OnCycle (edges : List (N × N)) (n : N) : Prop := TransGen (Edge edges) n n

theorem edge_nodes (edges : List (N × N)) (a b : N) (h : Edge edges a b) : a ∈ nodes edges :=
  fst_mem_nodes h

theorem acyclic_iff (edges : List (N × N)) : Acyclic edges ↔ ∀ n, ¬OnCycle edges n := by
  refine Iff.trans ?_ (acyclic_iff_rank (edge_nodes edges)).symm
  constructor
  · rintro ⟨rank, hrank⟩
    exact ⟨rank, fun a b h => hrank (a, b) h⟩
  · rintro ⟨rank, hrank⟩
    exact ⟨rank, fun e he => hrank e.1 e.2 he⟩

section EdgeSets

variable {edges edges' : List (N × N)} (hsame : ∀ e, e ∈ edges' ↔ e ∈ edges)

include hsame

theorem nodes_congr : nodes edges' = nodes edges := by
  ext n
  simp only [mem_nodes, hsame]

theorem openEdges_congr (emitted : List N) (n : N) :
    openEdges edges' emitted n = 0 ↔ openEdges edges emitted n = 0 := by
  simp only [openEdges_eq_zero, hsame]

theorem start_congr : (start edges').queue = (start edges).queue := by
  simp only [start, nodes_congr hsame, inDegree_eq, openEdges_congr hsame]

/-- A round emits the same node and queues the same nodes in the same order, however often
an edge is listed: a node is ready once all its edges are closed. -/
theorem pop_congr {k k' : Kahn N} {node : N} {rest : List N} (hk : Inv edges k) (hk' : Inv edges' k')
    (hresult : k'.result = k.result) (hfresh : node ∉ k.result) :
    (pop edges' node rest k').queue = (pop edges node rest k).queue := by
  obtain ⟨_, newly, hqueue, hnodup, hmem⟩ := pop_spec rest hk.degree hfresh
  obtain ⟨_, newly', hqueue', hnodup', hmem'⟩ := pop_spec rest hk'.degree (hresult ▸ hfresh)
  rw [hqueue, hqueue']
  congr 1
  apply insertionSort_eq_of_perm
  rw [List.perm_ext_iff_of_nodup hnodup' hnodup]
  intro n
  rw [hmem, hmem', hresult]
  simp only [ne_eq, openEdges_congr hsame]

theorem loop_congr (fuel : Nat) {k k' : Kahn N} (hk : Inv edges k) (hk' : Inv edges' k')
    (hqueue : k'.queue = k.queue) (hresult : k'.result = k.result) :
    (loop edges' fuel k').result = (loop edges fuel k).result := by
  induction fuel generalizing k k' with
  | zero => exact hresult
  | succ fuel ih =>
    cases hq : k.queue with
    | nil =>
      simp only [loop, hq, hqueue]
      exact hresult
    | cons node rest =>
      have hq' : k'.queue = node :: rest := hqueue.trans hq
      simp only [loop, hq, hq']
      apply ih (pop_inv hk hq) (pop_inv hk' hq')
      · apply pop_congr hsame hk hk' hresult
        have hnd := hk.nodup
        rw [hq] at hnd
        exact fun hm => (List.nodup_append.mp hnd).2.2 node hm node List.mem_cons_self rfl
      · change k'.result ++ [node] = k.result ++ [node]
        rw [hresult]

theorem final_congr : (final edges').result = (final edges).result := by
  rw [final, final, nodes_congr hsame]
  exact loop_congr hsame _ (start_inv edges) (start_inv edges') (start_congr hsame) rfl

theorem toposort_congr {order : List N} (h : toposort edges = .ok order) : toposort edges' = .ok order := by
  rw [toposort_ok] at h ⊢
  rw [final_congr hsame, nodes_congr hsame]
  exact h

end EdgeSets

/-- `toposort` accepts exactly the graphs without a directed cycle. What it returns lists
every endpoint once, along the edges, and only depends on which edges there are. -/
theorem toposort_orders (edges : List (N × N)) :
    ((∃ order, toposort edges = .ok order) ↔ ∀ n, ¬OnCycle edges n) ∧
    ∀ order, toposort edges = .ok order →
      order.Nodup ∧ (∀ n, n ∈ order ↔ ∃ e ∈ edges, e.1 = n ∨ e.2 = n) ∧
      (∀ e ∈ edges, order.idxOf e.1 < order.idxOf e.2) ∧
      ∀ edges', (∀ e, e ∈ edges' ↔ e ∈ edges) → toposort edges' = .ok order := by
  refine ⟨(toposort_ok_iff edges).trans (acyclic_iff edges), fun order h => ?_⟩
  obtain ⟨hnodup, hmem⟩ := toposort_nodes h
  refine ⟨hnodup, ?_, ?_, ?_⟩
  · exact fun n => (hmem n).trans mem_nodes
  · exact fun e he => (toposort_ordered h e he).2
  · exact fun edges' hsame => toposort_congr hsame h

/-- `toposort` with the iteration order of the in-degree map as an argument: the node named
by an error is the first one in that order whose degree is not used up. -/
def toposortIter (iter : List N) : List (N × N) → Except (CycleError N) (List N)
  | [] => .ok []
  | e :: es =>
    let edges := e :: es
    let k := final edges
    if k.result.length = (nodes edges).card then .ok k.result
    else
      match iter.find? (fun n => 0 < k.degree n) with
      | some stuck => .error ⟨stuck⟩
      | none => .error ⟨k.result.getLast?.getD e.1⟩

def insertSubgraphIter (iter : List N) (edges newEdges : List (N × N)) :
    Except (CycleError N) (List (N × N)) :=
  let merged := (edges ++ newEdges).eraseDups
  match toposortIter iter merged with
  | .error e => .error e
  | .ok _ => .ok (merged.insertionSort edgeLe)

/-- An order in which a map with the nodes as keys can be iterated. -/
def IterOf (edges : List (N × N)) (iter : List N) : Prop := iter.Perm (enumerate (nodes edges))

/-- A node from which Kahn's loop never came back with degree zero. -/
def Stuck (edges : List (N × N)) (n : N) : Prop := n ∈ nodes edges ∧ 0 < (final edges).degree n

theorem stuck_iff {edges : List (N × N)} {n : N} (hn : n ∈ nodes edges) :
    Stuck edges n ↔ n ∉ (final edges).result := by
  rw [Stuck, final_result_mem, (final_inv edges).degree, Nat.pos_iff_ne_zero]
  simp [hn]

theorem result_before {edges : List (N × N)} {a b : N} (h : TransGen (Edge edges) a b)
    (hb : b ∈ (final edges).result) :
    a ∈ (final edges).result ∧ (final edges).result.idxOf a < (final edges).result.idxOf b := by
  have hstep : ∀ a b, Edge edges a b → b ∈ (final edges).result →
      a ∈ (final edges).result ∧ (final edges).result.idxOf a < (final edges).result.idxOf b := by
    intro a b hab hb
    have hlt := (final_inv edges).ordered (a, b) hab hb
    have hlen := List.idxOf_lt_length_of_mem hb
    exact ⟨List.idxOf_lt_length_iff.mp (hlt.trans hlen), hlt⟩
  induction h with
  | single hab => exact hstep _ _ hab hb
  | tail _ hbc ih =>
    obtain ⟨hmid, hlt⟩ := hstep _ _ hbc hb
    obtain ⟨hfirst, hlt'⟩ := ih hmid
    exact ⟨hfirst, hlt'.trans hlt⟩

theorem downstream_nodes {edges : List (N × N)} {c n : N} (hcycle : OnCycle edges c)
    (hreach : ReflTransGen (Edge edges) c n) : n ∈ nodes edges := by
  have h : TransGen (Edge edges) c n := hcycle.trans_left hreach
  obtain ⟨_, _, hlast⟩ := TransGen.tail'_iff.mp h
  exact snd_mem_nodes hlast

theorem stuck_iff_downstream (edges : List (N × N)) (n : N) :
    Stuck edges n ↔ ∃ c, OnCycle edges c ∧ ReflTransGen (Edge edges) c n := by
  constructor
  · intro hn
    apply reached_from_cycle (s := (nodes edges).filter (fun n => n ∉ (final edges).result))
    · intro b hb
      obtain ⟨hmem, hout⟩ := Finset.mem_filter.mp hb
      have hopen : openEdges edges (final edges).result b ≠ 0 :=
        fun hz => hout ((final_result_mem edges b).mpr ⟨hmem, hz⟩)
      rw [ne_eq, openEdges_eq_zero] at hopen
      simp only [not_forall] at hopen
      obtain ⟨⟨a, _⟩, he, rfl, ha⟩ := hopen
      exact ⟨a, Finset.mem_filter.mpr ⟨fst_mem_nodes he, ha⟩, he⟩
    · exact Finset.mem_filter.mpr ⟨hn.1, (stuck_iff hn.1).mp hn⟩
  · rintro ⟨c, hcycle, hreach⟩
    rw [stuck_iff (downstream_nodes hcycle hreach)]
    intro hn
    have hc := (result_before (hcycle.trans_left hreach) hn).1
    exact Nat.lt_irrefl _ (result_before hcycle hc).2

theorem toposortIter_error {edges : List (N × N)} {iter : List N} (hiter : IterOf edges iter)
    (hcyclic : ∃ c, OnCycle edges c) :
    ∃ node, toposortIter iter edges = .error ⟨node⟩ ∧
      iter.find? (fun n => 0 < (final edges).degree n) = some node ∧ Stuck edges node := by
  obtain ⟨c, hc⟩ := hcyclic
  have hstuck : Stuck edges c := (stuck_iff_downstream edges c).mpr ⟨c, hc, .refl⟩
  have hmem : ∀ n, n ∈ iter ↔ n ∈ nodes edges := fun n => hiter.mem_iff.trans mem_enumerate
  cases hfind : iter.find? (fun n => 0 < (final edges).degree n) with
  | none =>
    have hzero := List.find?_eq_none.mp hfind c ((hmem c).mpr hstuck.1)
    exact absurd (decide_eq_true hstuck.2) hzero
  | some node =>
    have hnode := List.find?_some hfind
    refine ⟨node, ?_, rfl, (hmem node).mp (List.mem_of_find?_eq_some hfind), of_decide_eq_true hnode⟩
    cases edges with
    | nil => exact absurd hstuck.1 (Finset.notMem_empty c)
    | cons e es =>
      have hincomplete : (final (e :: es)).result.length ≠ (nodes (e :: es)).card := by
        intro hcomplete
        exact (stuck_iff hstuck.1).mp hstuck ((final_complete_iff _).mp hcomplete c hstuck.1)
      simp only [toposortIter, if_neg hincomplete, hfind]

theorem toposortIter_names {edges : List (N × N)} {n : N} (hn : Stuck edges n) :
    ∃ iter, IterOf edges iter ∧ toposortIter iter edges = .error ⟨n⟩ := by
  have hmem : n ∈ enumerate (nodes edges) := mem_enumerate.mpr hn.1
  have hiter : IterOf edges (n :: (enumerate (nodes edges)).erase n) := (List.perm_cons_erase hmem).symm
  obtain ⟨c, hc, _⟩ := (stuck_iff_downstream edges n).mp hn
  obtain ⟨node, herror, hfind, _⟩ := toposortIter_error hiter ⟨c, hc⟩
  simp only [List.find?_cons, decide_eq_true hn.2] at hfind
  cases hfind
  exact ⟨_, hiter, herror⟩

def CyclesClosed (edges : List (N × N)) : Prop :=
  ∀ c n, OnCycle edges c → Edge edges c n → OnCycle edges n

theorem cyclesClosed_iff {edges : List (N × N)} :
    CyclesClosed edges ↔ ∀ n, Stuck edges n → OnCycle edges n := by
  constructor
  · intro hclosed n hn
    obtain ⟨c, hc, hreach⟩ := (stuck_iff_downstream edges n).mp hn
    induction hreach with
    | refl => exact hc
    | tail hreach hstep ih =>
      exact hclosed _ _ (ih ((stuck_iff_downstream edges _).mpr ⟨c, hc, hreach⟩)) hstep
  · intro hstuck c n hc hcn
    exact hstuck n ((stuck_iff_downstream edges n).mpr ⟨c, hc, .single hcn⟩)

/-- Whatever order the map is iterated in, the error names a member of a cycle: exactly on
the graphs whose cycles are closed. -/
theorem names_cycle_iff (edges : List (N × N)) (hcyclic : ∃ c, OnCycle edges c) :
    (∀ iter, IterOf edges iter →
      ∃ node, toposortIter iter edges = .error ⟨node⟩ ∧ OnCycle edges node) ↔ CyclesClosed edges := by
  rw [cyclesClosed_iff]
  constructor
  · intro h n hn
    obtain ⟨iter, hiter, hnamed⟩ := toposortIter_names hn
    obtain ⟨node, herror, hnode⟩ := h iter hiter
    rw [hnamed] at herror
    cases herror
    exact hnode
  · intro h iter hiter
    obtain ⟨node, herror, _, hstuck⟩ := toposortIter_error hiter hcyclic
    exact ⟨node, herror, h node hstuck⟩

theorem edge_eraseDups (edges : List (N × N)) : Edge edges.eraseDups = Edge edges := by
  ext a b
  exact List.mem_eraseDups

theorem insertSubgraphIter_error {iter : List N} {edges newEdges : List (N × N)} {node : N} :
    insertSubgraphIter iter edges newEdges = .error ⟨node⟩ ↔
      toposortIter iter (edges ++ newEdges).eraseDups = .error ⟨node⟩ := by
  simp only [insertSubgraphIter]
  split
  · next h => simp only [h, Except.error.injEq]
  · next h => simp only [h, reduceCtorEq]

/-- A cyclic graph has its error name one of its cycles, from `toposort` as from a splice that
makes it up, exactly when its cycles are closed. -/
theorem cycle_error_iff (edges : List (N × N)) (hcyclic : ∃ c, OnCycle edges c) :
    ((∀ iter, IterOf edges iter →
      ∃ node, toposortIter iter edges = .error ⟨node⟩ ∧ OnCycle edges node) ↔ CyclesClosed edges) ∧
    ∀ old new, old ++ new = edges →
      ((∀ iter, IterOf edges.eraseDups iter →
        ∃ node, insertSubgraphIter iter old new = .error ⟨node⟩ ∧ OnCycle edges node) ↔
          CyclesClosed edges) := by
  refine ⟨names_cycle_iff edges hcyclic, ?_⟩
  rintro old new rfl
  have hmerged := edge_eraseDups (old ++ new)
  have hon : OnCycle (old ++ new).eraseDups = OnCycle (old ++ new) := by
    funext n
    rw [OnCycle, OnCycle, hmerged]
  have h := names_cycle_iff (old ++ new).eraseDups (by rwa [hon])
  simp only [CyclesClosed, hon, hmerged] at h
  simpa only [insertSubgraphIter_error, CyclesClosed] using h

/-- Two tasks that wait for each other. -/
theorem cycle_error_pair :
    (∃ c, OnCycle [(1, 2), (2, 1)] c) ∧
    ((∀ iter, IterOf [(1, 2), (2, 1)] iter → ∃ node,
        toposortIter iter [(1, 2), (2, 1)] = .error ⟨node⟩ ∧ OnCycle [(1, 2), (2, 1)] node) ↔
      CyclesClosed [(1, 2), (2, 1)]) := by
  have hcycle : ∃ c, OnCycle [(1, 2), (2, 1)] c :=
    ⟨1, .tail (.single (b := 2) (by decide : (1, 2) ∈ [(1, 2), (2, 1)])) (by decide : (2, 1) ∈ [(1, 2), (2, 1)])⟩
  exact ⟨hcycle, (cycle_error_iff [(1, 2), (2, 1)] hcycle).1⟩

/-- Task `1` waits for itself and `2` waits for `1`: the map may yield `2` first, which
waits for a cycle but is on none. -/
theorem cycle_error_downstream :
    OnCycle [(1, 1), (1, 2)] 1 ∧ IterOf [(1, 1), (1, 2)] [2, 1] ∧
      toposortIter [2, 1] [(1, 1), (1, 2)] = .error ⟨2⟩ ∧
        insertSubgraphIter [2, 1] [(1, 1)] [(1, 2)] = .error ⟨2⟩ ∧ ¬OnCycle [(1, 1), (1, 2)] 2 := by
  refine ⟨.single (by decide : (1, 1) ∈ [(1, 1), (1, 2)]), by unfold IterOf; decide, by decide, by decide, ?_⟩
  intro h
  obtain ⟨b, hstep, _⟩ := TransGen.head'_iff.mp h
  have hno : ∀ b, (2, b) ∉ [(1, 1), (1, 2)] := by simp
  exact hno b hstep

end Cosmon.Graph.Cycles
