import Cosmon.Graph.LongestPaths
import Cosmon.Runtime.CompilePlan

namespace Cosmon.Runtime.DagDepth

open Relation
open Cosmon.Lib.Enumerate Cosmon.Graph.Toposort Cosmon.Graph.CriticalPath Cosmon.Graph.Cycles
open Cosmon.Graph.LongestPaths Cosmon.State.Molecule Cosmon.Runtime.CompilePlan

structure Depths where
  memo : MoleculeId → Option Nat
  inStack : Finset MoleculeId

def deepest (depth : MoleculeId → Depths → Option (Nat × Depths)) :
    List MoleculeId → Depths → Option (Nat × Depths)
  | [], s => some (0, s)
  | node :: rest, s =>
    match depth node s with
    | none => none
    | some (d, s) =>
      match deepest depth rest s with
      | none => none
      | some (best, s) => some (max d best, s)

/-- Memoised depth of a node. A node met again while its own depth is being computed counts as
one; `none` stands for a recursion cut off by the fuel (`dagDepth_critical`: that never happens). -/
def depthOf (edges : List MoleculeEdge) : Nat → MoleculeId → Depths → Option (Nat × Depths)
  | 0, _, _ => none
  | fuel + 1, node, s =>
    match s.memo node with
    | some d => some (d, s)
    | none =>
      if node ∈ s.inStack then some (1, s)
      else
        match deepest (depthOf edges fuel) (dependents edges node)
          { s with inStack := insert node s.inStack } with
        | none => none
        | some (best, s) =>
          some (1 + best, ⟨Function.update s.memo node (some (1 + best)), s.inStack.erase node⟩)

/-- Number of molecules on the longest dependency chain. The set of nodes is iterated in the
order `iter`, and the recursion may be `fuel` calls deep. -/
def dagDepth (edges : List MoleculeEdge) (fuel : Nat) (iter : List MoleculeId) : Option Nat :=
  (deepest (depthOf edges fuel) iter ⟨fun _ => none, ∅⟩).map Prod.fst

section Termination

theorem deepest_some {depth depth' : MoleculeId → Depths → Option (Nat × Depths)}
    {stack : Finset MoleculeId} {ns : List MoleculeId}
    (h : ∀ n ∈ ns, ∀ s : Depths, s.inStack = stack →
      ∃ d s', depth n s = some (d, s') ∧ depth' n s = some (d, s') ∧ s'.inStack = stack)
    {s : Depths} (hs : s.inStack = stack) :
    ∃ d s', deepest depth ns s = some (d, s') ∧ deepest depth' ns s = some (d, s') ∧ s'.inStack = stack := by
  induction ns generalizing s with
  | nil => exact ⟨0, s, rfl, rfl, hs⟩
  | cons n ns ih =>
    obtain ⟨d, s₁, hd, hd', hs₁⟩ := h n List.mem_cons_self s hs
    obtain ⟨best, s₂, hbest, hbest', hs₂⟩ := ih (fun m hm => h m (List.mem_cons_of_mem _ hm)) hs₁
    exact ⟨max d best, s₂, by simp only [deepest, hd, hbest], by simp only [deepest, hd', hbest'], hs₂⟩

/-- Every nested call puts another node on the stack, so the recursion ends on cyclic edges too. -/
theorem depthOf_some {edges : List MoleculeEdge} (fuel more : Nat) {node : MoleculeId}
    (hnode : node ∈ nodes edges) {s : Depths} (hfuel : (nodes edges \ s.inStack).card < fuel) :
    ∃ d s', depthOf edges fuel node s = some (d, s') ∧ depthOf edges (fuel + more) node s = some (d, s') ∧
      s'.inStack = s.inStack := by
  induction fuel generalizing node s with
  | zero => exact absurd hfuel (Nat.not_lt_zero _)
  | succ fuel ih =>
    rw [Nat.add_right_comm]
    simp only [depthOf]
    cases hmemo : s.memo node with
    | some d => exact ⟨d, s, rfl, rfl, rfl⟩
    | none =>
      by_cases hstack : node ∈ s.inStack
      · simp only [if_pos hstack]
        exact ⟨1, s, rfl, rfl, rfl⟩
      · have hmem : node ∈ nodes edges \ s.inStack := Finset.mem_sdiff.mpr ⟨hnode, hstack⟩
        have hpos : 0 < (nodes edges \ s.inStack).card := Finset.card_pos.mpr ⟨node, hmem⟩
        have hless : (nodes edges \ insert node s.inStack).card < fuel := by
          rw [Finset.sdiff_insert, Finset.card_erase_of_mem hmem]
          omega
        have hkids : ∀ n ∈ dependents edges node, ∀ t : Depths, t.inStack = insert node s.inStack →
            ∃ d t', depthOf edges fuel n t = some (d, t') ∧ depthOf edges (fuel + more) n t = some (d, t') ∧
              t'.inStack = insert node s.inStack := by
          intro n hn t ht
          rw [← ht] at hless ⊢
          exact ih (snd_mem_nodes (mem_dependents.mp hn)) hless
        obtain ⟨best, t, hbest, hbest', ht⟩ :=
          deepest_some hkids (s := { s with inStack := insert node s.inStack }) rfl
        simp only [if_neg hstack, hbest, hbest']
        refine ⟨_, _, rfl, rfl, ?_⟩
        rw [ht, Finset.erase_insert hstack]

end Termination

/-- The longest chain of edges from the node on has `d` nodes. -/
structure Depth (edges : List MoleculeEdge) (node : MoleculeId) (d : Nat) : Prop where
  attained : ∃ path, (node :: path).IsChain (Edge edges) ∧ (node :: path).length = d
  longest : ∀ path, (node :: path).IsChain (Edge edges) → (node :: path).length ≤ d

/-- The greatest depth of a list of nodes, zero for the empty list. -/
structure Deepest (edges : List MoleculeEdge) (ns : List MoleculeId) (best : Nat) : Prop where
  attained : best = 0 ∨ ∃ n ∈ ns, Depth edges n best
  longest : ∀ n ∈ ns, ∃ d, Depth edges n d ∧ d ≤ best

theorem Deepest.cons {edges : List MoleculeEdge} {n : MoleculeId} {ns : List MoleculeId} {d best : Nat}
    (hd : Depth edges n d) (h : Deepest edges ns best) : Deepest edges (n :: ns) (max d best) := by
  constructor
  · rcases le_total d best with hle | hle
    · rw [max_eq_right hle]
      exact h.attained.imp_right fun ⟨m, hm, hbest⟩ => ⟨m, List.mem_cons_of_mem _ hm, hbest⟩
    · rw [max_eq_left hle]
      exact .inr ⟨n, List.mem_cons_self, hd⟩
  · intro m hm
    rcases List.mem_cons.mp hm with rfl | hm
    · exact ⟨d, hd, le_max_left _ _⟩
    · obtain ⟨d', hd', hle⟩ := h.longest m hm
      exact ⟨d', hd', hle.trans (le_max_right _ _)⟩

theorem Deepest.depth {edges : List MoleculeEdge} {node : MoleculeId} {best : Nat}
    (h : Deepest edges (dependents edges node) best) : Depth edges node (1 + best) := by
  constructor
  · rcases h.attained with rfl | ⟨n, hn, hdepth⟩
    · exact ⟨[], List.isChain_singleton node, rfl⟩
    · obtain ⟨path, hchain, hlength⟩ := hdepth.attained
      refine ⟨n :: path, List.isChain_cons_cons.mpr ⟨mem_dependents.mp hn, hchain⟩, ?_⟩
      rw [List.length_cons, hlength, Nat.add_comm]
  · intro path hchain
    cases path with
    | nil => exact Nat.le_add_right 1 best
    | cons n path =>
      obtain ⟨hedge, hrest⟩ := List.isChain_cons_cons.mp hchain
      obtain ⟨d, hdepth, hle⟩ := h.longest n (mem_dependents.mpr hedge)
      have hlength := hdepth.longest path hrest
      rw [List.length_cons]
      omega

section Acyclic

variable {edges : List MoleculeEdge} (hacyclic : ∀ n, ¬OnCycle edges n)

def Settled (edges : List MoleculeEdge) (s : Depths) : Prop :=
  ∀ n d, s.memo n = some d → Depth edges n d

theorem Settled.record {s : Depths} (h : Settled edges s) {node : MoleculeId} {d : Nat}
    (hd : Depth edges node d) (stack : Finset MoleculeId) :
    Settled edges ⟨Function.update s.memo node (some d), stack⟩ := by
  intro n d' hn
  dsimp only at hn
  by_cases heq : n = node
  · subst heq
    rw [Function.update_self] at hn
    cases hn
    exact hd
  · rw [Function.update_of_ne heq] at hn
    exact h n d' hn

theorem deepest_depth {depth : MoleculeId → Depths → Option (Nat × Depths)} {stack : Finset MoleculeId}
    {ns : List MoleculeId}
    (h : ∀ n ∈ ns, ∀ (s : Depths) d s', s.inStack = stack → Settled edges s → depth n s = some (d, s') →
      Depth edges n d ∧ Settled edges s' ∧ s'.inStack = stack)
    {s s' : Depths} {best : Nat} (hs : s.inStack = stack) (hsettled : Settled edges s)
    (heq : deepest depth ns s = some (best, s')) :
    Deepest edges ns best ∧ Settled edges s' ∧ s'.inStack = stack := by
  induction ns generalizing s best with
  | nil =>
    cases heq
    exact ⟨⟨.inl rfl, fun n hn => absurd hn List.not_mem_nil⟩, hsettled, hs⟩
  | cons n ns ih =>
    simp only [deepest] at heq
    split at heq
    · cases heq
    · next d s₁ hd =>
      obtain ⟨hdepth, hsettled₁, hs₁⟩ := h n List.mem_cons_self s d s₁ hs hsettled hd
      split at heq
      · cases heq
      · next best₁ s₂ hrest =>
        cases heq
        obtain ⟨hbest, hout⟩ := ih (fun m hm => h m (List.mem_cons_of_mem _ hm)) hs₁ hsettled₁ hrest
        exact ⟨hbest.cons hdepth, hout⟩

include hacyclic

theorem depthOf_depth (fuel : Nat) {node : MoleculeId} {s s' : Depths} {d : Nat} (hsettled : Settled edges s)
    (hstack : ∀ a ∈ s.inStack, TransGen (Edge edges) a node)
    (h : depthOf edges fuel node s = some (d, s')) :
    Depth edges node d ∧ Settled edges s' ∧ s'.inStack = s.inStack := by
  induction fuel generalizing node s d s' with
  | zero => cases h
  | succ fuel ih =>
    have hfresh : node ∉ s.inStack := fun hn => hacyclic node (hstack node hn)
    simp only [depthOf] at h
    split at h
    · next hmemo =>
      cases h
      exact ⟨hsettled node d hmemo, hsettled, rfl⟩
    · rw [if_neg hfresh] at h
      split at h
      · cases h
      · next best t hkids =>
        cases h
        have hkid : ∀ n ∈ dependents edges node, ∀ (t : Depths) d t', t.inStack = insert node s.inStack →
            Settled edges t → depthOf edges fuel n t = some (d, t') →
            Depth edges n d ∧ Settled edges t' ∧ t'.inStack = insert node s.inStack := by
          intro n hn t d t' hin hsettled hd
          have hedge : Edge edges node n := mem_dependents.mp hn
          have hancestors : ∀ a ∈ t.inStack, TransGen (Edge edges) a n := by
            intro a ha
            rw [hin] at ha
            rcases Finset.mem_insert.mp ha with rfl | ha
            · exact .single hedge
            · exact (hstack a ha).tail hedge
          obtain ⟨hdepth, hsettled', ht'⟩ := ih hsettled hancestors hd
          exact ⟨hdepth, hsettled', ht'.trans hin⟩
        obtain ⟨hbest, hsettled', ht⟩ :=
          deepest_depth (s := ⟨s.memo, insert node s.inStack⟩) hkid rfl hsettled hkids
        refine ⟨hbest.depth, hsettled'.record hbest.depth _, ?_⟩
        rw [ht, Finset.erase_insert hfresh]

end Acyclic

theorem pathWeight_one {N : Type} (path : List N) : pathWeight (fun _ => 1) path = path.length := by
  induction path with
  | nil => rfl
  | cons n path ih => rw [pathWeight, ih, List.length_cons, Nat.add_comm]

theorem isPath_of_chain {edges : List MoleculeEdge} {node : MoleculeId} (hnode : node ∈ nodes edges)
    {path : List MoleculeId} (hchain : (node :: path).IsChain (Edge edges)) : IsPath edges (node :: path) := by
  refine ⟨?_, hchain⟩
  induction path generalizing node with
  | nil => exact List.forall_mem_singleton.mpr hnode
  | cons n path ih =>
    obtain ⟨hedge, hrest⟩ := List.isChain_cons_cons.mp hchain
    exact List.forall_mem_cons.mpr ⟨hnode, ih (snd_mem_nodes hedge) hrest⟩

theorem dagDepth_ends {edges : List MoleculeEdge} {iter : List MoleculeId} (hiter : IterOf edges iter) (more : Nat) :
    ∃ d, dagDepth edges ((nodes edges).card + 1) iter = some d ∧
      dagDepth edges ((nodes edges).card + 1 + more) iter = some d := by
  have hstep : ∀ n ∈ iter, ∀ s : Depths, s.inStack = ∅ → ∃ d s',
      depthOf edges ((nodes edges).card + 1) n s = some (d, s') ∧
      depthOf edges ((nodes edges).card + 1 + more) n s = some (d, s') ∧ s'.inStack = ∅ := by
    intro n hn s hs
    rw [← hs]
    apply depthOf_some
    · exact mem_enumerate.mp (hiter.mem_iff.mp hn)
    · exact Nat.lt_succ_of_le (Finset.card_le_card Finset.sdiff_subset)
  obtain ⟨d, s, hd, hd', -⟩ := deepest_some hstep (s := ⟨fun _ => none, ∅⟩) rfl
  refine ⟨d, ?_, ?_⟩
  · rw [dagDepth, hd, Option.map_some]
  · rw [dagDepth, hd', Option.map_some]

theorem dagDepth_deepest {edges : List MoleculeEdge} (hacyclic : ∀ n, ¬OnCycle edges n) {fuel : Nat}
    {iter : List MoleculeId} {d : Nat} (h : dagDepth edges fuel iter = some d) : Deepest edges iter d := by
  obtain ⟨⟨best, s⟩, hd, rfl⟩ := Option.map_eq_some_iff.mp h
  have hstep : ∀ n ∈ iter, ∀ (t : Depths) d t', t.inStack = ∅ → Settled edges t →
      depthOf edges fuel n t = some (d, t') → Depth edges n d ∧ Settled edges t' ∧ t'.inStack = ∅ := by
    intro n _ t d t' hin hsettled hd
    obtain ⟨hdepth, hsettled', ht⟩ := depthOf_depth hacyclic _ hsettled (by simp [hin]) hd
    exact ⟨hdepth, hsettled', ht.trans hin⟩
  have hstart : Settled edges ⟨fun _ => none, ∅⟩ := fun n d hn => by cases hn
  exact (deepest_depth hstep rfl hstart hd).1

theorem Deepest.length_eq {edges : List MoleculeEdge} {iter path : List MoleculeId} {d : Nat}
    (h : Deepest edges iter d) (hiter : IterOf edges iter) (hpath : IsPath edges path)
    (hlongest : ∀ other, IsPath edges other → other.length ≤ path.length) : d = path.length := by
  have hnode : ∀ n, n ∈ iter ↔ n ∈ nodes edges := fun n => hiter.mem_iff.trans mem_enumerate
  apply Nat.le_antisymm
  · rcases h.attained with rfl | ⟨n, hn, hdepth⟩
    · exact Nat.zero_le _
    · obtain ⟨rest, hchain, rfl⟩ := hdepth.attained
      exact hlongest _ (isPath_of_chain ((hnode n).mp hn) hchain)
  · cases path with
    | nil => exact Nat.zero_le _
    | cons n rest =>
      obtain ⟨d', hdepth, hle⟩ := h.longest n ((hnode n).mpr (hpath.1 n List.mem_cons_self))
      exact (hdepth.longest rest hpath.2).trans hle

/-- The search always ends, whatever order the set of nodes is iterated in. On acyclic edges it
counts the nodes of the critical path. -/
theorem dagDepth_critical (edges : List MoleculeEdge) :
    (∀ iter, IterOf edges iter → ∃ d, ∀ more, dagDepth edges ((nodes edges).card + 1 + more) iter = some d) ∧
    ((∀ n, ¬OnCycle edges n) → ∃ path, criticalPathWeighted edges (fun _ => 1) = .ok path ∧
      ∀ iter, IterOf edges iter → dagDepth edges ((nodes edges).card + 1) iter = some path.length) := by
  constructor
  · intro iter hiter
    obtain ⟨d, hd, -⟩ := dagDepth_ends hiter 0
    refine ⟨d, fun more => ?_⟩
    obtain ⟨d', hd', hmore⟩ := dagDepth_ends hiter more
    cases hd.symm.trans hd'
    exact hmore
  · intro hacyclic
    obtain ⟨order, ho⟩ := (toposort_ok_iff edges).mpr ((acyclic_iff edges).mpr hacyclic)
    obtain ⟨path, hok, heq⟩ : ∃ path, criticalPathWeighted edges (fun _ => 1) = .ok path ∧
        path = reconstruct (tables edges (fun _ => 1) order).parent order.length
          (sink (tables edges (fun _ => 1) order).dp order) [] :=
      ⟨_, by rw [criticalPathWeighted, ho], rfl⟩
    obtain ⟨hpath, hlongest⟩ := reconstruct_heaviest (fun _ => 1) ho heq
    simp only [pathWeight_one] at hlongest
    refine ⟨path, hok, fun iter hiter => ?_⟩
    obtain ⟨d, hd, -⟩ := dagDepth_ends hiter 0
    rw [hd, (dagDepth_deepest hacyclic hd).length_eq hiter hpath hlongest]

example : dagDepth [("a", "b"), ("b", "c"), ("a", "c")] 4 ["a", "b", "c"] = some 3 := by decide +kernel

end Cosmon.Runtime.DagDepth
