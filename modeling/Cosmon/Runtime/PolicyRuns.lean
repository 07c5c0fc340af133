import Cosmon.Runtime.DagDispatch

namespace Cosmon.Runtime.PolicyRuns

open Cosmon.Lib.Enumerate Cosmon.Graph.Toposort Cosmon.Graph.PlanReducer Cosmon.Graph.Mutation
open Cosmon.Runtime.CompilePlan Cosmon.Runtime.DagScheduler Cosmon.Runtime.DagDispatch
open Cosmon.State.Molecule

/-- The edges can be scheduled, and they and the skip set only name tracked molecules. -/
structure Tracked (p : DagPolicy) : Prop where
  acyclic : Acyclic p.edges
  endpoints : nodes p.edges ⊆ p.knownMolecules
  completed : p.completed ⊆ p.knownMolecules

/-- The plan, whose universe is `u`, is the one of the edges and has settled
what the policy takes for completed. -/
structure InSync (u : Finset MoleculeId) (p : DagPolicy) : Prop where
  plan : Inv u p.plan
  edges : p.plan.edges = p.edges
  settled : ∀ n, n ∈ p.completed ↔ n ∈ p.plan.done ∨ n ∈ p.plan.skipped

structure Coherent (u : Finset MoleculeId) (p : DagPolicy) : Prop extends Tracked p, InSync u p where
  within : u ⊆ p.knownMolecules

theorem Coherent.nodes_universe {u : Finset MoleculeId} {p : DagPolicy} (h : Coherent u p) :
    nodes p.edges ⊆ u := by
  intro n hn
  obtain ⟨e, he, rfl | rfl⟩ := mem_nodes.mp hn
  · exact (h.plan.closed e (h.edges ▸ he)).1
  · exact (h.plan.closed e (h.edges ▸ he)).2

theorem rebuildPlan_coherent {p : DagPolicy} (h : Tracked p) :
    ∃ plan, p.rebuildPlan = { p with plan := plan } ∧ plan.running = ∅ ∧
      Coherent p.knownMolecules { p with plan := plan } := by
  obtain ⟨plan, hplan⟩ := newWithRoots_total h.acyclic p.completed p.knownMolecules
  obtain ⟨-, hedges, hskipped, hrunning, hdone, -⟩ := newWithRoots_eq hplan
  have hinv := newWithRoots_inv hplan
  rw [nodeUniverse, Finset.union_eq_left.mpr h.endpoints] at hinv
  refine ⟨plan, ?_, hrunning, ?_⟩
  · simp only [DagPolicy.rebuildPlan, hplan]
  · refine ⟨⟨h.acyclic, h.endpoints, h.completed⟩, ⟨hinv, hedges, fun n => ?_⟩, Finset.Subset.refl _⟩
    rw [hdone, hskipped]
    simp

theorem new_coherent {edges : List MoleculeEdge} {roots : Finset MoleculeId} {plan : Plan MoleculeId}
    (h : Plan.newWithRoots edges ∅ roots = .ok plan) :
    Coherent (nodeUniverse edges roots) (DagPolicy.new plan edges) := by
  obtain ⟨hacyclic, hedges, hskipped, hrunning, hdone, hready⟩ := newWithRoots_eq h
  refine ⟨⟨hacyclic, Finset.subset_union_right, Finset.empty_subset _⟩,
    ⟨newWithRoots_inv h, hedges, fun n => ?_⟩, ?_⟩
  · simp [DagPolicy.new, hdone, hskipped]
  · intro n hn
    by_cases hnode : n ∈ nodes edges
    · exact Finset.mem_union_right _ hnode
    · refine Finset.mem_union_left _ ((hready n).mpr ⟨hn, Finset.notMem_empty n, fun d hd => ?_⟩)
      exact absurd (snd_mem_nodes hd) hnode

/-- The molecules that the splices of one tick add to the DAG: the targets of each
newly finished molecule, if the edges spliced so far leave room for them. -/
def splices : List MoleculeEdge → List (MoleculeId × List MoleculeLink) → List MoleculeId
  | _, [] => []
  | edges, (id, links) :: rest =>
    let products := links.filterMap spliceTarget
    if products = [] then splices edges rest
    else
      match insertSubgraph edges (products.map fun c => (id, c)) with
      | .ok merged => products ++ splices merged rest
      | .error _ => splices edges rest

def absorbNext (acc : DagPolicy × Bool) (t : MoleculeId × List MoleculeLink) : DagPolicy × Bool :=
  ((acc.1.absorbTerminal t.1 t.2).1, acc.2 || (acc.1.absorbTerminal t.1 t.2).2)

/-- What a list of finished molecules does to a policy, before the plan is rebuilt. -/
structure Absorbed (p : DagPolicy) (ts : List (MoleculeId × List MoleculeLink)) (q : DagPolicy) : Prop where
  completed : ∀ n, n ∈ q.completed ↔ n ∈ p.completed ∨ n ∈ ts.map Prod.fst
  known : ∀ n, n ∈ q.knownMolecules ↔ n ∈ p.knownMolecules ∨ n ∈ splices p.edges ts
  edges : ∀ e ∈ q.edges, e ∈ p.edges ∨ e.1 ∈ ts.map Prod.fst
  kept : ∀ e ∈ p.edges, e ∈ q.edges
  running : q.plan.running ⊆ p.plan.running

theorem markDone_running (plan : Plan MoleculeId) (id : MoleculeId) :
    (plan.markDone id).1.running ⊆ plan.running := by
  unfold Plan.markDone
  split
  · exact Finset.Subset.refl _
  · exact Finset.erase_subset _ _

theorem markDone_settled (plan : Plan MoleculeId) (id n : MoleculeId) :
    (n ∈ (plan.markDone id).1.done ∨ n ∈ (plan.markDone id).1.skipped) ↔
      n = id ∨ n ∈ plan.done ∨ n ∈ plan.skipped := by
  unfold Plan.markDone
  split
  · next h =>
    constructor
    · exact .inr
    · rintro (rfl | hn)
      · exact h
      · exact hn
  · simp only [Finset.mem_insert, or_assoc]

theorem markDone_edges (plan : Plan MoleculeId) (id : MoleculeId) :
    (plan.markDone id).1.edges = plan.edges := by
  unfold Plan.markDone
  split <;> rfl

theorem InSync.markDone {u : Finset MoleculeId} {p : DagPolicy} (h : InSync u p) (id : MoleculeId) :
    InSync u { p with completed := insert id p.completed, plan := (p.plan.markDone id).1 } := by
  refine ⟨markDone_inv h.plan id, (markDone_edges _ _).trans h.edges, fun n => ?_⟩
  rw [markDone_settled, Finset.mem_insert, h.settled]

theorem Tracked.complete {p : DagPolicy} (h : Tracked p) {id : MoleculeId} (hid : id ∈ p.knownMolecules)
    (plan : Plan MoleculeId) :
    Tracked { p with completed := insert id p.completed, plan := plan } :=
  ⟨h.acyclic, h.endpoints, Finset.insert_subset hid h.completed⟩

theorem absorbTerminal_cases (p : DagPolicy) (id : MoleculeId) (links : List MoleculeLink) :
    (p.absorbTerminal id links =
        ({ p with completed := insert id p.completed, plan := (p.plan.markDone id).1 }, false) ∧
      ∀ rest, splices p.edges ((id, links) :: rest) = splices p.edges rest) ∨
    ∃ products merged, products ≠ [] ∧
      insertSubgraph p.edges (products.map fun c => (id, c)) = .ok merged ∧
      p.absorbTerminal id links =
        ({ p with
            completed := insert id p.completed
            edges := merged
            knownMolecules := p.knownMolecules ∪ products.toFinset }, true) ∧
      ∀ rest, splices p.edges ((id, links) :: rest) = products ++ splices merged rest := by
  by_cases hnone : links.filterMap spliceTarget = []
  · refine .inl ⟨?_, fun rest => ?_⟩
    · simp only [DagPolicy.absorbTerminal, hnone, if_true]
    · simp only [splices, hnone, if_true]
  · cases hsplice : insertSubgraph p.edges ((links.filterMap spliceTarget).map fun c => (id, c)) with
    | error e =>
      refine .inl ⟨?_, fun rest => ?_⟩
      · simp only [DagPolicy.absorbTerminal, if_neg hnone, hsplice]
      · simp only [splices, if_neg hnone, hsplice]
    | ok merged =>
      refine .inr ⟨links.filterMap spliceTarget, merged, hnone, hsplice, ?_, fun rest => ?_⟩
      · simp only [DagPolicy.absorbTerminal, if_neg hnone, hsplice]
      · simp only [splices, if_neg hnone, hsplice]

theorem Tracked.splice {p : DagPolicy} (h : Tracked p) {id : MoleculeId} (hid : id ∈ p.knownMolecules)
    {products : List MoleculeId} {merged : List MoleculeEdge}
    (hmerged : insertSubgraph p.edges (products.map fun c => (id, c)) = .ok merged) :
    Tracked { p with
      completed := insert id p.completed
      edges := merged
      knownMolecules := p.knownMolecules ∪ products.toFinset } := by
  refine ⟨insertSubgraph_acyclic hmerged, ?_, ?_⟩
  · intro n hn
    obtain ⟨e, he, hen⟩ := mem_nodes.mp hn
    rw [Finset.mem_union, List.mem_toFinset]
    rcases (insertSubgraph_mem hmerged e).mp he with he | he
    · exact .inl (h.endpoints (mem_nodes.mpr ⟨e, he, hen⟩))
    · obtain ⟨c, hc, rfl⟩ := List.mem_map.mp he
      rcases hen with rfl | rfl
      · exact .inl hid
      · exact .inr hc
  · exact Finset.insert_subset (Finset.mem_union_left _ hid) (h.completed.trans Finset.subset_union_left)

/-- Absorbing a whole tick's molecules. The plan stays in sync as long as nothing is spliced. -/
theorem absorbNext_foldl (ts : List (MoleculeId × List MoleculeLink)) {p : DagPolicy} (hp : Tracked p)
    (hts : ∀ t ∈ ts, t.1 ∈ p.knownMolecules) (b : Bool) :
    Tracked (ts.foldl absorbNext (p, b)).1 ∧ Absorbed p ts (ts.foldl absorbNext (p, b)).1 ∧
      ((ts.foldl absorbNext (p, b)).2 = true ↔ b = true ∨ splices p.edges ts ≠ []) ∧
      ∀ u, InSync u p → splices p.edges ts = [] → InSync u (ts.foldl absorbNext (p, b)).1 := by
  induction ts generalizing p b with
  | nil => exact ⟨hp, ⟨by simp, by simp [splices], by simp, by simp, Finset.Subset.refl _⟩, by simp [splices],
      fun u hu _ => hu⟩
  | cons t ts ih =>
    obtain ⟨id, links⟩ := t
    have hid : id ∈ p.knownMolecules := hts _ List.mem_cons_self
    have hrest : ∀ t ∈ ts, t.1 ∈ p.knownMolecules := fun t ht => hts t (List.mem_cons_of_mem _ ht)
    rw [List.foldl_cons]
    rcases absorbTerminal_cases p id links with
      ⟨heq, hsplices⟩ | ⟨products, merged, hsome, hmerged, heq, hsplices⟩
    · obtain ⟨htracked, habsorbed, hflag, hsync⟩ :=
        ih (hp.complete hid (p.plan.markDone id).1) hrest (b || false)
      simp only [absorbNext, heq, hsplices]
      refine ⟨htracked, ⟨?_, ?_, ?_, habsorbed.kept, ?_⟩, ?_, ?_⟩
      · intro n
        rw [habsorbed.completed, Finset.mem_insert, List.map_cons, List.mem_cons]
        tauto
      · intro n
        rw [hsplices]
        exact habsorbed.known n
      · intro e he
        exact (habsorbed.edges e he).imp_right (List.mem_cons_of_mem _)
      · exact habsorbed.running.trans (markDone_running _ _)
      · rw [hflag, Bool.or_false]
      · exact fun u hu hnone => hsync u (hu.markDone id) hnone
    · obtain ⟨htracked, habsorbed, hflag, hsync⟩ := ih (hp.splice hid hmerged)
        (fun t ht => Finset.mem_union_left _ (hrest t ht)) (b || true)
      have hedges := insertSubgraph_mem hmerged
      simp only [absorbNext, heq, hsplices]
      refine ⟨htracked, ⟨?_, ?_, ?_, ?_, habsorbed.running⟩, ?_, ?_⟩
      · intro n
        rw [habsorbed.completed, Finset.mem_insert, List.map_cons, List.mem_cons]
        tauto
      · intro n
        rw [hsplices, habsorbed.known, Finset.mem_union, List.mem_toFinset, List.mem_append, or_assoc]
      · intro e he
        rcases habsorbed.edges e he with he | he
        · rcases (hedges e).mp he with he | he
          · exact .inl he
          · obtain ⟨c, _, rfl⟩ := List.mem_map.mp he
            exact .inr List.mem_cons_self
        · exact .inr (List.mem_cons_of_mem _ he)
      · exact fun e he => habsorbed.kept e ((hedges e).mpr (.inl he))
      · rw [hflag]
        simp [hsome]
      · intro u _ hnone
        exact absurd (List.append_eq_nil_iff.mp hnone).1 hsome

theorem markReady_frame (plan : Plan MoleculeId) (id : MoleculeId) :
    (plan.markReady id).edges = plan.edges ∧ (plan.markReady id).done = plan.done ∧
      (plan.markReady id).skipped = plan.skipped ∧
      ∀ n, n ∈ (plan.markReady id).running ↔ n ∈ plan.running ∧ n ≠ id := by
  unfold Plan.markReady
  split
  · refine ⟨rfl, rfl, rfl, fun n => ?_⟩
    rw [Finset.mem_erase, and_comm]
  · next hout =>
    refine ⟨rfl, rfl, rfl, fun n => ?_⟩
    constructor
    · exact fun hn => ⟨hn, fun h => hout (h ▸ hn)⟩
    · exact And.left

theorem Coherent.plan_step {u : Finset MoleculeId} {p : DagPolicy} (h : Coherent u p)
    {plan : Plan MoleculeId} (hinv : Inv u plan) (hedges : plan.edges = p.plan.edges)
    (hdone : plan.done = p.plan.done) (hskipped : plan.skipped = p.plan.skipped) :
    Coherent u { p with plan := plan } :=
  ⟨⟨h.acyclic, h.endpoints, h.completed⟩,
    ⟨hinv, hedges.trans h.edges, fun n => by rw [hdone, hskipped]; exact h.settled n⟩, h.within⟩

theorem selfHeal_coherent {u : Finset MoleculeId} (molecules : List MoleculeData) {p : DagPolicy}
    (h : Coherent u p) : ∃ plan, p.selfHeal ⟨molecules⟩ = { p with plan := plan } ∧
      Coherent u { p with plan := plan } ∧
      ∀ id, id ∉ p.plan.running ∨ (∃ m ∈ molecules, m.id = id ∧ m.status = .pending) →
        id ∉ plan.running := by
  induction molecules generalizing p with
  | nil =>
    refine ⟨p.plan, rfl, h, ?_⟩
    rintro id (hid | ⟨m, hm, -⟩)
    · exact hid
    · cases hm
  | cons m rest ih =>
    by_cases hpending : m.status = .pending
    · obtain ⟨hedges, hdone, hskipped, hrunning⟩ := markReady_frame p.plan m.id
      have hnext := h.plan_step (markReady_inv h.plan m.id) hedges hdone hskipped
      obtain ⟨plan, heq, hplan, hout⟩ := ih hnext
      refine ⟨plan, ?_, hplan, ?_⟩
      · rw [← heq]
        simp only [DagPolicy.selfHeal, List.foldl_cons, hpending, if_true]
      · rintro id (hid | ⟨m', hm', hid, hp'⟩)
        · exact hout id (.inl fun hr => hid ((hrunning id).mp hr).1)
        · rcases List.mem_cons.mp hm' with rfl | hm'
          · exact hout id (.inl fun hr => ((hrunning id).mp hr).2 hid.symm)
          · exact hout id (.inr ⟨m', hm', hid, hp'⟩)
    · obtain ⟨plan, heq, hplan, hout⟩ := ih h
      refine ⟨plan, ?_, hplan, ?_⟩
      · rw [← heq]
        simp only [DagPolicy.selfHeal, List.foldl_cons, if_neg hpending]
      · rintro id (hid | ⟨m', hm', hid, hp'⟩)
        · exact hout id (.inl hid)
        · rcases List.mem_cons.mp hm' with rfl | hm'
          · exact absurd hp' hpending
          · exact hout id (.inr ⟨m', hm', hid, hp'⟩)

theorem newlyTerminal_known (p : DagPolicy) (snapshot : FleetSnapshot) :
    ∀ t ∈ p.newlyTerminal snapshot, t.1 ∈ p.knownMolecules := by
  intro t ht
  obtain ⟨id, hid, h⟩ := List.mem_filterMap.mp ht
  split at h
  · cases h
  · split at h
    · cases h
    · next mol hmol =>
      split at h
      · cases h
        rw [(byId_some hmol).2]
        exact mem_enumerate.mp hid
      · cases h

theorem absorb_coherent {u : Finset MoleculeId} {p : DagPolicy} (h : Coherent u p) (snapshot : FleetSnapshot) :
    Absorbed p (p.newlyTerminal snapshot) (p.absorb snapshot) ∧
      (splices p.edges (p.newlyTerminal snapshot) = [] → Coherent u (p.absorb snapshot)) ∧
      (splices p.edges (p.newlyTerminal snapshot) ≠ [] →
        Coherent (p.absorb snapshot).knownMolecules (p.absorb snapshot)) := by
  have heq : p.absorb snapshot =
      if ((p.newlyTerminal snapshot).foldl absorbNext (p, false)).2 then
        { ((p.newlyTerminal snapshot).foldl absorbNext (p, false)).1 with needsRecompile := true }.rebuildPlan
      else ((p.newlyTerminal snapshot).foldl absorbNext (p, false)).1 := rfl
  obtain ⟨htracked, habsorbed, hflag, hsync⟩ :=
    absorbNext_foldl _ h.toTracked (newlyTerminal_known p snapshot) false
  rw [heq]
  generalize (p.newlyTerminal snapshot).foldl absorbNext (p, false) = r at htracked habsorbed hflag hsync ⊢
  by_cases hnone : splices p.edges (p.newlyTerminal snapshot) = []
  · have hoff : r.2 = false := by
      cases hr : r.2
      · rfl
      · exact absurd hnone ((hflag.mp hr).resolve_left Bool.false_ne_true)
    rw [hoff]
    refine ⟨habsorbed, fun _ => ?_, fun hsome => absurd hnone hsome⟩
    exact ⟨htracked, hsync u h.toInSync hnone, fun n hn => (habsorbed.known n).mpr (.inl (h.within hn))⟩
  · rw [if_pos (hflag.mpr (.inr hnone))]
    obtain ⟨plan, hrebuild, hrunning, hcoherent⟩ :=
      rebuildPlan_coherent (p := { r.1 with needsRecompile := true })
        ⟨htracked.acyclic, htracked.endpoints, htracked.completed⟩
    rw [hrebuild]
    refine ⟨⟨habsorbed.completed, habsorbed.known, habsorbed.edges, habsorbed.kept, ?_⟩,
      fun hsome => absurd hsome hnone, fun _ => hcoherent⟩
    rw [hrunning]
    exact Finset.empty_subset _

theorem Coherent.widen {u : Finset MoleculeId} {p : DagPolicy} (h : Coherent u p)
    {known : Finset MoleculeId} (hgrow : p.knownMolecules ⊆ known) :
    Coherent u { p with knownMolecules := known } :=
  ⟨⟨h.acyclic, h.endpoints.trans hgrow, h.completed.trans hgrow⟩, ⟨h.plan, h.edges, h.settled⟩,
    h.within.trans hgrow⟩

theorem markRunnings_coherent {u : Finset MoleculeId} (batch : List MoleculeId) {p : DagPolicy}
    (h : Coherent u p) : Coherent u { p with plan := batch.foldl Plan.markRunning p.plan } := by
  induction batch generalizing p with
  | nil => exact h
  | cons id batch ih =>
    have hframe : (p.plan.markRunning id).edges = p.plan.edges ∧
        (p.plan.markRunning id).done = p.plan.done ∧ (p.plan.markRunning id).skipped = p.plan.skipped := by
      unfold Plan.markRunning
      split <;> exact ⟨rfl, rfl, rfl⟩
    exact ih (h.plan_step (markRunning_inv h.plan id) hframe.1 hframe.2.1 hframe.2.2)

theorem affinityReorder_coherent {u : Finset MoleculeId} {p : DagPolicy} (h : Coherent u p)
    (ids : List MoleculeId) (molecules : List MoleculeData) :
    Coherent u (p.affinityReorder ids molecules).1 := by
  unfold DagPolicy.affinityReorder
  split
  · exact h
  · exact ⟨⟨h.acyclic, h.endpoints, h.completed⟩, ⟨h.plan, h.edges, h.settled⟩, h.within⟩

theorem nextActions_coherent {u : Finset MoleculeId} {p : DagPolicy} (h : Coherent u p)
    (snapshot : FleetSnapshot) : ∃ u', Coherent u' (p.nextActions snapshot).1 := by
  obtain ⟨plan, heq, hheal, -⟩ := selfHeal_coherent snapshot.molecules h
  obtain ⟨-, hnone, hsome⟩ := absorb_coherent hheal snapshot
  rw [← heq] at hnone hsome
  obtain ⟨u', hu'⟩ : ∃ u', Coherent u' ((p.selfHeal snapshot).absorb snapshot) := by
    by_cases hs : splices (p.selfHeal snapshot).edges ((p.selfHeal snapshot).newlyTerminal snapshot) = []
    · exact ⟨u, hnone hs⟩
    · exact ⟨_, hsome hs⟩
  exact ⟨u', markRunnings_coherent _ (affinityReorder_coherent hu' _ _)⟩

theorem preComplete_foldl {u : Finset MoleculeId} (ids : List MoleculeId) (acc : DagPolicy × Bool)
    (ht : Tracked acc.1) (hc : acc.2 = false → Coherent u acc.1) :
    Tracked (ids.foldl DagPolicy.preComplete acc).1 ∧
      ((ids.foldl DagPolicy.preComplete acc).2 = false →
        Coherent u (ids.foldl DagPolicy.preComplete acc).1) := by
  induction ids generalizing acc with
  | nil => exact ⟨ht, hc⟩
  | cons id ids ih =>
    have hgrow : acc.1.knownMolecules ⊆ insert id acc.1.knownMolecules := Finset.subset_insert _ _
    rw [List.foldl_cons]
    by_cases hid : id ∈ acc.1.completed
    · have heq : DagPolicy.preComplete acc id =
          ({ acc.1 with knownMolecules := insert id acc.1.knownMolecules }, acc.2) := by
        simp only [DagPolicy.preComplete, if_pos hid]
      rw [heq]
      apply ih
      · exact ⟨ht.acyclic, ht.endpoints.trans hgrow, ht.completed.trans hgrow⟩
      · exact fun hoff => (hc hoff).widen hgrow
    · have heq : DagPolicy.preComplete acc id =
          ({ acc.1 with
              knownMolecules := insert id acc.1.knownMolecules
              completed := insert id acc.1.completed
              plan := (acc.1.plan.markDone id).1 }, true) := by
        simp only [DagPolicy.preComplete, if_neg hid]
      rw [heq]
      apply ih
      · exact ⟨ht.acyclic, ht.endpoints.trans hgrow, Finset.insert_subset_insert _ ht.completed⟩
      · exact fun hoff => absurd hoff.symm Bool.false_ne_true

theorem recompile_coherent {u : Finset MoleculeId} {p : DagPolicy} (h : Coherent u p) (store : StateStore) :
    ∃ u', Coherent u' (p.recompile store).1 := by
  unfold DagPolicy.recompile
  split
  · exact ⟨u, h⟩
  · next plan edges hc =>
    have hacyclic : Acyclic edges := by
      simp only [compilePlan] at hc
      split at hc
      · cases hc
      · split at hc
        · next hplan => cases hc; exact (newWithRoots_eq hplan).1
        · cases hc
    obtain ⟨plan', hrebuild, -, hcoherent⟩ := rebuildPlan_coherent
      (p := { p with knownMolecules := nodeUniverse edges p.knownMolecules, edges := edges })
      ⟨hacyclic, Finset.subset_union_right, h.completed.trans Finset.subset_union_left⟩
    rw [hrebuild]
    exact ⟨nodeUniverse edges p.knownMolecules, ⟨⟨hcoherent.acyclic, hcoherent.endpoints, hcoherent.completed⟩,
      ⟨hcoherent.plan, hcoherent.edges, hcoherent.settled⟩, hcoherent.within⟩⟩

def widened (known : Finset MoleculeId) (all : List MoleculeData) : Finset MoleculeId :=
  all.foldl (fun known mol => if referencesKnown known mol then insert mol.id known else known) known

theorem subset_widened (known : Finset MoleculeId) (all : List MoleculeData) : known ⊆ widened known all := by
  induction all generalizing known with
  | nil => exact Finset.Subset.refl _
  | cons mol all ih =>
    refine Finset.Subset.trans ?_ (ih _)
    dsimp only
    split
    · exact Finset.subset_insert _ _
    · exact Finset.Subset.refl _

theorem refreshScope_ok {p : DagPolicy} {store : StateStore} {all : List MoleculeData}
    (h : store.listMolecules = .ok all) :
    p.refreshScope store = { p with knownMolecules := widened p.knownMolecules all }.recompile store := by
  simp only [DagPolicy.refreshScope, h]
  rfl

def liveEdges (p : DagPolicy) : List MoleculeEdge :=
  p.edges.filter fun e => ¬(e.1 ∈ p.completed ∧ e.2 ∈ p.completed)

theorem mem_liveEdges {p : DagPolicy} {e : MoleculeEdge} :
    e ∈ liveEdges p ↔ e ∈ p.edges ∧ ¬(e.1 ∈ p.completed ∧ e.2 ∈ p.completed) := by
  rw [liveEdges, List.mem_filter, decide_eq_true_eq]

theorem gc_coherent {p : DagPolicy} (h : Tracked p) :
    ∃ plan, p.gc = { p with edges := liveEdges p, plan := plan } ∧
      Coherent p.knownMolecules { p with edges := liveEdges p, plan := plan } := by
  have hacyclic : Acyclic (liveEdges p) := acyclic_of_subset h.acyclic fun e he => (mem_liveEdges.mp he).1
  have hnodes : nodes (liveEdges p) ⊆ p.knownMolecules := by
    intro n hn
    obtain ⟨e, he, hen⟩ := mem_nodes.mp hn
    exact h.endpoints (mem_nodes.mpr ⟨e, (mem_liveEdges.mp he).1, hen⟩)
  obtain ⟨plan, hrebuild, -, hcoherent⟩ :=
    rebuildPlan_coherent (p := { p with edges := liveEdges p }) ⟨hacyclic, hnodes, h.completed⟩
  exact ⟨plan, hrebuild, hcoherent⟩

theorem apply_coherent {u : Finset MoleculeId} {p : DagPolicy} (h : Coherent u p) (op : DagScheduler.Op) :
    ∃ u', Coherent u' (p.apply op) := by
  cases op with
  | withAffinity _ | withResidentModel _ | withLimits _ | withEvidence _ =>
    exact ⟨u, ⟨⟨h.acyclic, h.endpoints, h.completed⟩, ⟨h.plan, h.edges, h.settled⟩, h.within⟩⟩
  | withPreCompleted ids =>
    obtain ⟨ht, hc⟩ := preComplete_foldl ids (p, false) h.toTracked (fun _ => h)
    simp only [DagPolicy.apply, DagPolicy.withPreCompleted]
    split
    · obtain ⟨plan, hrebuild, -, hcoherent⟩ := rebuildPlan_coherent ht
      rw [hrebuild]
      exact ⟨_, hcoherent⟩
    · next hoff => exact ⟨u, hc (Bool.eq_false_iff.mpr hoff)⟩
  | nextActions snapshot => exact nextActions_coherent h snapshot
  | recompile store => exact recompile_coherent h store
  | refreshScope store =>
    simp only [DagPolicy.apply]
    cases hlist : store.listMolecules with
    | error e => exact ⟨u, by simpa only [DagPolicy.refreshScope, hlist] using h⟩
    | ok all =>
      rw [refreshScope_ok hlist]
      exact recompile_coherent (h.widen (subset_widened p.knownMolecules all)) store
  | gc =>
    obtain ⟨plan, hgc, hcoherent⟩ := gc_coherent h.toTracked
    exact ⟨p.knownMolecules, by simpa only [DagPolicy.apply, hgc] using hcoherent⟩

theorem run_coherent {u : Finset MoleculeId} {p : DagPolicy} (h : Coherent u p) (ops : List DagScheduler.Op) :
    ∃ u', Coherent u' (p.run ops) := by
  induction ops generalizing u p with
  | nil => exact ⟨u, h⟩
  | cons op ops ih =>
    obtain ⟨u', h'⟩ := apply_coherent h op
    exact ih h'

/-- A policy made of a plan and the edges it was compiled from, after any calls. -/
def Reachable (p : DagPolicy) : Prop :=
  ∃ (edges : List MoleculeEdge) (roots : Finset MoleculeId) (plan : Plan MoleculeId)
    (ops : List DagScheduler.Op),
    Plan.newWithRoots edges ∅ roots = .ok plan ∧ p = (DagPolicy.new plan edges).run ops

theorem Reachable.coherent {p : DagPolicy} (h : Reachable p) : ∃ u, Coherent u p := by
  obtain ⟨edges, roots, plan, ops, hplan, rfl⟩ := h
  exact run_coherent (new_coherent hplan) ops

theorem widened_eq_iff {known : Finset MoleculeId} {all : List MoleculeData} :
    widened known all = known ↔ ∀ m ∈ all, referencesKnown known m → m.id ∈ known := by
  induction all with
  | nil => simp [widened]
  | cons m all ih =>
    rw [List.forall_mem_cons, ← ih]
    by_cases href : referencesKnown known m
    · have hstep : widened known (m :: all) = widened (insert m.id known) all := by
        simp only [widened, List.foldl_cons, href, if_true]
      rw [hstep]
      constructor
      · intro h
        have hm : m.id ∈ known := by
          rw [← h]
          exact subset_widened _ all (Finset.mem_insert_self _ _)
        rw [Finset.insert_eq_of_mem hm] at h
        exact ⟨fun _ => hm, h⟩
      · rintro ⟨hm, h⟩
        rwa [Finset.insert_eq_of_mem (hm href)]
    · have hstep : widened known (m :: all) = widened known all := by
        simp only [widened, List.foldl_cons, href, if_false, Bool.false_eq_true]
      rw [hstep]
      exact (and_iff_right (fun h => absurd h href)).symm

theorem recompile_failed {p : DagPolicy} {store : StateStore} {e : CosmonError}
    (h : (p.recompile store).2 = .error e) : (p.recompile store).1 = p := by
  unfold DagPolicy.recompile at h ⊢
  split at h
  · rfl
  · cases h

/-- A recompilation that fails leaves the policy alone. So does a refresh, exactly when
the scan before it finds nothing to widen the scope with. -/
theorem failed_refresh_iff (p : DagPolicy) (store : StateStore) :
    (∀ e, (p.recompile store).2 = .error e → (p.recompile store).1 = p) ∧
    ∀ e, (p.refreshScope store).2 = .error e →
      ((p.refreshScope store).1 = p ↔ ∀ all, store.listMolecules = .ok all →
        ∀ m ∈ all, referencesKnown p.knownMolecules m → m.id ∈ p.knownMolecules) := by
  refine ⟨fun e h => recompile_failed h, fun e h => ?_⟩
  cases hlist : store.listMolecules with
  | error e' => simp [DagPolicy.refreshScope, hlist]
  | ok all =>
    rw [refreshScope_ok hlist] at h ⊢
    rw [recompile_failed h]
    simp only [Except.ok.injEq, forall_eq', ← widened_eq_iff]
    constructor
    · exact congrArg DagPolicy.knownMolecules
    · intro hsame
      rw [hsame]

def mutualStore : StateStore :=
  storeOf [{ id := "a", typedLinks := [.blockedBy "b"] }, { id := "b", typedLinks := [.blockedBy "a"] }]

def rootOnly : DagPolicy := DagPolicy.new ⟨[], {"a"}, ∅, ∅, ∅⟩ []

/-- The refresh fails on the cycle and leaves the policy tracking both molecules. -/
theorem failed_refresh_cycle :
    Reachable rootOnly ∧ (∃ e, (rootOnly.refreshScope mutualStore).2 = .error e) ∧
      rootOnly.knownMolecules = {"a"} ∧
      (rootOnly.refreshScope mutualStore).1.knownMolecules = {"a", "b"} ∧
      (rootOnly.refreshScope mutualStore).1 ≠ rootOnly := by
  have hbefore : rootOnly.knownMolecules = {"a"} := by decide +kernel
  have hafter : (rootOnly.refreshScope mutualStore).1.knownMolecules = {"a", "b"} := by decide +kernel
  refine ⟨⟨[], {"a"}, _, [], by decide +kernel, rfl⟩, ?_, hbefore, hafter, fun h => ?_⟩
  · exact ⟨.stateStore "dependency cycle in compiled DAG at molecule a", by decide +kernel⟩
  · rw [h, hbefore] at hafter
    exact absurd hafter (by decide +kernel)

end Cosmon.Runtime.PolicyRuns
