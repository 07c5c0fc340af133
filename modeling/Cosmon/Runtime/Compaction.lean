import Cosmon.Runtime.PolicyRuns

namespace Cosmon.Runtime.Compaction

open Cosmon.Graph.Toposort Cosmon.Graph.PlanReducer
open Cosmon.Runtime.DagScheduler Cosmon.Runtime.DagDispatch
open Cosmon.Runtime.PolicyRuns Cosmon.State.Molecule Cosmon.State.Frontier

/-- A plan with universe `u` surfaces the molecule on this tick: the plan knows it, from
before or through a splice, and all it depends on is completed by now. -/
structure Surfaced (u : Finset MoleculeId) (p : DagPolicy) (ts : List (MoleculeId × List MoleculeLink))
    (id : MoleculeId) : Prop where
  planned : id ∈ u ∨ splices p.edges ts ≠ [] ∧ (id ∈ p.knownMolecules ∨ id ∈ splices p.edges ts)
  unfinished : ¬(id ∈ p.completed ∨ id ∈ ts.map Prod.fst)
  released : ∀ d, (d, id) ∈ p.edges → d ∈ p.completed ∨ d ∈ ts.map Prod.fst

theorem ready_iff {u : Finset MoleculeId} {p : DagPolicy} (h : Coherent u p) {id : MoleculeId}
    (hidle : id ∉ p.plan.running) :
    id ∈ p.plan.ready ↔ id ∈ u ∧ id ∉ p.completed ∧ ∀ d, (d, id) ∈ p.edges → d ∈ p.completed := by
  constructor
  · intro hr
    have hu := h.plan.within id (.inl hr)
    obtain ⟨hopen, hdeps⟩ := (h.plan.frontier id hu).mp (.inl hr)
    rw [Plan.Unblocked, h.edges] at hdeps
    simp only [← h.settled] at hdeps
    exact ⟨hu, fun hc => not_or.mpr hopen ((h.settled id).mp hc), hdeps⟩
  · rintro ⟨hu, hopen, hdeps⟩
    rw [h.settled, not_or] at hopen
    refine ((h.plan.frontier id hu).mpr ⟨hopen, ?_⟩).resolve_right hidle
    rw [Plan.Unblocked, h.edges]
    simpa only [← h.settled] using hdeps

theorem evolved_iff (p : DagPolicy) (hfree : p.limits = []) (snapshot : FleetSnapshot) (id : MoleculeId) :
    id ∈ evolved (p.nextActions snapshot).2 ↔
      id ∈ ((p.selfHeal snapshot).absorb snapshot).plan.ready ∧
        id ∈ computeFromMolecules snapshot.molecules := by
  have hlimits : ((p.selfHeal snapshot).absorb snapshot).limits = [] := (absorb_limits p snapshot).trans hfree
  rw [(nextActions_batch p snapshot).mem_iff, DagPolicy.admitted, if_pos hlimits, DagPolicy.eligible,
    List.mem_insertionSort, List.mem_filter, Cosmon.Lib.Enumerate.mem_enumerate, decide_eq_true_eq]

theorem emitted_iff {u : Finset MoleculeId} {p : DagPolicy} (h : Coherent u p) (hfree : p.limits = [])
    (snapshot : FleetSnapshot) (id : MoleculeId) :
    id ∈ evolved (p.nextActions snapshot).2 ↔
      Surfaced u p (p.newlyTerminal snapshot) id ∧ id ∈ computeFromMolecules snapshot.molecules := by
  rw [evolved_iff p hfree]
  apply and_congr_left
  intro hfrontier
  obtain ⟨m, hm, hid, hpending, -⟩ := mem_computeFromMolecules hfrontier
  obtain ⟨plan, heq, hheal, hout⟩ := selfHeal_coherent snapshot.molecules h
  obtain ⟨habsorbed, hnone, hsome⟩ := absorb_coherent hheal snapshot
  rw [heq]
  have hterminal : DagPolicy.newlyTerminal { p with plan := plan } snapshot = p.newlyTerminal snapshot := rfl
  rw [hterminal] at habsorbed hnone hsome
  generalize DagPolicy.absorb { p with plan := plan } snapshot = q at habsorbed hnone hsome ⊢
  have hidle : id ∉ q.plan.running := fun hr => hout id (.inr ⟨m, hm, hid, hpending⟩) (habsorbed.running hr)
  have hdeps : (∀ d, (d, id) ∈ q.edges → d ∈ q.completed) ↔
      ∀ d, (d, id) ∈ p.edges → d ∈ p.completed ∨ d ∈ (p.newlyTerminal snapshot).map Prod.fst := by
    constructor
    · exact fun hq d hd => (habsorbed.completed d).mp (hq d (habsorbed.kept _ hd))
    · intro hp d hd
      apply (habsorbed.completed d).mpr
      rcases habsorbed.edges _ hd with hd | hd
      · exact hp d hd
      · exact .inr hd
  have hready : ∀ v, Coherent v q → (id ∈ q.plan.ready ↔ id ∈ v ∧
      ¬(id ∈ p.completed ∨ id ∈ (p.newlyTerminal snapshot).map Prod.fst) ∧
      ∀ d, (d, id) ∈ p.edges → d ∈ p.completed ∨ d ∈ (p.newlyTerminal snapshot).map Prod.fst) := by
    intro v hv
    rw [ready_iff hv hidle, hdeps, habsorbed.completed]
  by_cases hs : splices p.edges (p.newlyTerminal snapshot) = []
  · rw [hready u (hnone hs)]
    constructor
    · exact fun hr => ⟨.inl hr.1, hr.2.1, hr.2.2⟩
    · exact fun hr => ⟨hr.planned.resolve_right (fun hp => hp.1 hs), hr.unfinished, hr.released⟩
  · rw [hready _ (hsome hs), habsorbed.known]
    constructor
    · exact fun hr => ⟨.inr ⟨hs, hr.1⟩, hr.2.1, hr.2.2⟩
    · intro hr
      refine ⟨?_, hr.unfinished, hr.released⟩
      rcases hr.planned with hu | ⟨-, hp⟩
      · exact .inl (h.within hu)
      · exact hp

/-- A tracked, unfinished molecule on no edge that the plan neither holds ready nor running:
what is left behind by a refresh that failed after it had widened the scope. -/
def LeftBehind (p : DagPolicy) (id : MoleculeId) : Prop :=
  id ∈ p.knownMolecules ∧ id ∉ p.completed ∧ id ∉ nodes p.edges ∧ id ∉ p.plan.ready ∧ id ∉ p.plan.running

/-- When dropping the edges between completed molecules does not show: the tick splices in
the same untracked molecules of the frontier without these edges, and none of its tracked
ones was left behind, unless a splice has the plan rebuilt anyway. -/
def CompactionSafe (p : DagPolicy) (snapshot : FleetSnapshot) : Prop :=
  ∀ id ∈ computeFromMolecules snapshot.molecules,
    (id ∉ p.knownMolecules → (id ∈ splices p.edges (p.newlyTerminal snapshot) ↔
      id ∈ splices (liveEdges p) (p.newlyTerminal snapshot))) ∧
    (LeftBehind p id → id ∉ (p.newlyTerminal snapshot).map Prod.fst →
      splices p.edges (p.newlyTerminal snapshot) ≠ [])

theorem leftBehind_iff {u : Finset MoleculeId} {p : DagPolicy} (h : Coherent u p) (id : MoleculeId) :
    LeftBehind p id ↔ id ∈ p.knownMolecules ∧ id ∉ p.completed ∧ id ∉ u := by
  constructor
  · rintro ⟨hknown, hopen, hnode, hready, hrunning⟩
    refine ⟨hknown, hopen, fun hu => ?_⟩
    have hflight : id ∈ p.plan.ready ∨ id ∈ p.plan.running := by
      refine (h.plan.frontier id hu).mpr ⟨?_, fun d hd => ?_⟩
      · rwa [h.settled, not_or] at hopen
      · exact absurd (snd_mem_nodes (h.edges ▸ hd)) hnode
    exact hflight.elim hready hrunning
  · rintro ⟨hknown, hopen, hu⟩
    exact ⟨hknown, hopen, fun hn => hu (h.nodes_universe hn), fun hr => hu (h.plan.within id (.inl hr)),
      fun hr => hu (h.plan.within id (.inr hr))⟩

theorem released_live {p : DagPolicy} {id : MoleculeId} {late : MoleculeId → Prop} :
    (∀ d, (d, id) ∈ liveEdges p → d ∈ p.completed ∨ late d) ↔
      ∀ d, (d, id) ∈ p.edges → d ∈ p.completed ∨ late d := by
  constructor
  · intro h d hd
    by_cases hc : d ∈ p.completed
    · exact .inl hc
    · exact h d (mem_liveEdges.mpr ⟨hd, fun hboth => hc hboth.1⟩)
  · exact fun h d hd => h d (mem_liveEdges.mp hd).1

/-- The two plans surface the same molecule where nothing about it depends on the dropped edges. -/
theorem surfaced_iff {u : Finset MoleculeId} {p q : DagPolicy} (h : Coherent u p)
    (hedges : q.edges = liveEdges p) (hknown : q.knownMolecules = p.knownMolecules)
    (hcompleted : q.completed = p.completed) {ts : List (MoleculeId × List MoleculeLink)}
    (hts : ∀ t ∈ ts, t.1 ∈ p.knownMolecules) (id : MoleculeId) :
    (Surfaced p.knownMolecules q ts id ↔ Surfaced u p ts id) ↔
      (id ∉ p.knownMolecules → (id ∈ splices p.edges ts ↔ id ∈ splices (liveEdges p) ts)) ∧
      (LeftBehind p id → id ∉ ts.map Prod.fst → splices p.edges ts ≠ []) := by
  have hq : Surfaced p.knownMolecules q ts id ↔ (id ∈ p.knownMolecules ∨ id ∈ splices (liveEdges p) ts) ∧
      ¬(id ∈ p.completed ∨ id ∈ ts.map Prod.fst) ∧
      ∀ d, (d, id) ∈ p.edges → d ∈ p.completed ∨ d ∈ ts.map Prod.fst := by
    constructor
    · rintro ⟨hplanned, hopen, hreleased⟩
      rw [hedges, hknown] at hplanned
      rw [hcompleted] at hopen
      rw [hedges, hcompleted] at hreleased
      exact ⟨hplanned.elim .inl And.right, hopen, released_live.mp hreleased⟩
    · rintro ⟨hplanned, hopen, hreleased⟩
      refine ⟨?_, by rwa [hcompleted], by rw [hedges, hcompleted]; exact released_live.mpr hreleased⟩
      rw [hedges, hknown]
      exact hplanned.imp_right fun hs => ⟨List.ne_nil_of_mem hs, .inr hs⟩
  have hp : Surfaced u p ts id ↔ (id ∈ u ∨ splices p.edges ts ≠ [] ∧
        (id ∈ p.knownMolecules ∨ id ∈ splices p.edges ts)) ∧
      ¬(id ∈ p.completed ∨ id ∈ ts.map Prod.fst) ∧
      ∀ d, (d, id) ∈ p.edges → d ∈ p.completed ∨ d ∈ ts.map Prod.fst :=
    ⟨fun hs => ⟨hs.1, hs.2, hs.3⟩, fun hs => ⟨hs.1, hs.2.1, hs.2.2⟩⟩
  -- what is outside the universe of the plan waits for nothing
  have hfree : id ∉ u → ∀ d, (d, id) ∈ p.edges → d ∈ p.completed ∨ d ∈ ts.map Prod.fst :=
    fun hu d hd => absurd (h.nodes_universe (snd_mem_nodes hd)) hu
  rw [hq, hp, leftBehind_iff h]
  by_cases hid : id ∈ p.knownMolecules
  · simp only [hid, true_or, and_true, true_and, not_true_eq_false, false_implies]
    constructor
    · rintro heq ⟨hopen, hu⟩ hlate
      exact ((heq.mp ⟨not_or.mpr ⟨hopen, hlate⟩, hfree hu⟩).1).resolve_left hu
    · intro hsafe
      refine ⟨fun hr => ⟨?_, hr⟩, And.right⟩
      by_cases hu : id ∈ u
      · exact .inl hu
      · exact .inr (hsafe ⟨fun hc => hr.1 (.inl hc), hu⟩ (fun ht => hr.1 (.inr ht)))
  · have hu : id ∉ u := fun hu => hid (h.within hu)
    have hwait : ¬(id ∈ p.completed ∨ id ∈ ts.map Prod.fst) ∧
        ∀ d, (d, id) ∈ p.edges → d ∈ p.completed ∨ d ∈ ts.map Prod.fst := by
      refine ⟨?_, hfree hu⟩
      rintro (hc | hlate)
      · exact hid (h.completed hc)
      · obtain ⟨t, ht, rfl⟩ := List.mem_map.mp hlate
        exact hid (hts t ht)
    rw [and_iff_left hwait, and_iff_left hwait]
    simp only [hid, hu, false_or, not_false_eq_true, true_implies, false_and, false_implies, and_true]
    constructor
    · intro heq
      exact ⟨fun hs => heq.mpr ⟨List.ne_nil_of_mem hs, hs⟩, fun hs => (heq.mp hs).2⟩
    · intro hsafe
      exact ⟨fun hs => ⟨List.ne_nil_of_mem (hsafe.mpr hs), hsafe.mpr hs⟩, fun hs => hsafe.mp hs.2⟩

/-- `gc` does not change what the next tick dispatches exactly when the compaction is safe. -/
theorem gc_emits_iff (p : DagPolicy) (hp : Reachable p) (hfree : p.limits = []) (snapshot : FleetSnapshot) :
    (∀ id, id ∈ evolved (p.gc.nextActions snapshot).2 ↔ id ∈ evolved (p.nextActions snapshot).2) ↔
      CompactionSafe p snapshot := by
  obtain ⟨u, h⟩ := hp.coherent
  obtain ⟨plan, hgc, hgcd⟩ := gc_coherent h.toTracked
  have hterminal : DagPolicy.newlyTerminal { p with edges := liveEdges p, plan := plan } snapshot =
      p.newlyTerminal snapshot := rfl
  have hboth : ∀ id, (id ∈ evolved (p.gc.nextActions snapshot).2 ↔ id ∈ evolved (p.nextActions snapshot).2) ↔
      (id ∈ computeFromMolecules snapshot.molecules →
        (Surfaced p.knownMolecules { p with edges := liveEdges p, plan := plan } (p.newlyTerminal snapshot) id ↔
          Surfaced u p (p.newlyTerminal snapshot) id)) := by
    intro id
    rw [hgc, emitted_iff hgcd hfree, emitted_iff h hfree, hterminal]
    exact and_congr_left_iff
  have hpoint := surfaced_iff (q := { p with edges := liveEdges p, plan := plan }) h rfl rfl rfl
    (newlyTerminal_known p snapshot)
  simp only [hboth, hpoint, CompactionSafe]

/-- A policy for the chain `a`, `b`, `c` that has seen the first two complete. -/
def chainPolicy : DagPolicy :=
  (DagPolicy.new ⟨[("a", "b"), ("b", "c")], {"a"}, ∅, ∅, ∅⟩ [("a", "b"), ("b", "c")]).run
    [.nextActions ⟨[{ id := "a", status := .completed }, { id := "b", status := .completed }]⟩]

theorem chainPolicy_reachable : Reachable chainPolicy :=
  ⟨[("a", "b"), ("b", "c")], ∅, _, _, by decide +kernel, rfl⟩

def lateSplice : FleetSnapshot :=
  ⟨[{ id := "c", status := .completed, typedLinks := [.blocks "a", .blocks "d"] }, { id := "d" }]⟩

theorem gc_emits_chain :
    Reachable chainPolicy ∧ chainPolicy.limits = [] ∧
      ((∀ id, id ∈ evolved (chainPolicy.gc.nextActions lateSplice).2 ↔
          id ∈ evolved (chainPolicy.nextActions lateSplice).2) ↔ CompactionSafe chainPolicy lateSplice) :=
  ⟨chainPolicy_reachable, by decide +kernel,
    gc_emits_iff chainPolicy chainPolicy_reachable (by decide +kernel) lateSplice⟩

/-- The splice closes a cycle over the edge from `a` to `b` and is refused, unless that edge
has been dropped before. And a molecule that a failed refresh left behind is dispatched
only after the plan has been rebuilt. -/
theorem gc_emits_more :
    (Reachable chainPolicy ∧ chainPolicy.limits = [] ∧
      evolved (chainPolicy.nextActions lateSplice).2 = [] ∧
      evolved (chainPolicy.gc.nextActions lateSplice).2 = ["d"]) ∧
    evolved (((rootOnly.refreshScope mutualStore).1.nextActions
      ⟨[{ id := "a", status := .completed, mergedAt := some 0 },
        { id := "b", typedLinks := [.blockedBy "a"] }]⟩).2) = [] ∧
    evolved (((rootOnly.refreshScope mutualStore).1.gc.nextActions
      ⟨[{ id := "a", status := .completed, mergedAt := some 0 },
        { id := "b", typedLinks := [.blockedBy "a"] }]⟩).2) = ["b"] := by
  refine ⟨⟨chainPolicy_reachable, ?_, ?_, ?_⟩, ?_, ?_⟩ <;> decide +kernel

end Cosmon.Runtime.Compaction
