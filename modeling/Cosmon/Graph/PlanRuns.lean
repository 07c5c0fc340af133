import Cosmon.Graph.PlanReducer

namespace Cosmon.Graph.PlanRuns

open Cosmon.Graph.Toposort Cosmon.Graph.PlanReducer

variable {Id : Type} [LinearOrder Id]

/-- Whatever calls are made on a plan, with whatever ids, the four sets stay
disjoint, `skipped` is frozen, `done` only grows, and the nodes in flight are
exactly the unfinished ones whose dependencies are all satisfied. -/
theorem run_frontier (edges : List (Id × Id)) (skip roots : Finset Id) {p₀ : Plan Id}
    (h : Plan.newWithRoots edges skip roots = .ok p₀) (calls : List (Call Id)) :
    let p := p₀.run calls
    (Disjoint p.ready p.running ∧ Disjoint p.ready p.done ∧ Disjoint p.ready p.skipped ∧
      Disjoint p.running p.done ∧ Disjoint p.running p.skipped ∧ Disjoint p.done p.skipped) ∧
    p.skipped = skip ∧ (∀ more, p.done ⊆ (p₀.run (calls ++ more)).done) ∧
    ∀ n ∈ nodeUniverse edges roots, (n ∈ p.ready ∨ n ∈ p.running) ↔
      (n ∉ p.done ∧ n ∉ p.skipped) ∧ ∀ d, (d, n) ∈ edges → d ∈ p.done ∨ d ∈ p.skipped := by
  intro p
  have hp : Inv (nodeUniverse edges roots) p := run_inv (newWithRoots_inv h) calls
  obtain ⟨-, he, hs, -⟩ := newWithRoots_eq h
  obtain ⟨hpe, hps, -⟩ := run_frame p₀ calls
  refine ⟨⟨hp.ready_running, hp.ready_done, hp.ready_skipped, hp.running_done,
    hp.running_skipped, hp.done_skipped⟩, hps.trans hs, fun more => ?_, fun n hn => ?_⟩
  · rw [run_append]
    exact (run_frame p more).2.2
  · have hf := hp.frontier n hn
    simp only [Plan.Unblocked, p, hpe, he] at hf
    exact hf

theorem run_frontier_diamond :
    let p := ({ edges := [(1, 2), (1, 3), (2, 4), (3, 4)], ready := {1}, running := ∅, done := ∅,
                skipped := ∅ : Plan Nat }).run [.running 1, .done 2, .done 1, .done 7]
    (3 ∈ p.ready ∨ 3 ∈ p.running) ↔
      (3 ∉ p.done ∧ 3 ∉ p.skipped) ∧ ∀ d, (d, 3) ∈ p.edges → d ∈ p.done ∨ d ∈ p.skipped :=
  (run_frontier [(1, 2), (1, 3), (2, 4), (3, 4)] ∅ ∅ (by decide)
    [.running 1, .done 2, .done 1, .done 7]).2.2.2 3 (by decide)

/-- A drained plan over an acyclic edge list has nothing left to do: a node
of least rank among the unfinished ones would be in flight. -/
theorem drained_finished {u : Finset Id} {p : Plan Id} (hp : Inv u p) (ha : Acyclic p.edges)
    (hd : p.isDrained) : ∀ n ∈ u, n ∈ p.done ∨ n ∈ p.skipped := by
  obtain ⟨rank, hrank⟩ := ha
  simp only [Plan.isDrained, decide_eq_true_eq] at hd
  suffices h : ∀ r, ∀ n ∈ u, rank n = r → n ∈ p.done ∨ n ∈ p.skipped from
    fun n hn => h (rank n) n hn rfl
  intro r
  induction r using Nat.strong_induction_on with
  | h r ih =>
    rintro n hn rfl
    by_contra hnot
    have hflight := (hp.frontier n hn).mpr ⟨not_or.mp hnot, fun d he =>
      ih (rank d) (hrank (d, n) he) d (hp.closed (d, n) he).1 rfl⟩
    simp [hd.1, hd.2] at hflight

inductive Drain : Plan Id → List Id → Plan Id → Prop where
  | nil (p : Plan Id) : Drain p [] p
  | cons {p q : Plan Id} {id : Id} {ids : List Id} (hid : id ∈ p.ready ∨ id ∈ p.running)
      (rest : Drain (p.markDone id).1 ids q) : Drain p (id :: ids) q

theorem Drain.snoc {p q : Plan Id} {ids : List Id} (h : Drain p ids q) {id : Id}
    (hid : id ∈ q.ready ∨ id ∈ q.running) : Drain p (ids ++ [id]) (q.markDone id).1 := by
  induction h with
  | nil p => exact .cons hid (.nil _)
  | cons hm _ ih => exact .cons hm (ih hid)

omit [LinearOrder Id] in
theorem inFlight_fresh {u : Finset Id} {p : Plan Id} (hp : Inv u p) {id : Id}
    (hid : id ∈ p.ready ∨ id ∈ p.running) : id ∈ u ∧ id ∉ p.done ∧ id ∉ p.skipped := by
  refine ⟨hp.within id hid, ?_⟩
  rcases hid with h | h
  · exact ⟨Finset.disjoint_left.mp hp.ready_done h, Finset.disjoint_left.mp hp.ready_skipped h⟩
  · exact ⟨Finset.disjoint_left.mp hp.running_done h, Finset.disjoint_left.mp hp.running_skipped h⟩

theorem drain_spec {u : Finset Id} {p q : Plan Id} {ids : List Id} (hp : Inv u p)
    (h : Drain p ids q) :
    Inv u q ∧ q.edges = p.edges ∧ q.skipped = p.skipped ∧ q.done = p.done ∪ ids.toFinset ∧
      (∀ id ∈ ids, id ∈ u ∧ id ∉ p.skipped) ∧ ids.length ≤ (u \ p.done).card ∧
      (p.running = ∅ → q.running = ∅) := by
  induction h with
  | nil p => exact ⟨hp, rfl, rfl, by simp, by simp, by simp, fun h => h⟩
  | @cons p q id ids hid _ ih =>
    obtain ⟨hu, hd, hs⟩ := inFlight_fresh hp hid
    obtain ⟨hq, he, hsk, hdone, hids, hlen, hrun⟩ := ih (markDone_inv hp id)
    rw [markDone_fst hd hs] at he hsk hdone hids hlen hrun
    refine ⟨hq, he, hsk, ?_, ?_, ?_, fun hr => hrun (by simp [hr])⟩
    · rw [hdone, List.toFinset_cons, Finset.insert_union, Finset.union_insert]
    · intro a ha
      rcases List.mem_cons.mp ha with rfl | ha
      · exact ⟨hu, hs⟩
      · exact hids a ha
    · have hmem : id ∈ u \ p.done := Finset.mem_sdiff.mpr ⟨hu, hd⟩
      have hpos : 0 < (u \ p.done).card := Finset.card_pos.mpr ⟨id, hmem⟩
      simp only [Finset.sdiff_insert] at hlen
      rw [Finset.card_erase_of_mem hmem] at hlen
      rw [List.length_cons]
      omega

/-- No deadlock: a drained plan has finished its whole universe. Completing
nodes in flight always reaches a drained plan, in a bounded number of steps
and with the same final `done` set whatever the order; with nothing running
the nodes completed are the ready ones. -/
theorem drains (edges : List (Id × Id)) (skip roots : Finset Id) {p₀ : Plan Id}
    (h : Plan.newWithRoots edges skip roots = .ok p₀) (calls : List (Call Id)) :
    let p := p₀.run calls
    let u := nodeUniverse edges roots
    (p.isDrained → ∀ n ∈ u, n ∈ p.done ∨ n ∈ p.skipped) ∧
    ∀ ids q, Drain p ids q →
      ids.length ≤ (u \ p.done).card ∧
      (q.isDrained ∨ ∃ id, Drain p (ids ++ [id]) (q.markDone id).1) ∧
      (q.isDrained → (∀ n ∈ u, n ∉ skip → n ∈ q.done) ∧ q.done = p.done ∪ (u \ skip)) ∧
      (p.running = ∅ → q.running = ∅) := by
  intro p u
  have hp : Inv u p := run_inv (newWithRoots_inv h) calls
  obtain ⟨ha, he, hs, -⟩ := newWithRoots_eq h
  obtain ⟨hpe, hps, -⟩ := run_frame p₀ calls
  have hac : Acyclic p.edges := by rw [hpe, he]; exact ha
  refine ⟨drained_finished hp hac, fun ids q hq => ?_⟩
  obtain ⟨hqi, hqe, hqs, hqd, hids, hlen, hrun⟩ := drain_spec hp hq
  refine ⟨hlen, ?_, fun hd => ?_, hrun⟩
  · by_cases hd : q.isDrained
    · exact .inl hd
    · right
      simp only [Plan.isDrained, decide_eq_true_eq, not_and_or,
        ← Finset.nonempty_iff_ne_empty] at hd
      rcases hd with ⟨id, hid⟩ | ⟨id, hid⟩
      · exact ⟨id, hq.snoc (.inl hid)⟩
      · exact ⟨id, hq.snoc (.inr hid)⟩
  · have hfin := drained_finished hqi (by rw [hqe]; exact hac) hd
    rw [hqs, hps, hs] at hfin
    have hall : ∀ n ∈ u, n ∉ skip → n ∈ q.done := fun n hn hk => (hfin n hn).resolve_right hk
    refine ⟨hall, Finset.Subset.antisymm ?_ ?_⟩
    · rw [hqd]
      refine Finset.union_subset_union_right fun n hn => ?_
      obtain ⟨hnu, hns⟩ := hids n (List.mem_toFinset.mp hn)
      rw [hps, hs] at hns
      exact Finset.mem_sdiff.mpr ⟨hnu, hns⟩
    · refine Finset.union_subset (by rw [hqd]; exact Finset.subset_union_left) fun n hn => ?_
      obtain ⟨hnu, hns⟩ := Finset.mem_sdiff.mp hn
      exact hall n hnu hns

theorem drains_chain :
    let p : Plan Nat :=
      { edges := [(1, 2), (2, 3)], ready := {1, 3}, running := ∅, done := ∅, skipped := {2} }
    ∀ ids q, Drain (p.run [.done 1]) ids q → q.isDrained → 3 ∈ q.done :=
  fun ids q hq hd =>
    (((drains [(1, 2), (2, 3)] {2} ∅ (by decide) [.done 1]).2
      ids q hq).2.2.1 hd).1 3 (by decide) (by decide)

end Cosmon.Graph.PlanRuns
