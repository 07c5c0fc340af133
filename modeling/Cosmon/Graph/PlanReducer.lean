import Cosmon.Graph.Toposort
import Mathlib.Data.Finset.SDiff

namespace Cosmon.Graph.PlanReducer

open Cosmon.Lib.Enumerate Cosmon.Graph.Toposort

/-- A pure reducer that advances a DAG execution one transition at a time.
The ready frontier is iterated in ascending order through `enumerate`. -/
structure Plan (Id : Type) where
  edges : List (Id × Id)
  ready : Finset Id
  running : Finset Id
  done : Finset Id
  skipped : Finset Id
deriving DecidableEq

variable {Id : Type} [LinearOrder Id]

def depsOf (edges : List (Id × Id)) (step : Id) : List Id :=
  (edges.filter (fun e => e.2 = step)).map Prod.fst

def nodeUniverse (edges : List (Id × Id)) (roots : Finset Id) : Finset Id := roots ∪ nodes edges

def Plan.newWithRoots (edges : List (Id × Id)) (skip roots : Finset Id) :
    Except (CycleError Id) (Plan Id) :=
  match toposort edges with
  | .error e => .error e
  | .ok _ => .ok
    { edges := edges
      ready := (nodeUniverse edges roots).filter
        (fun node => node ∉ skip ∧ ∀ d ∈ depsOf edges node, d ∈ skip)
      running := ∅
      done := ∅
      skipped := skip }

/-- `Plan::new`: no standalone roots. -/
def Plan.new (edges : List (Id × Id)) (skip : Finset Id) : Except (CycleError Id) (Plan Id) :=
  Plan.newWithRoots edges skip ∅

def Plan.markRunning (p : Plan Id) (id : Id) : Plan Id :=
  if id ∈ p.ready then { p with ready := p.ready.erase id, running := insert id p.running } else p

def Plan.markReady (p : Plan Id) (id : Id) : Plan Id :=
  if id ∈ p.running then { p with running := p.running.erase id, ready := insert id p.ready } else p

/-- The dependents of `id` that a completed `id` releases, sorted. `p` is
the plan in which `id` is already done. -/
def Plan.released (p : Plan Id) (id : Id) : List Id :=
  let candidates := enumerate (dependents p.edges id).toFinset
  let newly := candidates.filter (fun step =>
    ¬(step ∈ p.done ∨ step ∈ p.running ∨ step ∈ p.skipped ∨ step ∈ p.ready) ∧
      ∀ d ∈ depsOf p.edges step, d ∈ p.done ∨ d ∈ p.skipped)
  newly.insertionSort (· ≤ ·)

def Plan.markDone (p : Plan Id) (id : Id) : Plan Id × List Id :=
  if id ∈ p.done ∨ id ∈ p.skipped then (p, [])
  else
    let p := { p with running := p.running.erase id, ready := p.ready.erase id, done := insert id p.done }
    let newlyReady := p.released id
    ({ p with ready := p.ready ∪ newlyReady.toFinset }, newlyReady)

def Plan.isDrained (p : Plan Id) : Bool := p.ready = ∅ ∧ p.running = ∅

inductive Call (Id : Type) where
  | running (id : Id)
  | ready (id : Id)
  | done (id : Id)
deriving DecidableEq

def Plan.apply (p : Plan Id) : Call Id → Plan Id
  | .running id => p.markRunning id
  | .ready id => p.markReady id
  | .done id => (p.markDone id).1

def Plan.run (p : Plan Id) (calls : List (Call Id)) : Plan Id := calls.foldl Plan.apply p

theorem mem_depsOf {edges : List (Id × Id)} {step d : Id} :
    d ∈ depsOf edges step ↔ (d, step) ∈ edges := by
  simp only [depsOf, List.mem_map, List.mem_filter, decide_eq_true_eq]
  constructor
  · rintro ⟨⟨a, b⟩, ⟨he, rfl⟩, rfl⟩
    exact he
  · intro h
    exact ⟨(d, step), ⟨h, rfl⟩, rfl⟩

theorem mem_released {p : Plan Id} {id n : Id} :
    n ∈ p.released id ↔ (id, n) ∈ p.edges ∧
      (n ∉ p.done ∧ n ∉ p.running ∧ n ∉ p.skipped ∧ n ∉ p.ready) ∧
      ∀ d, (d, n) ∈ p.edges → d ∈ p.done ∨ d ∈ p.skipped := by
  simp only [Plan.released, List.mem_insertionSort, List.mem_filter, mem_enumerate, List.mem_toFinset,
    mem_dependents, mem_depsOf, decide_eq_true_eq, not_or]

/-- All dependencies of `n` are finished or skipped. -/
def Plan.Unblocked (p : Plan Id) (n : Id) : Prop :=
  ∀ d, (d, n) ∈ p.edges → d ∈ p.done ∨ d ∈ p.skipped

/-- The loop invariant over a node universe `u`: the four sets are pairwise
disjoint, nothing outside `u` is in flight, and a node is in flight exactly when it is unfinished and unblocked. -/
structure Inv (u : Finset Id) (p : Plan Id) : Prop where
  closed : ∀ e ∈ p.edges, e.1 ∈ u ∧ e.2 ∈ u
  within : ∀ n, n ∈ p.ready ∨ n ∈ p.running → n ∈ u
  ready_running : Disjoint p.ready p.running
  ready_done : Disjoint p.ready p.done
  ready_skipped : Disjoint p.ready p.skipped
  running_done : Disjoint p.running p.done
  running_skipped : Disjoint p.running p.skipped
  done_skipped : Disjoint p.done p.skipped
  frontier : ∀ n ∈ u, (n ∈ p.ready ∨ n ∈ p.running) ↔
    (n ∉ p.done ∧ n ∉ p.skipped) ∧ p.Unblocked n

theorem newWithRoots_eq {edges : List (Id × Id)} {skip roots : Finset Id} {p : Plan Id}
    (h : Plan.newWithRoots edges skip roots = .ok p) :
    Acyclic edges ∧ p.edges = edges ∧ p.skipped = skip ∧ p.running = ∅ ∧ p.done = ∅ ∧
      ∀ n, n ∈ p.ready ↔ n ∈ nodeUniverse edges roots ∧ n ∉ skip ∧ ∀ d, (d, n) ∈ edges → d ∈ skip := by
  unfold Plan.newWithRoots at h
  split at h
  · cases h
  · next order ho =>
    cases h
    refine ⟨(toposort_ok_iff edges).mp ⟨order, ho⟩, rfl, rfl, rfl, rfl, fun n => ?_⟩
    simp only [Finset.mem_filter, mem_depsOf]

theorem newWithRoots_total {edges : List (Id × Id)} (h : Acyclic edges) (skip roots : Finset Id) :
    ∃ p, Plan.newWithRoots edges skip roots = .ok p := by
  obtain ⟨order, ho⟩ := (toposort_ok_iff edges).mpr h
  simp only [Plan.newWithRoots, ho]
  exact ⟨_, rfl⟩

theorem newWithRoots_inv {edges : List (Id × Id)} {skip roots : Finset Id} {p : Plan Id}
    (h : Plan.newWithRoots edges skip roots = .ok p) : Inv (nodeUniverse edges roots) p := by
  obtain ⟨-, he, hs, hr, hd, hready⟩ := newWithRoots_eq h
  refine ⟨?_, ?_, ?_, ?_, ?_, ?_, ?_, ?_, ?_⟩
  · intro e hm
    rw [he] at hm
    exact ⟨Finset.mem_union_right _ (fst_mem_nodes hm), Finset.mem_union_right _ (snd_mem_nodes hm)⟩
  · rintro n (hn | hn)
    · exact ((hready n).mp hn).1
    · simp [hr] at hn
  · rw [hr]
    exact Finset.disjoint_empty_right _
  · rw [hd]
    exact Finset.disjoint_empty_right _
  · rw [Finset.disjoint_left, hs]
    intro n hn
    exact ((hready n).mp hn).2.1
  · rw [hr]
    exact Finset.disjoint_empty_left _
  · rw [hr]
    exact Finset.disjoint_empty_left _
  · rw [hd]
    exact Finset.disjoint_empty_left _
  · intro n hn
    simp [Plan.Unblocked, he, hs, hr, hd, hready, hn]

theorem markRunning_inv {u : Finset Id} {p : Plan Id} (hp : Inv u p) (id : Id) :
    Inv u (p.markRunning id) := by
  unfold Plan.markRunning
  split
  · next hid =>
    have hd := Finset.disjoint_left.mp hp.ready_done hid
    have hs := Finset.disjoint_left.mp hp.ready_skipped hid
    refine ⟨hp.closed, ?_, ?_, hp.ready_done.mono_left (Finset.erase_subset _ _),
      hp.ready_skipped.mono_left (Finset.erase_subset _ _), ?_, ?_, hp.done_skipped, ?_⟩
    · rintro n (hn | hn)
      · exact hp.within n (.inl (Finset.mem_of_mem_erase hn))
      · rcases Finset.mem_insert.mp hn with rfl | hn
        · exact hp.within n (.inl hid)
        · exact hp.within n (.inr hn)
    · rw [Finset.disjoint_insert_right]
      exact ⟨Finset.notMem_erase _ _, hp.ready_running.mono_left (Finset.erase_subset _ _)⟩
    · exact Finset.disjoint_insert_left.mpr ⟨hd, hp.running_done⟩
    · exact Finset.disjoint_insert_left.mpr ⟨hs, hp.running_skipped⟩
    · intro n hn
      refine Iff.trans ?_ (hp.frontier n hn)
      by_cases h : n = id
      · subst h
        simp [hid]
      · simp [h]
  · exact hp

theorem markReady_inv {u : Finset Id} {p : Plan Id} (hp : Inv u p) (id : Id) :
    Inv u (p.markReady id) := by
  unfold Plan.markReady
  split
  · next hid =>
    have hd := Finset.disjoint_left.mp hp.running_done hid
    have hs := Finset.disjoint_left.mp hp.running_skipped hid
    refine ⟨hp.closed, ?_, ?_, ?_, ?_, hp.running_done.mono_left (Finset.erase_subset _ _),
      hp.running_skipped.mono_left (Finset.erase_subset _ _), hp.done_skipped, ?_⟩
    · rintro n (hn | hn)
      · rcases Finset.mem_insert.mp hn with rfl | hn
        · exact hp.within n (.inr hid)
        · exact hp.within n (.inl hn)
      · exact hp.within n (.inr (Finset.mem_of_mem_erase hn))
    · rw [Finset.disjoint_insert_left]
      exact ⟨Finset.notMem_erase _ _, hp.ready_running.mono_right (Finset.erase_subset _ _)⟩
    · exact Finset.disjoint_insert_left.mpr ⟨hd, hp.ready_done⟩
    · exact Finset.disjoint_insert_left.mpr ⟨hs, hp.ready_skipped⟩
    · intro n hn
      refine Iff.trans ?_ (hp.frontier n hn)
      by_cases h : n = id
      · subst h
        simp [hid]
      · simp [h]
  · exact hp

theorem markDone_fst {p : Plan Id} {id : Id} (hd : id ∉ p.done) (hs : id ∉ p.skipped) :
    (p.markDone id).1 =
      { p with
        running := p.running.erase id
        done := insert id p.done
        ready := p.ready.erase id ∪ (p.markDone id).2.toFinset } := by
  simp [Plan.markDone, hd, hs]

theorem mem_markDone_snd {p : Plan Id} {id n : Id} (hd : id ∉ p.done) (hs : id ∉ p.skipped) :
    n ∈ (p.markDone id).2 ↔ (id, n) ∈ p.edges ∧
      (n ∉ insert id p.done ∧ n ∉ p.running.erase id ∧ n ∉ p.skipped ∧ n ∉ p.ready.erase id) ∧
      ∀ d, (d, n) ∈ p.edges → d ∈ insert id p.done ∨ d ∈ p.skipped := by
  simp only [Plan.markDone, hd, hs, or_self, if_false, mem_released]

theorem markDone_noop {p : Plan Id} {id : Id} (h : id ∈ p.done ∨ id ∈ p.skipped) :
    p.markDone id = (p, []) := by
  simp [Plan.markDone, h]

/-- When `id` is done, what waited for it alone joins what is in flight. -/
theorem frontier_markDone {u : Finset Id} {p : Plan Id} (hp : Inv u p) {id n : Id} (hd : id ∉ p.done)
    (hs : id ∉ p.skipped) (hn : n ∈ u) (hid : n ≠ id) :
    ((n ∈ p.ready ∨ n ∈ (p.markDone id).2) ∨ n ∈ p.running) ↔
      (n ∉ p.done ∧ n ∉ p.skipped) ∧
        ∀ d, (d, n) ∈ p.edges → d ∈ insert id p.done ∨ d ∈ p.skipped := by
  have hf := hp.frontier n hn
  simp only [Plan.Unblocked] at hf
  have hflight : n ∈ p.ready ∨ n ∈ p.running → (n ∉ p.done ∧ n ∉ p.skipped) ∧
      ∀ d, (d, n) ∈ p.edges → d ∈ insert id p.done ∨ d ∈ p.skipped := by
    intro h
    obtain ⟨hopen, hdeps⟩ := hf.mp h
    exact ⟨hopen, fun d he => (hdeps d he).imp_left (Finset.mem_insert_of_mem)⟩
  simp only [mem_markDone_snd hd hs, Finset.mem_insert, Finset.mem_erase, hid, ne_eq, not_false_eq_true,
    true_and, false_or] at hflight ⊢
  constructor
  · rintro ((h | h) | h)
    · exact hflight (.inl h)
    · exact ⟨⟨h.2.1.1, h.2.1.2.2.1⟩, h.2.2⟩
    · exact hflight (.inr h)
  · rintro ⟨⟨h1, h2⟩, hdeps⟩
    by_cases hin : n ∈ p.ready ∨ n ∈ p.running
    · exact hin.imp_left .inl
    · -- `n` was blocked before, so `id` was its only open dependency
      obtain ⟨hnr, hnn⟩ := not_or.mp hin
      refine .inl (.inr ⟨?_, ⟨h1, hnn, h2, hnr⟩, hdeps⟩)
      by_contra hedge
      refine hin (hf.mpr ⟨⟨h1, h2⟩, fun d he => ?_⟩)
      rcases hdeps d he with (rfl | h) | h
      · exact absurd he hedge
      · exact .inl h
      · exact .inr h

theorem markDone_inv {u : Finset Id} {p : Plan Id} (hp : Inv u p) (id : Id) :
    Inv u (p.markDone id).1 := by
  by_cases hds : id ∈ p.done ∨ id ∈ p.skipped
  · rw [markDone_noop hds]
    exact hp
  · obtain ⟨hd, hs⟩ := not_or.mp hds
    have hnew := fun n => mem_markDone_snd (n := n) hd hs
    have hfrontier := fun n => frontier_markDone (n := n) hp hd hs
    rw [markDone_fst hd hs]
    generalize (p.markDone id).2 = newly at hnew hfrontier ⊢
    have hout : ∀ n ∈ newly, n ≠ id ∧ n ∉ p.done ∧ n ∉ p.running ∧ n ∉ p.skipped := by
      intro n hn
      obtain ⟨-, ⟨h1, h2, h3, -⟩, -⟩ := (hnew n).mp hn
      rw [Finset.mem_insert, not_or] at h1
      exact ⟨h1.1, h1.2, fun h => h2 (Finset.mem_erase.mpr ⟨h1.1, h⟩), h3⟩
    refine ⟨hp.closed, ?_, ?_, ?_, ?_, ?_, hp.running_skipped.mono_left (Finset.erase_subset _ _), ?_, ?_⟩
    · rintro n (hn | hn)
      · rcases Finset.mem_union.mp hn with hn | hn
        · exact hp.within n (.inl (Finset.mem_of_mem_erase hn))
        · exact (hp.closed (id, n) ((hnew n).mp (List.mem_toFinset.mp hn)).1).2
      · exact hp.within n (.inr (Finset.mem_of_mem_erase hn))
    · rw [Finset.disjoint_union_left]
      refine ⟨hp.ready_running.mono (Finset.erase_subset _ _) (Finset.erase_subset _ _), ?_⟩
      rw [Finset.disjoint_left]
      intro n hn hm
      exact (hout n (List.mem_toFinset.mp hn)).2.2.1 (Finset.mem_of_mem_erase hm)
    · rw [Finset.disjoint_union_left, Finset.disjoint_insert_right, Finset.disjoint_insert_right]
      refine ⟨⟨Finset.notMem_erase _ _, hp.ready_done.mono_left (Finset.erase_subset _ _)⟩, ?_, ?_⟩
      · intro hm
        exact (hout id (List.mem_toFinset.mp hm)).1 rfl
      · rw [Finset.disjoint_left]
        intro n hn
        exact (hout n (List.mem_toFinset.mp hn)).2.1
    · rw [Finset.disjoint_union_left]
      refine ⟨hp.ready_skipped.mono_left (Finset.erase_subset _ _), ?_⟩
      rw [Finset.disjoint_left]
      intro n hn
      exact (hout n (List.mem_toFinset.mp hn)).2.2.2
    · rw [Finset.disjoint_insert_right]
      exact ⟨Finset.notMem_erase _ _, hp.running_done.mono_left (Finset.erase_subset _ _)⟩
    · exact Finset.disjoint_insert_left.mpr ⟨hs, hp.done_skipped⟩
    · intro n hn
      by_cases hid : n = id
      · subst hid
        have hself : n ∉ newly := fun hm => (hout n hm).1 rfl
        simp [hself]
      · simpa [Plan.Unblocked, hid] using hfrontier n hn hid

theorem apply_inv {u : Finset Id} {p : Plan Id} (hp : Inv u p) (c : Call Id) : Inv u (p.apply c) := by
  cases c with
  | running id => exact markRunning_inv hp id
  | ready id => exact markReady_inv hp id
  | done id => exact markDone_inv hp id

theorem run_inv {u : Finset Id} {p : Plan Id} (hp : Inv u p) (calls : List (Call Id)) :
    Inv u (p.run calls) := by
  induction calls generalizing p with
  | nil => exact hp
  | cons c calls ih => exact ih (apply_inv hp c)

theorem apply_frame (p : Plan Id) (c : Call Id) :
    (p.apply c).edges = p.edges ∧ (p.apply c).skipped = p.skipped ∧ p.done ⊆ (p.apply c).done := by
  cases c with
  | running id =>
    simp only [Plan.apply, Plan.markRunning]
    split <;> exact ⟨rfl, rfl, Finset.Subset.refl _⟩
  | ready id =>
    simp only [Plan.apply, Plan.markReady]
    split <;> exact ⟨rfl, rfl, Finset.Subset.refl _⟩
  | done id =>
    simp only [Plan.apply, Plan.markDone]
    split
    · exact ⟨rfl, rfl, Finset.Subset.refl _⟩
    · exact ⟨rfl, rfl, Finset.subset_insert _ _⟩

theorem run_frame (p : Plan Id) (calls : List (Call Id)) :
    (p.run calls).edges = p.edges ∧ (p.run calls).skipped = p.skipped ∧
      p.done ⊆ (p.run calls).done := by
  induction calls generalizing p with
  | nil => exact ⟨rfl, rfl, Finset.Subset.refl _⟩
  | cons c calls ih =>
    obtain ⟨he, hs, hd⟩ := apply_frame p c
    obtain ⟨he', hs', hd'⟩ := ih (p.apply c)
    exact ⟨he'.trans he, hs'.trans hs, hd.trans hd'⟩

theorem run_append (p : Plan Id) (cs ds : List (Call Id)) : p.run (cs ++ ds) = (p.run cs).run ds :=
  List.foldl_append

end Cosmon.Graph.PlanReducer
