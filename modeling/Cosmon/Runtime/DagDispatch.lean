import Cosmon.Runtime.DagScheduler

namespace Cosmon.Runtime.DagDispatch

open Cosmon.Lib.Enumerate Cosmon.Graph.Affinity Cosmon.Graph.Toposort Cosmon.Graph.PlanReducer
open Cosmon.Runtime.CompilePlan Cosmon.Runtime.DagScheduler
open Cosmon.State.Molecule Cosmon.State.Frontier

/-- The ids of the `Evolve` actions, in the order they were emitted. -/
def evolved (actions : List RuntimeAction) : List MoleculeId :=
  actions.filterMap fun action =>
    match action with
    | .evolve id _ => some id
    | _ => none

def runningOn (molecules : List MoleculeData) (key : StepKey) : Nat :=
  molecules.countP fun m => m.status = .running ∧ stepKey m = key

/-- The ids of a batch whose record sits on a step. -/
def batchOn (molecules : List MoleculeData) (batch : List MoleculeId) (key : StepKey) : Nat :=
  batch.countP fun id => (byId molecules id).any fun m => stepKey m = key

theorem runningPerKey_eq (molecules : List MoleculeData) (key : StepKey) :
    runningPerKey molecules key = runningOn molecules key := by
  suffices h : ∀ counts : StepKey → Nat, molecules.foldl
      (fun counts mol => if mol.status = .running
        then Function.update counts (stepKey mol) (counts (stepKey mol) + 1) else counts) counts key =
      counts key + runningOn molecules key by
    exact (h fun _ => 0).trans (Nat.zero_add _)
  induction molecules with
  | nil => exact fun counts => rfl
  | cons m molecules ih =>
    intro counts
    rw [List.foldl_cons, ih]
    simp only [runningOn, List.countP_cons]
    by_cases hr : m.status = .running
    · by_cases hk : stepKey m = key
      · subst hk
        simp [hr]
        omega
      · simp [hr, hk, Function.update_of_ne (Ne.symm hk)]
    · simp [hr]

/-- What the admission loop maintains: the counter of a step is what runs on
it plus what was admitted for it, and stays within the cap it started under. -/
structure Admission (limits : List (StepKey × Nat)) (molecules : List MoleculeData)
    (acc : (StepKey → Nat) × List MoleculeId) : Prop where
  counted : ∀ key cap, limits.lookup key = some cap →
    acc.1 key = runningOn molecules key + batchOn molecules acc.2 key
  capped : ∀ key cap, limits.lookup key = some cap → acc.1 key ≤ max cap (runningOn molecules key)

theorem batchOn_snoc (molecules : List MoleculeData) (batch : List MoleculeId) (id : MoleculeId)
    (key : StepKey) {m : MoleculeData} (h : byId molecules id = some m) :
    batchOn molecules (batch ++ [id]) key =
      batchOn molecules batch key + if stepKey m = key then 1 else 0 := by
  simp [batchOn, List.countP_append, List.countP_cons, h]

theorem admitOne_admission {limits : List (StepKey × Nat)} {molecules : List MoleculeData}
    {acc : (StepKey → Nat) × List MoleculeId} (h : Admission limits molecules acc) (id : MoleculeId) :
    Admission limits molecules (admitOne limits molecules acc id) := by
  unfold admitOne
  split
  · exact h
  · next m hm =>
    split
    · next hfree =>
      -- an uncapped step never shares its key with a capped one
      have hne : ∀ key cap, limits.lookup key = some cap → stepKey m ≠ key := by
        rintro key cap hcap rfl
        rw [hfree] at hcap
        cases hcap
      refine ⟨fun key cap hcap => ?_, h.capped⟩
      rw [batchOn_snoc molecules acc.2 id key hm, if_neg (hne key cap hcap)]
      exact h.counted key cap hcap
    · next cap hcap =>
      split
      · next hlt =>
        refine ⟨fun key c hc => ?_, fun key c hc => ?_⟩
        · rw [batchOn_snoc molecules acc.2 id key hm]
          have hcount := h.counted key c hc
          by_cases hk : stepKey m = key
          · subst hk
            simp only [Function.update_self, if_true]
            omega
          · simpa only [Function.update_of_ne (Ne.symm hk), if_neg hk, Nat.add_zero] using hcount
        · by_cases hk : stepKey m = key
          · subst hk
            rw [hcap] at hc
            cases hc
            simp only [Function.update_self]
            omega
          · simpa only [Function.update_of_ne (Ne.symm hk)] using h.capped key c hc
      · exact h

theorem admitOne_foldl {limits : List (StepKey × Nat)} {molecules : List MoleculeData}
    (ids : List MoleculeId) {acc : (StepKey → Nat) × List MoleculeId}
    (h : Admission limits molecules acc) :
    Admission limits molecules (ids.foldl (admitOne limits molecules) acc) ∧
      ∃ taken, (ids.foldl (admitOne limits molecules) acc).2 = acc.2 ++ taken ∧ taken.Sublist ids := by
  induction ids generalizing acc with
  | nil => exact ⟨h, [], by simp⟩
  | cons id ids ih =>
    obtain ⟨hinv, taken, heq, hsub⟩ := ih (admitOne_admission h id)
    refine ⟨hinv, ?_⟩
    rw [List.foldl_cons, heq]
    unfold admitOne
    split
    · exact ⟨taken, rfl, hsub.cons id⟩
    · split
      · exact ⟨id :: taken, by simp, hsub.cons_cons id⟩
      · split
        · exact ⟨id :: taken, by simp, hsub.cons_cons id⟩
        · exact ⟨taken, rfl, hsub.cons id⟩

theorem admitted_spec (p : DagPolicy) (snapshot : FleetSnapshot) (ids : List MoleculeId) :
    (p.admitted snapshot ids).Sublist ids ∧
      ∀ key cap, p.limits.lookup key = some cap →
        runningOn snapshot.molecules key + batchOn snapshot.molecules (p.admitted snapshot ids) key ≤
          max cap (runningOn snapshot.molecules key) := by
  unfold DagPolicy.admitted
  split
  · next hl =>
    refine ⟨.refl _, fun key cap h => ?_⟩
    rw [hl] at h
    cases h
  · have hstart : Admission p.limits snapshot.molecules (runningPerKey snapshot.molecules, []) := by
      refine ⟨fun key cap _ => ?_, fun key cap _ => ?_⟩
      · simp [runningPerKey_eq, batchOn]
      · simp [runningPerKey_eq]
    obtain ⟨hinv, taken, heq, hsub⟩ := admitOne_foldl ids hstart
    rw [List.nil_append] at heq
    refine ⟨by rw [heq]; exact hsub, fun key cap h => ?_⟩
    rw [← hinv.counted key cap h]
    exact hinv.capped key cap h

theorem eligible_spec (p : DagPolicy) (snapshot : FleetSnapshot) :
    (p.eligible snapshot).Nodup ∧
      ∀ id ∈ p.eligible snapshot, id ∈ computeFromMolecules snapshot.molecules := by
  refine ⟨?_, fun id h => ?_⟩
  · rw [DagPolicy.eligible, (List.perm_insertionSort _ _).nodup_iff]
    exact (enumerate_nodup _).filter _
  · simp only [DagPolicy.eligible, List.mem_insertionSort, List.mem_filter, decide_eq_true_eq] at h
    exact h.2

theorem affinityReorder_perm (p : DagPolicy) (ids : List MoleculeId) (molecules : List MoleculeData) :
    (p.affinityReorder ids molecules).2.Perm ids := by
  unfold DagPolicy.affinityReorder
  split
  · exact .refl _
  · exact affinityOrder_perm _ _ _

/-- The batch of one tick is a permutation of what the caps admitOne out of the
eligible ids of the policy that absorbed the snapshot. -/
theorem nextActions_batch (p : DagPolicy) (snapshot : FleetSnapshot) :
    let q := (p.selfHeal snapshot).absorb snapshot
    (evolved (p.nextActions snapshot).2).Perm (q.admitted snapshot (q.eligible snapshot)) := by
  intro q
  have hev : ∀ (batch : List MoleculeId) (evidence : String),
      evolved (batch.map fun id => .evolve id evidence) = batch := by
    intro batch evidence
    simp [evolved, List.filterMap_map]
  simp only [DagPolicy.nextActions, hev]
  exact affinityReorder_perm q _ _

theorem absorb_preserves {P : DagPolicy → Prop}
    (hplan : ∀ p plan, P p → P { p with plan := plan })
    (hterm : ∀ p id links, P p → P (p.absorbTerminal id links).1)
    (hflag : ∀ p, P p → P { p with needsRecompile := true }.rebuildPlan)
    {p : DagPolicy} (h : P p) (snapshot : FleetSnapshot) :
    P ((p.selfHeal snapshot).absorb snapshot) := by
  have hheal : ∀ (molecules : List MoleculeData) (p : DagPolicy), P p → P (molecules.foldl
      (fun p mol => if mol.status = .pending then { p with plan := p.plan.markReady mol.id } else p) p) := by
    intro molecules
    induction molecules with
    | nil => exact fun p hp => hp
    | cons m molecules ih =>
      intro p hp
      refine ih _ ?_
      dsimp only
      split
      · exact hplan p _ hp
      · exact hp
  have hfold : ∀ (ts : List (MoleculeId × List MoleculeLink)) (acc : DagPolicy × Bool), P acc.1 →
      P (ts.foldl (fun (acc : DagPolicy × Bool) t =>
        ((acc.1.absorbTerminal t.1 t.2).1, acc.2 || (acc.1.absorbTerminal t.1 t.2).2)) acc).1 := by
    intro ts
    induction ts with
    | nil => exact fun acc ha => ha
    | cons t ts ih => exact fun acc ha => ih _ (hterm _ _ _ ha)
  simp only [DagPolicy.absorb]
  split
  · exact hflag _ (hfold _ _ (hheal _ _ h))
  · exact hfold _ _ (hheal _ _ h)

theorem rebuildPlan_frame (p : DagPolicy) :
    p.rebuildPlan.limits = p.limits ∧ p.rebuildPlan.edges = p.edges := by
  unfold DagPolicy.rebuildPlan
  split <;> exact ⟨rfl, rfl⟩

theorem absorbTerminal_limits (p : DagPolicy) (id : MoleculeId) (links : List MoleculeLink) :
    (p.absorbTerminal id links).1.limits = p.limits := by
  simp only [DagPolicy.absorbTerminal]
  split
  · rfl
  · split <;> rfl

theorem absorb_limits (p : DagPolicy) (snapshot : FleetSnapshot) :
    ((p.selfHeal snapshot).absorb snapshot).limits = p.limits :=
  absorb_preserves (P := fun q => q.limits = p.limits) (fun _ _ h => h)
    (fun q id links h => (absorbTerminal_limits q id links).trans h)
    (fun _ h => (rebuildPlan_frame _).1.trans h) rfl snapshot

/-- Whatever calls built the policy and whatever the snapshot, a tick only
dispatches ids the snapshot itself clears: a pending record without a worker
whose blockers completed and merged. No id is dispatched twice, and no tick
takes a capped step above its cap, or above what already runs there. The
record is the one of the snapshot's index unless an id is listed twice. -/
theorem nextActions_safe (plan : Plan MoleculeId) (edges : List MoleculeEdge) (ops : List Op)
    (snapshot : FleetSnapshot) :
    let p := (DagPolicy.new plan edges).run ops
    let ids := evolved (p.nextActions snapshot).2
    (∀ id ∈ ids, ∃ m ∈ snapshot.molecules, m.id = id ∧ m.status = .pending ∧
      m.assignedWorker = none ∧ BlockersLanded snapshot.molecules m ∧
      ((snapshot.molecules.map MoleculeData.id).Nodup → byId snapshot.molecules id = some m)) ∧
    ids.Nodup ∧
    ∀ key cap, p.limits.lookup key = some cap →
      runningOn snapshot.molecules key + batchOn snapshot.molecules ids key ≤
        max cap (runningOn snapshot.molecules key) := by
  intro p ids
  have hperm := nextActions_batch p snapshot
  obtain ⟨hnd, hfront⟩ := eligible_spec ((p.selfHeal snapshot).absorb snapshot) snapshot
  obtain ⟨hsub, hcap⟩ := admitted_spec ((p.selfHeal snapshot).absorb snapshot) snapshot
    (((p.selfHeal snapshot).absorb snapshot).eligible snapshot)
  refine ⟨fun id hid => ?_, ?_, fun key cap h => ?_⟩
  · obtain ⟨m, hm, rfl, hs, hw, hb⟩ :=
      mem_computeFromMolecules (hfront id (hsub.subset (hperm.mem_iff.mp hid)))
    exact ⟨m, hm, rfl, hs, hw, hb, fun hnd => byId_of_nodup hnd hm⟩
  · exact hperm.nodup_iff.mpr (hnd.sublist hsub)
  · have hle := hcap key cap (by rw [absorb_limits]; exact h)
    have hcount : batchOn snapshot.molecules ids key = batchOn snapshot.molecules _ key :=
      hperm.countP_eq _
    rw [hcount]
    exact hle

theorem acyclic_of_subset {es fs : List MoleculeEdge} (h : Acyclic fs) (hs : ∀ e ∈ es, e ∈ fs) :
    Acyclic es := by
  obtain ⟨rank, hrank⟩ := h
  exact ⟨rank, fun e he => hrank e (hs e he)⟩

end Cosmon.Runtime.DagDispatch
