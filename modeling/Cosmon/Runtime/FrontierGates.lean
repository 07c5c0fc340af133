import Cosmon.Filestore.Listing
import Cosmon.Lib.Text
import Cosmon.Runtime.DagDispatch
import Cosmon.Runtime.Resident

namespace Cosmon.Runtime.FrontierGates

open Cosmon.State.Molecule Cosmon.State.Frontier Cosmon.Runtime.Resident

def trim (s : String) : String := String.ofList (Lib.Text.trim s.toList)

section Projection

-- How `chrono` prints an instant; the scheduler reads its presence only.
variable (rfc3339 : Instant → String)

/-- One molecule as `cs ensemble --json` prints it and the resident loop reads
it back. -/
def moleculeState (m : MoleculeData) : EnsembleMolecule where
  id := m.id
  status := m.status.asStr
  kind := m.kind.map MoleculeKind.asStr
  tags := Cosmon.Lib.Enumerate.enumerate m.tags
  blockedBy := m.blockedBy.mergeSort (fun a b => a ≤ b)
  mergedAt := m.mergedAt.map rfc3339
  stuckAt := m.stuckAt.map rfc3339
  freezeOnLastStep := m.freezeOnLastStep
  adapter := m.adapter <|> m.process.bind MoleculeProcess.adapterName
  dispatchedAdapter := m.process.bind MoleculeProcess.adapterName
  baseBranch := (m.baseBranch.map trim).filter (fun base => base ≠ "")

def buildMoleculeStates (molecules : List MoleculeData) : List EnsembleMolecule :=
  (molecules.map (moleculeState rfc3339)).mergeSort (fun a b => a.id ≤ b.id)

/-- An entry without an id is not read. -/
def ensembleSnapshot (molecules : List MoleculeData) : EnsembleSnapshot :=
  ⟨(buildMoleculeStates rfc3339 molecules).filter (fun m => m.id ≠ "")⟩

end Projection

structure Fleet where
  molecules : List MoleculeData
  nodup : (molecules.map MoleculeData.id).Nodup
  named : ∀ m ∈ molecules, m.id ≠ ""

def HumanReserved (m : MoleculeData) : Prop :=
  "hold:human" ∈ m.tags ∨ m.kind = some .decision ∧ "auto:ok" ∉ m.tags

section Resident

variable {rfc3339 : Instant → String} {fleet : Fleet}

theorem mem_ensembleSnapshot {e : EnsembleMolecule} :
    e ∈ (ensembleSnapshot rfc3339 fleet.molecules).molecules ↔
      ∃ m ∈ fleet.molecules, moleculeState rfc3339 m = e := by
  simp only [ensembleSnapshot, buildMoleculeStates, List.mem_filter, List.mem_mergeSort, List.mem_map,
    decide_eq_true_eq]
  constructor
  · exact fun h => h.1
  · rintro ⟨m, hm, rfl⟩
    exact ⟨⟨m, hm, rfl⟩, fleet.named m hm⟩

theorem asStr_inj {a b : MoleculeStatus} (h : a.asStr = b.asStr) : a = b := by
  cases a <;> cases b <;> first | rfl | (revert h; decide)

theorem kind_asStr_decision {k : MoleculeKind} : k.asStr = "decision" ↔ k = .decision := by
  cases k <;> decide

theorem reservedForHuman_iff (rfc3339 : Instant → String) (m : MoleculeData) :
    reservedForHuman (moleculeState rfc3339 m) ↔ HumanReserved m := by
  have hkind : m.kind.map MoleculeKind.asStr = some "decision" ↔ m.kind = some .decision := by
    cases m.kind with
    | none => simp
    | some k => simp [kind_asStr_decision]
  simp [reservedForHuman, moleculeState, HumanReserved, hkind]

theorem blockersMet_iff (m : MoleculeData) :
    BlockersMet (ensembleSnapshot rfc3339 fleet.molecules) (moleculeState rfc3339 m) ↔
      BlockersLanded fleet.molecules m := by
  have hsome : ∀ b : MoleculeData, (moleculeState rfc3339 b).mergedAt.isSome = b.mergedAt.isSome := by
    intro b
    simp [moleculeState]
  constructor
  · intro h source hlink
    have hmem : source ∈ (moleculeState rfc3339 m).blockedBy := by
      simpa [moleculeState] using mem_blockedBy.mpr hlink
    obtain ⟨e, he, rfl, hstatus, hmerged⟩ := h source hmem
    obtain ⟨b, hb, rfl⟩ := mem_ensembleSnapshot.mp he
    exact ⟨b, byId_of_nodup fleet.nodup hb, asStr_inj (b := .completed) hstatus, hsome b ▸ hmerged⟩
  · intro h source hmem
    have hlink : .blockedBy source ∈ m.typedLinks := by
      rw [← mem_blockedBy]
      simpa [moleculeState] using hmem
    obtain ⟨b, hb, hstatus, hmerged⟩ := h source hlink
    obtain ⟨hbmem, hid⟩ := byId_some hb
    refine ⟨moleculeState rfc3339 b, mem_ensembleSnapshot.mpr ⟨b, hbmem, rfl⟩, hid, ?_, hsome b ▸ hmerged⟩
    simp [moleculeState, hstatus, MoleculeStatus.asStr]

theorem resident_tackles_iff {s : ReadyFrontierScheduler} (hs : s.tackled = ∅) {id : MoleculeId} :
    (∃ d ∈ (s.nextDecisions (ensembleSnapshot rfc3339 fleet.molecules)).2, d.tackles id) ↔
      ∃ m ∈ fleet.molecules, m.id = id ∧ m.status = .pending ∧ ¬HumanReserved m ∧
        BlockersLanded fleet.molecules m := by
  rw [fresh_tackles_iff hs]
  constructor
  · rintro ⟨⟨e, he, rfl, hpending, hreserved, hmet⟩, -⟩
    obtain ⟨m, hm, rfl⟩ := mem_ensembleSnapshot.mp he
    refine ⟨m, hm, rfl, asStr_inj (b := .pending) hpending, ?_, (blockersMet_iff m).mp hmet⟩
    rw [← reservedForHuman_iff rfc3339, hreserved]
    exact Bool.false_ne_true
  · rintro ⟨m, hm, rfl, hpending, hreserved, hlanded⟩
    refine ⟨⟨moleculeState rfc3339 m, mem_ensembleSnapshot.mpr ⟨m, hm, rfl⟩, rfl, ?_, ?_,
      (blockersMet_iff m).mpr hlanded⟩, fun e he hid => ?_⟩
    · simp [moleculeState, hpending, MoleculeStatus.asStr]
    · rw [← Bool.not_eq_true, reservedForHuman_iff]
      exact hreserved
    · obtain ⟨m', hm', rfl⟩ := mem_ensembleSnapshot.mp he
      have : m' = m := List.inj_on_of_nodup_map fleet.nodup hm' hm hid
      simp [this, moleculeState, hpending, MoleculeStatus.asStr]

def residentReady (rfc3339 : Instant → String) (s : ReadyFrontierScheduler)
    (molecules : List MoleculeData) : Set MoleculeId :=
  { id | ∃ d ∈ (s.nextDecisions (ensembleSnapshot rfc3339 molecules)).2, d.tackles id }

def frontierReady (molecules : List MoleculeData) : Set MoleculeId :=
  { id | id ∈ computeFromMolecules molecules ∧ ¬∃ m ∈ molecules, m.id = id ∧ HumanReserved m }

theorem mem_frontierReady {id : MoleculeId} :
    id ∈ frontierReady fleet.molecules ↔ ∃ m ∈ fleet.molecules, m.id = id ∧
      dispatchable fleet.molecules [] m ∧ ¬HumanReserved m := by
  constructor
  · rintro ⟨hmem, hreserved⟩
    obtain ⟨m, hm, rfl, hd⟩ := mem_computeFromMoleculesWithUnreadable.mp hmem
    exact ⟨m, hm, rfl, hd, fun h => hreserved ⟨m, hm, rfl, h⟩⟩
  · rintro ⟨m, hm, rfl, hd, hreserved⟩
    refine ⟨mem_computeFromMoleculesWithUnreadable.mpr ⟨m, hm, rfl, hd⟩, ?_⟩
    rintro ⟨m', hm', hid, hreserved'⟩
    exact hreserved (List.inj_on_of_nodup_map fleet.nodup hm' hm hid ▸ hreserved')

/-- The resident loop and the frontier agree on a fleet exactly when every
pending, unreserved molecule whose blockers have landed is unassigned and has
no parent in the way. -/
theorem resident_agrees_iff (rfc3339 : Instant → String) (fleet : Fleet)
    (adapter base : Option String) (harness : HarnessMap) :
    residentReady rfc3339 ⟨∅, ∅, adapter, base, harness⟩ fleet.molecules =
        frontierReady fleet.molecules ↔
      ∀ m ∈ fleet.molecules, m.status = .pending → ¬HumanReserved m → BlockersLanded fleet.molecules m →
        m.assignedWorker = none ∧ ∀ parent, .decayedFrom parent ∈ m.typedLinks →
          decayedParentCleared fleet.molecules [] parent := by
  rw [Set.ext_iff]
  constructor
  · intro h m hm hpending hreserved hlanded
    have htackled : m.id ∈ residentReady rfc3339 ⟨∅, ∅, adapter, base, harness⟩ fleet.molecules :=
      (resident_tackles_iff rfl).mpr ⟨m, hm, rfl, hpending, hreserved, hlanded⟩
    obtain ⟨m', hm', hid, hd, -⟩ := mem_frontierReady.mp ((h m.id).mp htackled)
    obtain rfl := List.inj_on_of_nodup_map fleet.nodup hm' hm hid
    obtain ⟨-, hfree, -, hparents⟩ := dispatchable_iff.mp hd
    exact ⟨hfree, hparents⟩
  · intro h id
    rw [mem_frontierReady]
    refine (resident_tackles_iff rfl).trans ⟨?_, ?_⟩
    · rintro ⟨m, hm, rfl, hpending, hreserved, hlanded⟩
      obtain ⟨hfree, hparents⟩ := h m hm hpending hreserved hlanded
      exact ⟨m, hm, rfl, dispatchable_iff.mpr ⟨hpending, hfree, hlanded, hparents⟩, hreserved⟩
    · rintro ⟨m, hm, rfl, hd, hreserved⟩
      obtain ⟨hpending, -, hlanded, -⟩ := dispatchable_iff.mp hd
      exact ⟨m, hm, rfl, hpending, hreserved, hlanded⟩

/-- A pending child whose `DecayedFrom` parent still runs. -/
def lineageFleet : Fleet where
  molecules := [{ id := "parent", status := .running },
    { id := "child", typedLinks := [.decayedFrom "parent"] }]
  nodup := by decide
  named := by decide

theorem resident_dispatches_early :
    "child" ∈ residentReady (fun _ => "") {} lineageFleet.molecules ∧
      "child" ∉ frontierReady lineageFleet.molecules := by
  constructor
  · refine (resident_tackles_iff rfl).mpr ⟨_, List.mem_cons_of_mem _ List.mem_cons_self, rfl, rfl, ?_, ?_⟩
    · simp [HumanReserved]
    · simp [BlockersLanded]
  · rintro ⟨hmem, -⟩
    revert hmem
    decide

end Resident

section Store

open Cosmon.Filestore.StateTree Cosmon.Runtime.DagScheduler Cosmon.Runtime.DagDispatch
open Cosmon.Graph.PlanReducer Cosmon.Runtime.CompilePlan Cosmon.Lib.Enumerate

/-- `FleetSnapshot::load` keeps the readable part of the listing. -/
def FleetSnapshot.load (root : String) (t : Tree) (scan : Scan) : FleetSnapshot :=
  ⟨listMolecules root t scan {}⟩

def unreadableIds (listing : MoleculeListing) : List String :=
  listing.unreadable.map UnreadableMolecule.id

/-- The `ready` set of `frontier::compute` for a store. -/
def compute (root : String) (t : Tree) (scan : Scan) : List MoleculeId :=
  let listing := listMoleculesReport root t scan {}
  computeFromMoleculesWithUnreadable listing.molecules (unreadableIds listing)

/-- Some policy, in some state that calls can bring it to, dispatches the
molecule from the snapshot. -/
def MayDispatch (snapshot : FleetSnapshot) (id : MoleculeId) : Prop :=
  ∃ (plan : Plan MoleculeId) (edges : List MoleculeEdge) (ops : List DagScheduler.Op),
    id ∈ evolved (((DagPolicy.new plan edges).run ops).nextActions snapshot).2

theorem markReady_ready {plan : Plan MoleculeId} {id i : MoleculeId} (h : id ∈ plan.ready) :
    id ∈ (plan.markReady i).ready := by
  rw [Plan.markReady]
  split
  · exact Finset.mem_insert_of_mem h
  · exact h

theorem markReady_running {plan : Plan MoleculeId} {id i : MoleculeId} (h : id ∈ plan.running) :
    id ∈ (plan.markReady i).ready ∧ i = id ∨ id ∈ (plan.markReady i).running ∧ i ≠ id := by
  rw [Plan.markReady]
  by_cases hi : i = id
  · subst hi
    rw [if_pos h]
    exact .inl ⟨Finset.mem_insert_self _ _, rfl⟩
  · split
    · exact .inr ⟨Finset.mem_erase.mpr ⟨Ne.symm hi, h⟩, hi⟩
    · exact .inr ⟨h, hi⟩

theorem selfHeal_ready {id : MoleculeId} (molecules : List MoleculeData) (p : DagPolicy)
    (h : id ∈ p.plan.ready ∨
      id ∈ p.plan.running ∧ ∃ m ∈ molecules, m.id = id ∧ m.status = .pending) :
    id ∈ (p.selfHeal ⟨molecules⟩).plan.ready := by
  induction molecules generalizing p with
  | nil =>
    rcases h with h | ⟨-, m, hm, -⟩
    · exact h
    · cases hm
  | cons m rest ih =>
    have hstep : p.selfHeal ⟨m :: rest⟩ = (if m.status = .pending then
      { p with plan := p.plan.markReady m.id } else p).selfHeal ⟨rest⟩ := rfl
    rw [hstep]
    apply ih
    split
    · rename_i hpending
      rcases h with h | ⟨hrunning, m', hm', hid, hpending'⟩
      · exact .inl (markReady_ready h)
      · rcases markReady_running hrunning with ⟨hready, -⟩ | ⟨hstill, hne⟩
        · exact .inl hready
        · refine .inr ⟨hstill, m', ?_, hid, hpending'⟩
          exact (List.mem_cons.mp hm').resolve_left (fun heq => hne (heq ▸ hid))
    · rename_i hnot
      rcases h with h | ⟨hrunning, m', hm', hid, hpending'⟩
      · exact .inl h
      · refine .inr ⟨hrunning, m', ?_, hid, hpending'⟩
        exact (List.mem_cons.mp hm').resolve_left (fun heq => hnot (heq ▸ hpending'))

theorem selfHeal_frame (molecules : List MoleculeData) (p : DagPolicy) :
    (p.selfHeal ⟨molecules⟩).knownMolecules = p.knownMolecules ∧
      (p.selfHeal ⟨molecules⟩).limits = p.limits := by
  induction molecules generalizing p with
  | nil => exact ⟨rfl, rfl⟩
  | cons m rest ih =>
    have hstep : p.selfHeal ⟨m :: rest⟩ = (if m.status = .pending then
      { p with plan := p.plan.markReady m.id } else p).selfHeal ⟨rest⟩ := rfl
    rw [hstep, (ih _).1, (ih _).2]
    split <;> exact ⟨rfl, rfl⟩

def runningPlan (id : MoleculeId) : Plan MoleculeId := ⟨[], ∅, {id}, ∅, ∅⟩

theorem mayDispatch_iff {snapshot : FleetSnapshot} {id : MoleculeId} :
    MayDispatch snapshot id ↔ id ∈ computeFromMolecules snapshot.molecules := by
  constructor
  · rintro ⟨plan, edges, ops, hid⟩
    let p := (DagPolicy.new plan edges).run ops
    have hperm := nextActions_batch p snapshot
    have hsub := (admitted_spec ((p.selfHeal snapshot).absorb snapshot) snapshot
      (((p.selfHeal snapshot).absorb snapshot).eligible snapshot)).1
    exact (eligible_spec _ snapshot).2 id (hsub.subset (hperm.mem_iff.mp hid))
  · intro hid
    obtain ⟨m, hm, rfl, hpending, -⟩ := mem_computeFromMolecules hid
    refine ⟨runningPlan m.id, [], [], ?_⟩
    let p := DagPolicy.new (runningPlan m.id) []
    have hready : m.id ∈ (p.selfHeal snapshot).plan.ready :=
      selfHeal_ready snapshot.molecules p (.inr ⟨Finset.mem_singleton_self _, m, hm, rfl, hpending⟩)
    have hknown : (p.selfHeal snapshot).knownMolecules = ∅ := (selfHeal_frame snapshot.molecules p).1
    have habsorb : (p.selfHeal snapshot).absorb snapshot = p.selfHeal snapshot := by
      have hnone : (p.selfHeal snapshot).newlyTerminal snapshot = [] := by
        rw [DagPolicy.newlyTerminal, hknown]
        rfl
      rw [DagPolicy.absorb, hnone]
      rfl
    apply (nextActions_batch p snapshot).mem_iff.mpr
    have hlimits : (p.selfHeal snapshot).limits = [] := (selfHeal_frame snapshot.molecules p).2
    rw [habsorb, DagPolicy.admitted, if_pos hlimits]
    simp only [DagPolicy.eligible, List.mem_insertionSort, List.mem_filter, mem_enumerate,
      decide_eq_true_eq]
    exact ⟨hready, hid⟩

/-- What the policy may dispatch from the loaded snapshot of a store is in the
frontier of the store exactly when every molecule that is ready with the
unreadable ones taken as absent has a ready record without an unreadable
parent. -/
theorem dispatch_within_frontier_iff (root : String) (t : Tree) (scan : Scan) :
    (∀ id, MayDispatch (FleetSnapshot.load root t scan) id → id ∈ compute root t scan) ↔
      ∀ m ∈ (listMoleculesReport root t scan {}).molecules,
        dispatchable (listMoleculesReport root t scan {}).molecules [] m →
        ∃ m' ∈ (listMoleculesReport root t scan {}).molecules, m'.id = m.id ∧
          dispatchable (listMoleculesReport root t scan {}).molecules [] m' ∧
          ∀ parent, .decayedFrom parent ∈ m'.typedLinks →
            parent ∉ unreadableIds (listMoleculesReport root t scan {}) := by
  have hload : ∀ id, MayDispatch (FleetSnapshot.load root t scan) id ↔
      ∃ m ∈ (listMoleculesReport root t scan {}).molecules, m.id = id ∧
        dispatchable (listMoleculesReport root t scan {}).molecules [] m :=
    fun id => mayDispatch_iff.trans mem_computeFromMoleculesWithUnreadable
  simp only [hload, compute, mem_computeFromMoleculesWithUnreadable]
  generalize (listMoleculesReport root t scan {}).molecules = molecules
  generalize unreadableIds (listMoleculesReport root t scan {}) = unreadable
  constructor
  · intro h m hm hd
    obtain ⟨m', hm', hid, hd'⟩ := h m.id ⟨m, hm, rfl, hd⟩
    obtain ⟨hready, hreadable⟩ := dispatchable_unreadable.mp hd'
    exact ⟨m', hm', hid, hready, hreadable⟩
  · rintro h id ⟨m, hm, rfl, hd⟩
    obtain ⟨m', hm', hid, hready, hreadable⟩ := h m hm hd
    exact ⟨m', hm', hid, dispatchable_unreadable.mpr ⟨hready, hreadable⟩⟩

def damagedChild : MoleculeData := { id := "child", typedLinks := [.decayedFrom "parent"] }

/-- A pending child of a molecule whose `state.json` does not parse. -/
def damagedTree : Tree where
  entry := fun d id =>
    if d = .fleet "default" ∧ id = "child" then .record damagedChild
    else if d = .fleet "default" ∧ id = "parent" then .unreadable "expected value at line 1"
    else .absent
  keyed := by
    intro d id m hm
    split at hm
    · rename_i h
      cases hm
      exact h.2.symm
    · split at hm <;> cases hm

def damagedScan : Scan := ⟨["default"], fun d => if d = .fleet "default" then ["child", "parent"] else []⟩

theorem damaged_listing : listMoleculesReport "" damagedTree damagedScan {} =
    ⟨[damagedChild], [⟨"parent", "/fleets/default/molecules/parent/state.json", "expected value at line 1"⟩]⟩ := by
  have hscan : damagedScan.dirs.foldl (scanMoleculesDir "" damagedTree damagedScan {}) {} =
      ⟨[damagedChild], [⟨"parent", "/fleets/default/molecules/parent/state.json", "expected value at line 1"⟩]⟩ :=
    rfl
  rw [listMoleculesReport, hscan]
  simp

theorem damagedTree_isDir (d : Filestore.Layout.Dir) (id : MoleculeId) :
    (damagedTree.entry d id).isDir ↔ d = .fleet "default" ∧ (id = "child" ∨ id = "parent") := by
  simp only [damagedTree]
  split
  · rename_i h
    simp [Entry.isDir, h]
  · rename_i hchild
    split
    · rename_i h
      simp [Entry.isDir, h]
    · rename_i hparent
      simp only [Entry.isDir, Bool.false_eq_true, false_iff, not_and, not_or]
      exact fun hd => ⟨fun hid => hchild ⟨hd, hid⟩, fun hid => hparent ⟨hd, hid⟩⟩

theorem damagedScan_reads : damagedScan.Reads damagedTree where
  fleets_nodup := by decide
  fleets_complete := by
    intro f id h
    have := ((damagedTree_isDir _ id).mp h).1
    simpa [damagedScan] using this
  names_nodup := by
    intro d
    simp only [damagedScan]
    split <;> simp
  mem_names := by
    intro d id
    rw [damagedTree_isDir]
    simp only [damagedScan]
    split <;> simp_all

/-- The child of the damaged molecule is dispatched, and not in the frontier. -/
theorem unreadable_parent_dispatched :
    damagedScan.Reads damagedTree ∧
      MayDispatch (FleetSnapshot.load "" damagedTree damagedScan) "child" ∧
      "child" ∉ compute "" damagedTree damagedScan := by
  refine ⟨damagedScan_reads, ?_, ?_⟩
  · rw [mayDispatch_iff, FleetSnapshot.load, listMolecules, damaged_listing]
    decide
  · rw [compute, damaged_listing]
    decide

end Store

end Cosmon.Runtime.FrontierGates
