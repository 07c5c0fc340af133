import Cosmon.Filestore.HarvestOutcomes
import Mathlib.Data.List.Perm.Subperm

namespace Cosmon.Filestore.HarvestDoor

open Cosmon.Lib.Effects.Effect Cosmon.Lib.Runs Cosmon.State.Molecule Cosmon.Core.HarvestDoor

def HarvestedMolecule.owed (mol : HarvestedMolecule) : Bool :=
  mol.mergedAt.isNone && mol.nonIntegration.isSome && mol.status = .completed

def HarvestStore.owing (s : HarvestStore) : List MoleculeId :=
  (s.files.filter fun file => file.2.toOption.any HarvestedMolecule.owed).map Prod.fst

section Census

variable {s s' : HarvestStore} {id : MoleculeId} {mol : HarvestedMolecule}

theorem length_owing (s : HarvestStore) : s.unintegrated.length = s.owing.length := by
  have howed : s.unintegrated =
      (s.files.filterMap fun file => file.2.toOption).filter HarvestedMolecule.owed := by
    rw [HarvestStore.unintegrated, HarvestStore.list, List.filter_filter]
    rfl
  rw [howed, HarvestStore.owing, List.length_map, List.filter_filterMap, List.length_filterMap_eq_countP,
    List.countP_eq_length_filter]
  congr 2
  funext file
  cases hfile : file.2.toOption with
  | none => rfl
  | some mol => exact Option.isSome_filter

theorem nodup_owing (s : HarvestStore) : s.owing.Nodup := s.nodup.sublist (List.filter_sublist.map _)

theorem load_iff : s.load id = .ok mol ↔ (id, .ok mol) ∈ s.files := by
  have hfile : (id, .ok mol) ∈ s.files ↔ s.file id = some (id, .ok mol) := by
    rw [HarvestStore.file, Lib.Keyed.get_iff s.nodup, and_iff_left rfl]
  rw [hfile, HarvestStore.load]
  cases hget : s.file id with
  | none => refine iff_of_false ?_ ?_ <;> (intro hc; cases hc)
  | some file =>
    obtain ⟨key, content⟩ := file
    obtain rfl : key = id := (Lib.Keyed.get_mem hget).2
    cases content with
    | error reason => refine iff_of_false ?_ ?_ <;> (intro hc; cases hc)
    | ok current =>
      constructor
      · intro h
        cases h
        rfl
      · intro h
        cases h
        rfl

theorem mem_owing : id ∈ s.owing ↔ ∃ mol, s.load id = .ok mol ∧ mol.owed = true := by
  rw [HarvestStore.owing, List.mem_map]
  constructor
  · rintro ⟨⟨key, content⟩, hmem, rfl⟩
    obtain ⟨hmem, howed⟩ := List.mem_filter.mp hmem
    cases content with
    | error reason => cases howed
    | ok mol => exact ⟨mol, load_iff.mpr hmem, howed⟩
  · rintro ⟨mol, hload, howed⟩
    exact ⟨_, List.mem_filter.mpr ⟨load_iff.mp hload, howed⟩, rfl⟩

theorem length_owing_le (h : ∀ other, other ≠ id → s'.load other = s.load other) :
    s'.unintegrated.length ≤ s.unintegrated.length + 1 := by
  have hsubset : s'.owing ⊆ id :: s.owing := by
    intro other hother
    by_cases hsame : other = id
    · rw [hsame]
      exact List.mem_cons_self
    · obtain ⟨mol, hload, howed⟩ := mem_owing.mp hother
      exact List.mem_cons_of_mem _ (mem_owing.mpr ⟨mol, (h other hsame).symm.trans hload, howed⟩)
  rw [length_owing, length_owing]
  exact ((nodup_owing s').subperm hsubset).length_le

end Census

section Runs

variable {call : LandCall} {k : Kernel} {mol : HarvestedMolecule} {calls : List LandCall}

def Confined (call : LandCall) : Prop :=
  ∀ s other, other ≠ call.molecule →
    (call.effect.harvest s call.molecule call.options).1.load other = s.load other

def HarvestedMolecule.done (mol : HarvestedMolecule) : Bool := mol.mergedAt.isSome || mol.archived

/-- No molecule that the door answers as done already is counted by the census. -/
def Settled (k : Kernel) : Prop :=
  ∀ (call : LandCall) merged, (call.run k).1 = .ok (.alreadyLanded merged) →
    ∀ mol, k.store.load call.molecule = .ok mol → mol.owed = false

/-- A harvest that is carried out leaves no molecule that is done and counted. -/
def Closes (call : LandCall) (k : Kernel) : Prop :=
  call.Reaches k → ∀ mol, (call.harvested k).1.load call.molecule = .ok mol → mol.done = true → mol.owed = false

theorem done_of_alreadyLanded {merged : Bool} (h : (call.run k).1 = .ok (.alreadyLanded merged)) :
    ∃ mol, k.store.load call.molecule = .ok mol ∧ mol.done = true := by
  obtain ⟨⟨⟩, k₁, hoptions, hrest⟩ := bind_ok.mp (Prod.ext h rfl : call.run k = (_, (call.run k).2))
  obtain ⟨_, rfl⟩ := read_ok.mp hoptions
  obtain ⟨decision, k₂, hdecision, henact⟩ := bind_ok.mp hrest
  obtain ⟨hdecided, rfl⟩ := read_ok.mp hdecision
  cases decision with
  | alreadyLanded merged => exact done_of_decide hdecided
  | noOp => cases congrArg Prod.fst henact
  | proceed =>
    obtain ⟨result, k₃, _, hinterpret⟩ := bind_ok.mp henact
    obtain ⟨hinterpret, _⟩ := read_ok.mp hinterpret
    obtain ⟨_, _, ⟨⟨⟩, _⟩ | ⟨⟨⟩, _⟩ | ⟨⟨⟩⟩⟩ := interpret_landed hinterpret

def probe (molecule : MoleculeId) : LandCall where
  cfg := { required := true }
  molecule := molecule
  options := { reason := "done" }
  effect :=
    { bindsTrunkLock := true
      harvest := fun s _ _ => (s, .ok ()) }

theorem validate_done : ({ reason := "done" } : HarvestOptions).validate = .ok () := by decide

theorem settled_iff : Settled k ↔
    ∀ id mol, k.store.load id = .ok mol → mol.done = true → mol.owed = false := by
  constructor
  · intro h id mol hload hdone
    refine h (probe id) mol.mergedAt.isSome ?_ mol hload
    have hdecided : (probe id).decide k = (.ok (.alreadyLanded mol.mergedAt.isSome), k) :=
      read_ok.mpr ⟨decide_landed rfl hload rfl hdone, rfl⟩
    have hoptions : (probe id).checkOptions = .ok () := congrArg (Except.mapError _) validate_done
    have hrun : (probe id).run k = (.ok (.alreadyLanded mol.mergedAt.isSome), k) := by
      calc (probe id).run k = _ := bind_of_ok (read_ok.mpr ⟨hoptions, rfl⟩)
        _ = _ := bind_of_ok hdecided
        _ = _ := rfl
    rw [hrun]
  · intro h call merged hanswer mol hload
    obtain ⟨other, hother, hdone⟩ := done_of_alreadyLanded hanswer
    cases hload.symm.trans hother
    exact h _ mol hload hdone

theorem census_perform (hconfined : Confined call) :
    (perform k call).store.unintegrated.length ≤
      max k.store.unintegrated.length call.cfg.backlogCeiling := by
  by_cases hreaches : call.Reaches k
  · obtain ⟨mol, _, hadmits⟩ := decide_proceed hreaches.decision
    obtain ⟨backlog, hcensus, hroom⟩ := hadmits.room
    have hbacklog : backlog = k.store.unintegrated.length := by
      unfold unintegratedCensus at hcensus
      cases hlisting : call.env.listing with
      | error e =>
        rw [hlisting] at hcensus
        cases hcensus
      | ok u =>
        rw [hlisting] at hcensus
        cases hcensus
        rfl
    have hone : (perform k call).store.unintegrated.length ≤ k.store.unintegrated.length + 1 := by
      rw [perform, run_reached hreaches]
      exact length_owing_le (hconfined k.store)
    omega
  · rw [perform, (run_unreached hreaches).1]
    exact Nat.le_max_left _ _

theorem settled_perform (hconfined : Confined call) (hcloses : Closes call k) (h : Settled k) :
    Settled (perform k call) := by
  by_cases hreaches : call.Reaches k
  · rw [perform, run_reached hreaches]
    refine settled_iff.mpr fun id mol hload hdone => ?_
    by_cases hid : id = call.molecule
    · subst hid
      exact hcloses hreaches mol hload hdone
    · exact settled_iff.mp h id mol ((hconfined k.store id hid).symm.trans hload) hdone
  · rw [perform, (run_unreached hreaches).1]
    exact h

theorem closes_of_settled (h : Settled (perform k call)) : Closes call k := by
  intro hreaches mol hload hdone
  rw [perform, run_reached hreaches] at h
  exact settled_iff.mp h call.molecule mol hload hdone

/-- What the door promises of its backlog, over a run of calls. -/
structure Backlog (k : Kernel) (calls : List LandCall) : Prop where
  /-- No call lets the backlog grow past the ceiling. -/
  bounded : ∀ ceiling, (∀ call ∈ calls, call.cfg.backlogCeiling ≤ ceiling) → ∀ i j, i ≤ j →
    (stateAt perform k calls j).store.unintegrated.length ≤
      max (stateAt perform k calls i).store.unintegrated.length ceiling
  settled : ∀ n, Settled (stateAt perform k calls n)

/-- The backlog is bounded in every run. It holds what is done exactly when a harvest
leaves such a molecule behind, or the run starts from one. -/
theorem backlog_iff (k : Kernel) (calls : List LandCall) (hconfined : ∀ call ∈ calls, Confined call) :
    Backlog k calls ↔
      Settled k ∧ ∀ n call, calls[n]? = some call → Closes call (stateAt perform k calls n) := by
  constructor
  · intro h
    refine ⟨h.settled 0, fun n call hcall => closes_of_settled ?_⟩
    rw [← stateAt_succ perform hcall]
    exact h.settled (n + 1)
  · rintro ⟨hstart, hcloses⟩
    constructor
    · intro ceiling hceiling i j hij
      refine stateAt_preserves (P := fun s => s.store.unintegrated.length ≤
        max (stateAt perform k calls i).store.unintegrated.length ceiling) k (fun n call hcall hn => ?_) hij
        (Nat.le_max_left _ _)
      have hmem := List.mem_of_getElem? hcall
      have hstep := census_perform (k := stateAt perform k calls n) (hconfined call hmem)
      have hbound := hceiling call hmem
      omega
    · intro n
      refine stateAt_preserves (P := Settled) k (fun m call hcall hm => ?_) (Nat.zero_le n) hstart
      exact settled_perform (hconfined call (List.mem_of_getElem? hcall)) (hcloses m call hcall) hm

end Runs

section Drained

def HarvestStore.put (s : HarvestStore) (id : MoleculeId) (mol : HarvestedMolecule) : HarvestStore where
  files := Lib.Keyed.set Prod.fst (id, .ok mol) s.files
  nodup := by
    rw [Lib.Keyed.keys_set]
    exact s.nodup

theorem load_put_of_ne {s : HarvestStore} {id other : MoleculeId} (h : other ≠ id) (mol : HarvestedMolecule) :
    (s.put id mol).load other = s.load other := by
  have hfile : (s.put id mol).file other = s.file other := Lib.Keyed.get_set_of_ne (Ne.symm h) s.files
  rw [HarvestStore.load, HarvestStore.load, hfile]

def finished : HarvestedMolecule where
  id := "task-20260101-0001"
  status := .completed

def finishedKernel : Kernel where
  store := { files := [("task-20260101-0001", .ok finished)], nodup := List.nodup_singleton _ }

def harvestInto (mol : HarvestedMolecule) : LandCall where
  cfg := { required := true }
  molecule := "task-20260101-0001"
  options := { reason := "done" }
  effect :=
    { bindsTrunkLock := true
      harvest := fun s id _ => (s.put id mol, .ok ()) }

theorem harvestInto_confined (mol : HarvestedMolecule) : Confined (harvestInto mol) :=
  fun _ _ hother => load_put_of_ne hother mol

theorem harvestInto_reaches (mol : HarvestedMolecule) : (harvestInto mol).Reaches finishedKernel where
  options := congrArg (Except.mapError _) validate_done
  decision := by
    have hload : finishedKernel.store.load "task-20260101-0001" = .ok finished := rfl
    apply decide_admitted hload rfl rfl
    have hroom : 0 < DEFAULT_BACKLOG_CEILING := by decide
    exact ⟨rfl, rfl, rfl, fun tag htag => absurd htag (Finset.notMem_empty tag), 0, rfl, hroom⟩
  lock := Or.inl rfl

theorem finished_settled : Settled finishedKernel := by
  refine settled_iff.mpr fun id mol hload _ => ?_
  obtain ⟨_, ⟨⟩⟩ | ⟨⟨⟩⟩ := List.mem_cons.mp (load_iff.mp hload)
  rfl

/-- A harvest that merges. -/
theorem merged_backlog : Backlog finishedKernel [harvestInto { finished with mergedAt := some 1 }] := by
  refine (backlog_iff _ _ ?_).mpr ⟨finished_settled, ?_⟩
  · intro call hcall
    cases List.mem_singleton.mp hcall
    exact harvestInto_confined _
  · rintro (_ | n) call hcall
    · cases hcall
      rintro _ mol hload _
      cases hload
      rfl
    · cases hcall

/-- A molecule without a branch is closed, and is counted from then on. -/
theorem closed_not_backlog : ¬Backlog finishedKernel [harvestInto { finished with
    archived := true, nonIntegration := some { reason := .noBranch, observed := 1 } }] := by
  intro h
  have hsettled := closes_of_settled (h.settled 1) (harvestInto_reaches _) _ rfl rfl
  cases hsettled

end Drained

end Cosmon.Filestore.HarvestDoor
