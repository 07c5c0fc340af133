import Cosmon.Filestore.HarvestDoor
import Cosmon.Lib.Runs

namespace Cosmon.Filestore.HarvestDoor

open Cosmon.Lib.Effects.Effect Cosmon.Lib.Runs Cosmon.State.Molecule Cosmon.Core.HarvestDoor

section Decide

variable {env : DoorEnv} {cfg : HarvestAuthorityConfig} {door : Door} {options : HarvestOptions}
  {s : HarvestStore} {molecule : MoleculeId} {mol : HarvestedMolecule}

/-- What has to hold of the galaxy, the molecule and the backlog before the effect. -/
structure Admits (env : DoorEnv) (cfg : HarvestAuthorityConfig) (door : Door) (s : HarvestStore)
    (mol : HarvestedMolecule) : Prop where
  armed : door.armed cfg = true
  unmerged : mol.mergedAt = none
  unarchived : mol.archived = false
  unreserved : ∀ tag ∈ mol.tags, ¬reserves tag
  room : ∃ backlog, unintegratedCensus env s = .ok backlog ∧ backlog < cfg.backlogCeiling

theorem checkArmed_ok : checkArmed cfg door = .ok () ↔ door.armed cfg = true := by
  unfold checkArmed
  split
  · rename_i harmed
    exact iff_of_true rfl harmed
  · rename_i harmed
    exact iff_of_false (fun hc => by cases hc) harmed

theorem checkReservation_ok : checkReservation mol = .ok () ↔ ∀ tag ∈ mol.tags, ¬reserves tag := by
  have hnone : reservationRequiringSeal (tagList mol.tags) = none ↔ ∀ tag ∈ mol.tags, ¬reserves tag := by
    simp only [reservationRequiringSeal_none, mem_tagList]
  rw [← hnone, checkReservation]
  split
  · rename_i hsome
    rw [hsome]
    refine iff_of_false ?_ ?_ <;> (intro hc; cases hc)
  · rename_i hfree
    exact iff_of_true rfl hfree

theorem checkBacklog_ok : checkBacklog env cfg s = .ok () ↔
    ∃ backlog, unintegratedCensus env s = .ok backlog ∧ backlog < cfg.backlogCeiling := by
  unfold checkBacklog
  cases hcensus : unintegratedCensus env s with
  | error e =>
    refine iff_of_false (fun hc => by cases hc) ?_
    rintro ⟨_, ⟨⟩, _⟩
  | ok backlog =>
    change (if cfg.backlogCeiling ≤ backlog then _ else Except.ok ()) = .ok () ↔ _
    split
    · rename_i hfull
      refine iff_of_false (fun hc => by cases hc) ?_
      rintro ⟨_, ⟨⟩, hroom⟩
      omega
    · rename_i hroom
      exact iff_of_true rfl ⟨backlog, rfl, not_le.mp hroom⟩

theorem decide_proceed (h : decideWithAuthority env cfg door options s molecule = .ok .proceed) :
    ∃ mol, s.load molecule = .ok mol ∧ Admits env cfg door s mol := by
  obtain ⟨⟨⟩, harmed, h⟩ := Lib.Checks.bind_ok h
  obtain ⟨mol, hload, h⟩ := Lib.Checks.bind_ok h
  obtain ⟨⟨⟩, _, h⟩ := Lib.Checks.bind_ok h
  split at h
  · cases h
  rename_i hopen
  split at h
  · cases h
  split at h
  · cases h
  obtain ⟨⟨⟩, hreserved, h⟩ := Lib.Checks.bind_ok h
  obtain ⟨⟨⟩, hbacklog, _⟩ := Lib.Checks.bind_ok h
  obtain ⟨hunmerged, hunarchived⟩ := Bool.or_eq_false_iff.mp (eq_false_of_ne_true hopen)
  exact ⟨mol, Lib.Checks.mapError_ok hload, checkArmed_ok.mp harmed,
    Option.isNone_iff_eq_none.mp (Option.isSome_eq_false_iff.mp hunmerged), hunarchived,
    checkReservation_ok.mp hreserved, checkBacklog_ok.mp hbacklog⟩

theorem decide_admitted (hload : s.load molecule = .ok mol) (hjournal : door.checkJournal = .ok ())
    (hstatus : mol.status = .completed) (h : Admits env cfg door s mol) :
    decideWithAuthority env cfg door options s molecule = .ok .proceed := by
  have hopen : ¬(mol.mergedAt.isSome || mol.archived) = true := by
    rw [h.unmerged, h.unarchived]
    exact Bool.false_ne_true
  have hcompleted (flag : Bool) : ¬(flag && decide (mol.status ≠ .completed)) = true := by
    rw [hstatus, decide_eq_false (not_not.mpr rfl), Bool.and_false]
    exact Bool.false_ne_true
  unfold decideWithAuthority
  rw [checkArmed_ok.mpr h.armed, hload, hjournal]
  change (if mol.mergedAt.isSome || mol.archived then _ else if options.ifCompleted && mol.status ≠ .completed
    then _ else if !options.force && mol.status ≠ .completed then _ else _) = _
  rw [if_neg hopen, if_neg (hcompleted _), if_neg (hcompleted _), checkReservation_ok.mpr h.unreserved,
    checkBacklog_ok.mpr h.room]
  rfl

theorem decide_landed (harmed : door.armed cfg = true) (hload : s.load molecule = .ok mol)
    (hjournal : door.checkJournal = .ok ()) (hdone : mol.mergedAt.isSome || mol.archived) :
    decideWithAuthority env cfg door options s molecule = .ok (.alreadyLanded mol.mergedAt.isSome) := by
  unfold decideWithAuthority
  rw [checkArmed_ok.mpr harmed, hload, hjournal]
  exact if_pos hdone

theorem done_of_decide {merged : Bool}
    (h : decideWithAuthority env cfg door options s molecule = .ok (.alreadyLanded merged)) :
    ∃ mol, s.load molecule = .ok mol ∧ (mol.mergedAt.isSome || mol.archived) := by
  obtain ⟨⟨⟩, _, h⟩ := Lib.Checks.bind_ok h
  obtain ⟨mol, hload, h⟩ := Lib.Checks.bind_ok h
  obtain ⟨⟨⟩, _, h⟩ := Lib.Checks.bind_ok h
  refine ⟨mol, Lib.Checks.mapError_ok hload, ?_⟩
  split at h
  · rename_i hdone
    exact hdone
  split at h
  · cases h
  split at h
  · cases h
  obtain ⟨⟨⟩, _, h⟩ := Lib.Checks.bind_ok h
  obtain ⟨⟨⟩, _, h⟩ := Lib.Checks.bind_ok h
  cases h

end Decide

section Run

variable {call : LandCall} {k k' : Kernel}

def LandCall.harvested (call : LandCall) (k : Kernel) : HarvestStore × Except EffectFailure Unit :=
  call.effect.harvest k.store call.molecule call.options

/-- The checks pass, and the trunk lock is taken where the door has to take it. -/
structure LandCall.Reaches (call : LandCall) (k : Kernel) : Prop where
  options : call.checkOptions = .ok ()
  decision : decideWithAuthority call.env call.cfg call.door call.options k.store call.molecule = .ok .proceed
  lock : call.effect.bindsTrunkLock = true ∨ call.env.lock = .ok ()

theorem run_reached (h : call.Reaches k) : call.run k =
    (interpretEffect (call.harvested k).1 call.molecule call.options (call.harvested k).2,
      { store := (call.harvested k).1, harvests := k.harvests ++ [(call.molecule, call.options)] }) := by
  have heffect : runEffect call.env call.effect call.molecule call.options k = (.ok (call.harvested k).2,
      { store := (call.harvested k).1, harvests := k.harvests ++ [(call.molecule, call.options)] }) := by
    have hlock : (if call.effect.bindsTrunkLock then .ok () else call.env.lock.mapError LandError.fault) =
        .ok () := by
      obtain hbinds | hlock := h.lock
      · exact if_pos hbinds
      · rw [hlock]
        exact ite_self _
    exact bind_of_ok (read_ok.mpr ⟨hlock, rfl⟩)
  calc call.run k = _ := bind_of_ok (read_ok.mpr ⟨h.options, rfl⟩)
    _ = call.enact .proceed k := bind_of_ok (read_ok.mpr ⟨h.decision, rfl⟩)
    _ = _ := bind_of_ok heffect

def Preliminary : Except LandError DoorOutcome → Prop
  | .ok outcome => (∃ merged, outcome = .alreadyLanded merged) ∨ outcome = .noOp
  | .error _ => True

theorem run_unreached (h : ¬call.Reaches k) : (call.run k).2 = k ∧ Preliminary (call.run k).1 := by
  obtain ⟨⟨⟩, k₁, hoptions⟩ | ⟨e, k₁, hoptions⟩ := outcome (ofExcept call.checkOptions) k
  swap
  · obtain rfl : k = k₁ := congrArg Prod.snd hoptions
    rw [LandCall.run, bind_of_error hoptions]
    exact ⟨rfl, trivial⟩
  obtain ⟨hchecked, rfl⟩ := read_ok.mp hoptions
  have hrest : call.run k₁ = _ := bind_of_ok hoptions
  obtain ⟨decision, k₂, hdecision⟩ | ⟨e, k₂, hdecision⟩ := outcome call.decide k₁
  swap
  · obtain rfl : k₁ = k₂ := congrArg Prod.snd hdecision
    rw [hrest, bind_of_error hdecision]
    exact ⟨rfl, trivial⟩
  obtain ⟨hdecided, rfl⟩ := read_ok.mp hdecision
  rw [hrest, bind_of_ok hdecision]
  cases decision with
  | alreadyLanded merged => exact ⟨rfl, Or.inl ⟨merged, rfl⟩⟩
  | noOp => exact ⟨rfl, Or.inr rfl⟩
  | proceed =>
    cases hlock : call.env.lock with
    | ok u => exact absurd ⟨hchecked, hdecided, Or.inr hlock⟩ h
    | error e =>
      have hrefused : (if call.effect.bindsTrunkLock then .ok () else call.env.lock.mapError LandError.fault) =
          .error (.fault e) := by
        rw [if_neg fun hbinds => h ⟨hchecked, hdecided, Or.inl hbinds⟩, hlock]
        rfl
      have heffect : runEffect call.env call.effect call.molecule call.options k₂ = (.error (.fault e), k₂) :=
        bind_of_error (read_error hrefused)
      rw [LandCall.enact, bind_of_error heffect]
      exact ⟨rfl, trivial⟩

theorem asked_iff : (call.run k).2.harvests ≠ k.harvests ↔ call.Reaches k := by
  by_cases h : call.Reaches k
  · rw [run_reached h]
    refine iff_of_true (fun hc => ?_) h
    have hlength := congrArg List.length hc
    rw [List.length_append, List.length_singleton] at hlength
    omega
  · rw [(run_unreached h).1]
    exact iff_of_false (not_not.mpr rfl) h

theorem closureWithoutMerge_some {options : HarvestOptions} {after : HarvestedMolecule}
    {record : NonIntegration} {outcome : DoorOutcome}
    (h : closureWithoutMerge options after record = some outcome) :
    outcome = .closedWithoutMerge ∧ after.archived ∧ after.mergedAt = none := by
  unfold closureWithoutMerge at h
  split at h
  · cases h
  rename_i hclosed
  obtain ⟨harchived, hunmerged⟩ := Bool.or_eq_false_iff.mp (eq_false_of_ne_true hclosed)
  have houtcome : outcome = .closedWithoutMerge := by
    split at h
    · split at h <;> cases h
      rfl
    · cases h
      rfl
    all_goals cases h
  exact ⟨houtcome, (Bool.not_eq_false' _).mp harchived,
    Option.isNone_iff_eq_none.mp (Option.isSome_eq_false_iff.mp hunmerged)⟩

theorem interpretDone_ok {options : HarvestOptions} {after : HarvestedMolecule} {outcome : DoorOutcome}
    (h : interpretDone options after = .ok outcome) :
    (outcome = .landed ∧ after.mergedAt.isSome) ∨
      (outcome = .closedWithoutMerge ∧ after.archived ∧ after.mergedAt = none) ∨ outcome = .noOp := by
  unfold interpretDone at h
  split at h
  · split at h
    · cases h
      rename_i hmerged
      exact Or.inl ⟨rfl, hmerged⟩
    rename_i hunmerged
    split at h
    · cases h
      rename_i harchived
      exact Or.inr (Or.inl ⟨rfl, harchived, Option.not_isSome_iff_eq_none.mp hunmerged⟩)
    split at h
    · cases h
      exact Or.inr (Or.inr rfl)
    · cases h
  · split at h
    · cases h
      rename_i hclosure
      exact Or.inr (Or.inl (closureWithoutMerge_some hclosure))
    · cases h

theorem interpret_landed {s : HarvestStore} {molecule : MoleculeId} {options : HarvestOptions}
    {result : Except EffectFailure Unit} {outcome : DoorOutcome}
    (h : interpretEffect s molecule options result = .ok outcome) :
    ∃ after, s.load molecule = .ok after ∧ ((outcome = .landed ∧ after.mergedAt.isSome) ∨
      (outcome = .closedWithoutMerge ∧ after.archived ∧ after.mergedAt = none) ∨ outcome = .noOp) := by
  cases result with
  | error failure =>
    cases failure with
    | failed message =>
      unfold interpretEffect at h
      dsimp only at h
      split at h <;> cases h
    | _ => cases h
  | ok u =>
    obtain ⟨after, hload, h⟩ := Lib.Checks.bind_ok h
    exact ⟨after, Lib.Checks.mapError_ok hload, interpretDone_ok h⟩

def Unnamed (result : Except EffectFailure Unit) : Prop :=
  result = .ok () ∨ ∃ message, result = .error (.failed message)

theorem load_of_recorded {s : HarvestStore} {molecule : MoleculeId} {record : NonIntegration}
    (h : s.recorded molecule = some record) :
    ∃ mol, s.load molecule = .ok mol ∧ mol.nonIntegration = some record := by
  cases hload : s.load molecule with
  | error e =>
    rw [HarvestStore.recorded, hload] at h
    cases h
  | ok mol =>
    rw [HarvestStore.recorded, hload] at h
    exact ⟨mol, rfl, h⟩

theorem recorded_of_load {s : HarvestStore} {molecule : MoleculeId} {mol : HarvestedMolecule}
    (h : s.load molecule = .ok mol) : s.recorded molecule = mol.nonIntegration := by
  rw [HarvestStore.recorded, h]
  rfl

/-- The call answers with this closure, which its request asked for. -/
def SettledBy (call : LandCall) (k : Kernel) (record : NonIntegration) : Prop :=
  (call.harvested k).2 = .ok () ∧ ∃ after, (call.harvested k).1.load call.molecule = .ok after ∧
    (closureWithoutMerge call.options after record).isSome

/-- The refusal that an effect without a name of its own leads to is the one of the record
that it has left, unless that record settles the request. -/
theorem interpret_unnamed (hresult : Unnamed (call.harvested k).2) {record : NonIntegration}
    (hrecord : (call.harvested k).1.recorded call.molecule = some record) (hopen : ¬SettledBy call k record) :
    interpretEffect (call.harvested k).1 call.molecule call.options (call.harvested k).2 =
      .error (.refused (refusalFromRecord record)) := by
  obtain ⟨after, hload, hafter⟩ := load_of_recorded hrecord
  obtain hdone | ⟨message, hfailed⟩ := hresult
  · have hnone : closureWithoutMerge call.options after record = none := by
      by_contra hsome
      exact hopen ⟨hdone, after, hload, Option.isSome_iff_ne_none.mpr hsome⟩
    rw [hdone, interpretEffect, hload]
    change interpretDone call.options after = _
    rw [interpretDone, hafter]
    dsimp only
    rw [hnone]
  · rw [hfailed, interpretEffect, hrecord]

theorem refusalFromRecord_ne {detail : String} (record : NonIntegration) :
    DoorRefused.because .notCompleted detail ≠ refusalFromRecord record := by
  intro h
  have hname := congrArg DoorRefused.refusal h
  change DoorRefusal.notCompleted = record.reason.refusal at hname
  cases hreason : record.reason <;> (rw [hreason] at hname; cases hname)

theorem named_of_interpretDone {options : HarvestOptions} {after : HarvestedMolecule} {record : NonIntegration}
    (h : interpretDone options after = .error (.refused (refusalFromRecord record))) :
    ∃ written, after.nonIntegration = some written ∧ refusalFromRecord written = refusalFromRecord record ∧
      closureWithoutMerge options after written = none := by
  unfold interpretDone at h
  split at h
  · split at h
    · cases h
    split at h
    · cases h
    split at h
    · cases h
    · injection h with h
      injection h with h
      exact absurd h (refusalFromRecord_ne record)
  · rename_i written hwritten
    split at h
    · cases h
    rename_i hnone
    injection h with h
    injection h with h
    exact ⟨written, hwritten, h, hnone⟩

theorem named_of_interpret (hresult : Unnamed (call.harvested k).2) {record : NonIntegration}
    (h : interpretEffect (call.harvested k).1 call.molecule call.options (call.harvested k).2 =
      .error (.refused (refusalFromRecord record))) :
    ∃ written, (call.harvested k).1.recorded call.molecule = some written ∧
      refusalFromRecord written = refusalFromRecord record ∧ ¬SettledBy call k written := by
  obtain hdone | ⟨message, hfailed⟩ := hresult
  · rw [hdone, interpretEffect] at h
    cases hload : (call.harvested k).1.load call.molecule with
    | error e =>
      rw [hload] at h
      cases h
    | ok after =>
      rw [hload] at h
      obtain ⟨written, hwritten, hsame, hnone⟩ := named_of_interpretDone h
      refine ⟨written, (recorded_of_load hload).trans hwritten, hsame, ?_⟩
      rintro ⟨_, other, hother, hsome⟩
      cases hload.symm.trans hother
      rw [hnone] at hsome
      cases hsome
  · rw [hfailed, interpretEffect] at h
    split at h
    · rename_i written hwritten
      injection h with h
      injection h with h
      refine ⟨written, hwritten, h, ?_⟩
      rintro ⟨hdone, _⟩
      cases hfailed.symm.trans hdone
    · cases h

/-- The same request as far as the checks before the molecule is read go. -/
structure Repeats (call again : LandCall) : Prop where
  molecule : again.molecule = call.molecule
  options : again.checkOptions = call.checkOptions
  armed : again.door.armed again.cfg = call.door.armed call.cfg
  journal : again.door.checkJournal = call.door.checkJournal

def perform (k : Kernel) (call : LandCall) : Kernel := (call.run k).2

theorem reaches_checks (h : call.Reaches k) :
    call.checkOptions = .ok () ∧ call.door.armed call.cfg = true ∧ call.door.checkJournal = .ok () := by
  obtain ⟨⟨⟩, harmed, hrest⟩ := Lib.Checks.bind_ok h.decision
  obtain ⟨_, _, hrest⟩ := Lib.Checks.bind_ok hrest
  obtain ⟨⟨⟩, hjournal, _⟩ := Lib.Checks.bind_ok hrest
  exact ⟨h.options, checkArmed_ok.mp harmed, hjournal⟩

theorem repeated_of_done (hreaches : call.Reaches k) {mol : HarvestedMolecule}
    (hload : k'.store.load call.molecule = .ok mol) (hdone : mol.mergedAt.isSome || mol.archived)
    {again : List LandCall} (hagain : ∀ next ∈ again, Repeats call next) (n : Nat) (next : LandCall)
    (hnext : again[n]? = some next) : next.run (stateAt perform k' again n) =
      (.ok (.alreadyLanded mol.mergedAt.isSome), stateAt perform k' again n) := by
  obtain ⟨hoptions, harmed, hjournal⟩ := reaches_checks hreaches
  have hone (next : LandCall) (hmem : next ∈ again) :
      next.run k' = (.ok (.alreadyLanded mol.mergedAt.isSome), k') := by
    have hrepeats := hagain next hmem
    have hdecided : next.decide k' = (.ok (.alreadyLanded mol.mergedAt.isSome), k') := by
      have hload' : k'.store.load next.molecule = .ok mol := by
        rw [hrepeats.molecule]
        exact hload
      have harmed' := hrepeats.armed.trans harmed
      exact read_ok.mpr ⟨decide_landed harmed' hload' (hrepeats.journal.trans hjournal) hdone, rfl⟩
    calc next.run k' = _ := bind_of_ok (read_ok.mpr ⟨hrepeats.options.trans hoptions, rfl⟩)
      _ = _ := bind_of_ok hdecided
      _ = _ := rfl
  have hsame : stateAt perform k' again n = k' := by
    refine stateAt_preserves (P := fun s => s = k') k' (fun i op hop hs => ?_) (Nat.zero_le n) rfl
    rw [hs, perform, hone op (List.mem_of_getElem? hop)]
  rw [hsame]
  exact hone next (List.mem_of_getElem? hnext)

/-- What the door promises of a call. -/
structure Contract (call : LandCall) (k : Kernel) : Prop where
  admitted : (call.run k).2.harvests ≠ k.harvests → ∃ mol, k.store.load call.molecule = .ok mol ∧
    Admits call.env call.cfg call.door k.store mol
  landed : (call.run k).1 = .ok .landed → ∃ after, (call.run k).2.store.load call.molecule = .ok after ∧
    after.mergedAt.isSome
  closed : (call.run k).1 = .ok .closedWithoutMerge →
    ∃ after, (call.run k).2.store.load call.molecule = .ok after ∧ after.archived ∧ after.mergedAt = none
  /-- A refusal named after a record is named after one of this call. -/
  named : (call.run k).2.harvests ≠ k.harvests → Unnamed (call.harvested k).2 → ∀ record,
    (call.run k).1 = .error (.refused (refusalFromRecord record)) →
      ∃ written, (call.run k).2.store.recorded call.molecule = some written ∧
        refusalFromRecord written = refusalFromRecord record ∧ k.store.recorded call.molecule ≠ some written
  repeated : ∀ merged, (call.run k).1 = .ok (if merged then .landed else .closedWithoutMerge) →
    ∀ again, (∀ next ∈ again, Repeats call next) → ∀ n next, again[n]? = some next →
      next.run (stateAt perform (call.run k).2 again n) =
        (.ok (.alreadyLanded merged), stateAt perform (call.run k).2 again n)

/-- An effect that leaves an older record in place names its own refusal, or the record
settles the request. -/
def Renews (call : LandCall) (k : Kernel) : Prop :=
  call.Reaches k → Unnamed (call.harvested k).2 → ∀ record, k.store.recorded call.molecule = some record →
    (call.harvested k).1.recorded call.molecule = some record → SettledBy call k record

theorem renews_of_contract (h : Contract call k) : Renews call k := by
  intro hreaches hresult record hbefore hafter
  by_contra hopen
  have hnamed := h.named (asked_iff.mpr hreaches) hresult record
  rw [run_reached hreaches] at hnamed
  obtain ⟨written, hwritten, _, hfresh⟩ := hnamed (interpret_unnamed hresult hafter hopen)
  cases hafter.symm.trans hwritten
  exact hfresh hbefore

theorem landed_of_run {outcome : DoorOutcome} (hsuccess : ¬Preliminary (.ok outcome))
    (h : (call.run k).1 = .ok outcome) : call.Reaches k ∧
      ∃ after, (call.run k).2.store.load call.molecule = .ok after ∧
        ((outcome = .landed ∧ after.mergedAt.isSome) ∨
          (outcome = .closedWithoutMerge ∧ after.archived ∧ after.mergedAt = none)) := by
  by_cases hreaches : call.Reaches k
  · rw [run_reached hreaches] at h ⊢
    obtain ⟨after, hload, hlanded | hclosed | hnoOp⟩ := interpret_landed h
    · exact ⟨hreaches, after, hload, Or.inl hlanded⟩
    · exact ⟨hreaches, after, hload, Or.inr hclosed⟩
    · exact absurd (Or.inr hnoOp) hsuccess
  · have hpreliminary := (run_unreached hreaches).2
    rw [h] at hpreliminary
    exact absurd hpreliminary hsuccess

theorem landed_of_landed (h : (call.run k).1 = .ok .landed) : call.Reaches k ∧
    ∃ after, (call.run k).2.store.load call.molecule = .ok after ∧ after.mergedAt.isSome := by
  obtain ⟨hreaches, after, hload, ⟨_, hmerged⟩ | ⟨⟨⟩, _⟩⟩ := landed_of_run (by rintro (⟨_, ⟨⟩⟩ | ⟨⟨⟩⟩)) h
  exact ⟨hreaches, after, hload, hmerged⟩

theorem closed_of_closed (h : (call.run k).1 = .ok .closedWithoutMerge) : call.Reaches k ∧
    ∃ after, (call.run k).2.store.load call.molecule = .ok after ∧ after.archived ∧ after.mergedAt = none := by
  obtain ⟨hreaches, after, hload, ⟨⟨⟩, _⟩ | ⟨_, hclosed⟩⟩ := landed_of_run (by rintro (⟨_, ⟨⟩⟩ | ⟨⟨⟩⟩)) h
  exact ⟨hreaches, after, hload, hclosed⟩

/-- The door keeps its promises, save that it takes an older record for one of this call. -/
theorem contract_iff (call : LandCall) (k : Kernel) : Contract call k ↔ Renews call k := by
  constructor
  · exact renews_of_contract
  intro hrenews
  constructor
  · intro hasked
    exact decide_proceed (asked_iff.mp hasked).decision
  · intro h
    exact (landed_of_landed h).2
  · intro h
    exact (closed_of_closed h).2
  · intro hasked hresult record h
    have hreaches := asked_iff.mp hasked
    rw [run_reached hreaches] at h ⊢
    obtain ⟨written, hwritten, hsame, hopen⟩ := named_of_interpret hresult h
    exact ⟨written, hwritten, hsame, fun hbefore => hopen (hrenews hreaches hresult written hbefore hwritten)⟩
  · intro merged h again hagain n next hnext
    cases merged with
    | true =>
      obtain ⟨hreaches, after, hload, hmerged⟩ := landed_of_landed h
      rw [repeated_of_done hreaches hload (by rw [hmerged, Bool.true_or]) hagain n next hnext, hmerged]
    | false =>
      obtain ⟨hreaches, after, hload, harchived, hunmerged⟩ := closed_of_closed h
      rw [repeated_of_done hreaches hload (by rw [harchived, Bool.or_true]) hagain n next hnext, hunmerged]
      rfl

end Run

section Stale

def conflicted : HarvestedMolecule where
  id := "task-20260101-0001"
  status := .completed
  nonIntegration := some { reason := .conflict, observed := 1 }

def conflictedKernel : Kernel where
  store := { files := [("task-20260101-0001", .ok conflicted)], nodup := List.nodup_singleton _ }

def unstarted : LandCall where
  cfg := { required := true }
  molecule := "task-20260101-0001"
  options := { reason := "done" }
  effect :=
    { bindsTrunkLock := true
      harvest := fun s _ _ => (s, .error (.failed "cannot spawn cs")) }

theorem unstarted_reaches : unstarted.Reaches conflictedKernel where
  options := by decide
  decision := by
    have hload : conflictedKernel.store.load "task-20260101-0001" = .ok conflicted := rfl
    apply decide_admitted hload rfl rfl
    exact ⟨rfl, rfl, rfl, fun tag htag => absurd htag (Finset.notMem_empty tag), 1, rfl, by decide⟩
  lock := Or.inl rfl

theorem conflicted_not_contract : ¬Contract unstarted conflictedKernel := by
  intro h
  obtain ⟨hdone, _⟩ := renews_of_contract h unstarted_reaches (Or.inr ⟨_, rfl⟩) _ rfl rfl
  cases hdone

end Stale

end Cosmon.Filestore.HarvestDoor
