import Cosmon.Runtime.DispatchRuns

namespace Cosmon.Runtime.CommitUndo

open Cosmon.State.Molecule Cosmon.Runtime.DispatchLedger Cosmon.Runtime.DispatchRuns

section Fleets

variable {fleet : Fleet} {worker : WorkerId} {data : WorkerData}

theorem insert_remove : (fleet.insert worker data).remove worker = fleet.remove worker := by
  simp only [Fleet.insert, Fleet.remove, Function.update_idem]

theorem remove_eq_iff : fleet.remove worker = fleet ↔ fleet.workers worker = none := by
  constructor
  · intro h
    rw [← h]
    exact Function.update_self worker none fleet.workers
  · intro h
    rw [Fleet.remove, ← h, Function.update_eq_self]

theorem insert_eq_iff : fleet.insert worker data = fleet ↔ fleet.workers worker = some data := by
  constructor
  · intro h
    rw [← h]
    exact Function.update_self worker (some data) fleet.workers
  · intro h
    rw [Fleet.insert, ← h, Function.update_eq_self]

theorem remove_default : Fleet.default.remove worker = .default := remove_eq_iff.mpr rfl

theorem default_eq_iff : Fleet.default = fleet ↔ fleet.workers worker = none ∧ fleet = .default := by
  constructor
  · intro h
    rw [← h]
    exact ⟨rfl, rfl⟩
  · exact fun h => h.2.symm

theorem insert_default_eq_iff : Fleet.default.insert worker data = fleet ↔
    fleet.workers worker = some data ∧ fleet = Fleet.default.insert worker data := by
  constructor
  · intro h
    rw [← h]
    exact ⟨Function.update_self _ _ _, rfl⟩
  · exact fun h => h.2.symm

end Fleets

def tackleWorker (record : DispatchRecord) (mol : MoleculeData) (env : Env) : WorkerData :=
  { id := record.worker
    agentId := "tackle"
    role := mol.assignedRole.getD .implementation
    clearance := .write
    status := .active
    desired := .running
    repo := some record.repo
    currentMolecule := some mol.id
    updatedAt := env.registeredAt }

/-- The entry that reaches `fleet.json`: all of it, or without its runtime half, or
none. -/
def landed (record : DispatchRecord) (mol : MoleculeData) (env : Env) : Option WorkerData :=
  if env.saveFleet then some (tackleWorker record mol env)
  else env.halfFleet.map fun repo => { tackleWorker record mol env with repo := repo }

/-- The fleet after the registration wrote what it did. -/
def registeredFleet (s : Ledger) (record : DispatchRecord) (mol : MoleculeData) (env : Env) :
    Option Fleet :=
  match landed record mol env with
  | none => s.fleet
  | some data => some ((s.readFleet env.loadFleet).insert record.worker data)

theorem registerTackleWorker_fleet (s : Ledger) (record : DispatchRecord) (mol : MoleculeData)
    (env : Env) :
    (registerTackleWorker s record mol env).1.fleet = registeredFleet s record mol env := by
  unfold registerTackleWorker registeredFleet landed
  by_cases hsave : env.saveFleet = true
  · simp only [hsave, not_true_eq_false, if_false, if_true]
    split <;> rfl
  · simp only [hsave, not_false_eq_true, if_true, Bool.false_eq_true, if_false]
    cases env.halfFleet <;> rfl

theorem registerTackleWorker_error_iff (s : Ledger) (record : DispatchRecord) (mol : MoleculeData)
    (env : Env) :
    (∃ e, (registerTackleWorker s record mol env).2 = some e) ↔ ¬(env.saveFleet ∧ env.emit) := by
  unfold registerTackleWorker
  by_cases hsave : env.saveFleet = true
  · by_cases hemit : env.emit = true
    · simp [hsave, hemit]
    · simp [hsave, hemit]
  · simp only [hsave]
    cases env.halfFleet <;> simp

theorem undo_fleet (s : Ledger) (prior : MoleculeData) (worker : WorkerId) (env : Env) :
    (undoCommittedWrites s prior worker env).fleet =
      if env.undoFleet then some ((s.readFleet env.undoLoadFleet).remove worker) else s.fleet := by
  have hremove : (s.removeWorker worker env.undoLoadFleet env.undoFleet).fleet =
      if env.undoFleet then some ((s.readFleet env.undoLoadFleet).remove worker) else s.fleet := by
    unfold Ledger.removeWorker
    split <;> rfl
  unfold undoCommittedWrites
  dsimp only
  split
  · exact hremove
  · split
    · split
      · rename_i s' hs'
        rw [saveMolecule_eq hs']
        exact hremove
      · exact hremove
    · exact hremove

/-- The claim part of the undo reads and saves the record, or there was nothing to put
back. -/
def ClaimRestored (current : MoleculeData) (record : DispatchRecord) (env : Env) : Prop :=
  (env.undoLoad ∧ env.undoSave) ∨ claimOf (dispatched current record env) = claimOf current

/-- The fleet was readable with no entry under the worker id, and what was registered
is taken out again. Where nothing is taken out, nothing was written, or the entry that
was there once more. -/
def FleetRestored (fleet : Option Fleet) (record : DispatchRecord) (mol : MoleculeData) (env : Env) :
    Prop :=
  match landed record mol env, env.undoFleet with
  | none, false => True
  | none, true => ∃ f, fleet = some f ∧ f.workers record.worker = none ∧
      (env.undoLoadFleet ∨ f = .default)
  | some _, true => ∃ f, fleet = some f ∧ f.workers record.worker = none ∧
      ((env.loadFleet ∧ env.undoLoadFleet) ∨ f = .default)
  | some data, false => ∃ f, fleet = some f ∧ f.workers record.worker = some data ∧
      (env.loadFleet ∨ f = Fleet.default.insert record.worker data)

theorem readFleet_true {s : Ledger} {f : Fleet} (h : s.fleet = some f) : s.readFleet true = f := by
  rw [Ledger.readFleet, if_pos rfl, h, Option.getD_some]

theorem readFleet_false (s : Ledger) : s.readFleet false = .default := rfl

theorem undone_fleet_iff {s s' : Ledger} {record : DispatchRecord} {mol : MoleculeData} {env : Env}
    (prior : MoleculeData) (h : s'.fleet = registeredFleet s record mol env) :
    (undoCommittedWrites s' prior record.worker env).fleet = s.fleet ↔
      FleetRestored s.fleet record mol env := by
  rw [undo_fleet, FleetRestored]
  rw [registeredFleet] at h
  cases hlanded : landed record mol env with
  | none =>
    rw [hlanded] at h
    cases env.undoFleet with
    | false => simp only [Bool.false_eq_true, if_false, h]
    | true =>
      simp only [if_true]
      cases hfleet : s.fleet with
      | none => simp
      | some f =>
        have hfleet' : s'.fleet = some f := h.trans hfleet
        simp only [Option.some.injEq, exists_eq_left']
        cases env.undoLoadFleet with
        | true => simp only [readFleet_true hfleet', remove_eq_iff, true_or, and_true]
        | false =>
          simp only [readFleet_false, remove_default, Bool.false_eq_true, false_or]
          exact default_eq_iff
  | some data =>
    rw [hlanded] at h
    cases env.undoFleet with
    | true =>
      simp only [if_true]
      cases hfleet : s.fleet with
      | none => simp
      | some f =>
        simp only [Option.some.injEq, exists_eq_left']
        cases env.undoLoadFleet with
        | true =>
          rw [readFleet_true h, insert_remove]
          cases env.loadFleet with
          | true => simp only [readFleet_true hfleet, remove_eq_iff, and_self, true_or, and_true]
          | false =>
            simp only [readFleet_false, remove_default, Bool.false_eq_true, false_and, false_or]
            exact default_eq_iff
        | false =>
          simp only [readFleet_false, remove_default, Bool.false_eq_true, and_false, false_or]
          exact default_eq_iff
    | false =>
      simp only [Bool.false_eq_true, if_false, h]
      cases hfleet : s.fleet with
      | none => simp
      | some f =>
        simp only [Option.some.injEq, exists_eq_left']
        cases env.loadFleet with
        | true => simp only [readFleet_true hfleet, insert_eq_iff, true_or, and_true]
        | false =>
          simp only [readFleet_false, Bool.false_eq_true, false_or]
          exact insert_default_eq_iff

theorem refusesSave_dispatched (current : MoleculeData) (record : DispatchRecord) (env : Env) :
    refusesSave current (dispatched current record env) = false := by
  cases h : current.status <;>
    simp [refusesSave, dispatched, MoleculeData.markTackled, MoleculeData.bindProcess, promote, h]

theorem refusesSave_restoreClaim (current prior : MoleculeData) (now : Instant) :
    refusesSave current (restoreClaim current prior now) = false := by
  by_cases h : current.status = .collapsed
  · simp [refusesSave, restoreClaim, h]
  · simp [refusesSave, h]

theorem saveMolecule_of_admits {s : Ledger} {current : MoleculeData} (data : MoleculeData)
    (hc : s.molecules data.id = some current) (hadmits : refusesSave current data = false) (ok : Bool) :
    s.saveMolecule ok data = if ok then .ok (s.put data) else .error (.stateStore "write failed") := by
  simp only [Ledger.saveMolecule, hc, Option.any_some, hadmits, Bool.false_eq_true, if_false]

theorem undone_claim_iff {s' : Ledger} {current : MoleculeData} {record : DispatchRecord} {env : Env}
    (h : s'.molecules current.id = some (dispatched current record env)) :
    (undoCommittedWrites s' current record.worker env).claimAt current.id = some (claimOf current) ↔
      ClaimRestored current record env := by
  have hbound : ((dispatched current record env).process.any fun p => p.workerId = record.worker) =
      true := decide_eq_true rfl
  have hmol : (s'.removeWorker record.worker env.undoLoadFleet env.undoFleet).molecules current.id =
      some (dispatched current record env) := by rw [removeWorker_molecules, h]
  have hsave := saveMolecule_of_admits (restoreClaim (dispatched current record env) current
    env.undoneAt) hmol (refusesSave_restoreClaim _ current env.undoneAt) env.undoSave
  unfold undoCommittedWrites ClaimRestored
  simp only [hmol, hbound, and_true, hsave]
  have hkept : (s'.removeWorker record.worker env.undoLoadFleet env.undoFleet).claimAt current.id =
      some (claimOf (dispatched current record env)) := by rw [Ledger.claimAt, hmol, Option.map_some]
  cases env.undoLoad with
  | false => simp only [Bool.false_eq_true, if_false, hkept, Option.some.injEq, false_and, false_or]
  | true =>
    cases env.undoSave with
    | false => simp only [if_true, Bool.false_eq_true, if_false, hkept, Option.some.injEq, and_false,
        false_or]
    | true =>
      simp only [if_true, and_self, true_or, iff_true]
      refine (put_claimAt_self _ (restoreClaim (dispatched current record env) current _)).trans ?_
      rw [restoreClaim_dispatched]

/-- The checks of the commit pass on the record found and the claim is saved. -/
structure ClaimSaved (s : Ledger) (mol : MoleculeData) (env : Env) (current : MoleculeData) : Prop where
  lock : env.lock = true
  load : env.load = true
  save : env.save = true
  found : s.molecules mol.id = some current
  claim : claimOf current = claimOf mol

theorem commitDispatch_unsaved {s : Ledger} {mol : MoleculeData} {env : Env} (record : DispatchRecord)
    (h : ∀ current, ¬ ClaimSaved s mol env current) :
    ∃ e, commitDispatch s mol record env = (s, .error e) := by
  unfold commitDispatch
  by_cases hlock : env.lock = true
  · simp only [hlock, not_true_eq_false, if_false]
    cases hfound : s.molecules mol.id with
    | none => exact ⟨_, rfl⟩
    | some current =>
      dsimp only
      by_cases hload : env.load = true
      · simp only [hload, not_true_eq_false, if_false]
        cases hclaim : checkClaim current mol with
        | some e => exact ⟨e, rfl⟩
        | none =>
          dsimp only
          cases hsave : s.saveMolecule env.save (dispatched current record env) with
          | error e => exact ⟨_, rfl⟩
          | ok s' =>
            refine absurd ⟨hlock, hload, ?_, hfound, (checkClaim_none_iff _ _).mp hclaim⟩ (h current)
            have hat : s.molecules (dispatched current record env).id = some current := by
              rw [← hfound, ← s.keyed _ _ hfound]
              rfl
            rw [saveMolecule_of_admits _ hat (refusesSave_dispatched current record env)] at hsave
            by_contra hno
            rw [if_neg hno] at hsave
            cases hsave
      · exact ⟨_, if_pos hload⟩
  · exact ⟨_, if_pos hlock⟩

theorem commitDispatch_saved {s : Ledger} {mol current : MoleculeData} {env : Env}
    (h : ClaimSaved s mol env current) (record : DispatchRecord) :
    commitDispatch s mol record env =
      match registerTackleWorker (s.put (dispatched current record env)) record
          (dispatched current record env) env with
      | (s, some e) => (undoCommittedWrites s current record.worker env, .error e)
      | (s, none) => (s, .ok (dispatched current record env,
          { molecule := mol.id, worker := record.worker })) := by
  have hat : s.molecules (dispatched current record env).id = some current := by
    rw [← h.found, ← s.keyed _ _ h.found]
    rfl
  have hsave := saveMolecule_of_admits _ hat (refusesSave_dispatched current record env) env.save
  rw [if_pos h.save] at hsave
  unfold commitDispatch
  cases hregister : registerTackleWorker (s.put (dispatched current record env)) record
      (dispatched current record env) env with
  | mk s' answer =>
    cases answer <;> simp only [h.lock, h.load, h.found, (checkClaim_none_iff _ _).mpr h.claim,
      not_true_eq_false, if_false, hsave, hregister]

/-- A failed dispatch leaves the claim and the fleet as they were exactly when it
saved nothing, or its undo put both back. -/
theorem commitDispatch_error_restores_iff (s : Ledger) (mol : MoleculeData) (record : DispatchRecord)
    (env : Env) :
    (∀ e, (commitDispatch s mol record env).2 = .error e →
        (commitDispatch s mol record env).1.claimAt mol.id = s.claimAt mol.id ∧
          (commitDispatch s mol record env).1.fleet = s.fleet) ↔
      ∀ current, ClaimSaved s mol env current → ¬(env.saveFleet ∧ env.emit) →
        ClaimRestored current record env ∧
          FleetRestored s.fleet record (dispatched current record env) env := by
  by_cases hsaved : ∃ current, ClaimSaved s mol env current
  · obtain ⟨current, hsaved⟩ := hsaved
    have hid : current.id = mol.id := s.keyed _ _ hsaved.found
    have hbefore : s.claimAt mol.id = some (claimOf current) := by
      rw [Ledger.claimAt, hsaved.found, Option.map_some]
    have hunique : ∀ other, ClaimSaved s mol env other → other = current :=
      fun other hother => Option.some.inj (hother.found.symm.trans hsaved.found)
    have hfleet := registerTackleWorker_fleet (s.put (dispatched current record env)) record
      (dispatched current record env) env
    have hmol := registerTackleWorker_molecules (s.put (dispatched current record env)) record
      (dispatched current record env) env
    have herror := registerTackleWorker_error_iff (s.put (dispatched current record env)) record
      (dispatched current record env) env
    rw [commitDispatch_saved hsaved record]
    generalize registerTackleWorker (s.put (dispatched current record env)) record
      (dispatched current record env) env = registered at hfleet hmol herror ⊢
    obtain ⟨s', answer⟩ := registered
    have hat : s'.molecules current.id = some (dispatched current record env) := by
      rw [hmol]
      exact Function.update_self _ _ _
    have hclaim := undone_claim_iff hat
    have hundone := undone_fleet_iff current hfleet
    cases answer with
    | none =>
      have hok : env.saveFleet ∧ env.emit := by
        by_contra hno
        obtain ⟨e, he⟩ := herror.mpr hno
        cases he
      exact ⟨fun _ other _ hno => absurd hok hno, fun _ e he => by cases he⟩
    | some e =>
      have hno : ¬(env.saveFleet ∧ env.emit) := herror.mp ⟨e, rfl⟩
      constructor
      · intro hkeeps other hother _
        rw [hunique other hother]
        obtain ⟨hc, hf⟩ := hkeeps e rfl
        rw [hbefore, ← hid] at hc
        exact ⟨hclaim.mp hc, hundone.mp hf⟩
      · intro hrestored e' _
        obtain ⟨hc, hf⟩ := hrestored current hsaved hno
        rw [hbefore, ← hid]
        exact ⟨hclaim.mpr hc, hundone.mpr hf⟩
  · have hnone : ∀ current, ¬ ClaimSaved s mol env current := fun current h => hsaved ⟨current, h⟩
    obtain ⟨e, he⟩ := commitDispatch_unsaved record hnone
    rw [he]
    exact ⟨fun _ current h => absurd h (hnone current), fun _ _ _ => ⟨rfl, rfl⟩⟩

/-- The worker's entry from an earlier molecule is gone once the spawn event cannot be
written. -/
theorem commitDispatch_error_removes_entry :
    ¬ ∀ (s : Ledger) (mol : MoleculeData) (record : DispatchRecord) (env : Env) (e : DispatchLedgerError),
      (commitDispatch s mol record env).2 = .error e →
        (commitDispatch s mol record env).1.claimAt mol.id = s.claimAt mol.id ∧
          (commitDispatch s mol record env).1.fleet = s.fleet := by
  intro h
  have hfleet := (h
    { soleLedger pendingMolecule with
      fleet := some (Fleet.default.insert "w0"
        (tackleWorker (attemptRecord "w0") { id := "task-0" } (clockAt 5))) }
    pendingMolecule (attemptRecord "w0") { clockAt 10 with emit := false } _ rfl).2
  have hentry := congrArg (Option.map fun f : Fleet => (f.workers "w0").isSome) hfleet
  exact absurd hentry (by decide)

end Cosmon.Runtime.CommitUndo
