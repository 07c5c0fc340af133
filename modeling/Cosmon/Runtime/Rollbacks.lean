import Cosmon.Runtime.CommitUndo

namespace Cosmon.Runtime.Rollbacks

open Cosmon.Lib.Runs Cosmon.State.Molecule Cosmon.Runtime.DispatchLedger
open Cosmon.Runtime.DispatchRuns Cosmon.Runtime.CommitUndo

structure Incarnation where
  workerId : WorkerId
  startedAt : Instant
  transport : Option TransportSelection
deriving DecidableEq

def incarnationOf (p : MoleculeProcess) : Incarnation := ⟨p.workerId, p.startedAt, p.transport⟩

def boundIncarnation (m : MoleculeData) : Option Incarnation := m.process.map incarnationOf

structure Binding where
  process : Option MoleculeProcess
  assignedWorker : Option WorkerId
  sessionName : Option String
  tackledBy : Option TackledBy
  tackledAt : Option Instant
deriving DecidableEq

def bindingOf (m : MoleculeData) : Binding :=
  ⟨m.process, m.assignedWorker, m.sessionName, m.tackledBy, m.tackledAt⟩

/-- A dispatch that was recorded: the snapshot it was made from and the process it bound.
`under` is the dispatch whose binding it replaced, and `changes` counts the changes of
the molecule's status up to its own. -/
structure Dispatch where
  prior : MoleculeData
  process : MoleculeProcess
  under : Option Nat
  changes : Nat

/-- The ledger and the dispatches by number, with the dispatch that made the binding of
each molecule and the one that registered each fleet entry. -/
structure World where
  ledger : Ledger
  dispatches : List Dispatch := []
  binder : MoleculeId → Option Nat := fun _ => none
  owner : WorkerId → Option Nat := fun _ => none
  changes : MoleculeId → Nat := fun _ => 0

/-- How a rollback knows its dispatch. -/
inductive Kind where
  | worker
  | incarnation
deriving DecidableEq

/-- One action under the fleet lock. A `save` or `saveFleet` is any other writer;
`saveFleet none` leaves a fleet that cannot be read. -/
inductive Op where
  | commit (mol : MoleculeData) (record : DispatchRecord) (env : Env)
  | rollback (kind : Kind) (dispatch : Nat) (env : Env)
  | save (data : MoleculeData) (ok : Bool)
  | saveFleet (fleet : Option Fleet)

def Kind.run : Kind → Ledger → Dispatch → Env → Ledger
  | .worker, s, x, env => rollbackDispatch s x.prior x.process.workerId env
  | .incarnation, s, x, env => rollbackDispatchIncarnation s x.prior x.process env

def entryAt (s : Ledger) (worker : WorkerId) : Option WorkerData :=
  s.fleet.bind fun fleet => fleet.workers worker

def statusAt (s : Ledger) (id : MoleculeId) : Option MoleculeStatus :=
  (s.molecules id).map MoleculeData.status

def bindingAt (s : Ledger) (id : MoleculeId) : Option Binding := (s.molecules id).map bindingOf

def incarnationAt (s : Ledger) (id : MoleculeId) : Option Incarnation :=
  (s.molecules id).bind boundIncarnation

/-- The world over a new ledger. A binding keeps its dispatch while its process is the
same, an entry while it is there. -/
def World.settle (w : World) (ledger : Ledger) : World :=
  { w with
    ledger := ledger
    binder := fun id => if incarnationAt ledger id = incarnationAt w.ledger id then w.binder id else none
    owner := fun worker => if (entryAt ledger worker).isSome then w.owner worker else none
    changes := fun id =>
      if statusAt ledger id = statusAt w.ledger id then w.changes id else w.changes id + 1 }

def World.record (w : World) (prior : MoleculeData) (process : MoleculeProcess) (under : Option Nat) :
    World :=
  { w with
    dispatches := w.dispatches ++ [⟨prior, process, under, w.changes prior.id⟩]
    binder := Function.update w.binder prior.id (some w.dispatches.length)
    owner := Function.update w.owner process.workerId (some w.dispatches.length) }

def World.step (w : World) : Op → World
  | .commit mol record env =>
    match commitDispatch w.ledger mol record env with
    | (ledger, .ok _) =>
      (w.settle ledger).record mol (newProcess record env.startedAt) (w.binder mol.id)
    | (ledger, .error _) => w.settle ledger
  | .rollback kind dispatch env =>
    match w.dispatches[dispatch]? with
    | none => w
    | some x =>
      let ledger := kind.run w.ledger x env
      let settled := w.settle ledger
      if incarnationAt ledger x.prior.id = incarnationAt w.ledger x.prior.id then settled
      else { settled with binder := Function.update settled.binder x.prior.id x.under }
  | .save data ok =>
    match w.ledger.saveMolecule ok data with
    | .error _ => w
    | .ok ledger => w.settle ledger
  | .saveFleet fleet => w.settle { w.ledger with fleet := fleet }

def Kind.finds : Kind → Ledger → Dispatch → Env → Option MoleculeData
  | .worker, s, x, env =>
    if env.lock ∧ env.undoLoad ∧ env.undoSave then
      (s.molecules x.prior.id).filter fun m => m.process.any fun p => p.workerId = x.process.workerId
    else none
  | .incarnation, s, x, env =>
    if env.lock ∧ env.load ∧ env.save then
      (s.molecules x.prior.id).filter fun m => boundIncarnation m = some (incarnationOf x.process)
    else none

/-- What a rollback saves of the fleet it read: nothing, all but the worker, or, where
the fleet could not be read, an empty one. -/
inductive Cleanup where
  | keep
  | remove
  | wipe
deriving DecidableEq

def Kind.cleanup : Kind → Ledger → Dispatch → Env → Cleanup
  | .worker, _, _, env =>
    if env.lock ∧ env.undoFleet then if env.undoLoadFleet then .remove else .wipe else .keep
  | .incarnation, s, x, env =>
    if (Kind.finds .incarnation s x env).isSome ∧ s.fleet.isSome ∧ env.loadFleet ∧ env.saveFleet then
      .remove
    else .keep

theorem removeWorker_entry (s : Ledger) (worker w : WorkerId) (load : Bool) :
    entryAt (s.removeWorker worker load true) w =
      if load then if w = worker then none else entryAt s w else none := by
  simp only [Ledger.removeWorker, if_true, entryAt, Option.bind_some, Ledger.readFleet, Fleet.remove]
  cases load with
  | false =>
    by_cases h : w = worker
    · rw [h, if_neg Bool.false_ne_true]
      exact Function.update_self _ _ _
    · rw [if_neg Bool.false_ne_true]
      exact Function.update_of_ne h _ _
  | true =>
    simp only [if_true]
    by_cases h : w = worker
    · rw [if_pos h, h, Function.update_self]
    · rw [if_neg h, Function.update_of_ne h]
      cases s.fleet <;> rfl

def restored (s : Ledger) (found : Option MoleculeData) (prior : MoleculeData) (now : Instant) : Ledger :=
  match found with
  | none => s
  | some current => s.put (restoreClaim current prior now)

theorem undo_molecules (s : Ledger) (prior : MoleculeData) (worker : WorkerId) (env : Env) :
    (undoCommittedWrites s prior worker env).molecules =
      (restored s (if env.undoLoad ∧ env.undoSave then (s.molecules prior.id).filter fun m =>
        m.process.any fun p => p.workerId = worker else none) prior env.undoneAt).molecules := by
  unfold undoCommittedWrites
  simp only [removeWorker_molecules]
  cases hmol : s.molecules prior.id with
  | none => simp [removeWorker_molecules, restored]
  | some current =>
    have hid : current.id = prior.id := s.keyed _ _ hmol
    have hat : (s.removeWorker worker env.undoLoadFleet env.undoFleet).molecules
        (restoreClaim current prior env.undoneAt).id = some current := by
      rw [removeWorker_molecules, ← hmol, ← hid]
      rfl
    have hsave := saveMolecule_of_admits _ hat (refusesSave_restoreClaim current prior env.undoneAt)
      env.undoSave
    dsimp only
    rw [hsave]
    by_cases hbound : (current.process.any fun p => p.workerId = worker) = true
    · rw [Option.filter_some, if_pos hbound]
      cases env.undoLoad with
      | false => simp [removeWorker_molecules, restored]
      | true =>
        cases env.undoSave with
        | false => simp [hbound, removeWorker_molecules, restored]
        | true => simp [hbound, Ledger.put, removeWorker_molecules, restored]
    · rw [Option.filter_some, if_neg hbound]
      simp [hbound, removeWorker_molecules, restored]

theorem undo_entry (s : Ledger) (prior : MoleculeData) (worker w : WorkerId) (env : Env) :
    entryAt (undoCommittedWrites s prior worker env) w =
      if env.undoFleet then
        if env.undoLoadFleet then if w = worker then none else entryAt s w else none
      else entryAt s w := by
  rw [entryAt, undo_fleet]
  cases hsave : env.undoFleet with
  | false => rfl
  | true => exact removeWorker_entry s worker w env.undoLoadFleet

theorem boundIncarnation_iff (m : MoleculeData) (expected : MoleculeProcess) :
    (m.process.any fun p => p.workerId = expected.workerId ∧ p.startedAt = expected.startedAt ∧
        p.transport = expected.transport) = true ↔ boundIncarnation m = some (incarnationOf expected) := by
  cases h : m.process with
  | none => simp [boundIncarnation, h]
  | some p => simp [boundIncarnation, h, incarnationOf]

theorem run_incarnation (s : Ledger) (x : Dispatch) (env : Env) :
    Kind.run .incarnation s x env =
      match Kind.finds .incarnation s x env with
      | none => s
      | some current =>
        if s.fleet.isNone ∨ ¬env.loadFleet then s.put (restoreClaim current x.prior env.undoneAt)
        else (s.put (restoreClaim current x.prior env.undoneAt)).removeWorker x.process.workerId
          env.loadFleet env.saveFleet := by
  unfold Kind.run rollbackDispatchIncarnation Kind.finds
  by_cases hlock : env.lock = true
  · simp only [hlock, not_true_eq_false, if_false, true_and]
    cases hmol : s.molecules x.prior.id with
    | none => simp
    | some current =>
      have hid : current.id = x.prior.id := s.keyed _ _ hmol
      have hat : s.molecules (restoreClaim current x.prior env.undoneAt).id = some current := by
        rw [← hmol, ← hid]
        rfl
      have hsave := saveMolecule_of_admits _ hat (refusesSave_restoreClaim current x.prior env.undoneAt)
        env.save
      simp only [boundIncarnation_iff, hsave, Option.filter_some]
      by_cases hbound : boundIncarnation current = some (incarnationOf x.process)
      · by_cases hload : env.load = true
        · by_cases hok : env.save = true
          · simp only [hbound, hload, hok, and_self, decide_true, if_true]
            rfl
          · simp [hbound, hload, hok]
        · simp [hload]
      · simp [hbound]
  · simp [hlock]

theorem run_molecules (kind : Kind) (s : Ledger) (x : Dispatch) (env : Env) :
    (kind.run s x env).molecules =
      (restored s (kind.finds s x env) x.prior env.undoneAt).molecules := by
  cases kind with
  | worker =>
    simp only [Kind.run, rollbackDispatch, Kind.finds]
    by_cases hlock : env.lock = true
    · simp only [hlock, if_true, true_and, undo_molecules]
    · simp [hlock, restored]
  | incarnation =>
    rw [run_incarnation]
    cases Kind.finds .incarnation s x env with
    | none => rfl
    | some current =>
      dsimp only [restored]
      split
      · rfl
      · rw [removeWorker_molecules]

theorem run_entry (kind : Kind) (s : Ledger) (x : Dispatch) (env : Env) (worker : WorkerId) :
    entryAt (kind.run s x env) worker =
      match kind.cleanup s x env with
      | .keep => entryAt s worker
      | .remove => if worker = x.process.workerId then none else entryAt s worker
      | .wipe => none := by
  cases kind with
  | worker =>
    simp only [Kind.run, rollbackDispatch, Kind.cleanup]
    by_cases hlock : env.lock = true
    · simp only [hlock, if_true, true_and, undo_entry]
      cases env.undoFleet with
      | false => rfl
      | true => cases env.undoLoadFleet <;> rfl
    · simp [hlock]
  | incarnation =>
    have hput : ∀ current, entryAt (s.put (restoreClaim current x.prior env.undoneAt)) worker =
        entryAt s worker := fun _ => rfl
    rw [run_incarnation]
    by_cases hclean : (Kind.finds .incarnation s x env).isSome ∧ s.fleet.isSome ∧ env.loadFleet ∧
        env.saveFleet
    · have hcleanup : Kind.cleanup .incarnation s x env = .remove := if_pos hclean
      obtain ⟨hfound, hfleet, hload, hsave⟩ := hclean
      obtain ⟨current, hcurrent⟩ := Option.isSome_iff_exists.mp hfound
      obtain ⟨fleet, hfleet⟩ := Option.isSome_iff_exists.mp hfleet
      simp [hcleanup, hcurrent, hfleet, hload, hsave, removeWorker_entry, hput]
    · have hcleanup : Kind.cleanup .incarnation s x env = .keep := if_neg hclean
      rw [hcleanup]
      cases hfinds : Kind.finds .incarnation s x env with
      | none => rfl
      | some current =>
        dsimp only
        split
        · exact hput current
        · rename_i hopen
          have hsave : env.saveFleet = false := by
            by_contra hno
            simp only [not_or, Bool.not_eq_true, Option.isNone_eq_false_iff] at hopen
            exact hclean ⟨by rw [hfinds]; rfl, hopen.1, by simpa using hopen.2, by simpa using hno⟩
          rw [hsave]
          exact hput current

/-- A rollback of dispatch `d` leaves every other dispatch its binding and its fleet
entry, and changes a status only where none was changed since the dispatch. -/
structure Respects (w : World) (ledger : Ledger) (d : Nat) (x : Dispatch) : Prop where
  binding : ∀ id e, w.binder id = some e → e ≠ d → bindingAt ledger id = bindingAt w.ledger id
  status : ∀ id, statusAt ledger id ≠ statusAt w.ledger id →
    id = x.prior.id ∧ w.changes id = x.changes
  entry : ∀ worker e, w.owner worker = some e → e ≠ d → (entryAt w.ledger worker).isSome →
    entryAt ledger worker = entryAt w.ledger worker

/-- The record that a rollback of dispatch `d` finds by worker id or incarnation is the
dispatch's own: bound by it, or by no dispatch, or already as the rollback would leave it,
and, if it is `Running` and was not before, then since the dispatch itself. -/
structure FindsOwn (w : World) (d : Nat) (x : Dispatch) (current : MoleculeData) : Prop where
  bound : w.binder x.prior.id = some d ∨ w.binder x.prior.id = none ∨
    bindingOf current = bindingOf x.prior
  promoted : current.status = .running → x.prior.status = .running ∨ w.changes x.prior.id = x.changes

/-- What the rollback would find and clean is the dispatch's own, or no dispatch's. -/
structure Identified (w : World) (kind : Kind) (d : Nat) (x : Dispatch) (env : Env) : Prop where
  found : ∀ current, kind.finds w.ledger x env = some current → FindsOwn w d x current
  removed : kind.cleanup w.ledger x env = .remove → ∀ e, w.owner x.process.workerId = some e →
    (entryAt w.ledger x.process.workerId).isSome → e = d
  wiped : kind.cleanup w.ledger x env = .wipe → ∀ worker e, w.owner worker = some e →
    (entryAt w.ledger worker).isSome → e = d

theorem finds_molecule {kind : Kind} {s : Ledger} {x : Dispatch} {env : Env} {current : MoleculeData}
    (h : kind.finds s x env = some current) : s.molecules x.prior.id = some current := by
  cases kind with
  | worker =>
    simp only [Kind.finds] at h
    split at h
    · exact (Option.filter_eq_some_iff.mp h).1
    · cases h
  | incarnation =>
    simp only [Kind.finds] at h
    split at h
    · exact (Option.filter_eq_some_iff.mp h).1
    · cases h

section Restored

variable {s : Ledger} {current prior : MoleculeData} {now : Instant} {id : MoleculeId}

theorem restored_molecule (h : s.molecules prior.id = some current) :
    (restored s (some current) prior now).molecules prior.id = some (restoreClaim current prior now) := by
  rw [← s.keyed _ _ h]
  exact Function.update_self _ _ _

theorem restored_frame (h : s.molecules prior.id = some current) (hid : id ≠ prior.id) :
    (restored s (some current) prior now).molecules id = s.molecules id := by
  rw [← s.keyed _ _ h] at hid
  exact Function.update_of_ne hid _ _

end Restored

section Respects

variable {w : World} {kind : Kind} {d : Nat} {x : Dispatch} {env : Env}

theorem run_found {s : Ledger} {current : MoleculeData} (h : kind.finds s x env = some current) :
    (kind.run s x env).molecules x.prior.id = some (restoreClaim current x.prior env.undoneAt) := by
  rw [run_molecules, h, restored_molecule (finds_molecule h)]

theorem run_cases (kind : Kind) (s : Ledger) (x : Dispatch) (env : Env) (id : MoleculeId) :
    (kind.run s x env).molecules id = s.molecules id ∨ ∃ current, kind.finds s x env = some current ∧
      id = x.prior.id ∧ s.molecules id = some current ∧
        (kind.run s x env).molecules id = some (restoreClaim current x.prior env.undoneAt) := by
  cases hfound : kind.finds s x env with
  | none =>
    rw [run_molecules, hfound]
    exact Or.inl rfl
  | some current =>
    by_cases hid : id = x.prior.id
    · refine Or.inr ⟨current, rfl, hid, ?_, ?_⟩
      · rw [hid]
        exact finds_molecule hfound
      · rw [hid]
        exact run_found hfound
    · rw [run_molecules, hfound, restored_frame (finds_molecule hfound) hid]
      exact Or.inl rfl

theorem Respects.found (h : Respects w (kind.run w.ledger x env) d x) {current : MoleculeData}
    (hfound : kind.finds w.ledger x env = some current) : FindsOwn w d x current := by
  have hmol := finds_molecule hfound
  have hafter := run_found hfound
  refine ⟨?_, fun hrunning => ?_⟩
  · cases hbinder : w.binder x.prior.id with
    | none => exact Or.inr (Or.inl rfl)
    | some e =>
      by_cases he : e = d
      · exact Or.inl (congrArg some he)
      · have hsame := h.binding x.prior.id e hbinder he
        simp only [bindingAt, hafter, hmol, Option.map_some, Option.some.injEq] at hsame
        exact Or.inr (Or.inr hsame.symm)
  · by_cases hprior : x.prior.status = .running
    · exact Or.inl hprior
    · refine Or.inr (h.status x.prior.id ?_).2
      simp only [statusAt, hafter, hmol, Option.map_some, restoreClaim, hrunning, if_true]
      exact fun heq => hprior (Option.some.inj heq)

theorem Respects.identified (h : Respects w (kind.run w.ledger x env) d x) : Identified w kind d x env := by
  have hentry := run_entry kind w.ledger x env
  refine ⟨fun _ hfound => h.found hfound, ?_, ?_⟩
  · intro hclean e howner hpresent
    by_contra he
    have hkept := h.entry _ e howner he hpresent
    rw [hentry, hclean] at hkept
    simp only [if_true] at hkept
    rw [← hkept] at hpresent
    cases hpresent
  · intro hclean worker e howner hpresent
    by_contra he
    have hkept := h.entry _ e howner he hpresent
    rw [hentry, hclean] at hkept
    rw [← hkept] at hpresent
    cases hpresent

theorem Identified.respects (h : Identified w kind d x env) : Respects w (kind.run w.ledger x env) d x := by
  refine ⟨fun id e hbinder he => ?_, fun id hchanged => ?_, fun worker e howner he hpresent => ?_⟩
  · obtain hsame | ⟨current, hfound, rfl, hmol, hafter⟩ := run_cases kind w.ledger x env id
    · rw [bindingAt, hsame, bindingAt]
    · simp only [bindingAt, hafter, hmol, Option.map_some, Option.some.injEq]
      obtain hown | hnone | hsame := (h.found current hfound).bound
      · exact absurd (Option.some.inj (hbinder.symm.trans hown)) he
      · rw [hbinder] at hnone
        cases hnone
      · exact hsame.symm
  · obtain hsame | ⟨current, hfound, rfl, hmol, hafter⟩ := run_cases kind w.ledger x env id
    · exact absurd (congrArg (Option.map MoleculeData.status) hsame) hchanged
    · refine ⟨rfl, ?_⟩
      simp only [statusAt, hafter, hmol, Option.map_some, restoreClaim] at hchanged
      by_cases hrunning : current.status = .running
      · rw [if_pos hrunning] at hchanged
        obtain hprior | hcount := (h.found current hfound).promoted hrunning
        · exact absurd (by rw [hprior, hrunning]) hchanged
        · exact hcount
      · exact absurd (by rw [if_neg hrunning]) hchanged
  · rw [run_entry kind w.ledger x env]
    cases hclean : kind.cleanup w.ledger x env with
    | keep => rfl
    | remove =>
      by_cases hworker : worker = x.process.workerId
      · rw [hworker] at howner hpresent
        exact absurd (h.removed hclean e howner hpresent) he
      · exact if_neg hworker
    | wipe => exact absurd (h.wiped hclean worker e howner hpresent) he

theorem respects_iff (w : World) (kind : Kind) (d : Nat) (x : Dispatch) (env : Env) :
    Respects w (kind.run w.ledger x env) d x ↔ Identified w kind d x env :=
  ⟨Respects.identified, Identified.respects⟩

end Respects

/-- The labels say what the records say: a binding is that of its dispatch, an entry
stands under the worker id of its dispatch. -/
structure Labelled (w : World) : Prop where
  binder : ∀ id e, w.binder id = some e → ∃ x, w.dispatches[e]? = some x ∧ x.prior.id = id ∧
    incarnationAt w.ledger id = some (incarnationOf x.process)
  owner : ∀ worker e, w.owner worker = some e → ∃ x, w.dispatches[e]? = some x ∧
    x.process.workerId = worker ∧ (entryAt w.ledger worker).isSome
  under : ∀ x ∈ w.dispatches, ∀ e, x.under = some e → ∃ y, w.dispatches[e]? = some y ∧
    y.prior.id = x.prior.id ∧ boundIncarnation x.prior = some (incarnationOf y.process)

theorem Labelled.settle {w : World} (h : Labelled w) (ledger : Ledger) : Labelled (w.settle ledger) where
  binder := by
    intro id e he
    simp only [World.settle] at he ⊢
    split at he
    · rename_i hsame
      rw [hsame]
      exact h.binder id e he
    · cases he
  owner := by
    intro worker e he
    simp only [World.settle] at he ⊢
    split at he
    · rename_i hpresent
      obtain ⟨x, hx, hworker, -⟩ := h.owner worker e he
      exact ⟨x, hx, hworker, hpresent⟩
    · cases he
  under := h.under

theorem commitDispatch_ok {s s' : Ledger} {mol : MoleculeData} {record : DispatchRecord} {env : Env}
    {out : MoleculeData × DispatchRecorded}
    (h : commitDispatch s mol record env = (s', .ok out)) :
    ∃ current, ClaimSaved s mol env current ∧
      s'.molecules = (s.put (dispatched current record env)).molecules ∧
      (entryAt s' record.worker).isSome := by
  by_cases hsaved : ∃ current, ClaimSaved s mol env current
  · obtain ⟨current, hsaved⟩ := hsaved
    refine ⟨current, hsaved, ?_⟩
    have hfleet := registerTackleWorker_fleet (s.put (dispatched current record env)) record
      (dispatched current record env) env
    have hmol := registerTackleWorker_molecules (s.put (dispatched current record env)) record
      (dispatched current record env) env
    have herror := registerTackleWorker_error_iff (s.put (dispatched current record env)) record
      (dispatched current record env) env
    rw [commitDispatch_saved hsaved record] at h
    generalize registerTackleWorker (s.put (dispatched current record env)) record
      (dispatched current record env) env = registered at hfleet hmol herror h
    obtain ⟨s₁, answer⟩ := registered
    cases answer with
    | some e => cases h
    | none =>
      cases h
      have hok : env.saveFleet ∧ env.emit := by
        by_contra hno
        obtain ⟨e, he⟩ := herror.mpr hno
        cases he
      refine ⟨hmol, ?_⟩
      simp only [registeredFleet, landed, hok.1, if_true] at hfleet
      rw [entryAt, hfleet]
      simp [Fleet.insert]
  · obtain ⟨e, he⟩ := commitDispatch_unsaved record fun current hc => hsaved ⟨current, hc⟩
    rw [he] at h
    cases h

theorem Labelled.record {w : World} (h : Labelled w) {prior : MoleculeData} {process : MoleculeProcess}
    {under : Option Nat}
    (hbound : incarnationAt w.ledger prior.id = some (incarnationOf process))
    (hentry : (entryAt w.ledger process.workerId).isSome)
    (hunder : ∀ e, under = some e → ∃ y, w.dispatches[e]? = some y ∧ y.prior.id = prior.id ∧
      boundIncarnation prior = some (incarnationOf y.process)) :
    Labelled (w.record prior process under) := by
  have hold : ∀ {e : Nat} {x : Dispatch}, w.dispatches[e]? = some x →
      (w.dispatches ++ [⟨prior, process, under, w.changes prior.id⟩])[e]? = some x := by
    intro e x he
    rw [List.getElem?_append_left (List.getElem?_eq_some_iff.mp he).1]
    exact he
  have hnew : (w.dispatches ++ [⟨prior, process, under, w.changes prior.id⟩])[w.dispatches.length]? =
      some ⟨prior, process, under, w.changes prior.id⟩ := List.getElem?_concat_length
  refine ⟨?_, ?_, ?_⟩
  · intro id e he
    simp only [World.record] at he ⊢
    by_cases hid : id = prior.id
    · rw [hid, Function.update_self] at he
      cases he
      exact ⟨_, hnew, hid.symm, by rw [hid]; exact hbound⟩
    · rw [Function.update_of_ne hid] at he
      obtain ⟨x, hx, hxid, hinc⟩ := h.binder id e he
      exact ⟨x, hold hx, hxid, hinc⟩
  · intro worker e he
    simp only [World.record] at he ⊢
    by_cases hworker : worker = process.workerId
    · rw [hworker, Function.update_self] at he
      cases he
      exact ⟨_, hnew, hworker.symm, by rw [hworker]; exact hentry⟩
    · rw [Function.update_of_ne hworker] at he
      obtain ⟨x, hx, hxw, hpresent⟩ := h.owner worker e he
      exact ⟨x, hold hx, hxw, hpresent⟩
  · intro x hx e he
    simp only [World.record, List.mem_append, List.mem_singleton] at hx
    obtain hx | rfl := hx
    · obtain ⟨y, hy, hyid, hinc⟩ := h.under x hx e he
      exact ⟨y, hold hy, hyid, hinc⟩
    · obtain ⟨y, hy, hyid, hinc⟩ := hunder e he
      exact ⟨y, hold hy, hyid, hinc⟩

theorem step_labelled {w : World} (h : Labelled w) (op : Op) : Labelled (w.step op) := by
  cases op with
  | commit mol record env =>
    simp only [World.step]
    cases hcommit : commitDispatch w.ledger mol record env with
    | mk ledger answer =>
      cases answer with
      | error e => exact h.settle ledger
      | ok out =>
        obtain ⟨current, hsaved, hmol, hentry⟩ := commitDispatch_ok hcommit
        have hid : current.id = mol.id := w.ledger.keyed _ _ hsaved.found
        have hprocess : current.process = mol.process := congrArg Claim.process hsaved.claim
        apply (h.settle ledger).record
        · change incarnationAt ledger mol.id = _
          rw [incarnationAt, hmol, ← hid]
          change (Function.update w.ledger.molecules current.id _ current.id).bind _ = _
          rw [Function.update_self]
          rfl
        · exact hentry
        · intro e he
          obtain ⟨y, hy, hyid, hinc⟩ := h.binder mol.id e he
          refine ⟨y, hy, hyid, ?_⟩
          rw [incarnationAt, hsaved.found] at hinc
          rw [← hinc]
          simp only [Option.bind_some, boundIncarnation, hprocess]
  | rollback kind d env =>
    simp only [World.step]
    cases hx : w.dispatches[d]? with
    | none => exact h
    | some x =>
      dsimp only
      have hsettled := h.settle (kind.run w.ledger x env)
      split
      · exact hsettled
      · rename_i hchanged
        refine ⟨?_, hsettled.owner, hsettled.under⟩
        intro id e he
        dsimp only at he ⊢
        by_cases hid : id = x.prior.id
        · rw [hid, Function.update_self] at he
          obtain ⟨y, hy, hyid, hinc⟩ := h.under x (List.mem_of_getElem? hx) e he
          refine ⟨y, hy, hyid.trans hid.symm, ?_⟩
          obtain hsame | ⟨_, _, _, _, hafter⟩ := run_cases kind w.ledger x env x.prior.id
          · exact absurd (congrArg (Option.bind · boundIncarnation) hsame) hchanged
          · change incarnationAt (kind.run w.ledger x env) id = _
            rw [incarnationAt, hid, hafter]
            exact hinc
        · rw [Function.update_of_ne hid] at he
          exact hsettled.binder id e he
  | save data ok =>
    simp only [World.step]
    split
    · exact h
    · exact h.settle _
  | saveFleet fleet => exact h.settle _

/-- The world of a run before its `n`-th action. -/
def runAt (ledger : Ledger) (ops : List Op) (n : Nat) : World :=
  stateAt World.step { ledger := ledger } ops n

theorem runAt_labelled (ledger : Ledger) (ops : List Op) (n : Nat) : Labelled (runAt ledger ops n) := by
  refine stateAt_preserves (P := Labelled) _ (fun n op _ h => step_labelled h op) (Nat.zero_le n) ?_
  exact ⟨fun _ _ h => (nomatch h), fun _ _ h => (nomatch h), fun _ h => (nomatch h)⟩

/-- Every rollback of a run respects what other dispatches hold and what changed since
its own. -/
def RollbacksRespect (ledger : Ledger) (ops : List Op) : Prop :=
  ∀ n kind d env x, ops[n]? = some (.rollback kind d env) →
    (runAt ledger ops n).dispatches[d]? = some x →
    Respects (runAt ledger ops n) (runAt ledger ops (n + 1)).ledger d x

/-- Every rollback of a run finds and cleans what is its own dispatch's, or no
dispatch's. -/
def RollbacksIdentified (ledger : Ledger) (ops : List Op) : Prop :=
  ∀ n kind d env x, ops[n]? = some (.rollback kind d env) →
    (runAt ledger ops n).dispatches[d]? = some x → Identified (runAt ledger ops n) kind d x env

theorem runAt_rollback {ledger : Ledger} {ops : List Op} {n d : Nat} {kind : Kind} {env : Env} {x : Dispatch}
    (hop : ops[n]? = some (.rollback kind d env)) (hx : (runAt ledger ops n).dispatches[d]? = some x) :
    (runAt ledger ops (n + 1)).ledger = kind.run (runAt ledger ops n).ledger x env := by
  rw [runAt, stateAt_succ _ hop]
  change (World.step (runAt ledger ops n) _).ledger = _
  simp only [World.step, hx]
  split
  · rfl
  · rfl

theorem rollbacks_respect_iff (ledger : Ledger) (ops : List Op) :
    RollbacksRespect ledger ops ↔ RollbacksIdentified ledger ops := by
  constructor
  · intro h n kind d env x hop hx
    rw [← respects_iff, ← runAt_rollback hop hx]
    exact h n kind d env x hop hx
  · intro h n kind d env x hop hx
    rw [runAt_rollback hop hx, respects_iff]
    exact h n kind d env x hop hx

/-- The dispatch of the first attempt is replaced by a second under the same worker id,
then the first is rolled back. -/
def replacedRun : List Op :=
  [.commit pendingMolecule (attemptRecord "w0") (clockAt 10),
    .commit (dispatched pendingMolecule (attemptRecord "w0") (clockAt 10)) (attemptRecord "w0")
      (clockAt 20),
    .rollback .worker 0 (clockAt 30)]

/-- The dispatched molecule is frozen and thawed before the dispatch is rolled back. -/
def thawedRun : List Op :=
  let mol := dispatched pendingMolecule (attemptRecord "w0") (clockAt 10)
  [.commit pendingMolecule (attemptRecord "w0") (clockAt 10),
    .save { mol with status := .frozen } true, .save mol true,
    .rollback .incarnation 0 (clockAt 30)]

/-- The worker id is given to another molecule before the dispatch is rolled back. -/
def sharedWorkerRun : List Op :=
  [.commit pendingMolecule (attemptRecord "w0") (clockAt 10), .save { id := "task-2" } true,
    .commit { id := "task-2" } (attemptRecord "w0") (clockAt 20),
    .rollback .incarnation 0 (clockAt 30)]

/-- The late rollback takes the binding of the second dispatch, the status of the thaw,
and the entry of another molecule's dispatch. -/
theorem rollbacks_respect_not :
    ¬ RollbacksRespect (soleLedger pendingMolecule) replacedRun ∧
      ¬ RollbacksRespect (soleLedger pendingMolecule) thawedRun ∧
      ¬ RollbacksRespect (soleLedger pendingMolecule) sharedWorkerRun := by
  refine ⟨fun h => ?_, fun h => ?_, fun h => ?_⟩
  · have hbinding := (h 2 .worker 0 (clockAt 30) _ rfl rfl).binding "task-1" 1 (by decide) (by decide)
    exact absurd hbinding (by decide)
  · have hstatus := (h 3 .incarnation 0 (clockAt 30) _ rfl rfl).status "task-1" (by decide)
    exact absurd hstatus.2 (by decide)
  · have hentry := (h 3 .incarnation 0 (clockAt 30) _ rfl rfl).entry "w0" 1 (by decide) (by decide)
      (by decide)
    exact absurd hentry (by decide)

end Cosmon.Runtime.Rollbacks
