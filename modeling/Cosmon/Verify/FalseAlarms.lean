import Cosmon.Verify.Chains

namespace Cosmon.Verify

open Cosmon.Lib.Runs Cosmon.Lib.Text Cosmon.State.Molecule Cosmon.Core.Formulas Cosmon.Core.Evolve
open Cosmon.State.Rebuild Cosmon.State.Collapse Cosmon.State.LiveOps Cosmon.State.Projection
open Cosmon.Runtime.DispatchLedger

variable {s : SchedulerState} {id : MoleculeId} {m : MoleculeTraceState} {formula : Formula}
  {mol : MoleculeData}

/-- The operations that announce no change of status which the replay cannot follow. -/
def Quiet (formula : Formula) (mol : MoleculeData) : MolOp → Prop
  | .tackle _ | .accept _ | .live (.nucleate _) => True
  | .live (.evolve call) => ¬PassesGate formula mol call
  | .live (.freeze _ _) => mol.status = .frozen ∨ mol.status = .completed ∨ mol.status = .collapsed
  | .live (.thaw _ _) => mol.status ≠ .frozen
  | .live (.stuck reason _) =>
    isBlank reason = true ∨ mol.status = .frozen ∨ mol.status = .completed ∨ mol.status = .collapsed
  | .live (.collapse request _) =>
    (∃ e, parseCause request = .error e) ∨ mol.status = .completed ∨ mol.status = .collapsed

theorem freeze_quiet {reason : Option String} {now : Instant}
    (h : mol.status = .frozen ∨ mol.status = .completed ∨ mol.status = .collapsed) :
    (freeze mol reason now).mol = mol ∧ (freeze mol reason now).events = [] := by
  unfold freeze
  split
  · exact ⟨rfl, rfl⟩
  · rename_i hfrozen
    rw [if_pos (h.resolve_left hfrozen)]
    exact ⟨rfl, rfl⟩

theorem thaw_quiet {reason : Option String} {now : Instant} (h : mol.status ≠ .frozen) :
    (thaw mol reason now).mol = mol ∧ (thaw mol reason now).events = [] := by
  unfold thaw
  split
  · exact ⟨rfl, rfl⟩
  · exact ⟨rfl, rfl⟩

theorem collapse_quiet {request : CollapseRequest} {now : Instant}
    (h : (∃ e, parseCause request = .error e) ∨ mol.status = .completed ∨ mol.status = .collapsed) :
    (collapse mol request now).mol = mol ∧ (collapse mol request now).events = [] := by
  unfold collapse
  split
  · exact ⟨rfl, rfl⟩
  · rename_i cause hcause
    dsimp only
    split
    · exact ⟨rfl, rfl⟩
    · rename_i hopen
      obtain ⟨e, he⟩ | h := h
      · rw [hcause] at he
        cases he
      · rw [if_pos (h.resolve_right hopen)]
        exact ⟨rfl, rfl⟩

theorem stuck_chain (formula : Formula) {reason : String} {now : Instant}
    (h : isBlank reason = true ∨ mol.status = .frozen ∨ mol.status = .completed ∨ mol.status = .collapsed) :
    Chain formula mol (stuck mol reason now).mol ((stuck mol reason now).events.filterMap view) := by
  unfold stuck
  split
  · exact .refl formula mol
  · rename_i hreason
    split
    · exact .refl formula mol
    · rename_i hopen
      have hfrozen : mol.status = .frozen := (h.resolve_left hreason).resolve_right hopen
      simp only [hfrozen, decide_true, if_true, List.nil_append]
      refine .idle ⟨rfl, rfl, le_rfl, ?_⟩ (by simp [view, Silent])
      rintro (h | h | h | ⟨-, h⟩)
      · exact absurd (Or.inl h) hopen
      · exact absurd (Or.inr h) hopen
      · exact Or.inr (Or.inr (Or.inl h))
      · exact Or.inr (Or.inr (Or.inr ⟨rfl, h⟩))

theorem quiet_chain (htotal : mol.totalSteps = formula.steps.length) {op : MolOp}
    (h : Quiet formula mol op) :
    Chain formula mol (op.apply formula mol).1 (op.apply formula mol).2 := by
  have hsame {applied : MoleculeData × List EventV2} (hmol : applied.1 = mol) (hevents : applied.2 = []) :
      Chain formula mol applied.1 (applied.2.filterMap view) := by
    rw [hmol, hevents]
    exact .refl formula mol
  cases op with
  | tackle call => exact tackle_chain formula mol call
  | accept call => exact acceptWorkerTurn_chain htotal call
  | live op =>
    cases op with
    | nucleate request => exact .refl formula mol
    | evolve call => exact evolve_chain htotal h
    | freeze reason now => exact hsame (freeze_quiet h).1 (freeze_quiet h).2
    | thaw reason now => exact hsame (thaw_quiet h).1 (thaw_quiet h).2
    | stuck reason now => exact stuck_chain formula h
    | collapse request now => exact hsame (collapse_quiet h).1 (collapse_quiet h).2

def Alarms (m : MoleculeTraceState) (id : MoleculeId) (events : List TraceEvent) : Prop :=
  ∃ front rest, events = front ++ rest ∧ (∀ event ∈ front, About id event) ∧ ¬m.Certified front

theorem changed_alarms (hm : Matches formula mol m) {source target : String} {rest : List TraceEvent}
    (h : ∀ parsed, MoleculeStatus.fromStr source = some .pending → MoleculeStatus.fromStr target = some parsed →
      allowed .pending parsed = false) :
    Alarms m mol.id (.moleculeStatusChanged mol.id source target :: rest) := by
  refine ⟨[_], rest, rfl, by simp [About], ?_⟩
  rintro ⟨⟨parsed, hsource, htarget, hallowed, hlive⟩, -⟩
  obtain hpending | ⟨hcompleted, -⟩ := hm.status
  · rw [hpending] at hsource hallowed
    rw [h parsed hsource htarget] at hallowed
    cases hallowed
  · rw [hcompleted] at hlive
    cases hlive

theorem parked_alarms (hm : Matches formula mol m) (source : String) (rest : List TraceEvent) :
    Alarms m mol.id (.moleculeStatusChanged mol.id source "frozen" :: rest) := by
  apply changed_alarms hm
  intro parsed _ htarget
  cases htarget
  rfl

theorem freeze_alarms (hm : Matches formula mol m) {reason : Option String} {now : Instant}
    (h : ¬(mol.status = .frozen ∨ mol.status = .completed ∨ mol.status = .collapsed)) :
    Alarms m mol.id ((freeze mol reason now).events.filterMap view) := by
  obtain ⟨hfrozen, hopen⟩ := not_or.mp h
  rw [freeze, if_neg hfrozen, if_neg hopen]
  exact parked_alarms hm _ _

theorem thaw_alarms (hm : Matches formula mol m) {reason : Option String} {now : Instant}
    (h : ¬mol.status ≠ .frozen) : Alarms m mol.id ((thaw mol reason now).events.filterMap view) := by
  have hfrozen := not_not.mp h
  rw [thaw, if_neg (by rw [hfrozen]; decide), if_neg h, hfrozen]
  exact changed_alarms hm fun parsed hsource _ => (by cases hsource)

theorem stuck_alarms (hm : Matches formula mol m) {reason : String} {now : Instant}
    (h : ¬(isBlank reason = true ∨ mol.status = .frozen ∨ mol.status = .completed ∨ mol.status = .collapsed)) :
    Alarms m mol.id ((stuck mol reason now).events.filterMap view) := by
  obtain ⟨hreason, h⟩ := not_or.mp h
  obtain ⟨hfrozen, hopen⟩ := not_or.mp h
  rw [stuck, if_neg hreason, if_neg hopen]
  simp only [hfrozen, decide_false]
  exact parked_alarms hm _ _

theorem collapse_alarms {request : CollapseRequest} {now : Instant}
    (h : ¬((∃ e, parseCause request = .error e) ∨ mol.status = .completed ∨ mol.status = .collapsed)) :
    Alarms m mol.id ((collapse mol request now).events.filterMap view) := by
  obtain ⟨hparsed, hopen⟩ := not_or.mp h
  obtain ⟨hcompleted, hcollapsed⟩ := not_or.mp hopen
  unfold collapse
  split
  · rename_i e he
    exact absurd ⟨e, he⟩ hparsed
  · dsimp only
    rw [if_neg hcollapsed, if_neg hcompleted]
    refine ⟨_, [], (List.append_nil _).symm, by simp [view, About], ?_⟩
    simp [view, MoleculeTraceState.Certified, MoleculeTraceState.Legal, MoleculeTraceState.next,
      MoleculeStatus.fromStr, isTerminal]

theorem runGate_passed {machine : Machine} {updated : MoleculeData} {step : Step} {command : String}
    {now : Instant} (htrusted : machine.trusted = .ok ()) (hran : (machine.shell command).success = true)
    (hresult : (runGate machine formula updated step command now).result = .ok ()) :
    (runGate machine formula updated step command now).mol.id = updated.id ∧
      ∃ evidence more, (runGate machine formula updated step command now).events =
        .moleculeStepCompleted updated.id updated.currentStep formula.steps.length evidence :: more ∧
      (more = [] ∨ ∃ reason summary, more = [.moleculeCompleted updated.id reason summary]) := by
  unfold runGate at hresult ⊢
  simp only [htrusted, hran, if_true] at hresult ⊢
  split at hresult
  · cases hresult
  · split at hresult
    · cases hresult
    · rename_i inner hcore
      obtain ⟨-, step, -, hdone, -⟩ := evolve_ok hcore
      rw [hdone]
      refine ⟨?_, _, _, rfl, ?_⟩
      · unfold gatePassed
        cases inner.newState <;> rfl
      · split
        · exact Or.inr ⟨_, _, rfl⟩
        · exact Or.inl rfl

theorem evolve_alarms (htotal : mol.totalSteps = formula.steps.length) {call : EvolveCall}
    (h : PassesGate formula mol call) :
    Alarms m mol.id ((State.LiveOps.evolve formula mol call).events.filterMap view) := by
  obtain ⟨machine, next, command, result, hcaller, hnext, hcommand, htrusted, hran, hresult⟩ := h
  obtain ⟨e, heq, -⟩ | ⟨reason, e, heq, -⟩ | ⟨outcome, hcore, heq⟩ := evolve_cases formula mol call
  · rw [heq] at hresult
    cases hresult
  · rw [heq] at hresult
    cases hresult
  · obtain ⟨hid, -, -, -⟩ := advanced_fields mol outcome call.now
    have hcurrent := (advanced_current htotal hcore call.now).1
    obtain ⟨-, step, -, hdone, ⟨hnone, -⟩ | ⟨after, -, hstate⟩⟩ := evolve_ok hcore
    · rw [hnone] at hnext
      cases hnext
    · have hhook : call.caller.afterAdvance formula (advanced mol outcome call.now) outcome call.now =
          runGate machine formula (advanced mol outcome call.now) next command call.now := by
        simp only [Caller.afterAdvance, hcaller, hstate, hnext, hcommand]
      rw [heq, commitAdvance, hhook] at hresult
      rw [heq, commitAdvance, hhook]
      set gate := runGate machine formula (advanced mol outcome call.now) next command call.now with hset
      cases hgate : gate.result with
      | error e => simp [hgate] at hresult
      | ok done =>
        obtain ⟨hsame, evidence, more, hevents, hmore⟩ := runGate_passed htrusted hran hgate
        rw [← hset, hid] at hsame
        rw [← hset, hid, hcurrent] at hevents
        rw [hid] at hmore
        have hfront : ∃ tail, gate.events.filterMap view =
            .moleculeStepCompleted mol.id (mol.currentStep + 1) formula.steps.length :: tail ∧
            (∀ event ∈ tail, About mol.id event) ∧
            ∀ m : MoleculeTraceState, (tail.foldl .next m).lastStep = m.lastStep := by
          rw [hevents]
          obtain rfl | ⟨reason, summary, rfl⟩ := hmore
          · exact ⟨[], rfl, List.forall_mem_nil _, fun _ => rfl⟩
          · exact ⟨[.moleculeCompleted mol.id], rfl, by simp [About], fun _ => rfl⟩
        obtain ⟨tail, hfront, htail, hlast⟩ := hfront
        simp only [advanceEvents, List.filterMap_append, List.filterMap_cons, view, hfront, hsame, hdone]
        refine ⟨(.moleculeStepCompleted mol.id (mol.currentStep + 1) formula.steps.length :: tail) ++
          [.moleculeStepCompleted mol.id mol.currentStep gate.mol.totalSteps], _,
          by rw [List.append_assoc, List.append_assoc, List.singleton_append]; rfl, ?_, ?_⟩
        · intro event hevent
          simp only [List.mem_append, List.mem_cons, List.not_mem_nil, or_false] at hevent
          obtain (rfl | hevent) | rfl := hevent
          · rfl
          · exact htail event hevent
          · rfl
        · rw [MoleculeTraceState.certified_append]
          rintro ⟨-, ⟨-, hlater, -⟩, -⟩
          have hle := hlater (mol.currentStep + 1) (hlast _)
          omega

theorem loud_alarms (hm : Matches formula mol m) {op : MolOp} (h : ¬Quiet formula mol op) :
    Alarms m mol.id (op.apply formula mol).2 := by
  cases op with
  | tackle call => exact absurd trivial h
  | accept call => exact absurd trivial h
  | live op =>
    cases op with
    | nucleate request => exact absurd trivial h
    | evolve call => exact evolve_alarms hm.total (not_not.mp h)
    | freeze reason now => exact freeze_alarms hm h
    | thaw reason now => exact thaw_alarms hm h
    | stuck reason now => exact stuck_alarms hm h
    | collapse request now => exact collapse_alarms h

structure Tracks (w : World) (s : SchedulerState) : Prop where
  absent : ∀ id, w.mols id = none → s.molecules id = none
  present : ∀ id formula mol, w.mols id = some (formula, mol) →
    mol.id = id ∧ ∃ m, s.molecules id = some m ∧ Matches formula mol m

def QuietOn (w : World) : Op → Prop
  | .nucleate _ _ => True
  | .on id op => ∀ formula mol, w.mols id = some (formula, mol) → Quiet formula mol op

theorem tracks_put {w : World} (ht : Tracks w s) {next : MoleculeData} (hid : next.id = id)
    (hm : Matches formula next m) {s' : SchedulerState}
    (hs : s'.molecules = Function.update s.molecules id (some m)) (events : List TraceEvent) :
    Tracks (w.put id formula next events) s' := by
  constructor
  · intro other hother
    rw [hs]
    simp only [World.put] at hother
    by_cases hsame : other = id
    · rw [hsame, Function.update_self] at hother
      cases hother
    · rw [Function.update_of_ne hsame] at hother
      rw [Function.update_of_ne hsame]
      exact ht.absent other hother
  · intro other formula' mol' hother
    rw [hs]
    simp only [World.put] at hother
    by_cases hsame : other = id
    · rw [hsame, Function.update_self] at hother
      cases hother
      rw [hsame, Function.update_self]
      exact ⟨hid, m, rfl, hm⟩
    · rw [Function.update_of_ne hsame] at hother
      rw [Function.update_of_ne hsame]
      exact ht.present other formula' mol' hother

theorem nucleate_certified (formula : Formula) (request : NucleateRequest)
    (hid : s.molecules request.id = none) :
    let events := (nucleateEvents formula request).filterMap view
    Certified s events ∧
      (s.after events).molecules =
        Function.update s.molecules request.id (some { status := .pending, formulaId := formula.name }) := by
  cases hseal : request.promptSeal with
  | none =>
    simp [nucleateEvents, hseal, view, Certified, Legal, SchedulerState.after, SchedulerState.apply,
      SchedulerState.project, SchedulerState.orInsert, hid]
  | some briefing =>
    simp [nucleateEvents, hseal, view, Certified, Legal, SchedulerState.after, SchedulerState.apply,
      SchedulerState.project, SchedulerState.orInsert, hid]

/-- One operation: the events it adds are certified when it is quiet, and then the
replay follows it. -/
theorem step_certified {w : World} (ht : Tracks w s) (op : Op) :
    ∃ events, (w.step op).log = w.log ++ events ∧ (Certified s events ↔ QuietOn w op) ∧
      (QuietOn w op → Tracks (w.step op) (s.after events)) := by
  cases op with
  | nucleate formula request =>
    cases hmol : w.mols request.id with
    | some found =>
      simp only [World.step, hmol]
      exact ⟨[], (List.append_nil _).symm, iff_of_true trivial trivial, fun _ => ht⟩
    | none =>
      simp only [World.step, hmol]
      obtain ⟨hcert, hafter⟩ := nucleate_certified formula request (ht.absent _ hmol)
      have hid : (nucleate formula request).id = request.id := rfl
      have hm : Matches formula (nucleate formula request)
          { status := .pending, formulaId := formula.name } :=
        ⟨rfl, fun _ h => (by cases h), fun _ h => (by cases h), Or.inl rfl⟩
      exact ⟨_, rfl, iff_of_true hcert trivial, fun _ => tracks_put ht hid hm hafter _⟩
  | on id op =>
    cases hmol : w.mols id with
    | none =>
      simp only [World.step, hmol]
      refine ⟨[], (List.append_nil _).symm, iff_of_true trivial ?_, fun _ => ht⟩
      intro formula mol h
      rw [hmol] at h
      cases h
    | some found =>
      obtain ⟨formula, mol⟩ := found
      obtain ⟨hid, m, hs, hm⟩ := ht.present id formula mol hmol
      have hquiet : QuietOn w (.on id op) ↔ Quiet formula mol op := by
        constructor
        · exact fun h => h formula mol hmol
        · intro h formula' mol' h'
          rw [hmol] at h'
          cases h'
          exact h
      simp only [World.step, hmol]
      rw [hquiet]
      refine ⟨_, rfl, ?_, fun h => ?_⟩
      · constructor
        · intro hcert
          by_contra hloud
          obtain ⟨front, rest, hevents, habout, hnot⟩ := loud_alarms hm hloud
          rw [hevents, certified_append] at hcert
          exact hnot ((about_certified hs (hid ▸ habout)).1.mp hcert.1)
        · intro h
          have hchain := quiet_chain hm.total h
          exact (about_certified hs (hid ▸ hchain.about)).1.mpr (hchain.certified hm).1
      · have hchain := quiet_chain hm.total h
        refine tracks_put ht (hchain.same.trans hid) (hchain.certified hm).2 ?_ _
        exact (about_certified hs (hid ▸ hchain.about)).2

theorem log_run (w : World) (ops : List Op) : ∃ events, (ops.foldl World.step w).log = w.log ++ events := by
  induction ops generalizing w with
  | nil => exact ⟨[], (List.append_nil _).symm⟩
  | cons op rest ih =>
    have hone : ∃ events, (w.step op).log = w.log ++ events := by
      cases op with
      | nucleate formula request =>
        unfold World.step
        dsimp only
        split
        · exact ⟨[], (List.append_nil _).symm⟩
        · exact ⟨_, rfl⟩
      | on id op =>
        unfold World.step
        dsimp only
        split
        · exact ⟨[], (List.append_nil _).symm⟩
        · exact ⟨_, rfl⟩
    obtain ⟨first, hfirst⟩ := hone
    obtain ⟨more, hmore⟩ := ih (w.step op)
    rw [List.foldl_cons, hmore, hfirst, List.append_assoc]
    exact ⟨_, rfl⟩

/-- What a run adds to the log is certified when every operation of it is quiet where it
comes. -/
theorem run_certified {w : World} (ht : Tracks w s) (ops : List Op) {events : List TraceEvent}
    (hlog : (ops.foldl World.step w).log = w.log ++ events) :
    Certified s events ↔ ∀ n op, ops[n]? = some op → QuietOn (stateAt World.step w ops n) op := by
  induction ops generalizing w s events with
  | nil =>
    obtain rfl : events = [] := by simpa using hlog
    exact iff_of_true trivial fun n op h => (by cases h)
  | cons op rest ih =>
    obtain ⟨first, hfirst, hcert, hnext⟩ := step_certified ht op
    obtain ⟨more, hmore⟩ := log_run (w.step op) rest
    obtain rfl : events = first ++ more := by
      rw [List.foldl_cons, hmore, hfirst, List.append_assoc] at hlog
      exact (List.append_cancel_left hlog).symm
    rw [certified_append, forall_actions_cons, hcert]
    exact and_congr_right fun hquiet => ih (hnext hquiet) hmore

theorem tracks_empty : Tracks .empty .new where
  absent := fun _ _ => rfl
  present := fun _ _ _ h => (by cases h)

/-- The validator certifies the log of a run if and only if each operation of it is quiet
on the molecule it meets. -/
theorem validator_certifies_iff {ε : Type} {v : TraceValidator} (hv : v.invariants = baselineInvariants)
    {fromLine : String → Except ε Envelope} {lines : List String} {envelopes : List Envelope}
    (hread : Reads fromLine lines envelopes) (ops : List Op)
    (hlog : envelopes.map Envelope.event = (run ops).log) :
    (∃ outcome, v.validateStr fromLine lines = .ok outcome ∧ outcome.isOk = true) ↔
      ∀ n op, ops[n]? = some op → QuietOn (stateAt World.step .empty ops n) op := by
  rw [validateStr_isOk hv hread, hlog]
  exact run_certified tracks_empty ops rfl

def sampleRecord : DispatchRecord where
  worker := "w-1"
  sessionName := "w-1"
  adapter := "claude"
  tackledBy := .human
  worktreePath := ".worktrees/w-1"
  repo := ".worktrees/w-1"

def sampleTackle : TackleCall where
  machine :=
    { shell := fun _ => (.exited (some 0) "" "", false), native := fun _ => none
      query := fun _ => .error "no such path", llm := fun _ => .unknownProvider }
  dispatch := .recorded sampleRecord { startedAt := 1, tackledAt := 1, registeredAt := 1, undoneAt := 1 }

def shippedOps : List Op :=
  [.nucleate exampleFormula { id := "task-20260101-0001" }, .on "task-20260101-0001" (.tackle sampleTackle),
    .on "task-20260101-0001" (.live (.evolve { evidence := "done" }))]

def frozenOps : List Op :=
  [.nucleate exampleFormula { id := "task-20260101-0001" }, .on "task-20260101-0001" (.tackle sampleTackle),
    .on "task-20260101-0001" (.live (.freeze none 2))]

def sampleValidator : TraceValidator where
  invariants := baselineInvariants
  debug := fun text => "\"" ++ text ++ "\""

def sampleLine (seq : Nat) (fields : String) : String :=
  "\x7b\"seq\":" ++ seq.repr ++ ",\"timestamp\":\"2026-01-01T00:00:00Z\"," ++ fields ++ "\x7d"

def nucleatedFields : String :=
  "\"type\":\"molecule_nucleated\",\"molecule_id\":\"task-20260101-0001\",\"formula_id\":\"ship\""

def spawnedFields : String :=
  "\"type\":\"worker_spawned\",\"worker_id\":\"w-1\",\"session_name\":\"w-1\",\"role\":\"implementation\""

def stepFields : String :=
  "\"type\":\"molecule_step_completed\",\"molecule_id\":\"task-20260101-0001\",\"step\":0,\"total\":1"

def completedFields : String :=
  "\"type\":\"molecule_completed\",\"molecule_id\":\"task-20260101-0001\",\"reason\":\"all steps completed\""

def shippedLog : List (String × Envelope) :=
  [(sampleLine 0 nucleatedFields, ⟨0, .moleculeNucleated "task-20260101-0001" "ship"⟩),
    (sampleLine 1 spawnedFields, ⟨1, .workerSpawned "w-1"⟩),
    (sampleLine 2 stepFields, ⟨2, .moleculeStepCompleted "task-20260101-0001" 0 1⟩),
    (sampleLine 3 completedFields, ⟨3, .moleculeCompleted "task-20260101-0001"⟩)]

def changedFields : String :=
  "\"type\":\"molecule_status_changed\",\"molecule_id\":\"task-20260101-0001\"," ++
    "\"from\":\"running\",\"to\":\"frozen\""

def frozenLog : List (String × Envelope) :=
  [(sampleLine 0 nucleatedFields, ⟨0, .moleculeNucleated "task-20260101-0001" "ship"⟩),
    (sampleLine 1 spawnedFields, ⟨1, .workerSpawned "w-1"⟩),
    (sampleLine 2 changedFields, ⟨2, .moleculeStatusChanged "task-20260101-0001" "running" "frozen"⟩)]

def readFrom (log : List (String × Envelope)) (line : String) : Except Unit Envelope :=
  match log.lookup line with
  | some envelope => .ok envelope
  | none => .error ()

theorem toList_sampleLine (seq : Nat) (fields : String) :
    ∃ rest, (sampleLine seq fields).toList = '\x7b' :: (rest ++ ['\x7d']) ∧
      rest.drop 6 = seq.repr.toList ++ (",\"timestamp\":\"2026-01-01T00:00:00Z\"," ++ fields).toList := by
  refine ⟨"\"seq\":".toList ++ (seq.repr.toList ++
    (",\"timestamp\":\"2026-01-01T00:00:00Z\"," ++ fields).toList), ?_, rfl⟩
  simp [sampleLine, String.toList_append]

theorem trimmed_sampleLine (seq : Nat) (fields : String) :
    trimmed (sampleLine seq fields) = sampleLine seq fields ∧ sampleLine seq fields ≠ "" := by
  obtain ⟨rest, hlist, -⟩ := toList_sampleLine seq fields
  constructor
  · rw [trimmed, hlist, trim_of_ends (by decide) (by decide), ← hlist, String.ofList_toList]
  · intro h
    rw [h] at hlist
    cases hlist

theorem sampleLine_ne {i j : Nat} (hi : i < 10) (hj : j < 10) (hne : i ≠ j) (fields fields' : String) :
    sampleLine i fields ≠ sampleLine j fields' := by
  have hdigit : ∀ k < 10, k.repr.toList = [Nat.digitChar k] := by decide
  have hinj : ∀ k < 10, ∀ l < 10, Nat.digitChar k = Nat.digitChar l → k = l := by decide
  intro h
  obtain ⟨rest, hlist, hdrop⟩ := toList_sampleLine i fields
  obtain ⟨rest', hlist', hdrop'⟩ := toList_sampleLine j fields'
  rw [h, hlist'] at hlist
  obtain rfl : rest' = rest := List.append_cancel_right (List.cons.inj hlist).2
  have hsame := hdrop.symm.trans hdrop'
  rw [hdigit i hi, hdigit j hj] at hsame
  exact hne (hinj i hi j hj (List.cons.inj hsame).1)

theorem reads_log {log : List (String × Envelope)} (hkeys : (log.map Prod.fst).Nodup)
    (htrimmed : ∀ line ∈ log.map Prod.fst, trimmed line = line ∧ line ≠ "") :
    Reads (readFrom log) (log.map Prod.fst) (log.map Prod.snd) := by
  have hfilter : (log.map Prod.fst).filter (fun raw => trimmed raw ≠ "") = log.map Prod.fst := by
    apply List.filter_eq_self.mpr
    intro line hline
    obtain ⟨htrim, hne⟩ := htrimmed line hline
    simpa [htrim] using hne
  rw [Reads, hfilter, List.map_map, List.map_map]
  apply List.map_congr_left
  intro entry hentry
  have hlookup : log.lookup entry.1 = some entry.2 := by
    obtain ⟨front, back, rfl⟩ := List.append_of_mem hentry
    refine List.lookup_eq_some_iff.mpr ⟨front, back, rfl, ?_⟩
    rw [List.map_append, List.map_cons] at hkeys
    intro other hother
    have hne := (List.nodup_append.mp hkeys).2.2 other.1 (List.mem_map_of_mem hother) entry.1
      List.mem_cons_self
    simpa using hne.symm
  simp [readFrom, (htrimmed entry.1 (List.mem_map_of_mem hentry)).1, hlookup]

theorem shipped_reads : Reads (readFrom shippedLog) (shippedLog.map Prod.fst) (shippedLog.map Prod.snd) := by
  apply reads_log
  · simp [shippedLog, sampleLine_ne]
  · simp [shippedLog, trimmed_sampleLine]

theorem validator_certifies_shipped :
    ∃ outcome, sampleValidator.validateStr (readFrom shippedLog) (shippedLog.map Prod.fst) = .ok outcome ∧
      outcome.isOk = true := by
  refine (validator_certifies_iff rfl shipped_reads shippedOps ?_).mpr ?_
  · decide
  · intro n op hop
    match n with
    | 0 =>
      cases hop
      trivial
    | 1 =>
      cases hop
      exact fun _ _ _ => trivial
    | 2 =>
      cases hop
      rintro formula mol - ⟨machine, next, command, result, hcaller, -⟩
      cases hcaller
    | n + 3 => cases hop

/-- The dispatch of the worker announces no change of status, so the replay takes the
molecule for pending when it is frozen. -/
theorem frozen_not_certified :
    ¬∀ (ε : Type) (v : TraceValidator) (fromLine : String → Except ε Envelope) (lines : List String)
      (envelopes : List Envelope) (ops : List Op), v.invariants = baselineInvariants →
      Reads fromLine lines envelopes → envelopes.map Envelope.event = (run ops).log →
      ∃ outcome, v.validateStr fromLine lines = .ok outcome ∧ outcome.isOk = true := by
  intro h
  have hread : Reads (readFrom frozenLog) (frozenLog.map Prod.fst) (frozenLog.map Prod.snd) := by
    apply reads_log
    · simp [frozenLog, sampleLine_ne]
    · simp [frozenLog, trimmed_sampleLine]
  have hcert := (validateStr_isOk rfl hread).mp (h Unit sampleValidator (readFrom frozenLog)
    (frozenLog.map Prod.fst) (frozenLog.map Prod.snd) frozenOps rfl hread (by decide))
  obtain ⟨-, -, ⟨m, parsed, hm, hsource, -⟩, -⟩ := hcert
  obtain rfl : { status := .pending, formulaId := "ship" } = m := Option.some.inj hm
  cases hsource

end Cosmon.Verify
