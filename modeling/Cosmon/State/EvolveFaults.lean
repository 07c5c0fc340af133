import Cosmon.State.LiveOps

namespace Cosmon.State.EvolveFaults

open Cosmon.State.Molecule Cosmon.Core.Formulas Cosmon.Core.Evolve
open Cosmon.State.Rebuild Cosmon.State.LiveOps

/-- The intent that an advance writes and its receipt clears. -/
structure PendingStep where
  targetStep : Nat
  startedAt : Instant
  commitSha : Option String := none
deriving DecidableEq

/-- A stored molecule with the fields that only an advance writes. -/
structure StepRecord extends MoleculeData where
  pendingStep : Option PendingStep := none
  lastProgressAt : Option Instant := none
  lastOutputAt : Option Instant := none
deriving DecidableEq

/-- A section under the fleet lock: which of its store operations fail, and how. -/
structure Section where
  lock : Option CosmonError := none
  load : Option CosmonError := none
  save : Option CosmonError := none

structure Section.Clear (c : Section) : Prop where
  lock : c.lock = none
  load : c.load = none
  save : c.save = none

/-- What the effects of one call meet: the failures of its locked sections, of its
file writes and of its event records, and the bootstrap walk of the command line. -/
structure Effects where
  advance : Section := {}
  gate : Section := {}
  sealing : Section := {}
  bootstrap : Section := {}
  receipt : Section := {}
  log : Option String := none
  briefing : Option String := none
  posture : Option String := none
  bootstrapSeal : Option BriefingSeal := none
  appends : EventV2 → Bool := fun _ => true

/-- The store and the event log, as far as one molecule goes. -/
structure Store where
  id : MoleculeId
  record : Option StepRecord
  events : List EventV2 := []

def Store.loadMolecule (s : Store) (fault : Option CosmonError) : Except CosmonError StepRecord :=
  match fault, s.record with
  | some e, _ => .error e
  | none, none => .error (.moleculeNotFound s.id)
  | none, some mol => .ok mol

def Store.saveMolecule (s : Store) (fault : Option CosmonError) (data : StepRecord) :
    Except CosmonError Store :=
  if s.record.any fun current => refusesSave current.toMoleculeData data.toMoleculeData then
    .error (.stateStore ("molecule " ++ data.id ++
      " is collapsed; cannot leave Collapsed or replace its receipt"))
  else
    match fault with
    | some e => .error e
    | none => .ok { s with record := some data }

/-- Append to the event log; a record that cannot be written is dropped. -/
def Store.emit (s : Store) (effects : Effects) (events : List EventV2) : Store :=
  { s with events := s.events ++ events.filter effects.appends }

def fromCosmon (id : MoleculeId) : CosmonError → EvolveOpError
  | .moleculeNotFound _ => .moleculeNotFound id
  | e => .storeUnavailable e.toString

def EvolveOpError.parks : EvolveOpError → Bool
  | .energyExhausted _ => true
  | .verificationExhausted _ => true
  | _ => false

/-- What the checks of an advance decide on the record that was read. -/
inductive Verdict where
  | refuse (error : EvolveOpError)
  | park (reason : StuckReason) (error : EvolveOpError)
  | advance (outcome : EvolveOutcome)

def verdict (formula : Formula) (mol : MoleculeData) (call : EvolveCall) : Verdict :=
  if mol.status = .completed ∨ mol.status = .collapsed then .refuse (.notRunnable mol.id mol.status)
  else
    match mol.energyBudget.filter StepBudget.isExhausted with
    | some budget => .park .energyExhausted (.energyExhausted budget.cap)
    | none =>
      match Core.Evolve.evolve mol.status mol.currentStep mol.completedSteps formula call.evidence with
      | .error e => .refuse (.refused e)
      | .ok outcome =>
        match formula.steps[outcome.completedStep.index]? with
        | none => .refuse (.refused (.stepOutOfRange mol.currentStep formula.steps.length))
        | some step =>
          match call.caller.verifyStep step with
          | .error (.retry output retries) =>
            .refuse (.verificationRetry outcome.completedStep.id output retries)
          | .error (.exhausted reason) => .park (.from_ reason) (.verificationExhausted reason)
          | .error (.unsupported what) => .refuse (.unsupported outcome.completedStep.id what)
          | .error (.other message) => .refuse (.effect message)
          | .ok _ =>
            let missing := step.expectedArtifacts.filter fun a => call.artifactPresent a = false
            if missing ≠ [] then .refuse (.artifactsMissing outcome.completedStep.id missing)
            else
              match simpleId "StepId" outcome.completedStep.id with
              | .error e => .refuse (.storeUnavailable e.toString)
              | .ok _ => .advance outcome

def StepRecord.advance (mol : StepRecord) (outcome : EvolveOutcome) (now : Instant) : StepRecord :=
  { toMoleculeData := advanced mol.toMoleculeData outcome now
    pendingStep := some ⟨(advanced mol.toMoleculeData outcome now).currentStep, now, none⟩
    lastProgressAt := some now
    lastOutputAt := some now }

def StepRecord.passGate (updated : StepRecord) (outcome : EvolveOutcome) (now : Instant) : StepRecord :=
  { updated with
    toMoleculeData := gatePassed updated.toMoleculeData outcome now
    lastProgressAt := some now
    lastOutputAt := some now }

def StepRecord.failGate (updated : StepRecord) (reason : String) (now : Instant) : StepRecord :=
  { updated with toMoleculeData := gateFailed updated.toMoleculeData reason now }

structure Hook where
  store : Store
  updated : StepRecord
  result : Except String Unit

def saveGate (effects : Effects) (s : Store) (updated : StepRecord) (events : List EventV2) : Hook :=
  match s.saveMolecule effects.gate.save updated with
  | .error e => ⟨s, updated, .error e.toString⟩
  | .ok s' => ⟨s'.emit effects events, updated, .ok ()⟩

def runGate (machine : Machine) (formula : Formula) (effects : Effects) (s : Store)
    (updated : StepRecord) (next : Step) (command : String) (now : Instant) : Hook :=
  match machine.trusted with
  | .error e => ⟨s, updated, .error e⟩
  | .ok _ =>
    let ran := machine.shell command
    match effects.gate.lock with
    | some e => ⟨s, updated, .error e.toString⟩
    | none =>
      if ran.success then
        match simpleId "StepId" next.id with
        | .error e => ⟨s, updated, .error e.toString⟩
        | .ok _ =>
          let evidence := "gate step \"" ++ next.id ++ "\" auto-executed (exit 0)"
          match Core.Evolve.evolve updated.status updated.currentStep updated.completedSteps formula
              evidence with
          | .error e => ⟨s, updated, .error e.toString⟩
          | .ok outcome =>
            saveGate effects s (updated.passGate outcome now)
              (.moleculeStepCompleted updated.id outcome.completedStep.index formula.steps.length
                  (some evidence) ::
                (if outcome.newState = .completed then
                  [.moleculeCompleted updated.id
                    ("gate step \"" ++ next.id ++ "\" auto-executed, all steps done") (some evidence)]
                else []))
      else saveGate effects s (updated.failGate (gateFailure next ran) now) []

def afterAdvance (caller : Caller) (formula : Formula) (effects : Effects) (s : Store)
    (updated : StepRecord) (outcome : EvolveOutcome) (now : Instant) : Hook :=
  match caller, outcome.newState with
  | .cli machine, .active currentStep _ _ =>
    match formula.steps[currentStep]? with
    | none => ⟨s, updated, .ok ()⟩
    | some next =>
      match next.command with
      | none => ⟨s, updated, .ok ()⟩
      | some command => runGate machine formula effects s updated next command now
  | _, _ => ⟨s, updated, .ok ()⟩

def amend (c : Section) (change : StepRecord → StepRecord) (s : Store) : Except CosmonError Store :=
  match c.lock with
  | some e => .error e
  | none =>
    match s.loadMolecule c.load with
    | .error e => .error e
    | .ok mol => s.saveMolecule c.save (change mol)

def StepRecord.pushBriefingSeal (s : BriefingSeal) (now : Instant) (mol : StepRecord) : StepRecord :=
  { mol with briefingSeals := mol.briefingSeals ++ [s], updatedAt := now }

def StepRecord.pushBootstrapSeal (s : BriefingSeal) (now : Instant) (mol : StepRecord) : StepRecord :=
  { mol with bootstrapSeals := mol.bootstrapSeals ++ [s], updatedAt := now }

def StepRecord.clearPending (now : Instant) (mol : StepRecord) : StepRecord :=
  { mol with pendingStep := none, updatedAt := now }

/-- A seal that cannot be persisted is reported and swallowed. -/
def persistSeal (effects : Effects) (c : Section) (change : StepRecord → StepRecord)
    (event : EventV2) (s : Store) : Store :=
  match amend c change s with
  | .error _ => s
  | .ok s' => s'.emit effects [event]

def sealBriefing (call : EvolveCall) (effects : Effects) (s : Store) : Store :=
  match call.briefingSeal with
  | none => s
  | some sealed =>
    persistSeal effects effects.sealing (StepRecord.pushBriefingSeal sealed call.now)
      (.briefingSealed s.id sealed.step sealed.hash sealed.sealedAt sealed.briefingBytes
        sealed.canonicalVersion) s

def afterBriefing (call : EvolveCall) (effects : Effects) (s : Store) : Store :=
  match call.caller, effects.bootstrapSeal with
  | .cli _, some sealed =>
    persistSeal effects effects.bootstrap (StepRecord.pushBootstrapSeal sealed call.now)
      (.bootstrapSealed s.id sealed.step sealed.hash sealed.sealedAt sealed.briefingBytes
        sealed.canonicalVersion) s
  | _, _ => s

def clearReceipt (call : EvolveCall) (effects : Effects) (s : Store) : Except CosmonError Store :=
  match effects.receipt.lock with
  | some e => .error e
  | none =>
    match s.loadMolecule effects.receipt.load with
    | .error e => .error e
    | .ok mol =>
      if mol.pendingStep.isSome then s.saveMolecule effects.receipt.save (mol.clearPending call.now)
      else .ok s

def writeArtifacts (call : EvolveCall) (effects : Effects) (s : Store) :
    Store × Except EvolveOpError Unit :=
  match effects.log, effects.briefing, effects.posture with
  | some e, _, _ => (s, .error (.effect ("failed to write log.md: " ++ e)))
  | none, some e, _ => (s, .error (.effect ("failed to write briefing.md: " ++ e)))
  | none, none, some e =>
    (s, .error (.effect ("failed to deliver committee-posture pointer into briefing.md: " ++ e)))
  | none, none, none =>
    let s := afterBriefing call effects (sealBriefing call effects s)
    match clearReceipt call effects s with
    | .error e => (s, .error (fromCosmon s.id e))
    | .ok s' => (s', .ok ())

def finishAdvance (formula : Formula) (call : EvolveCall) (effects : Effects) (s : Store)
    (updated : StepRecord) (outcome : EvolveOutcome) :
    Store × Except EvolveOpError (StepRecord × EvolveOutcome) :=
  let hook := afterAdvance call.caller formula effects s updated outcome call.now
  match hook.result with
  | .error e => (hook.store, .error (.effect e))
  | .ok _ =>
    let emitted := hook.store.emit effects
      (advanceEvents hook.updated.toMoleculeData outcome call.evidence)
    let (s', result) := writeArtifacts call effects emitted
    (s', result.map fun _ => (hook.updated, outcome))

def park (effects : Effects) (s : Store) (mol : StepRecord) (reason : StuckReason) (now : Instant) :
    Except EvolveOpError Store :=
  match s.saveMolecule effects.advance.save { mol with status := .frozen, updatedAt := now } with
  | .error e => .error (fromCosmon s.id e)
  | .ok s' => .ok (s'.emit effects [.moleculeStuck s.id reason])

def evolve (formula : Formula) (call : EvolveCall) (effects : Effects) (s : Store) :
    Store × Except EvolveOpError (StepRecord × EvolveOutcome) :=
  match effects.advance.lock with
  | some e => (s, .error (fromCosmon s.id e))
  | none =>
    match s.loadMolecule effects.advance.load with
    | .error e => (s, .error (fromCosmon s.id e))
    | .ok mol =>
      match verdict formula mol.toMoleculeData call with
      | .refuse e => (s, .error e)
      | .park reason e =>
        match park effects s mol reason call.now with
        | .error e => (s, .error e)
        | .ok s' => (s', .error e)
      | .advance outcome =>
        let updated := mol.advance outcome call.now
        match s.saveMolecule effects.advance.save updated with
        | .error e => (s, .error (fromCosmon s.id e))
        | .ok s' => finishAdvance formula call effects s' updated outcome

section Saving

variable {s : Store} {current data : StepRecord}

theorem saveMolecule_ok (hs : s.record = some current) (hlive : current.status ≠ .collapsed) :
    s.saveMolecule none data = .ok { s with record := some data } := by
  have hguard : refusesSave current.toMoleculeData data.toMoleculeData = false := by
    simp only [refusesSave, decide_eq_false hlive, Bool.false_and]
  simp only [Store.saveMolecule, hs, Option.any_some, hguard, Bool.false_eq_true, if_false]

theorem saveMolecule_amended (hs : s.record = some current) (hstatus : data.status = current.status)
    (hreceipt : data.collapseReceipt = current.collapseReceipt) :
    s.saveMolecule none data = .ok { s with record := some data } := by
  have hguard : refusesSave current.toMoleculeData data.toMoleculeData = false := by
    by_cases h : current.status = .collapsed
    · simp only [refusesSave, hstatus, hreceipt, h, ne_eq, not_true_eq_false, decide_false,
        Bool.or_self, Bool.and_false]
    · simp only [refusesSave, decide_eq_false h, Bool.false_and]
  simp only [Store.saveMolecule, hs, Option.any_some, hguard, Bool.false_eq_true, if_false]

theorem saveMolecule_fault (s : Store) (data : StepRecord) (e : CosmonError) :
    ∃ e', s.saveMolecule (some e) data = .error e' := by
  unfold Store.saveMolecule
  split
  · exact ⟨_, rfl⟩
  · exact ⟨e, rfl⟩

theorem saveMolecule_record {fault : Option CosmonError} {s' : Store}
    (h : s.saveMolecule fault data = .ok s') : s'.record = some data ∧ s'.id = s.id := by
  unfold Store.saveMolecule at h
  split at h
  · cases h
  · cases fault with
    | some e => cases h
    | none =>
      cases h
      exact ⟨rfl, rfl⟩

end Saving

theorem loadMolecule_ok {s : Store} {mol : StepRecord} (h : s.record = some mol) :
    s.loadMolecule none = .ok mol := by
  simp only [Store.loadMolecule, h]

theorem loadMolecule_fault (s : Store) (e : CosmonError) : s.loadMolecule (some e) = .error e := by
  rw [Store.loadMolecule]

theorem loadMolecule_record {s : Store} {fault : Option CosmonError} {mol : StepRecord}
    (h : s.loadMolecule fault = .ok mol) : fault = none ∧ s.record = some mol := by
  unfold Store.loadMolecule at h
  split at h
  · cases h
  · cases h
  · rename_i hrecord
    cases h
    exact ⟨rfl, hrecord⟩

@[simp] theorem emit_record (s : Store) (effects : Effects) (events : List EventV2) :
    (s.emit effects events).record = s.record := rfl

/-- A record past the advance of `mol`, with its intent still on it. -/
structure Ahead (mol r : StepRecord) : Prop where
  longer : mol.completedSteps.length < r.completedSteps.length
  pending : r.pendingStep.isSome

theorem advanced_completedSteps (mol : MoleculeData) (outcome : EvolveOutcome) (now : Instant) :
    (advanced mol outcome now).completedSteps = mol.completedSteps ++ [outcome.completedStep.id] := by
  rw [advanced]
  cases outcome.newState with
  | active currentStep stepId title => rfl
  | completed => rfl

theorem gatePassed_completedSteps (mol : MoleculeData) (outcome : EvolveOutcome) (now : Instant) :
    (gatePassed mol outcome now).completedSteps = mol.completedSteps ++ [outcome.completedStep.id] := by
  rw [gatePassed]
  cases outcome.newState with
  | active currentStep stepId title => rfl
  | completed => rfl

theorem advanced_live (mol : MoleculeData) (outcome : EvolveOutcome) (now : Instant) :
    (advanced mol outcome now).status ≠ .collapsed := by
  rw [advanced]
  cases outcome.newState with
  | active currentStep stepId title => exact fun h => nomatch h
  | completed =>
    dsimp only
    split
    · exact fun h => nomatch h
    · exact fun h => nomatch h

theorem Ahead.advance (mol : StepRecord) (outcome : EvolveOutcome) (now : Instant) :
    Ahead mol (mol.advance outcome now) where
  longer := by
    rw [StepRecord.advance, advanced_completedSteps, List.length_append, List.length_singleton]
    exact Nat.lt_succ_self _
  pending := rfl

theorem Ahead.passGate {mol r : StepRecord} (h : Ahead mol r) (outcome : EvolveOutcome)
    (now : Instant) : Ahead mol (r.passGate outcome now) where
  longer := by
    rw [StepRecord.passGate, gatePassed_completedSteps, List.length_append]
    exact Nat.lt_add_right _ h.longer
  pending := h.pending

theorem Ahead.failGate {mol r : StepRecord} (h : Ahead mol r) (reason : String) (now : Instant) :
    Ahead mol (r.failGate reason now) := ⟨h.longer, h.pending⟩

/-- The store holds a record past the advance of `mol`. -/
def HoldsAhead (mol : StepRecord) (s : Store) : Prop := ∃ r, s.record = some r ∧ Ahead mol r

/-- A change that keeps the steps, the intent, the status and the receipt. -/
structure Amends (change : StepRecord → StepRecord) : Prop where
  completedSteps : ∀ r, (change r).completedSteps = r.completedSteps
  pendingStep : ∀ r, (change r).pendingStep = r.pendingStep

theorem amends_pushBriefingSeal (sealed : BriefingSeal) (now : Instant) :
    Amends (StepRecord.pushBriefingSeal sealed now) := ⟨fun _ => rfl, fun _ => rfl⟩

theorem amends_pushBootstrapSeal (sealed : BriefingSeal) (now : Instant) :
    Amends (StepRecord.pushBootstrapSeal sealed now) := ⟨fun _ => rfl, fun _ => rfl⟩

theorem persistSeal_ahead {mol : StepRecord} {s : Store} {change : StepRecord → StepRecord}
    (h : HoldsAhead mol s) (hchange : Amends change) (effects : Effects) (c : Section)
    (event : EventV2) : HoldsAhead mol (persistSeal effects c change event s) := by
  obtain ⟨r, hr, hahead⟩ := h
  unfold persistSeal
  split
  · exact ⟨r, hr, hahead⟩
  · rename_i s' hs'
    unfold amend at hs'
    split at hs'
    · cases hs'
    · split at hs'
      · cases hs'
      · rename_i read hread
        obtain ⟨-, hrecord⟩ := loadMolecule_record hread
        obtain ⟨hsaved, -⟩ := saveMolecule_record hs'
        rw [hr] at hrecord
        cases hrecord
        refine ⟨change r, hsaved, ?_, ?_⟩
        · rw [hchange.completedSteps]
          exact hahead.longer
        · rw [hchange.pendingStep]
          exact hahead.pending

theorem sealBriefing_ahead {mol : StepRecord} {s : Store} (h : HoldsAhead mol s) (call : EvolveCall)
    (effects : Effects) : HoldsAhead mol (sealBriefing call effects s) := by
  unfold sealBriefing
  split
  · exact h
  · exact persistSeal_ahead h (amends_pushBriefingSeal _ _) _ _ _

theorem afterBriefing_ahead {mol : StepRecord} {s : Store} (h : HoldsAhead mol s) (call : EvolveCall)
    (effects : Effects) : HoldsAhead mol (afterBriefing call effects s) := by
  unfold afterBriefing
  split
  · exact persistSeal_ahead h (amends_pushBootstrapSeal _ _) _ _ _
  · exact h

theorem clearReceipt_cases {r : StepRecord} {s : Store} (hr : s.record = some r)
    (hpending : r.pendingStep.isSome) (call : EvolveCall) (effects : Effects) :
    (effects.receipt.Clear ∧
        clearReceipt call effects s = .ok { s with record := some (r.clearPending call.now) }) ∨
      ¬ effects.receipt.Clear ∧ ∃ e, clearReceipt call effects s = .error e := by
  unfold clearReceipt
  cases hlock : effects.receipt.lock with
  | some e => exact Or.inr ⟨fun hc => (nomatch hlock.symm.trans hc.lock), e, rfl⟩
  | none =>
    cases hload : effects.receipt.load with
    | some e =>
      refine Or.inr ⟨fun hc => (nomatch hload.symm.trans hc.load), e, ?_⟩
      simp only [loadMolecule_fault]
    | none =>
      simp only [loadMolecule_ok hr, hpending, if_true]
      cases hsave : effects.receipt.save with
      | some e =>
        exact Or.inr ⟨fun hc => (nomatch hsave.symm.trans hc.save), saveMolecule_fault _ _ e⟩
      | none => exact Or.inl ⟨⟨hlock, hload, hsave⟩, saveMolecule_amended hr rfl rfl⟩

/-- The files and the receipt of an advance go through. -/
structure ArtifactsLand (effects : Effects) : Prop where
  log : effects.log = none
  briefing : effects.briefing = none
  posture : effects.posture = none
  receipt : effects.receipt.Clear

theorem writeArtifacts_cases {mol : StepRecord} {s : Store} (h : HoldsAhead mol s)
    (call : EvolveCall) (effects : Effects) :
    (∃ r, (writeArtifacts call effects s).1.record = some r ∧
        mol.completedSteps.length < r.completedSteps.length) ∧
      ((ArtifactsLand effects ∧ (writeArtifacts call effects s).2 = .ok ()) ∨
        ¬ ArtifactsLand effects ∧
          ∃ e, (writeArtifacts call effects s).2 = .error e ∧ EvolveOpError.parks e = false) := by
  have hstays : ∃ r, s.record = some r ∧ mol.completedSteps.length < r.completedSteps.length := by
    obtain ⟨r, hr, hahead⟩ := h
    exact ⟨r, hr, hahead.longer⟩
  unfold writeArtifacts
  split
  · rename_i e hlog
    exact ⟨hstays, Or.inr ⟨fun hl => (nomatch hlog.symm.trans hl.log), _, rfl, rfl⟩⟩
  · rename_i e hlog hbriefing
    exact ⟨hstays, Or.inr ⟨fun hl => (nomatch hbriefing.symm.trans hl.briefing), _, rfl, rfl⟩⟩
  · rename_i e hlog hbriefing hposture
    exact ⟨hstays, Or.inr ⟨fun hl => (nomatch hposture.symm.trans hl.posture), _, rfl, rfl⟩⟩
  · rename_i hlog hbriefing hposture
    obtain ⟨r, hr, hahead⟩ := afterBriefing_ahead (sealBriefing_ahead h call effects) call effects
    obtain ⟨hclear, hok⟩ | ⟨hclear, e, he⟩ := clearReceipt_cases hr hahead.pending call effects
    · simp only [hok]
      exact ⟨⟨_, rfl, hahead.longer⟩, Or.inl ⟨⟨hlog, hbriefing, hposture, hclear⟩, trivial⟩⟩
    · simp only [he]
      refine ⟨⟨r, hr, hahead.longer⟩, Or.inr ⟨fun hl => hclear hl.receipt, _, rfl, ?_⟩⟩
      cases e <;> rfl

/-- The inline gate that the molecule has reached runs into a failure. -/
def GateFails (machine : Machine) (formula : Formula) (effects : Effects) (updated : StepRecord)
    (next : Step) (command : String) : Prop :=
  (∃ e, machine.trusted = .error e) ∨ effects.gate.lock ≠ none ∨ effects.gate.save ≠ none ∨
    (machine.shell command).success = true ∧
      ((∃ e, simpleId "StepId" next.id = .error e) ∨
        ∃ e, Core.Evolve.evolve updated.status updated.currentStep updated.completedSteps formula
          ("gate step \"" ++ next.id ++ "\" auto-executed (exit 0)") = .error e)

def HookFails (caller : Caller) (formula : Formula) (effects : Effects) (updated : StepRecord)
    (outcome : EvolveOutcome) : Prop :=
  ∃ machine index stepId title next command, caller = .cli machine ∧
    outcome.newState = .active index stepId title ∧ formula.steps[index]? = some next ∧
    next.command = some command ∧ GateFails machine formula effects updated next command

section Hook

variable {mol updated : StepRecord} {s : Store}

theorem saveGate_cases (hs : s.record = some updated) (hahead : Ahead mol updated)
    (hlive : updated.status ≠ .collapsed) {data : StepRecord} (hdata : Ahead mol data)
    (effects : Effects) (events : List EventV2) :
    HoldsAhead mol (saveGate effects s data events).store ∧
      ((effects.gate.save = none ∧ (saveGate effects s data events).result = .ok ()) ∨
        effects.gate.save ≠ none ∧ ∃ e, (saveGate effects s data events).result = .error e) := by
  unfold saveGate
  cases hsave : effects.gate.save with
  | some e =>
    obtain ⟨e', he'⟩ := saveMolecule_fault s data e
    simp only [he']
    exact ⟨⟨updated, hs, hahead⟩, Or.inr ⟨Option.some_ne_none e, _, rfl⟩⟩
  | none =>
    simp only [saveMolecule_ok hs hlive]
    exact ⟨⟨data, rfl, hdata⟩, Or.inl ⟨trivial, trivial⟩⟩

theorem runGate_cases (hs : s.record = some updated) (hahead : Ahead mol updated)
    (hlive : updated.status ≠ .collapsed) (machine : Machine) (formula : Formula) (effects : Effects)
    (next : Step) (command : String) (now : Instant) :
    HoldsAhead mol (runGate machine formula effects s updated next command now).store ∧
      ((¬ GateFails machine formula effects updated next command ∧
          (runGate machine formula effects s updated next command now).result = .ok ()) ∨
        GateFails machine formula effects updated next command ∧
          ∃ e, (runGate machine formula effects s updated next command now).result = .error e) := by
  have hstays : HoldsAhead mol s := ⟨updated, hs, hahead⟩
  unfold runGate GateFails
  cases machine.trusted with
  | error e => exact ⟨hstays, Or.inr ⟨Or.inl ⟨e, rfl⟩, e, rfl⟩⟩
  | ok u =>
    cases effects.gate.lock with
    | some e => exact ⟨hstays, Or.inr ⟨Or.inr (Or.inl (Option.some_ne_none e)), _, rfl⟩⟩
    | none =>
      dsimp only
      by_cases hran : (machine.shell command).success = true
      · simp only [hran]
        cases simpleId "StepId" next.id with
        | error e =>
          exact ⟨hstays, Or.inr ⟨Or.inr (Or.inr (Or.inr ⟨trivial, Or.inl ⟨e, rfl⟩⟩)), _, rfl⟩⟩
        | ok stepId =>
          dsimp only
          cases Core.Evolve.evolve updated.status updated.currentStep updated.completedSteps formula
              ("gate step \"" ++ next.id ++ "\" auto-executed (exit 0)") with
          | error e =>
            exact ⟨hstays, Or.inr ⟨Or.inr (Or.inr (Or.inr ⟨trivial, Or.inr ⟨e, rfl⟩⟩)), _, rfl⟩⟩
          | ok outcome =>
            obtain ⟨hheld, ⟨hsave, hok⟩ | ⟨hsave, herr⟩⟩ :=
              saveGate_cases hs hahead hlive (hahead.passGate outcome now) effects _
            · exact ⟨hheld, Or.inl ⟨by simp [hsave], hok⟩⟩
            · exact ⟨hheld, Or.inr ⟨Or.inr (Or.inr (Or.inl hsave)), herr⟩⟩
      · simp only [if_neg hran]
        obtain ⟨hheld, ⟨hsave, hok⟩ | ⟨hsave, herr⟩⟩ :=
          saveGate_cases hs hahead hlive
            (hahead.failGate (gateFailure next (machine.shell command)) now) effects []
        · exact ⟨hheld, Or.inl ⟨by simp [hsave, hran], hok⟩⟩
        · exact ⟨hheld, Or.inr ⟨Or.inr (Or.inr (Or.inl hsave)), herr⟩⟩

/-- Whatever the hook does, the advance stays in the store; it fails exactly when the
inline gate does. -/
theorem afterAdvance_cases (hs : s.record = some updated) (hahead : Ahead mol updated)
    (hlive : updated.status ≠ .collapsed) (caller : Caller) (formula : Formula) (effects : Effects)
    (outcome : EvolveOutcome) (now : Instant) :
    HoldsAhead mol (afterAdvance caller formula effects s updated outcome now).store ∧
      ((¬ HookFails caller formula effects updated outcome ∧
          (afterAdvance caller formula effects s updated outcome now).result = .ok ()) ∨
        HookFails caller formula effects updated outcome ∧
          ∃ e, (afterAdvance caller formula effects s updated outcome now).result = .error e) := by
  have hstays : HoldsAhead mol s := ⟨updated, hs, hahead⟩
  unfold afterAdvance HookFails
  cases caller with
  | remote => exact ⟨hstays, Or.inl ⟨fun ⟨_, _, _, _, _, _, h, _⟩ => (nomatch h), rfl⟩⟩
  | cli machine =>
    cases outcome.newState with
    | completed => exact ⟨hstays, Or.inl ⟨fun ⟨_, _, _, _, _, _, _, h, _⟩ => (nomatch h), rfl⟩⟩
    | active index stepId title =>
      dsimp only
      cases hnext : formula.steps[index]? with
      | none =>
        refine ⟨hstays, Or.inl ⟨?_, rfl⟩⟩
        intro ⟨_, index', _, _, next, _, _, hstate, hget, _⟩
        cases hstate
        rw [hnext] at hget
        cases hget
      | some next =>
        dsimp only
        cases hcommand : next.command with
        | none =>
          refine ⟨hstays, Or.inl ⟨?_, rfl⟩⟩
          intro ⟨_, index', _, _, next', _, _, hstate, hget, hcommand', _⟩
          cases hstate
          rw [hnext] at hget
          cases hget
          rw [hcommand] at hcommand'
          cases hcommand'
        | some command =>
          dsimp only
          obtain ⟨hheld, ⟨hgate, hok⟩ | ⟨hgate, herr⟩⟩ :=
            runGate_cases hs hahead hlive machine formula effects next command now
          · refine ⟨hheld, Or.inl ⟨?_, hok⟩⟩
            intro ⟨machine', index', _, _, next', command', hcaller, hstate, hget, hcommand', hfails⟩
            cases hcaller
            cases hstate
            rw [hnext] at hget
            cases hget
            rw [hcommand] at hcommand'
            cases hcommand'
            exact hgate hfails
          · exact ⟨hheld, Or.inr ⟨⟨machine, index, stepId, title, next, command, rfl, rfl, hnext,
              hcommand, hgate⟩, herr⟩⟩

end Hook

/-- An effect after the save of the advance fails: the inline gate, a file, or the
receipt. -/
def LaterFails (formula : Formula) (call : EvolveCall) (effects : Effects) (updated : StepRecord)
    (outcome : EvolveOutcome) : Prop :=
  HookFails call.caller formula effects updated outcome ∨ ¬ ArtifactsLand effects

theorem finishAdvance_cases {mol updated : StepRecord} {s : Store} (hs : s.record = some updated)
    (hahead : Ahead mol updated) (hlive : updated.status ≠ .collapsed) (formula : Formula)
    (call : EvolveCall) (effects : Effects) (outcome : EvolveOutcome) :
    (∃ r, (finishAdvance formula call effects s updated outcome).1.record = some r ∧
        mol.completedSteps.length < r.completedSteps.length) ∧
      ((¬ LaterFails formula call effects updated outcome ∧
          ∃ view, (finishAdvance formula call effects s updated outcome).2 = .ok view) ∨
        LaterFails formula call effects updated outcome ∧
          ∃ e, (finishAdvance formula call effects s updated outcome).2 = .error e ∧
            EvolveOpError.parks e = false) := by
  have hhook := afterAdvance_cases hs hahead hlive call.caller formula effects outcome call.now
  unfold finishAdvance LaterFails
  generalize afterAdvance call.caller formula effects s updated outcome call.now = hook at hhook ⊢
  obtain ⟨⟨r, hr, hrahead⟩, ⟨hhook, hok⟩ | ⟨hhook, e, he⟩⟩ := hhook
  · simp only [hok]
    have hheld : HoldsAhead mol (hook.store.emit effects
        (advanceEvents hook.updated.toMoleculeData outcome call.evidence)) := ⟨r, hr, hrahead⟩
    obtain ⟨hlonger, ⟨hland, hdone⟩ | ⟨hland, e, he, hparks⟩⟩ := writeArtifacts_cases hheld call effects
    · refine ⟨hlonger, Or.inl ⟨fun h => h.elim hhook fun hn => hn hland, (hook.updated, outcome), ?_⟩⟩
      rw [hdone]
      rfl
    · refine ⟨hlonger, Or.inr ⟨Or.inr hland, e, ?_, hparks⟩⟩
      rw [he]
      rfl
  · simp only [he]
    exact ⟨⟨r, hr, hrahead.longer⟩, Or.inr ⟨Or.inl hhook, _, rfl, rfl⟩⟩

/-- The checks of the advance pass on the stored record and its save goes through. -/
structure AdvanceSaved (formula : Formula) (call : EvolveCall) (effects : Effects) (s : Store)
    (mol : StepRecord) (outcome : EvolveOutcome) : Prop where
  clear : effects.advance.Clear
  record : s.record = some mol
  passed : verdict formula mol.toMoleculeData call = .advance outcome

theorem verdict_collapsed {mol : MoleculeData} (h : mol.status = .collapsed) (formula : Formula)
    (call : EvolveCall) : verdict formula mol call = .refuse (.notRunnable mol.id mol.status) := by
  unfold verdict
  rw [if_pos (Or.inr h)]

theorem verdict_live {formula : Formula} {mol : MoleculeData} {call : EvolveCall}
    (h : ∀ e, verdict formula mol call ≠ .refuse e) : mol.status ≠ .collapsed :=
  fun hstatus => h _ (verdict_collapsed hstatus formula call)

theorem verdict_park_parks {formula : Formula} {mol : MoleculeData} {call : EvolveCall}
    {reason : StuckReason} {e : EvolveOpError} (h : verdict formula mol call = .park reason e) :
    EvolveOpError.parks e = true := by
  unfold verdict at h
  split at h
  · cases h
  · split at h
    · cases h
      rfl
    · split at h
      · cases h
      · split at h
        · cases h
        · split at h
          · cases h
          · cases h
            rfl
          · cases h
          · cases h
          · dsimp only at h
            split at h
            · cases h
            · split at h
              · cases h
              · cases h

theorem evolve_saved {formula : Formula} {call : EvolveCall} {effects : Effects} {s : Store}
    {mol : StepRecord} {outcome : EvolveOutcome}
    (h : AdvanceSaved formula call effects s mol outcome) :
    evolve formula call effects s =
      finishAdvance formula call effects { s with record := some (mol.advance outcome call.now) }
        (mol.advance outcome call.now) outcome := by
  have hlive : mol.status ≠ .collapsed := verdict_live fun e he => nomatch h.passed.symm.trans he
  unfold evolve
  simp only [h.clear.lock, h.clear.load, h.clear.save, loadMolecule_ok h.record, h.passed,
    saveMolecule_ok h.record hlive]

theorem evolve_unsaved {formula : Formula} {call : EvolveCall} {effects : Effects} {s : Store}
    (h : ∀ mol outcome, ¬ AdvanceSaved formula call effects s mol outcome) :
    ∃ e, (evolve formula call effects s).2 = .error e ∧
      (EvolveOpError.parks e = true ∨ (evolve formula call effects s).1 = s) := by
  unfold evolve
  cases hlock : effects.advance.lock with
  | some e => exact ⟨_, rfl, Or.inr rfl⟩
  | none =>
    dsimp only
    cases hload : s.loadMolecule effects.advance.load with
    | error e => exact ⟨_, rfl, Or.inr rfl⟩
    | ok mol =>
      obtain ⟨hfault, hrecord⟩ := loadMolecule_record hload
      dsimp only
      cases hverdict : verdict formula mol.toMoleculeData call with
      | refuse e => exact ⟨e, rfl, Or.inr rfl⟩
      | park reason e =>
        dsimp only
        cases park effects s mol reason call.now with
        | error e => exact ⟨e, rfl, Or.inr rfl⟩
        | ok s' => exact ⟨e, rfl, Or.inl (verdict_park_parks hverdict)⟩
      | advance outcome =>
        dsimp only
        cases hsave : s.saveMolecule effects.advance.save (mol.advance outcome call.now) with
        | error e => exact ⟨_, rfl, Or.inr rfl⟩
        | ok s' =>
          have hclear : effects.advance.save = none := by
            cases hs : effects.advance.save with
            | none => rfl
            | some e =>
              obtain ⟨e', he'⟩ := saveMolecule_fault s (mol.advance outcome call.now) e
              rw [hs, he'] at hsave
              cases hsave
          exact absurd ⟨⟨hlock, hfault, hclear⟩, hrecord, hverdict⟩ (h mol outcome)

/-- An error that is not one of the two that park leaves the stored molecule as it
was, unless the advance was saved before a later effect failed. -/
theorem evolve_error_keeps_iff (formula : Formula) (call : EvolveCall) (effects : Effects)
    (s : Store) :
    (∀ e, (evolve formula call effects s).2 = .error e → EvolveOpError.parks e = false →
        (evolve formula call effects s).1.record = s.record) ↔
      ∀ mol outcome, AdvanceSaved formula call effects s mol outcome →
        ¬ LaterFails formula call effects (mol.advance outcome call.now) outcome := by
  constructor
  · intro hkeeps mol outcome hsaved hlater
    have hstep := evolve_saved hsaved
    obtain ⟨⟨r, hr, hlonger⟩, ⟨hno, -⟩ | ⟨-, e, he, hparks⟩⟩ :=
      finishAdvance_cases (s := { s with record := some (mol.advance outcome call.now) }) rfl
        (Ahead.advance mol outcome call.now) (advanced_live _ _ _) formula call effects outcome
    · exact hno hlater
    · rw [← hstep] at he hr
      have hsame := hkeeps e he hparks
      rw [hr, hsaved.record] at hsame
      cases hsame
      exact Nat.lt_irrefl _ hlonger
  · intro hcondition e he hparks
    by_cases hsaved : ∃ mol outcome, AdvanceSaved formula call effects s mol outcome
    · obtain ⟨mol, outcome, hsaved⟩ := hsaved
      obtain ⟨-, ⟨-, view, hview⟩ | ⟨hlater, -⟩⟩ :=
        finishAdvance_cases (s := { s with record := some (mol.advance outcome call.now) }) rfl
          (Ahead.advance mol outcome call.now) (advanced_live _ _ _) formula call effects outcome
      · rw [evolve_saved hsaved, hview] at he
        cases he
      · exact absurd hlater (hcondition mol outcome hsaved)
    · obtain ⟨e', he', hpark | hsame⟩ := evolve_unsaved fun mol outcome h => hsaved ⟨mol, outcome, h⟩
      · rw [he] at he'
        cases he'
        rw [hparks] at hpark
        cases hpark
      · rw [hsame]

def exampleFormula : Formula :=
  { name := "ship", description := "", freezeOnLastStep := false, tier := .zero
    requiresCapabilities := []
    steps := [
      { id := "build", title := "", description := "", exitCriteria := none, expectedArtifacts := []
        responseArtifact := none, dependsOn := [], order := 0, validationMode := none
        verification := none, command := none, native := none, parallelLimit := none, query := none
        llm := none }] }

/-- The molecule is `Completed` in the store while the call fails on `log.md`. -/
theorem evolve_error_changes :
    ¬ ∀ (formula : Formula) (call : EvolveCall) (effects : Effects) (s : Store) (e : EvolveOpError),
      (evolve formula call effects s).2 = .error e → EvolveOpError.parks e = false →
        (evolve formula call effects s).1.record = s.record := by
  intro h
  have hsame := h exampleFormula { evidence := "done" } { log := some "No space left on device" }
    { id := "task-1", record := some { id := "task-1", status := .running, totalSteps := 1 } }
    (.effect "failed to write log.md: No space left on device") rfl rfl
  exact absurd hsame (by decide)

section NoFaults

variable {s : Store} {mol updated : StepRecord}

end NoFaults

end Cosmon.State.EvolveFaults
