import Cosmon.Runtime.Actions
import Cosmon.Runtime.DagScheduler

namespace Cosmon.Runtime.RunLoop

open Cosmon.State.Molecule Cosmon.Runtime.Actions Cosmon.Runtime.DagScheduler

inductive ShutdownReason where
  | policyDrained
  | signalTripped
  | deadline
  | budgetExhausted
  | moleculeQuotaExceeded
  | dispatchRefused
deriving DecidableEq

structure DispatchRefusal where
  molecule : MoleculeId
  reason : String
deriving DecidableEq

structure RunReport where
  reason : ShutdownReason
  ticks : Nat
  actionsApplied : Nat
  refusal : Option DispatchRefusal := none
deriving DecidableEq

/-- The bounds of one run; `none` is unbounded. -/
structure RunBounds where
  maxActions : Option Nat := none
  maxMolecules : Option Nat := none

structure RuntimeConfig where
  sweepOrphanDescendantsEvery : Option Nat := none
  livenessRecheckEvery : Option Nat := none

/-- All the loop calls: store, policy, executor, liveness probe, clock and
signal. `σ` is the world behind them, in which other writers act as well. -/
structure Host (σ : Type) where
  isTripped : σ → Bool × σ
  deadlineElapsed : σ → Bool × σ
  loadSnapshot : σ → Except RuntimeError FleetSnapshot × σ
  isWorkerAlive : σ → Nat → Option Nat → Bool
  isSessionAlive : σ → String → Bool
  tickProbe : σ → MoleculeId → σ
  /-- Reload the orphan and, if it is still running, save it as pending. -/
  resetOrphan : σ → MoleculeId → Bool × σ
  onComplete : σ → MoleculeId → Bool × σ
  /-- Set `merged_at` where it is unset; whether it was saved. -/
  stampMerged : σ → MoleculeId → Bool × σ
  drainNativeTail : σ → MoleculeData → Except RuntimeError Bool × σ
  tracksMolecule : σ → MoleculeId → Bool
  refreshScope : σ → Except RuntimeError Unit × σ
  nextActions : σ → FleetSnapshot → List RuntimeAction × σ
  needsRecompile : σ → Bool
  recompile : σ → Except RuntimeError Unit × σ
  loadMolecule : σ → MoleculeId → Except RuntimeError MoleculeData × σ
  applyEvolve : σ → MoleculeId → String → Except RuntimeError Unit × σ
  applyComplete : σ → MoleculeId → String → Except RuntimeError Unit × σ
  applyFreeze : σ → MoleculeId → Except RuntimeError Unit × σ
  applyCollapse : σ → MoleculeId → String → Except RuntimeError Unit × σ
  sleep : σ → σ

structure Loop (σ : Type) where
  world : σ
  ticks : Nat := 0
  actionsApplied : Nat := 0
  completionHandled : List MoleculeId := []

/-- One turn of the loop ends in the next turn or in the value of `run`. -/
inductive Turn (σ : Type) where
  | goOn (l : Loop σ)
  | stop (result : Except RuntimeError RunReport)

section Tick

variable {σ : Type} (host : Host σ) (config : RuntimeConfig) (bounds : RunBounds)

/-- A running molecule whose worker is dead: by its recorded process, else by
its session. -/
def isOrphan (w : σ) (m : MoleculeData) : Bool :=
  m.status = .running &&
    match m.process.bind (fun process => process.pid.map (fun pid => (pid, process.pidStartTime))) with
    | some (pid, startTime) => !host.isWorkerAlive w pid startTime
    | none => m.sessionName.any (fun session => !host.isSessionAlive w session)

def orphanScan (w : σ) (snapshot : FleetSnapshot) : List MoleculeId :=
  (snapshot.molecules.filter (isOrphan host w)).map MoleculeData.id

def due (every : Option Nat) (ticks : Nat) : Bool := every.any (fun n => 0 < n && ticks % n = 0)

/-- Run `f` on each id the policy tracks, and remember whether one said yes. -/
def forTracked (f : σ → MoleculeId → Bool × σ) (w : σ) (ids : List MoleculeId) : Bool × σ :=
  ids.foldl (fun acc id =>
    if host.tracksMolecule acc.2 id then
      let (yes, w) := f acc.2 id
      (acc.1 || yes, w)
    else acc) (false, w)

/-- The completion pass over the snapshot: hand each new completion to the
executor, stamp the merge, and freeze what asked for it. -/
def handleCompletions (handled : List MoleculeId) (stamped : Bool) (w : σ) :
    List MoleculeData → Except RuntimeError (List MoleculeId × Bool) × σ
  | [] => (.ok (handled, stamped), w)
  | mol :: rest =>
    if mol.status ≠ .completed ∨ host.tracksMolecule w mol.id = false ∨ mol.id ∈ handled then
      handleCompletions handled stamped w rest
    else
      let (merged, w) := host.onComplete w mol.id
      let (saved, w) := if merged then host.stampMerged w mol.id else (false, w)
      if mol.freezeOnLastStep then
        match host.applyFreeze w mol.id with
        | (.error e, w) => (.error e, w)
        | (.ok (), w) => handleCompletions (mol.id :: handled) (stamped || saved) w rest
      else handleCompletions (mol.id :: handled) (stamped || saved) w rest

def drainTails (drained : Nat) (w : σ) : List MoleculeData → Nat × σ
  | [] => (drained, w)
  | mol :: rest =>
    if mol.status ≠ .running ∨ host.tracksMolecule w mol.id = false then drainTails drained w rest
    else
      match host.drainNativeTail w mol with
      | (.ok true, w) => drainTails (drained + 1) w rest
      | (.ok false, w) => drainTails drained w rest
      | (.error _, w) => drainTails drained w rest

def askPolicy (w : σ) (snapshot : FleetSnapshot) : Except RuntimeError (List RuntimeAction) × σ :=
  let (actions, w) := host.nextActions w snapshot
  if host.needsRecompile w then
    match host.recompile w with
    | (.error e, w) => (.error e, w)
    | (.ok (), w) =>
      let (actions, w) := host.nextActions w snapshot
      (.ok actions, w)
  else (.ok actions, w)

inductive Choice where
  | fail (error : RuntimeError)
  | wait
  | drained
  | act (batch : List RuntimeAction)

def rescue (w : σ) : Choice × σ :=
  match host.refreshScope w with
  | (.error e, w) => (.fail e, w)
  | (.ok (), w) =>
    match host.loadSnapshot w with
    | (.error e, w) => (.fail e, w)
    | (.ok snapshot, w) =>
      match askPolicy host w snapshot with
      | (.error e, w) => (.fail e, w)
      | (.ok [], w) => (.drained, w)
      | (.ok (a :: as), w) => (.act (a :: as), w)

def choose (w : σ) (snapshot : FleetSnapshot) : Choice × σ :=
  match askPolicy host w snapshot with
  | (.error e, w) => (.fail e, w)
  | (.ok [], w) =>
    if snapshot.molecules.any (fun m => m.status = .running) then (.wait, w) else rescue host w
  | (.ok (a :: as), w) => (.act (a :: as), w)

/-- How one action of a batch ends. -/
inductive Attempt where
  | applied (dispatched : Option MoleculeId)
  | retried
  | refused (refusal : DispatchRefusal)
  | fatal (error : RuntimeError)

def attemptOf (result : Except RuntimeError Unit) : Attempt :=
  match result with
  | .ok () => .applied none
  | .error e => .fatal e

def attempt (w : σ) : RuntimeAction → Attempt × σ
  | .noOp => (.applied none, w)
  | .nucleate _ _ => (.fatal (.unsupported "Nucleate"), w)
  | .evolve id evidence =>
    match host.applyEvolve w id evidence with
    | (.ok (), w) => (.applied (some id), w)
    | (.error (.dispatch _ _), w) => (.retried, w)
    | (.error (.dispatchRefused molecule reason), w) => (.refused ⟨molecule, reason⟩, w)
    | (.error e, w) => (.fatal e, w)
  | .complete id reason =>
    let (result, w) := host.applyComplete w id reason
    (attemptOf result, w)
  | .collapse id reason =>
    let (result, w) := host.applyCollapse w id reason
    (attemptOf result, w)

inductive Batch (σ : Type) where
  | done (w : σ) (applied : Nat) (dispatched : List MoleculeId)
  | stop (reason : ShutdownReason) (applied : Nat) (refusal : Option DispatchRefusal)
  | fatal (error : RuntimeError)

def applyBatch (w : σ) (applied : Nat) (dispatched : List MoleculeId) : List RuntimeAction → Batch σ
  | [] => .done w applied dispatched
  | action :: rest =>
    if bounds.maxActions.any (fun max => max ≤ applied) then .stop .budgetExhausted applied none
    else
      match attempt host w action with
      | (.applied id, w) => applyBatch w (applied + 1) (dispatched ++ id.toList) rest
      | (.retried, w) => applyBatch w applied dispatched rest
      | (.refused refusal, _) => .stop .dispatchRefused applied (some refusal)
      | (.fatal e, _) => .fatal e

def freezeDispatched (w : σ) : List MoleculeId → Except RuntimeError Unit × σ
  | [] => (.ok (), w)
  | id :: rest =>
    match host.loadMolecule w id with
    | (.ok mol, w) =>
      if mol.status = .completed ∧ mol.freezeOnLastStep then
        match host.applyFreeze w id with
        | (.error e, w) => (.error e, w)
        | (.ok (), w) => freezeDispatched w rest
      else freezeDispatched w rest
    | (.error _, w) => freezeDispatched w rest

/-- A turn up to the native drain: a result of `run`, or the snapshot the rest
of the turn works on and the completions handled so far. -/
inductive Prepared (σ : Type) where
  | stop (result : Except RuntimeError RunReport)
  | ready (snapshot : FleetSnapshot) (handled : List MoleculeId) (w : σ)

def preparePasses (ticks : Nat) (handled : List MoleculeId) (snapshot : FleetSnapshot) (w : σ) :
    Prepared σ :=
  let running := (snapshot.molecules.filter (fun m => m.status = .running)).map MoleculeData.id
  let (_, w) := forTracked host (fun w id => (false, host.tickProbe w id)) w running
  let (resetAny, w) :=
    if due config.livenessRecheckEvery ticks then
      forTracked host host.resetOrphan w (orphanScan host w snapshot)
    else (false, w)
  match handleCompletions host handled false w snapshot.molecules with
  | (.error e, _) => .stop (.error e)
  | (.ok (handled, stampedAny), w) =>
    if stampedAny || resetAny then
      match host.loadSnapshot w with
      | (.error e, _) => .stop (.error e)
      | (.ok snapshot, w) => .ready snapshot handled w
    else .ready snapshot handled w

def prepare (l : Loop σ) : Prepared σ :=
  let report (reason : ShutdownReason) (ticks : Nat) : RunReport := ⟨reason, ticks, l.actionsApplied, none⟩
  let (tripped, w) := host.isTripped l.world
  if tripped then .stop (.ok (report .signalTripped l.ticks))
  else
    let (elapsed, w) := host.deadlineElapsed w
    if elapsed then .stop (.ok (report .deadline l.ticks))
    else
      match host.loadSnapshot w with
      | (.error e, _) => .stop (.error e)
      | (.ok snapshot, w) =>
        let ticks := l.ticks + 1
        if bounds.maxMolecules.any (fun max => max < snapshot.molecules.length) then
          .stop (.ok (report .moleculeQuotaExceeded ticks))
        else if due config.sweepOrphanDescendantsEvery ticks then
          match host.refreshScope w with
          | (.error e, _) => .stop (.error e)
          | (.ok (), w) => preparePasses host config ticks l.completionHandled snapshot w
        else preparePasses host config ticks l.completionHandled snapshot w

/-- One turn of the loop of `run`. -/
def tick (l : Loop σ) : Turn σ :=
  match prepare host config bounds l with
  | .stop result => .stop result
  | .ready snapshot handled w =>
    let ticks := l.ticks + 1
    let (drained, w) := drainTails host 0 w snapshot.molecules
    let applied := l.actionsApplied + drained
    match choose host w snapshot with
    | (.fail e, _) => .stop (.error e)
    | (.wait, w) => .goOn ⟨host.sleep w, ticks, applied, handled⟩
    | (.drained, _) => .stop (.ok ⟨.policyDrained, ticks, applied, none⟩)
    | (.act batch, w) =>
      match applyBatch host bounds w applied [] batch with
      | .fatal e => .stop (.error e)
      | .stop reason applied refusal => .stop (.ok ⟨reason, ticks, applied, refusal⟩)
      | .done w applied dispatched =>
        match freezeDispatched host w dispatched with
        | (.error e, _) => .stop (.error e)
        | (.ok (), w) => .goOn ⟨host.sleep w, ticks, applied, handled⟩

/-- The first `k` turns of a run. -/
def turns : Nat → Loop σ → Turn σ
  | 0, l => .goOn l
  | k + 1, l =>
    match tick host config bounds l with
    | .goOn l => turns k l
    | .stop result => .stop result

end Tick

section Budget

variable {σ : Type} (host : Host σ) (config : RuntimeConfig) (bounds : RunBounds) (n : Nat)

/-- A run never reports more than `n` actions, reports `n` only as an exhausted
budget, and does not go on to another turn once `n` were applied. -/
def BudgetKept (start : Loop σ) : Prop :=
  ∀ k, (∀ l, turns host config bounds k start = .goOn l → l.actionsApplied < n) ∧
    ∀ report, turns host config bounds k start = .stop (.ok report) →
      report.actionsApplied ≤ n ∧ (report.actionsApplied = n → report.reason = .budgetExhausted)

/-- The turn from `l` does not run past the budget unseen: native drains do not
take the count past `n`, nor to `n` in a turn without a batch, and the last
action of a batch is not applied as the `n`-th. -/
structure Spare (l : Loop σ) : Prop where
  drains : ∀ snapshot handled w, prepare host config bounds l = .ready snapshot handled w →
    l.actionsApplied + (drainTails host 0 w snapshot.molecules).1 ≤ n
  batched : ∀ snapshot handled w, prepare host config bounds l = .ready snapshot handled w →
    l.actionsApplied + (drainTails host 0 w snapshot.molecules).1 = n →
    (choose host (drainTails host 0 w snapshot.molecules).2 snapshot).1 ≠ .wait ∧
      (choose host (drainTails host 0 w snapshot.molecules).2 snapshot).1 ≠ .drained
  last : ∀ snapshot handled w, prepare host config bounds l = .ready snapshot handled w →
    ∀ batch action w₁, choose host (drainTails host 0 w snapshot.molecules).2 snapshot =
      (.act (batch ++ [action]), w₁) →
    ∀ w₂ dispatched, applyBatch host bounds w₁
        (l.actionsApplied + (drainTails host 0 w snapshot.molecules).1) [] batch =
      .done w₂ (n - 1) dispatched →
    ∀ id w₃, attempt host w₂ action ≠ (.applied id, w₃)

variable {host config bounds n}

theorem prepare_stop {l : Loop σ} {report : RunReport}
    (h : prepare host config bounds l = .stop (.ok report)) :
    report.actionsApplied = l.actionsApplied := by
  simp only [prepare, preparePasses] at h
  repeat' split at h
  all_goals first
    | (cases h; rfl)
    | cases h

theorem choose_act {w w' : σ} {snapshot : FleetSnapshot} {batch : List RuntimeAction}
    (h : choose host w snapshot = (.act batch, w')) : batch ≠ [] := by
  simp only [choose, rescue] at h
  repeat' split at h
  all_goals cases h
  all_goals exact List.cons_ne_nil _ _

theorem applyBatch_append (w : σ) (applied : Nat) (dispatched : List MoleculeId)
    (front rest : List RuntimeAction) :
    applyBatch host bounds w applied dispatched (front ++ rest) =
      match applyBatch host bounds w applied dispatched front with
      | .done w applied dispatched => applyBatch host bounds w applied dispatched rest
      | other => other := by
  induction front generalizing w applied dispatched with
  | nil => rfl
  | cons action front ih =>
    simp only [List.cons_append, applyBatch]
    split
    · rfl
    · split
      · exact ih ..
      · exact ih ..
      · rfl
      · rfl

theorem applyBatch_stop (hb : bounds.maxActions = some n) {w : σ} {applied applied' : Nat}
    {dispatched : List MoleculeId} {batch : List RuntimeAction} {reason : ShutdownReason}
    {refusal : Option DispatchRefusal} (happlied : applied ≤ n)
    (h : applyBatch host bounds w applied dispatched batch = .stop reason applied' refusal) :
    applied' ≤ n ∧ (applied' = n → reason = .budgetExhausted) := by
  induction batch generalizing w applied dispatched with
  | nil => cases h
  | cons action rest ih =>
    simp only [applyBatch, hb, Option.any_some, decide_eq_true_eq] at h
    split at h
    · cases h
      exact ⟨happlied, fun _ => rfl⟩
    · rename_i hroom
      split at h
      · exact ih (by omega) h
      · exact ih (by omega) h
      · cases h
        exact ⟨happlied, fun heq => by omega⟩
      · cases h

theorem applyBatch_done (hb : bounds.maxActions = some n) {w w' : σ} {applied applied' : Nat}
    {dispatched dispatched' : List MoleculeId} {batch : List RuntimeAction} {action : RuntimeAction}
    (h : applyBatch host bounds w applied dispatched (batch ++ [action]) = .done w' applied' dispatched')
    (hn : n ≤ applied') :
    ∃ w₁ d id w₂, applyBatch host bounds w applied dispatched batch = .done w₁ (n - 1) d ∧
      attempt host w₁ action = (.applied id, w₂) := by
  rw [applyBatch_append] at h
  split at h
  · rename_i w₁ applied₁ d hfront
    simp only [applyBatch, hb, Option.any_some, decide_eq_true_eq] at h
    split at h
    · cases h
    · rename_i hroom
      split at h
      · rename_i id w₂ hattempt
        cases h
        have hlast : applied₁ = n - 1 := by omega
        exact ⟨w₁, d, id, w', hlast ▸ hfront, hattempt⟩
      · cases h
        omega
      · cases h
      · cases h
  · rename_i other hother
    exact absurd h (hother w' applied' dispatched')

theorem tick_kept (hb : bounds.maxActions = some n) {l : Loop σ} (hl : l.actionsApplied < n)
    (hspare : Spare host config bounds n l) :
    match tick host config bounds l with
    | .goOn l' => l'.actionsApplied < n
    | .stop (.ok report) =>
      report.actionsApplied ≤ n ∧ (report.actionsApplied = n → report.reason = .budgetExhausted)
    | .stop (.error _) => True := by
  rw [tick]
  cases hprepare : prepare host config bounds l with
  | stop result =>
    cases result with
    | error e => trivial
    | ok report =>
      have := prepare_stop hprepare
      exact ⟨by omega, fun heq => by omega⟩
  | ready snapshot handled w =>
    have hdrains := hspare.drains snapshot handled w hprepare
    have hbatched := hspare.batched snapshot handled w hprepare
    have hlast := hspare.last snapshot handled w hprepare
    generalize happlied : l.actionsApplied + (drainTails host 0 w snapshot.molecules).1 = applied at *
    generalize hworld : (drainTails host 0 w snapshot.molecules).2 = w' at *
    simp only [happlied, hworld]
    cases hchoose : choose host w' snapshot with
    | mk choice w₁ =>
      rw [hchoose] at hbatched
      cases choice with
      | fail e => trivial
      | wait => exact Nat.lt_of_le_of_ne hdrains (fun heq => (hbatched heq).1 rfl)
      | drained => exact ⟨hdrains, fun heq => absurd rfl (hbatched heq).2⟩
      | act batch =>
        simp only
        cases hbatch : applyBatch host bounds w₁ applied [] batch with
        | fatal e => trivial
        | stop reason applied' refusal => exact applyBatch_stop hb hdrains hbatch
        | done w₂ applied' dispatched =>
          simp only
          have hroom : applied' < n := by
            by_contra hfull
            obtain rfl | ⟨front, action, rfl⟩ := List.eq_nil_or_concat batch
            · exact choose_act hchoose rfl
            · rw [List.concat_eq_append] at hchoose hbatch
              obtain ⟨w₃, d, id, w₄, hfront, hattempt⟩ := applyBatch_done hb hbatch (Nat.le_of_not_lt hfull)
              exact hlast front action w₁ hchoose w₃ d hfront id w₄ hattempt
          cases hfreeze : freezeDispatched host w₂ dispatched with
          | mk result w₃ =>
            cases result with
            | error e => trivial
            | ok _ => exact hroom

theorem turns_succ (k : Nat) (l : Loop σ) : turns host config bounds (k + 1) l =
    match turns host config bounds k l with
    | .goOn l' => tick host config bounds l'
    | .stop result => .stop result := by
  induction k generalizing l with
  | zero =>
    simp only [turns]
    split <;> simp_all
  | succ k ih =>
    rw [turns]
    conv => rhs; rw [turns]
    cases tick host config bounds l with
    | goOn l' => exact ih l'
    | stop result => rfl

/-- Under a budget of `n ≥ 1` actions, a run whose every turn is spare keeps to
it, whatever the policy emits and whatever fails. -/
theorem run_budget_kept (hn : 0 < n) (hb : bounds.maxActions = some n) (w : σ)
    (hspare : ∀ k l, turns host config bounds k { world := w } = .goOn l → Spare host config bounds n l) :
    BudgetKept host config bounds n { world := w } := by
  intro k
  induction k with
  | zero =>
    refine ⟨fun l hl => ?_, fun report hreport => (by cases hreport)⟩
    cases hl
    exact hn
  | succ k ih =>
    rw [turns_succ]
    cases hturns : turns host config bounds k { world := w } with
    | stop result =>
      refine ⟨fun l hl => (by cases hl), fun report hreport => ?_⟩
      apply ih.2 report
      rw [hturns]
      exact hreport
    | goOn l =>
      have hkept := tick_kept hb (ih.1 l hturns) (hspare k l hturns)
      simp only
      refine ⟨fun l' hl' => ?_, fun report hreport => ?_⟩
      · rw [hl'] at hkept
        exact hkept
      · rw [hreport] at hkept
        exact hkept

end Budget

section Instances

/-- A host whose world counts the turns and which is stopped by its signal
after one. Nothing fails. -/
def calmHost (molecules : List MoleculeData) (drains : Bool) (batch : List RuntimeAction) : Host Nat where
  isTripped := fun w => (decide (1 ≤ w), w)
  deadlineElapsed := fun w => (false, w)
  loadSnapshot := fun w => (.ok ⟨molecules⟩, w)
  isWorkerAlive := fun _ _ _ => true
  isSessionAlive := fun _ _ => true
  tickProbe := fun w _ => w
  resetOrphan := fun w _ => (false, w)
  onComplete := fun w _ => (true, w)
  stampMerged := fun w _ => (true, w)
  drainNativeTail := fun w _ => (.ok drains, w)
  tracksMolecule := fun _ _ => true
  refreshScope := fun w => (.ok (), w)
  nextActions := fun w _ => (batch, w)
  needsRecompile := fun _ => false
  recompile := fun w => (.ok (), w)
  loadMolecule := fun w id => (.ok { id := id }, w)
  applyEvolve := fun w _ _ => (.ok (), w)
  applyComplete := fun w _ _ => (.ok (), w)
  applyFreeze := fun w _ => (.ok (), w)
  applyCollapse := fun w _ _ => (.ok (), w)
  sleep := fun w => w + 1

def twoActions : List RuntimeAction := [.evolve "a" "", .evolve "b" ""]

/-- A budget of one, and a first batch of two actions. -/
theorem run_budget_kept_two_actions :
    BudgetKept (calmHost [] false twoActions) {} { maxActions := some 1 } 1 { world := 0 } := by
  apply run_budget_kept Nat.one_pos rfl 0
  intro k l hl
  match k, hl with
  | 0, hl =>
    cases hl
    refine ⟨?_, ?_, ?_⟩
    · rintro snapshot handled w hprepare
      cases hprepare
      decide
    · rintro snapshot handled w hprepare hfull
      cases hprepare
      cases hfull
    · rintro snapshot handled w hprepare batch action w₁ hchoose w₂ d hbatch id w₃ hattempt
      cases hprepare
      have hact : twoActions = batch ++ [action] := Choice.act.inj (Prod.mk.inj hchoose).1
      have hfront : batch = twoActions.dropLast := by rw [hact, List.dropLast_concat]
      subst hfront
      cases hbatch
  | k + 1, hl => cases hl

def nativeMolecule (id : MoleculeId) : MoleculeData := { id := id, status := .running }

/-- With a budget of one, two molecules are driven natively in one turn; and a
batch of one action spends the budget without the run ending for it. -/
theorem budget_overrun :
    turns (calmHost [nativeMolecule "a", nativeMolecule "b"] true []) {} { maxActions := some 1 } 2
        { world := 0 } = .stop (.ok ⟨.signalTripped, 1, 2, none⟩) ∧
      turns (calmHost [] false [.evolve "a" ""]) {} { maxActions := some 1 } 2 { world := 0 } =
        .stop (.ok ⟨.signalTripped, 1, 1, none⟩) :=
  ⟨rfl, rfl⟩

end Instances

end Cosmon.Runtime.RunLoop
