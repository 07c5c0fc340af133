import Cosmon.State.CollapseSerial

namespace Cosmon.State.CollapseCommit

open Cosmon.State.Molecule Cosmon.Core.CollapseContract
open Cosmon.Filestore.Layout Cosmon.State.Collapse
open Cosmon.State.CollapseRuns

variable {env : Env} {s : FileStore} {ops : List Op}

section Sample

def sampleEnv : Env where
  root := "state"
  home := fun _ => "default"
  fileStem := fun key => key
  revisionOf := fun m => m.status.asStr
  digestOf := fun intent => intent.reason

def sampleMol : MoleculeData := { id := "task-1", status := .running }

def sampleCall : Call where
  id := "task-1"
  caller := .remote "broker"
  request := { reason := "abort" }
  cause := none
  condition := { key := "broker-key-00001", expectStatus := .running, expectRevision := "running" }
  parsed := rfl

/-- The save of `cs stuck`. -/
def stuck (now : Instant) : Edit where
  apply := fun m => { m with status := .frozen, stuckAt := some now, updatedAt := now }
  id := fun _ => rfl
  fleet := fun _ => rfl
  receipt := fun _ => .inl rfl

def emptyStore : FileStore where
  fleets := []
  records := fun _ _ => none
  keys := fun _ => none
  keyed := by simp
  listed := by simp

def fleetStore : FileStore := emptyStore.put sampleMol

end Sample

section Ends

def mover : Op → Option Nat
  | .call p _ => some p
  | .advance p _ => some p
  | .crash p => some p
  | _ => none

theorem steps_others {w w' : World} {op : Op} (hstep : Steps env w op w') (hop : mover op = none) :
    w'.calls = w.calls ∧ w'.commits = w.commits := by
  cases hstep with
  | starts p c hidle => cases hop
  | advances p choice => cases hop
  | crashes p c hcall hopen => cases hop
  | _ => exact ⟨rfl, rfl⟩

theorem steps_frame {w w' : World} {op : Op} (hstep : Steps env w op w') {p : Nat}
    (h : mover op ≠ some p) : w'.calls p = w.calls p := by
  have hbecome : ∀ q next, some q ≠ some p → (w.become q next).calls p = w.calls p :=
    fun q next hq => Function.update_of_ne (fun hpq => hq (congrArg some hpq.symm)) ..
  cases hstep with
  | starts q c hidle => exact hbecome q _ h
  | advances q choice => exact hbecome q _ h
  | crashes q c hcall hopen => exact hbecome q _ h
  | _ => rfl

theorem advance_calls (env : Env) (w : World) (p : Nat) (choice : Choice) :
    (w.step env (.advance p choice)).calls p =
      ((w.calls p).next env w.store (fun l => (w.locks l).isNone) choice).1 :=
  Function.update_self ..

theorem steps_call {P : CallState → Prop} {w w' : World} {p : Nat} (hp : P (w.calls p))
    (hidle : w.calls p ≠ .idle)
    (hadvance : ∀ choice,
      P ((w.calls p).next env w.store (fun l => (w.locks l).isNone) choice).1)
    (hcrash : (∀ c result, w.calls p ≠ .ended c result) → ∀ c, P (.crashed c)) {op : Op}
    (hstep : Steps env w op w') : P (w'.calls p) := by
  by_cases hmover : mover op = some p
  · cases hstep with
    | starts q c hq =>
      cases hmover
      exact absurd hq hidle
    | advances q choice =>
      cases hmover
      simpa [World.become] using hadvance choice
    | crashes q c hcall hopen =>
      cases hmover
      simpa [World.become] using hcrash hopen c
    | nothing => exact hp
    | _ => cases hmover
  · rw [steps_frame hstep hmover]
    exact hp

theorem run_ended {p : Nat} {c : Call} {result : Except CollapseError KeyedCollapse} {i j : Nat}
    (hij : i ≤ j) (h : (worldAt env s ops i).calls p = .ended c result) :
    (worldAt env s ops j).calls p = .ended c result := by
  apply worldAt_preserves (P := fun w => w.calls p = .ended c result) _ hij h
  intro n op _ h
  apply steps_call (P := fun pc => pc = .ended c result) h _ _ _ (step_steps env _ op)
  · rw [h]
    exact nofun
  · intro choice
    rw [h]
    rfl
  · intro hopen
    exact absurd h (hopen c result)

end Ends

section CommitPoint

def window : CallState → Option MoleculeId
  | .deciding c _ _ _ => some c.id
  | .decided c _ _ _ _ _ => some c.id
  | .outrun c _ _ _ => some c.id
  | .reserved c _ _ _ => some c.id
  | _ => none

/-- A step that changes a molecule's record is not taken while another call is
between its read of that molecule and its commit point. -/
def Undisturbed (env : Env) (w : World) (op : Op) : Prop :=
  ∀ id, (w.step env op).store.current id ≠ w.store.current id →
    ∀ p, window (w.calls p) = some id → ∃ choice, op = .advance p choice

def Seen (env : Env) (s : FileStore) (c : Call) (view : View) : Prop :=
  s.current c.id = some view.mol ∧ view.revision = env.revisionOf view.mol

def Expected (c : Call) (view : View) : Prop :=
  view.mol.status = c.condition.expectStatus.status ∧ view.revision = c.condition.expectRevision

def Watches (env : Env) (s : FileStore) : CallState → Prop
  | .deciding c _ view _ => Seen env s c view
  | .decided c _ view _ _ _ => Seen env s c view ∧ Expected c view
  | .outrun c _ view _ => Seen env s c view
  | .reserved c _ view _ => Seen env s c view ∧ Expected c view
  | _ => True

/-- A commit point put the collapsed form of the expected record in place of
that very record. -/
def Replaces (env : Env) (commit : Option Commit) (c : Call) (updated : MoleculeData)
    (receipt : CollapseReceipt) : Prop :=
  ∃ cm m now, commit = some cm ∧ cm.replaced = some m ∧
    env.revisionOf m = c.condition.expectRevision ∧ m.status = c.condition.expectStatus.status ∧
    updated = collapsedRecord m c.request c.cause (some receipt) now

def Transitioned (env : Env) (commit : Option Commit) (c : Call) (k : KeyedCollapse) : Prop :=
  k.outcome = .transitioned →
    ∃ updated receipt, k.molecule = some updated ∧ k.receipt = some receipt ∧
      Replaces env commit c updated receipt

def Exact (env : Env) (commit : Option Commit) : CallState → Prop
  | .stateSaved c _ _ updated receipt => Replaces env commit c updated receipt
  | .returning c _ (.ok k) => Transitioned env commit c k
  | .ended c (.ok k) => Transitioned env commit c k
  | _ => True

variable {s' : FileStore} {free : Dir × MoleculeId → Bool} {choice : Choice} {pc : CallState}
variable {next : CallState × FileStore}

theorem Watches.frame (h : Watches env s pc)
    (hsame : ∀ id, window pc = some id → s'.current id = s.current id) : Watches env s' pc := by
  have hseen : ∀ c view, s'.current c.id = s.current c.id → Seen env s c view → Seen env s' c view :=
    fun c view hsame hseen => ⟨hsame.trans hseen.1, hseen.2⟩
  cases pc with
  | deciding c d view second => exact hseen c view (hsame _ rfl) h
  | decided c d view second now reserve => exact ⟨hseen c view (hsame _ rfl) h.1, h.2⟩
  | outrun c d view second => exact hseen c view (hsame _ rfl) h
  | reserved c d view now => exact ⟨hseen c view (hsame _ rfl) h.1, h.2⟩
  | _ => trivial

theorem moves_watches (hw : Watches env s pc) (h : Moves env s free choice pc next) :
    Watches env next.2 next.1 := by
  cases h with
  | stays _ hholds => exact hw
  | loads c d record m lease hm hlease => exact ⟨hm, rfl⟩
  | decides c d view second reserve hdecide =>
    obtain ⟨-, -, -, hstatus, hrevision, -⟩ := decide_admitted hdecide
    exact ⟨hw, hstatus, hrevision⟩
  | reserves c d view second now hnone => exact hw
  | outruns c d view second now hsome => exact hw.1
  | goesOn c d view second now => exact hw
  | rereads c d view record hread => exact hw
  | _ => trivial

theorem moves_exact (hw : Watches env s pc) {commit : Option Commit} (hx : Exact env commit pc)
    (h : Moves env s free choice pc next) : Exact env ((next.1.commit s).or commit) next.1 := by
  cases h with
  | stays pc hholds =>
    cases pc with
    | stateSaved c d view updated receipt => cases hholds
    | _ => exact hx
  | refuses c d view second refusal hdecide =>
    intro htransitioned
    cases refusal <;> cases htransitioned
  | replays c d view second receipt hdecide =>
    intro htransitioned
    cases htransitioned
  | saves c d view now s' hsave =>
    obtain ⟨⟨hcurrent, hrevision⟩, hstatus, hexpected⟩ := hw
    have hid : (c.updated env view now).id = c.id :=
      (collapsedRecord_id view.mol c.request c.cause (some (c.receipt env view now)) now).1.trans
        (s.keyed _ _ _ hcurrent)
    exact ⟨_, view.mol, now, rfl, by rw [hid]; exact hcurrent, hrevision.symm.trans hexpected, hstatus,
      rfl⟩
  | commits c d view updated receipt => exact fun _ => ⟨updated, receipt, rfl, rfl, hx⟩
  | finishes c d view receipt =>
    intro htransitioned
    cases htransitioned
  | returns c d result =>
    cases result with
    | error e => trivial
    | ok k => exact hx
  | _ => trivial

structure Guarded (env : Env) (w : World) : Prop where
  watches : ∀ p, Watches env w.store (w.calls p)
  commits : ∀ p, Exact env (w.commits p) (w.calls p)

theorem Guarded.become {w : World} (h : Guarded env w) {p : Nat} {next : CallState × FileStore}
    (hnext : Watches env next.2 next.1) (hexact : Exact env ((next.1.commit w.store).or (w.commits p)) next.1)
    (hsame : ∀ q id, q ≠ p → window (w.calls q) = some id → next.2.current id = w.store.current id) :
    Guarded env (w.become p next) where
  watches := by
    intro q
    by_cases hq : q = p
    · subst hq
      simpa [World.become] using hnext
    · simpa [World.become, Function.update_of_ne hq] using (h.watches q).frame fun id => hsame q id hq
  commits := by
    intro q
    by_cases hq : q = p
    · subst hq
      simpa [World.become] using hexact
    · simpa [World.become, Function.update_of_ne hq] using h.commits q

theorem Guarded.others {w w' : World} (h : Guarded env w)
    (hsame : ∀ p id, window (w.calls p) = some id → w'.store.current id = w.store.current id)
    (hcalls : w'.calls = w.calls ∧ w'.commits = w.commits) : Guarded env w' := by
  refine ⟨fun p => ?_, fun p => ?_⟩
  · rw [hcalls.1]
    exact (h.watches p).frame (hsame p)
  · rw [hcalls.1, hcalls.2]
    exact h.commits p

theorem step_guarded {w : World} (h : Guarded env w) {op : Op} (hop : Undisturbed env w op) :
    Guarded env (w.step env op) := by
  have hstep := step_steps env w op
  have hsame : ∀ p id, mover op ≠ some p → window (w.calls p) = some id →
      (w.step env op).store.current id = w.store.current id := by
    intro p id hp hwindow
    by_contra hchanged
    obtain ⟨choice, rfl⟩ := hop id hchanged p hwindow
    exact hp rfl
  generalize w.step env op = w' at hstep hsame
  by_cases hothers : mover op = none
  · apply h.others _ (steps_others hstep hothers)
    exact fun p id => hsame p id (by rw [hothers]; exact nofun)
  · cases hstep with
    | nothing => exact h
    | starts p c hidle => exact h.become trivial trivial fun _ _ _ _ => rfl
    | advances p choice =>
      have hmoves : Moves env w.store _ choice (w.calls p) _ :=
        next_moves (w.calls p) w.store (fun l => (w.locks l).isNone) choice
      apply h.become (moves_watches (h.watches p) hmoves)
        (moves_exact (h.watches p) (h.commits p) hmoves)
      exact fun q id hq => hsame q id fun hpq => hq (Option.some.inj hpq).symm
    | crashes p c hcall hopen => exact h.become trivial trivial fun _ _ _ _ => rfl
    | _ => exact absurd rfl hothers

theorem run_guarded
    (hrun : ∀ n op, ops[n]? = some op → Undisturbed env (worldAt env s ops n) op) (n : Nat) :
    Guarded env (worldAt env s ops n) := by
  have hstart : Guarded env (World.start s) := ⟨fun _ => trivial, fun _ => trivial⟩
  apply worldAt_preserves (P := Guarded env) _ (Nat.zero_le n) hstart
  intro n op hop h
  exact step_guarded h (hrun n op hop)

/-- Where no step changes a molecule's record between the read of a keyed call
and its commit point, a call that returns `Transitioned` has put the collapsed
form of a record with the revision and status it expects in place of that very
record. -/
theorem commit_replaces_expected
    (hrun : ∀ n op, ops[n]? = some op → Undisturbed env (worldAt env s ops n) op) (n p : Nat)
    (c : Call) (k : KeyedCollapse) (hended : (worldAt env s ops n).calls p = .ended c (.ok k))
    (htransitioned : k.outcome = .transitioned) :
    ∃ cm m now, (worldAt env s ops n).commits p = some cm ∧ cm.replaced = some m ∧
      env.revisionOf m = c.condition.expectRevision ∧ m.status = c.condition.expectStatus.status ∧
      k.molecule = some (collapsedRecord m c.request c.cause k.receipt now) := by
  have hexact := (run_guarded hrun n).commits p
  rw [hended] at hexact
  obtain ⟨updated, receipt, hmol, hreceipt, cm, m, now, hcm, hreplaced, hrevision, hstatus, rfl⟩ :=
    hexact htransitioned
  exact ⟨cm, m, now, hcm, hreplaced, hrevision, hstatus, by rw [hmol, hreceipt]⟩

/-- A run in which `cs stuck` saves between the read and the commit point. -/
def lostUpdateOps : List Op :=
  [.call 0 sampleCall] ++ List.replicate 4 (.advance 0 {}) ++
    [.load 0 "task-1", .save 0 (stuck 5) false] ++ List.replicate 5 (.advance 0 {})

/-- Without that condition an update is lost: the collapse puts a state built
from the older read in its place. -/
theorem commit_loses_update :
    ∃ k cm m m',
      (worldAt sampleEnv fleetStore lostUpdateOps 12).calls 0 = .ended sampleCall (.ok k) ∧
      k.outcome = .transitioned ∧
      (worldAt sampleEnv fleetStore lostUpdateOps 12).commits 0 = some cm ∧ cm.replaced = some m ∧
      sampleEnv.revisionOf m ≠ sampleCall.condition.expectRevision ∧
      m.status ≠ sampleCall.condition.expectStatus.status ∧ m.stuckAt = some 5 ∧
      (worldAt sampleEnv fleetStore lostUpdateOps 12).store.current "task-1" = some m' ∧
      m'.stuckAt = none :=
  ⟨_, _, _, _, rfl, rfl, rfl, rfl, by decide, by decide, rfl, rfl, rfl⟩

/-- With one keyed call in the run, and none but its own steps while it is in
its window, nothing is disturbed. -/
theorem undisturbed_alone {w : World} {p : Nat} {op : Op} (hidle : ∀ q, q ≠ p → w.calls q = .idle)
    (hop : window (w.calls p) = none ∨ ∃ choice, op = .advance p choice) : Undisturbed env w op := by
  intro id _ q hq
  by_cases hqp : q = p
  · subst hqp
    cases hop with
    | inl hnone =>
      rw [hnone] at hq
      cases hq
    | inr hadvance => exact hadvance
  · rw [hidle q hqp] at hq
    cases hq

theorem alone_idle {p : Nat} (hops : ∀ op ∈ ops, mover op = none ∨ mover op = some p) (n : Nat) :
    ∀ q, q ≠ p → (worldAt env s ops n).calls q = .idle := by
  apply worldAt_preserves (P := fun w => ∀ q, q ≠ p → w.calls q = .idle) _ (Nat.zero_le n)
    fun _ _ => rfl
  intro n op hop h q hq
  have hmover : mover op ≠ some q := by
    intro hm
    cases hops op (List.mem_of_getElem? hop) with
    | inl hnone =>
      rw [hnone] at hm
      cases hm
    | inr hsome =>
      rw [hsome] at hm
      exact hq (Option.some.inj hm).symm
  rw [steps_frame (step_steps env _ op) hmover]
  exact h q hq

def stuckCall : Call :=
  { sampleCall with
    condition := { key := "broker-key-00001", expectStatus := .frozen, expectRevision := "frozen" } }

/-- A run in which `cs stuck` saves before the call reads. -/
def undisturbedOps : List Op :=
  [.load 0 "task-1", .save 0 (stuck 5) false, .call 0 stuckCall] ++ List.replicate 9 (.advance 0 {})

theorem undisturbedOps_undisturbed (n : Nat) (op : Op) (h : undisturbedOps[n]? = some op) :
    Undisturbed sampleEnv (worldAt sampleEnv fleetStore undisturbedOps n) op := by
  apply undisturbed_alone (p := 0)
  · apply alone_idle
    simp [undisturbedOps, mover]
  · by_cases hn : n < 3
    · left
      match n, hn with
      | 0, _ => rfl
      | 1, _ => rfl
      | 2, _ => rfl
    · right
      rw [undisturbedOps, List.getElem?_append_right (by simpa using hn)] at h
      exact ⟨{}, List.eq_of_mem_replicate (List.mem_of_getElem? h)⟩

theorem commit_replaces_stuck :
    ∃ cm m, (worldAt sampleEnv fleetStore undisturbedOps 12).commits 0 = some cm ∧
      cm.replaced = some m ∧ sampleEnv.revisionOf m = "frozen" ∧ m.status = .frozen := by
  obtain ⟨cm, m, -, hcm, hreplaced, hrevision, hstatus, -⟩ :=
    commit_replaces_expected undisturbedOps_undisturbed 12 0 stuckCall _ rfl rfl
  exact ⟨cm, m, hcm, hreplaced, hrevision, hstatus⟩

end CommitPoint

end Cosmon.State.CollapseCommit
