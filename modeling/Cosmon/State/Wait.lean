import Cosmon.Lib.Loop
import Cosmon.State.Molecule
import Mathlib.Data.UInt

namespace Cosmon.State.Wait

open Relation
open Cosmon.Lib
open Cosmon.State.Molecule

structure WaitMetrics where
  pollCount : UInt32
  transitions : UInt32
deriving DecidableEq

structure WaitOutcome where
  molecule : MoleculeData
  reached : MoleculeStatus
  elapsed : Nat
  metrics : WaitMetrics

inductive WaitError where
  | moleculeNotFound (id : MoleculeId)
  | store (message : String)
  | timeout (elapsed : Nat) (lastStatus : MoleculeStatus)

/-- A call, with what the store returns to each read and what the clock shows in each turn of the loop. Durations are
in nanoseconds. -/
structure Call where
  id : MoleculeId
  target : List MoleculeStatus
  timeout : Nat
  pollInterval : Nat
  store : Nat → Except CosmonError MoleculeData
  elapsed : Nat → Nat

/-- The variables of the loop, the reads that gave a molecule, and the sleeps. The probe is called once a turn. -/
structure Waiting where
  pollCount : UInt32 := 0
  transitions : UInt32 := 0
  previousStatus : Option MoleculeStatus := none
  reads : Nat := 0
  turns : Nat := 0
  sleeps : List Nat := []

abbrev Outcome := Except WaitError WaitOutcome

def maxValue : UInt32 := 4294967295

def saturatingSucc (n : UInt32) : UInt32 := if n = maxValue then n else n + 1

def loadMolecule (c : Call) (read : Nat) : Except WaitError MoleculeData :=
  match c.store read with
  | .ok mol => .ok mol
  | .error (.moleculeNotFound _) => .error (.moleculeNotFound c.id)
  | .error other => .error (.store other.toString)

def Waiting.observe (s : Waiting) (status : MoleculeStatus) : Waiting :=
  { s with
    pollCount := saturatingSucc s.pollCount
    transitions := if ∃ prev ∈ s.previousStatus, prev ≠ status then saturatingSucc s.transitions else s.transitions
    previousStatus := some status
    reads := s.reads + 1 }

def makeOutcome (c : Call) (s : Waiting) (mol : MoleculeData) : WaitOutcome where
  molecule := mol
  reached := mol.status
  elapsed := c.elapsed s.turns
  metrics := { pollCount := s.pollCount, transitions := s.transitions }

def pause (c : Call) (s : Waiting) (mol : MoleculeData) : Waiting ⊕ (Outcome × Waiting) :=
  let elapsed := c.elapsed s.turns
  let step := min c.pollInterval (c.timeout - elapsed)
  if c.timeout ≤ elapsed then .inr (.error (.timeout elapsed mol.status), s)
  else if step = 0 then .inr (.error (.timeout elapsed mol.status), s)
  else .inl { s with turns := s.turns + 1, sleeps := s.sleeps ++ [step] }

def turn (c : Call) (s : Waiting) : Waiting ⊕ (Outcome × Waiting) :=
  match loadMolecule c s.reads with
  | .error e => .inr (.error e, s)
  | .ok mol =>
    let prior := s.previousStatus
    let s := s.observe mol.status
    if mol.status ∈ c.target then
      if ∀ p ∈ prior, p ∈ c.target then .inr (.ok (makeOutcome c s mol), s)
      else
        match loadMolecule c s.reads with
        | .error e => .inr (.error e, s)
        | .ok confirm =>
          let s := s.observe confirm.status
          if confirm.status ∈ c.target then .inr (.ok (makeOutcome c s confirm), s) else pause c s mol
    else pause c s mol

def waitForStatusWithSleep (c : Call) (fuel : Nat) : Option (Outcome × Waiting) := Loop.run (turn c) fuel {}

def Reached (c : Call) (s : Waiting) : Prop := ReflTransGen (Loop.Turns (turn c)) {} s

def observed (c : Call) (reads : Nat) : List MoleculeStatus :=
  (List.range reads).filterMap fun read => (loadMolecule c read).toOption.map MoleculeData.status

def changes : List MoleculeStatus → Nat
  | a :: b :: rest => (if a = b then 0 else 1) + changes (b :: rest)
  | _ => 0

def SleepsWithin (c : Call) (s : Waiting) : Prop := ∀ i d, s.sleeps[i]? = some d → c.elapsed i + d ≤ c.timeout

/-- What a wait promises of its result, against the reads that it made. -/
structure Sound (c : Call) (result : Outcome) (final : Waiting) : Prop where
  reached : ∀ out, result = .ok out → ∃ before, observed c final.reads = before ++ [out.reached] ∧
    out.reached ∈ c.target ∧ ∀ p ∈ before.getLast?, p ∈ c.target
  pollCount : ∀ out, result = .ok out → out.metrics.pollCount.toNat = (observed c final.reads).length
  transitions : ∀ out, result = .ok out → out.metrics.transitions.toNat = changes (observed c final.reads)
  lastStatus : ∀ elapsed last, result = .error (.timeout elapsed last) →
    (observed c final.reads).getLast? = some last ∧ last ∉ c.target

structure Kept (c : Call) : Prop where
  sleeps : ∀ s, Reached c s → SleepsWithin c s
  result : ∀ fuel result final, waitForStatusWithSleep c fuel = some (result, final) → Sound c result final

section Cases

variable {c : Call} {s : Waiting} {mol confirm : MoleculeData}

/-- The read is in the target set, and so is the one before, where there is one. -/
structure Settles (c : Call) (s : Waiting) (mol : MoleculeData) : Prop where
  read : loadMolecule c s.reads = .ok mol
  inTarget : mol.status ∈ c.target
  prior : ∀ p ∈ s.previousStatus, p ∈ c.target

/-- The read is the first one in the target set, and is read again. -/
structure Rereads (c : Call) (s : Waiting) (mol confirm : MoleculeData) : Prop where
  read : loadMolecule c s.reads = .ok mol
  inTarget : mol.status ∈ c.target
  prior : ¬ ∀ p ∈ s.previousStatus, p ∈ c.target
  confirmRead : loadMolecule c (s.reads + 1) = .ok confirm

def Expires (c : Call) (s : Waiting) : Prop := c.timeout ≤ c.elapsed s.turns ∨ c.pollInterval = 0

/-- The next turn contradicts its first read at the deadline, or returns with more reads than the counter holds. -/
def Misreports (c : Call) (s : Waiting) : Prop :=
  (∃ mol confirm, Rereads c s mol confirm ∧ confirm.status ∉ c.target ∧ Expires c s) ∨
    (∃ mol, Settles c s mol ∧ 2 ^ 32 ≤ s.reads + 1) ∨
    ∃ mol confirm, Rereads c s mol confirm ∧ confirm.status ∈ c.target ∧ 2 ^ 32 ≤ s.reads + 2

theorem Settles.turn_eq (h : Settles c s mol) : turn c s =
    .inr (.ok (makeOutcome c (s.observe mol.status) mol), s.observe mol.status) := by
  unfold turn
  rw [h.read]
  dsimp only
  rw [if_pos h.inTarget, if_pos h.prior]

theorem Rereads.turn_eq (h : Rereads c s mol confirm) : turn c s =
    if confirm.status ∈ c.target then
      .inr (.ok (makeOutcome c ((s.observe mol.status).observe confirm.status) confirm),
        (s.observe mol.status).observe confirm.status)
    else pause c ((s.observe mol.status).observe confirm.status) mol := by
  unfold turn
  rw [h.read]
  dsimp only
  rw [if_pos h.inTarget, if_neg h.prior]
  have hread : loadMolecule c (s.observe mol.status).reads = .ok confirm := h.confirmRead
  rw [hread]

theorem turn_outside (hread : loadMolecule c s.reads = .ok mol) (h : mol.status ∉ c.target) :
    turn c s = pause c (s.observe mol.status) mol := by
  unfold turn
  rw [hread]
  dsimp only
  rw [if_neg h]

theorem pause_expired (h : Expires c s) :
    pause c s mol = .inr (.error (.timeout (c.elapsed s.turns) mol.status), s) := by
  unfold pause
  dsimp only
  by_cases htimeout : c.timeout ≤ c.elapsed s.turns
  · rw [if_pos htimeout]
  · have hzero : min c.pollInterval (c.timeout - c.elapsed s.turns) = 0 := by
      rw [h.resolve_left htimeout, Nat.zero_min]
    rw [if_neg htimeout, if_pos hzero]

theorem pause_again (h : ¬ Expires c s) : pause c s mol =
    .inl { s with
      turns := s.turns + 1
      sleeps := s.sleeps ++ [min c.pollInterval (c.timeout - c.elapsed s.turns)] } := by
  unfold Expires at h
  unfold pause
  dsimp only
  rw [if_neg (by omega), if_neg (by omega)]

theorem loadMolecule_error {read : Nat} {e : WaitError} (h : loadMolecule c read = .error e) (elapsed : Nat)
    (last : MoleculeStatus) : e ≠ .timeout elapsed last := by
  unfold loadMolecule at h
  rintro rfl
  split at h <;> cases h

theorem turn_cases (c : Call) (s : Waiting) :
    (∃ e t, turn c s = .inr (.error e, t) ∧ ∀ elapsed last, e ≠ .timeout elapsed last) ∨
      (∃ mol, Settles c s mol) ∨ (∃ mol confirm, Rereads c s mol confirm) ∨
      ∃ mol, loadMolecule c s.reads = .ok mol ∧ mol.status ∉ c.target := by
  cases hread : loadMolecule c s.reads with
  | error e => exact .inl ⟨e, s, by rw [turn, hread], loadMolecule_error hread⟩
  | ok mol =>
    by_cases htarget : mol.status ∈ c.target
    · by_cases hprior : ∀ p ∈ s.previousStatus, p ∈ c.target
      · exact .inr (.inl ⟨mol, hread, htarget, hprior⟩)
      · cases hconfirm : loadMolecule c (s.reads + 1) with
        | ok confirm => exact .inr (.inr (.inl ⟨mol, confirm, hread, htarget, hprior, hconfirm⟩))
        | error e =>
          have hreread : loadMolecule c (s.observe mol.status).reads = .error e := hconfirm
          refine .inl ⟨e, s.observe mol.status, ?_, loadMolecule_error hconfirm⟩
          unfold turn
          rw [hread]
          dsimp only
          rw [if_pos htarget, if_neg hprior, hreread]
    · exact .inr (.inr (.inr ⟨mol, rfl, htarget⟩))

end Cases

section Counting

variable {c : Call} {s : Waiting} {mol : MoleculeData}

theorem observed_succ {n : Nat} (h : loadMolecule c n = .ok mol) :
    observed c (n + 1) = observed c n ++ [mol.status] := by
  unfold observed
  rw [List.range_succ, List.filterMap_append]
  simp [h, Except.toOption]

theorem changes_append (statuses : List MoleculeStatus) (status : MoleculeStatus) :
    changes (statuses ++ [status]) =
      changes statuses + if ∃ prev ∈ statuses.getLast?, prev ≠ status then 1 else 0 := by
  induction statuses with
  | nil => simp [changes]
  | cons a rest ih =>
    cases rest with
    | nil => by_cases h : a = status <;> simp [changes, h]
    | cons b rest =>
      rw [List.cons_append, List.cons_append, changes, ← List.cons_append, ih, List.getLast?_cons_cons, changes]
      omega

theorem saturatingSucc_toNat (n : UInt32) : (saturatingSucc n).toNat = min (n.toNat + 1) (2 ^ 32 - 1) := by
  have hmax : maxValue.toNat = 2 ^ 32 - 1 := rfl
  have hn : n.toNat < 2 ^ 32 := n.toNat_lt
  unfold saturatingSucc
  split
  · rename_i h
    rw [h, hmax]
    omega
  · rename_i h
    have hne : n.toNat ≠ 2 ^ 32 - 1 := fun heq => h (UInt32.toNat_inj.mp (heq.trans hmax.symm))
    rw [UInt32.toNat_add, UInt32.toNat_one, Nat.mod_eq_of_lt (by omega)]
    omega

/-- The variables of the loop are what its reads make them. -/
structure Tracks (c : Call) (s : Waiting) : Prop where
  length : (observed c s.reads).length = s.reads
  pollCount : s.pollCount.toNat = min s.reads (2 ^ 32 - 1)
  transitions : s.transitions.toNat = min (changes (observed c s.reads)) (2 ^ 32 - 1)
  previous : s.previousStatus = (observed c s.reads).getLast?
  turns : s.sleeps.length = s.turns
  sleeps : SleepsWithin c s

theorem tracks_start (c : Call) : Tracks c {} := by
  refine ⟨rfl, rfl, rfl, rfl, rfl, fun i d h => ?_⟩
  cases h

theorem Tracks.observe (h : Tracks c s) (hread : loadMolecule c s.reads = .ok mol) :
    Tracks c (s.observe mol.status) where
  length := by
    rw [Waiting.observe, observed_succ hread, List.length_append, h.length]
    rfl
  pollCount := by
    rw [Waiting.observe, saturatingSucc_toNat, h.pollCount]
    dsimp only
    omega
  transitions := by
    rw [Waiting.observe, observed_succ hread, changes_append, ← h.previous]
    dsimp only
    have htransitions := h.transitions
    by_cases hchange : ∃ prev ∈ s.previousStatus, prev ≠ mol.status
    · rw [if_pos hchange, if_pos hchange, saturatingSucc_toNat]
      omega
    · rw [if_neg hchange, if_neg hchange]
      omega
  previous := by
    rw [Waiting.observe, observed_succ hread, List.getLast?_concat]
  turns := h.turns
  sleeps := h.sleeps

theorem Tracks.after_pause (h : Tracks c s) {next : Waiting} (hpause : pause c s mol = .inl next) : Tracks c next := by
  by_cases hexpires : Expires c s
  · rw [pause_expired hexpires] at hpause
    cases hpause
  · rw [pause_again hexpires] at hpause
    injection hpause with hnext
    subst hnext
    refine ⟨h.length, h.pollCount, h.transitions, h.previous, ?_, fun i d hd => ?_⟩
    · rw [List.length_append, h.turns]
      rfl
    · dsimp only at hd
      rw [List.getElem?_append] at hd
      split at hd
      case isTrue => exact h.sleeps i d hd
      case isFalse hlast =>
        rw [List.getElem?_singleton] at hd
        split at hd
        case isTrue hi =>
          have hturn : i = s.turns := by
            rw [← h.turns]
            omega
          unfold Expires at hexpires
          rw [hturn, ← Option.some_inj.mp hd]
          omega
        case isFalse => cases hd

end Counting

section Run

variable {c : Call} {s : Waiting} {mol confirm : MoleculeData}

theorem Tracks.reread (h : Tracks c s) (hread : Rereads c s mol confirm) :
    Tracks c ((s.observe mol.status).observe confirm.status) :=
  (h.observe hread.read).observe hread.confirmRead

theorem turn_paused {next : Waiting} (h : turn c s = .inl next) :
    ∃ t mol, pause c t mol = .inl next ∧ t.turns = s.turns ∧ (Tracks c s → Tracks c t) := by
  obtain ⟨e, t, heq, -⟩ | ⟨mol, hsettles⟩ | ⟨mol, confirm, hrereads⟩ | ⟨mol, hread, houtside⟩ := turn_cases c s
  · rw [heq] at h
    cases h
  · rw [hsettles.turn_eq] at h
    cases h
  · rw [hrereads.turn_eq] at h
    split at h
    case isTrue => cases h
    case isFalse => exact ⟨_, mol, h, rfl, fun htracks => htracks.reread hrereads⟩
  · rw [turn_outside hread houtside] at h
    exact ⟨_, mol, h, rfl, fun htracks => htracks.observe hread⟩

theorem turn_again {next : Waiting} (h : turn c s = .inl next) : ¬ Expires c s ∧ next.turns = s.turns + 1 := by
  obtain ⟨t, mol, hpause, hturns, -⟩ := turn_paused h
  by_cases hexpires : Expires c t
  · rw [pause_expired hexpires] at hpause
    cases hpause
  · rw [pause_again hexpires] at hpause
    injection hpause with hnext
    unfold Expires at hexpires ⊢
    rw [← hnext, ← hturns]
    exact ⟨hexpires, rfl⟩

theorem wait_ends (c : Call)
    (hclock : ∀ i, c.elapsed i + min c.pollInterval (c.timeout - c.elapsed i) ≤ c.elapsed (i + 1)) :
    ∃ fuel result, waitForStatusWithSleep c fuel = some result := by
  refine Loop.run_ends (fun s => c.timeout - c.elapsed s.turns) fun s next _ hturn => ?_
  obtain ⟨hbefore, hturns⟩ := turn_again hturn
  have hslept := hclock s.turns
  unfold Expires at hbefore
  rw [hturns]
  omega

theorem Tracks.after_turn (h : Tracks c s) {next : Waiting} (hturn : turn c s = .inl next) : Tracks c next := by
  obtain ⟨t, mol, hpause, -, htracks⟩ := turn_paused hturn
  exact (htracks h).after_pause hpause

theorem Reached.tracks (h : Reached c s) : Tracks c s := by
  induction h with
  | refl => exact tracks_start c
  | tail _ hturn ih => exact ih.after_turn hturn

theorem changes_le (statuses : List MoleculeStatus) : changes statuses ≤ statuses.length := by
  induction statuses using List.reverseRecOn with
  | nil => exact Nat.le_refl 0
  | append_singleton statuses status ih =>
    rw [changes_append, List.length_append, List.length_singleton]
    split <;> omega

theorem Tracks.sound_iff (h : Tracks c s) (hread : loadMolecule c s.reads = .ok mol) (htarget : mol.status ∈ c.target)
    (hprior : ∀ p ∈ s.previousStatus, p ∈ c.target) :
    Sound c (.ok (makeOutcome c (s.observe mol.status) mol)) (s.observe mol.status) ↔ s.reads + 1 < 2 ^ 32 := by
  have hnext := h.observe hread
  have hreads : (s.observe mol.status).reads = s.reads + 1 := rfl
  have hchanges := changes_le (observed c (s.observe mol.status).reads)
  have hpolls := hnext.pollCount
  have hlength := hnext.length
  have htransitions := hnext.transitions
  constructor
  · intro hsound
    have hcount : (s.observe mol.status).pollCount.toNat = (observed c (s.observe mol.status).reads).length :=
      hsound.pollCount _ rfl
    omega
  · intro hbound
    constructor
    case reached =>
      rintro out hout
      injection hout with hout
      subst hout
      exact ⟨observed c s.reads, observed_succ hread, htarget, h.previous ▸ hprior⟩
    case pollCount =>
      rintro out hout
      injection hout with hout
      subst hout
      change (s.observe mol.status).pollCount.toNat = _
      omega
    case transitions =>
      rintro out hout
      injection hout with hout
      subst hout
      change (s.observe mol.status).transitions.toNat = _
      omega
    case lastStatus =>
      intro elapsed last hout
      cases hout

theorem Tracks.expired_iff (h : Tracks c s) (elapsed : Nat) (last : MoleculeStatus) :
    Sound c (.error (.timeout elapsed last)) s ↔ s.previousStatus = some last ∧ last ∉ c.target := by
  rw [h.previous]
  constructor
  · intro hsound
    exact hsound.lastStatus elapsed last rfl
  · rintro hlast
    refine ⟨fun out hout => (nomatch hout), fun out hout => (nomatch hout), fun out hout => (nomatch hout), ?_⟩
    intro elapsed' last' heq
    injection heq with heq
    injection heq with _ hsame
    exact hsame ▸ hlast

theorem sound_error {e : WaitError} (h : ∀ elapsed last, e ≠ .timeout elapsed last) (final : Waiting) :
    Sound c (.error e) final := by
  refine ⟨fun out hout => (nomatch hout), fun out hout => (nomatch hout), fun out hout => (nomatch hout), ?_⟩
  intro elapsed last heq
  injection heq with heq
  exact absurd heq (h elapsed last)

theorem Rereads.prior_observed (h : Rereads c s mol confirm) :
    ∀ p ∈ (s.observe mol.status).previousStatus, p ∈ c.target := by
  intro p hp
  rw [Waiting.observe, Option.mem_def, Option.some_inj] at hp
  exact hp ▸ h.inTarget

theorem Tracks.result (h : Tracks c s) (hmis : ¬ Misreports c s) {result : Outcome} {final : Waiting}
    (hturn : turn c s = .inr (result, final)) : Sound c result final := by
  unfold Misreports at hmis
  push Not at hmis
  obtain ⟨hstale, hsettled, hconfirmed⟩ := hmis
  obtain ⟨e, t, heq, herror⟩ | ⟨mol, hsettles⟩ | ⟨mol, confirm, hrereads⟩ | ⟨mol, hread, houtside⟩ := turn_cases c s
  · rw [heq] at hturn
    injection hturn with hturn
    injection hturn with hresult hfinal
    exact hresult ▸ sound_error herror final
  · rw [hsettles.turn_eq] at hturn
    injection hturn with hturn
    injection hturn with hresult hfinal
    subst hresult hfinal
    exact (h.sound_iff hsettles.read hsettles.inTarget hsettles.prior).mpr (hsettled mol hsettles)
  · rw [hrereads.turn_eq] at hturn
    split at hturn
    case isTrue htarget =>
      injection hturn with hturn
      injection hturn with hresult hfinal
      subst hresult hfinal
      exact ((h.observe hrereads.read).sound_iff hrereads.confirmRead htarget hrereads.prior_observed).mpr
        (hconfirmed mol confirm hrereads htarget)
    case isFalse htarget =>
      have hagain : ¬ Expires c ((s.observe mol.status).observe confirm.status) := hstale mol confirm hrereads htarget
      rw [pause_again hagain] at hturn
      cases hturn
  · rw [turn_outside hread houtside] at hturn
    by_cases hexpires : Expires c (s.observe mol.status)
    · rw [pause_expired hexpires] at hturn
      injection hturn with hturn
      injection hturn with hresult hfinal
      subst hresult hfinal
      exact ((h.observe hread).expired_iff _ _).mpr ⟨rfl, houtside⟩
    · rw [pause_again hexpires] at hturn
      cases hturn

theorem Tracks.wrong (h : Tracks c s) (hmis : Misreports c s) :
    ∃ result final, turn c s = .inr (result, final) ∧ ¬ Sound c result final := by
  obtain ⟨mol, confirm, hrereads, htarget, hexpires⟩ | ⟨mol, hsettles, hreads⟩ |
    ⟨mol, confirm, hrereads, htarget, hreads⟩ := hmis
  · have hlate : Expires c ((s.observe mol.status).observe confirm.status) := hexpires
    have hturn : turn c s = .inr (.error (.timeout (c.elapsed s.turns) mol.status),
        (s.observe mol.status).observe confirm.status) := by
      rw [hrereads.turn_eq, if_neg htarget]
      exact pause_expired hlate
    refine ⟨_, _, hturn, fun hsound => ?_⟩
    exact (((h.reread hrereads).expired_iff _ _).mp hsound).2 hrereads.inTarget
  · refine ⟨_, _, hsettles.turn_eq, fun hsound => ?_⟩
    have hbound := (h.sound_iff hsettles.read hsettles.inTarget hsettles.prior).mp hsound
    omega
  · refine ⟨_, _, hrereads.turn_eq.trans (if_pos htarget), fun hsound => ?_⟩
    have hbound := ((h.observe hrereads.read).sound_iff hrereads.confirmRead htarget hrereads.prior_observed).mp hsound
    have hobserved : (s.observe mol.status).reads = s.reads + 1 := rfl
    omega

end Run

theorem wait_kept (c : Call) : Kept c ↔ ∀ s, Reached c s → ¬ Misreports c s := by
  constructor
  · intro hkept s hreached hmis
    obtain ⟨result, final, hturn, hwrong⟩ := hreached.tracks.wrong hmis
    obtain ⟨fuel, hrun⟩ := Loop.run_some_iff.mpr ⟨s, hreached, hturn⟩
    exact hwrong (hkept.result fuel result final hrun)
  · intro hsteady
    refine ⟨fun s hreached => hreached.tracks.sleeps, fun fuel result final hrun => ?_⟩
    obtain ⟨s, hsteps, hturn⟩ := Loop.run_some_iff.mp ⟨fuel, hrun⟩
    have hreached : Reached c s := hsteps
    exact hreached.tracks.result (hsteady s hreached) hturn

def flickering : Call where
  id := "task-1"
  target := [.completed]
  timeout := 5
  pollInterval := 1
  store read := .ok { id := "task-1", status := if read = 1 then .completed else .running }
  elapsed turn := if turn = 0 then 0 else 5

theorem wait_stale : ¬ Kept flickering := by
  intro h
  have hrun : waitForStatusWithSleep flickering 2 = some (.error (.timeout 5 .completed),
      { pollCount := 3, transitions := 2, previousStatus := some .running
        reads := 3, turns := 1, sleeps := [1] }) := rfl
  exact ((h.result 2 _ _ hrun).lastStatus 5 .completed rfl).2 (List.mem_singleton_self _)

theorem wait_ends_flickering : ∃ fuel result, waitForStatusWithSleep flickering fuel = some result :=
  wait_ends flickering fun i => by
    simp only [flickering]
    split <;> simp

end Cosmon.State.Wait
