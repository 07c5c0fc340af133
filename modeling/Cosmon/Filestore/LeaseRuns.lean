import Cosmon.Filestore.LeaseStore
import Cosmon.Lib.Runs

namespace Cosmon.Filestore.LeaseRuns

open Cosmon.State.Molecule Cosmon.Core.PilotLeases Cosmon.Lib.LastMax Cosmon.Lib.Runs
open Cosmon.Filestore.LeaseStore

variable {Line : Type} (s : PilotLeaseStore Line)

inductive Phase where
  | cleared
  | refused (error : CosmonError)
  | granted
deriving DecidableEq

/-- A call of `grant`: its lease, how many lines its file had when it was read, and how
far it is. -/
structure Call where
  lease : PilotLease
  seen : Nat
  phase : Phase

structure World (Line : Type) where
  files : Files Line
  calls : Nat → Option Call

def World.start (files : Files Line) : World Line := ⟨files, fun _ => none⟩

/-- The two file operations of a call: it reads the ledger and checks the epoch, then
appends its line. No lock is held between them. -/
inductive Op where
  | read (call : Nat) (lease : PilotLease)
  | append (call : Nat)

def World.step (w : World Line) : Op → World Line
  | .read call lease =>
    if (w.calls call).isSome then w
    else
      let phase := match s.checkEpoch (w.files lease.missionId) lease with
        | .ok _ => .cleared
        | .error e => .refused e
      let c : Call := ⟨lease, (w.files lease.missionId).length, phase⟩
      { w with calls := Function.update w.calls call (some c) }
  | .append call =>
    match w.calls call with
    | none => w
    | some c =>
      if c.phase = .cleared then
        { files := Function.update w.files c.lease.missionId
            (w.files c.lease.missionId ++ [s.encode c.lease])
          calls := Function.update w.calls call (some { c with phase := .granted }) }
      else w

/-- The world of a run before its `n`-th operation. -/
def worldAt (files : Files Line) (ops : List Op) (n : Nat) : World Line :=
  stateAt (World.step s) (World.start files) ops n

def EpochsOnce (lines : List Line) : Prop := ((s.grants lines).map PilotLease.epoch).Nodup

/-- Two calls for one epoch of a mission that an operator signed do not both succeed. -/
def OneWinner (w : World Line) : Prop :=
  ∀ call call' c c', w.calls call = some c → w.calls call' = some c' → c.phase = .granted →
    c'.phase = .granted → s.attested c.lease = .ok () → s.attested c'.lease = .ok () →
    c.lease.missionId = c'.lease.missionId → c.lease.epoch = c'.lease.epoch → call = call'

/-- At no time is an epoch granted twice, of two calls for one epoch at most one
succeeds, and sessions that the guard admits to one mission, at whatever times, are
admitted at different epochs. -/
structure NoSplitBrain (files : Files Line) (ops : List Op) : Prop where
  once : ∀ n mission, EpochsOnce s ((worldAt s files ops n).files mission)
  winner : ∀ n, OneWinner s (worldAt s files ops n)
  guard : ∀ n m mission now now' session session' presented presented' epoch epoch',
    s.authorize ((worldAt s files ops n).files mission) now session presented = .granted epoch →
    s.authorize ((worldAt s files ops m).files mission) now' session' presented' = .granted epoch' →
    session ≠ session' → epoch ≠ epoch'

/-- An attested call appends only while no attested grant of its epoch has been appended
since it read the ledger. -/
def AppendsFresh (files : Files Line) (ops : List Op) : Prop :=
  ∀ n call c, ops[n]? = some (.append call) → (worldAt s files ops n).calls call = some c →
    c.phase = .cleared → s.attested c.lease = .ok () →
    ∀ g ∈ s.grants (((worldAt s files ops n).files c.lease.missionId).drop c.seen),
      g.epoch ≠ c.lease.epoch

def RoundTrips : Prop := ∀ lease, s.decode (s.encode lease) = some lease

section Step

variable {s} {w : World Line}

theorem step_append {call : Nat} {c : Call} (h : w.calls call = some c) (hc : c.phase = .cleared) :
    (World.step s w (.append call)).files = Function.update w.files c.lease.missionId
      (w.files c.lease.missionId ++ [s.encode c.lease]) := by
  simp only [World.step, h, hc, if_true]

theorem step_files (w : World Line) (op : Op) :
    (World.step s w op).files = w.files ∨
      ∃ call c, op = .append call ∧ w.calls call = some c ∧ c.phase = .cleared := by
  cases op with
  | read call lease =>
    left
    simp only [World.step]
    split <;> rfl
  | append call =>
    simp only [World.step]
    cases hc : w.calls call with
    | none => exact Or.inl rfl
    | some c =>
      dsimp only
      split
      · rename_i hcleared
        exact Or.inr ⟨call, c, rfl, hc, hcleared⟩
      · exact Or.inl rfl

theorem step_extends (w : World Line) (op : Op) (mission : MoleculeId) :
    w.files mission <+: (World.step s w op).files mission := by
  obtain h | ⟨call, c, rfl, hc, hcleared⟩ := step_files (s := s) w op
  · rw [h]
  · rw [step_append hc hcleared]
    by_cases hm : mission = c.lease.missionId
    · rw [hm, Function.update_self]
      exact List.prefix_append _ _
    · rw [Function.update_of_ne hm]

/-- A cleared call has seen a prefix of its file, all of whose grants are below its epoch. -/
def Checked (s : PilotLeaseStore Line) (w : World Line) : Prop :=
  ∀ call c, w.calls call = some c → c.phase = .cleared →
    c.seen ≤ (w.files c.lease.missionId).length ∧
      ∀ g ∈ s.grants ((w.files c.lease.missionId).take c.seen), g.epoch < c.lease.epoch

theorem step_checked (h : Checked s w) (op : Op) : Checked s (World.step s w op) := by
  have hgrow : ∀ c : Call, c.seen ≤ (w.files c.lease.missionId).length →
      (∀ g ∈ s.grants ((w.files c.lease.missionId).take c.seen), g.epoch < c.lease.epoch) →
      c.seen ≤ ((World.step s w op).files c.lease.missionId).length ∧
        ∀ g ∈ s.grants (((World.step s w op).files c.lease.missionId).take c.seen),
          g.epoch < c.lease.epoch := by
    intro c hseen hbelow
    obtain ⟨rest, hrest⟩ := step_extends (s := s) w op c.lease.missionId
    rw [← hrest, List.take_append_of_le_length hseen, List.length_append]
    exact ⟨Nat.le_add_right_of_le hseen, hbelow⟩
  intro call c hcall hcleared
  have hold : w.calls call = some c → c.seen ≤ ((World.step s w op).files c.lease.missionId).length ∧
      ∀ g ∈ s.grants (((World.step s w op).files c.lease.missionId).take c.seen),
        g.epoch < c.lease.epoch := by
    intro hw
    obtain ⟨hseen, hbelow⟩ := h call c hw hcleared
    exact hgrow c hseen hbelow
  cases op with
  | read call' lease =>
    simp only [World.step] at hcall hold ⊢
    split at hcall
    · rename_i hused
      rw [if_pos hused] at hold ⊢
      exact hold hcall
    · rename_i hfresh
      rw [if_neg hfresh] at hold ⊢
      dsimp only at hcall hold ⊢
      by_cases hcc : call = call'
      · rw [hcc, Function.update_self] at hcall
        cases hcall
        refine ⟨Nat.le_refl _, ?_⟩
        rw [List.take_length]
        dsimp only at hcleared
        split at hcleared
        · rename_i hok
          exact checkEpoch_ok s hok
        · cases hcleared
      · rw [Function.update_of_ne hcc] at hcall
        exact hold hcall
  | append call' =>
    apply hold
    simp only [World.step] at hcall
    split at hcall
    · exact hcall
    · rename_i c' hc'
      split at hcall
      · dsimp only at hcall
        by_cases hcc : call = call'
        · rw [hcc, Function.update_self] at hcall
          cases hcall
          cases hcleared
        · rw [Function.update_of_ne hcc] at hcall
          exact hcall
      · exact hcall

end Step

section Runs

variable {s} {files : Files Line} {ops : List Op}

theorem worldAt_succ {n : Nat} {op : Op} (h : ops[n]? = some op) :
    worldAt s files ops (n + 1) = World.step s (worldAt s files ops n) op :=
  stateAt_succ (World.step s) h (World.start files)

theorem worldAt_checked (n : Nat) : Checked s (worldAt s files ops n) := by
  refine stateAt_preserves (P := Checked s) (World.start files)
    (fun n op _ h => step_checked h op) (Nat.zero_le n) ?_
  exact fun _ _ h => (nomatch h)

theorem worldAt_extends {n m : Nat} (hnm : n ≤ m) (mission : MoleculeId) :
    (worldAt s files ops n).files mission <+: (worldAt s files ops m).files mission :=
  stateAt_preserves
    (P := fun w : World Line => (worldAt s files ops n).files mission <+: w.files mission)
    (World.start files) (fun _ op _ h => h.trans (step_extends _ op mission)) hnm (List.prefix_refl _)

theorem grants_extend {before after : List Line} (h : before <+: after) {l : PilotLease}
    (hl : l ∈ s.grants before) : l ∈ s.grants after := by
  obtain ⟨rest, rfl⟩ := h
  rw [grants_append]
  exact List.mem_append_left _ hl

theorem grants_concat (hcodec : RoundTrips s) (lines : List Line) (lease : PilotLease) :
    s.grants (lines ++ [s.encode lease]) =
      s.grants lines ++ if (s.attested lease).toBool then [lease] else [] := by
  rw [grants_append, grants_eq s [s.encode lease]]
  simp only [List.filterMap_cons, hcodec lease, List.filterMap_nil, List.filter_cons, List.filter_nil]

theorem epochsOnce_concat (hcodec : RoundTrips s) {lines : List Line} {lease : PilotLease}
    (honce : EpochsOnce s lines) :
    EpochsOnce s (lines ++ [s.encode lease]) ↔
      (s.attested lease = .ok () → ∀ g ∈ s.grants lines, g.epoch ≠ lease.epoch) := by
  unfold EpochsOnce at honce ⊢
  rw [grants_concat hcodec]
  cases hattested : s.attested lease with
  | error e => simp [Except.toBool, honce]
  | ok u =>
    simp only [Except.toBool, if_true, List.map_append, List.map_cons, List.map_nil,
      List.nodup_append, honce, List.nodup_singleton, true_and, List.mem_singleton, forall_eq,
      List.mem_map, forall_exists_index, and_imp, forall_apply_eq_imp_iff₂, forall_const]

/-- A call that is about to append is fresh among all grants as soon as it is fresh among
those it has not seen. -/
theorem fresh_iff {w : World Line} (hchecked : Checked s w) {call : Nat} {c : Call}
    (hc : w.calls call = some c) (hcleared : c.phase = .cleared) :
    (∀ g ∈ s.grants (w.files c.lease.missionId), g.epoch ≠ c.lease.epoch) ↔
      ∀ g ∈ s.grants ((w.files c.lease.missionId).drop c.seen), g.epoch ≠ c.lease.epoch := by
  obtain ⟨-, hbelow⟩ := hchecked call c hc hcleared
  have hsplit := List.take_append_drop c.seen (w.files c.lease.missionId)
  constructor
  · intro h g hg
    apply h
    rw [← hsplit, grants_append]
    exact List.mem_append_right _ hg
  · intro h g hg
    rw [← hsplit, grants_append] at hg
    obtain hg | hg := List.mem_append.mp hg
    · exact ne_of_lt (hbelow g hg)
    · exact h g hg

theorem epochsOnce_run (hcodec : RoundTrips s) (hstart : ∀ mission, EpochsOnce s (files mission))
    (hfresh : AppendsFresh s files ops) (n : Nat) (mission : MoleculeId) :
    EpochsOnce s ((worldAt s files ops n).files mission) := by
  induction n with
  | zero => exact hstart mission
  | succ n ih =>
    cases hop : ops[n]? with
    | none =>
      rw [worldAt, stateAt_none (World.step s) hop]
      exact ih
    | some op =>
      rw [worldAt_succ hop]
      obtain h | ⟨call, c, rfl, hc, hcleared⟩ := step_files (s := s) (worldAt s files ops n) op
      · rw [h]
        exact ih
      · rw [step_append hc hcleared]
        by_cases hm : mission = c.lease.missionId
        · subst hm
          rw [Function.update_self, epochsOnce_concat hcodec ih]
          intro hattested
          exact (fresh_iff (worldAt_checked n) hc hcleared).mpr
            (hfresh n call c hop hc hcleared hattested)
        · rw [Function.update_of_ne hm]
          exact ih

def GrantsRecorded (s : PilotLeaseStore Line) (w : World Line) : Prop :=
  ∀ call c, w.calls call = some c → c.phase = .granted → s.attested c.lease = .ok () →
    c.lease ∈ s.grants (w.files c.lease.missionId)

theorem step_calls (w : World Line) (op : Op) {call : Nat} {c : Call}
    (h : (World.step s w op).calls call = some c) (hgranted : c.phase = .granted) :
    w.calls call = some c ∨
      ∃ c', op = .append call ∧ w.calls call = some c' ∧ c'.phase = .cleared ∧
        c = { c' with phase := .granted } := by
  cases op with
  | read call' lease =>
    simp only [World.step] at h
    split at h
    · exact Or.inl h
    · dsimp only at h
      by_cases hcc : call = call'
      · rw [hcc, Function.update_self] at h
        cases h
        dsimp only at hgranted
        split at hgranted <;> cases hgranted
      · rw [Function.update_of_ne hcc] at h
        exact Or.inl h
  | append call' =>
    simp only [World.step] at h
    split at h
    · exact Or.inl h
    · rename_i c' hc'
      split at h
      · rename_i hcleared
        dsimp only at h
        by_cases hcc : call = call'
        · subst hcc
          rw [Function.update_self] at h
          cases h
          exact Or.inr ⟨c', rfl, hc', hcleared, rfl⟩
        · rw [Function.update_of_ne hcc] at h
          exact Or.inl h
      · exact Or.inl h

theorem step_recorded (hcodec : RoundTrips s) {w : World Line} (h : GrantsRecorded s w) (op : Op) :
    GrantsRecorded s (World.step s w op) := by
  intro call c hcall hgranted hattested
  obtain hold | ⟨c', rfl, hc', hcleared, rfl⟩ := step_calls w op hcall hgranted
  · exact grants_extend (step_extends w op _) (h call c hold hgranted hattested)
  · rw [step_append hc' hcleared]
    dsimp only at hattested ⊢
    rw [Function.update_self, grants_concat hcodec, hattested]
    exact List.mem_append_right _ (List.mem_singleton_self _)

theorem worldAt_recorded (hcodec : RoundTrips s) (n : Nat) : GrantsRecorded s (worldAt s files ops n) := by
  refine stateAt_preserves (P := GrantsRecorded s) (World.start files)
    (fun n op _ h => step_recorded hcodec h op) (Nat.zero_le n) ?_
  exact fun _ _ h => (nomatch h)

theorem oneWinner_run (hcodec : RoundTrips s) (hfresh : AppendsFresh s files ops) (n : Nat) :
    OneWinner s (worldAt s files ops n) := by
  induction n with
  | zero => exact fun _ _ _ _ h => (nomatch h)
  | succ n ih =>
    cases hop : ops[n]? with
    | none =>
      rw [worldAt, stateAt_none (World.step s) hop]
      exact ih
    | some op =>
      rw [worldAt_succ hop]
      -- the call that appends now is fresh, the other one has its grant in the ledger
      have hrace : ∀ call call' c c', op = .append call →
          (worldAt s files ops n).calls call = some c → c.phase = .cleared →
          (worldAt s files ops n).calls call' = some c' → c'.phase = .granted →
          s.attested c.lease = .ok () → s.attested c'.lease = .ok () →
          c.lease.missionId = c'.lease.missionId → c'.lease.epoch ≠ c.lease.epoch := by
        intro call call' c c' hop' hc hcleared hc' hgranted hattested hattested' hmission
        subst hop'
        have hmem := worldAt_recorded hcodec n call' c' hc' hgranted hattested'
        rw [← hmission] at hmem
        exact (fresh_iff (worldAt_checked n) hc hcleared).mpr
          (hfresh n call c hop hc hcleared hattested) _ hmem
      intro call call' c c' hc hc' hgranted hgranted' hattested hattested' hmission hepoch
      obtain hold | ⟨d, hd, hcd, hcleared, rfl⟩ := step_calls _ op hc hgranted
      · obtain hold' | ⟨d', hd', hcd', hcleared', rfl⟩ := step_calls _ op hc' hgranted'
        · exact ih call call' c c' hold hold' hgranted hgranted' hattested hattested' hmission hepoch
        · exact absurd hepoch (hrace call' call d' c hd' hcd' hcleared' hold hgranted hattested'
            hattested hmission.symm)
      · obtain hold' | ⟨d', hd', hcd', hcleared', rfl⟩ := step_calls _ op hc' hgranted'
        · exact absurd hepoch.symm (hrace call call' d c' hd hcd hcleared hold' hgranted' hattested
            hattested' hmission)
        · rw [hd] at hd'
          cases hd'
          rfl

/-- Grants race exactly when one of them appends after another has taken its epoch
unseen. -/
theorem noSplitBrain_iff (hcodec : RoundTrips s) (hstart : ∀ mission, EpochsOnce s (files mission)) :
    NoSplitBrain s files ops ↔ AppendsFresh s files ops := by
  constructor
  · intro h n call c hop hc hcleared hattested
    rw [← fresh_iff (worldAt_checked n) hc hcleared]
    have hafter := h.once (n + 1) c.lease.missionId
    rw [worldAt_succ hop, step_append hc hcleared, Function.update_self,
      epochsOnce_concat hcodec (h.once n c.lease.missionId)] at hafter
    exact hafter hattested
  · intro hfresh
    have honce := epochsOnce_run hcodec hstart hfresh
    refine ⟨honce, oneWinner_run hcodec hfresh, ?_⟩
    intro n m mission now now' session session' presented presented' epoch epoch' hn hm hne heq
    obtain ⟨l, hl, -, hholder, -, hepoch⟩ := (authorize_granted s).mp hn
    obtain ⟨l', hl', -, hholder', -, hepoch'⟩ := (authorize_granted s).mp hm
    have hmem := grants_extend (worldAt_extends (Nat.le_max_left n m) mission) (lastMax_mem hl)
    have hmem' := grants_extend (worldAt_extends (Nat.le_max_right n m) mission) (lastMax_mem hl')
    have hsame : l = l' := List.inj_on_of_nodup_map (honce (max n m) mission) hmem hmem'
      (hepoch.trans (heq.trans hepoch'.symm))
    exact hne (hholder.symm.trans ((congrArg PilotLease.holderSessionId hsame).trans hholder'))

end Runs

def secondLease : PilotLease := { exampleLease with holderSessionId := "codex" }

def raceStore : PilotLeaseStore PilotLease where
  decode := some
  encode := id
  isBlank _ := false
  verifier := some fun c _ =>
    if c = exampleChallenge ∨ c = { exampleChallenge with holderSessionId := "codex" } then .ok ()
    else .error .doesNotCoverTransfer

theorem noSplitBrain_iff_sequential :
    NoSplitBrain raceStore (fun _ => []) [.read 0 exampleLease, .append 0, .read 1 secondLease, .append 1] := by
  have hempty : ∀ mission, EpochsOnce raceStore ((fun _ => [] : Files PilotLease) mission) :=
    fun _ => List.nodup_nil
  refine (noSplitBrain_iff (fun _ => rfl) hempty).mpr ?_
  intro n call c hop hc hcleared _
  match n with
  | 0 | 2 => cases hop
  | 1 =>
    cases hop
    cases hc
    decide
  | 3 =>
    cases hop
    cases hc
    exact absurd hcleared (by decide)
  | n + 4 => cases hop

/-- Both calls read the empty ledger before either appends: both sessions fly epoch 1. -/
theorem grants_race :
    ¬ NoSplitBrain raceStore (fun _ => []) [.read 0 exampleLease, .read 1 secondLease, .append 0, .append 1] := by
  intro h
  have hepochs := h.guard 3 4 "task-1" 0 0 "claude" "codex" (some 1) (some 1) 1 1 (by decide)
    (by decide) (by decide)
  exact absurd rfl hepochs

end Cosmon.Filestore.LeaseRuns
