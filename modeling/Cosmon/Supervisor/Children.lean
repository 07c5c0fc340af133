import Cosmon.Supervisor.EventLoop

namespace Cosmon.Supervisor

open Cosmon.Lib Cosmon.Lib.Runs Cosmon.State.Molecule

/-- A child has a pid exactly while it runs, and no status of a passage. -/
structure Settled (status : ChildStatus) (pid : Option Nat) : Prop where
  running : pid.isSome = true ↔ status = .running
  spawning : status ≠ .spawning
  respawning : status ≠ .respawning

theorem settled_exited : Settled .exited none := ⟨by simp, by simp, by simp⟩

section Turns

variable {w : World} {now : Instant} {probe : Probe} {rec : ChildRecord}

theorem reap_cases (w : World) (now : Instant) (rec : ChildRecord) :
    w.reap now rec = rec ∨ rec.pid.isSome = true ∧
      ∃ code, w.reap now rec = { rec with
        status := .exited, pid := none, lastExitCode := code, lastExitAt := some now } := by
  unfold World.reap
  cases hpid : rec.pid with
  | none => exact Or.inl rfl
  | some pid =>
    dsimp only
    split
    · cases w.tryWait pid with
      | none => exact Or.inl rfl
      | some outcome =>
        cases outcome with
        | exited code => exact Or.inr ⟨rfl, _, rfl⟩
        | signaled => exact Or.inr ⟨rfl, _, rfl⟩
    · split
      · exact Or.inl rfl
      · exact Or.inr ⟨rfl, _, rfl⟩

@[simp] theorem reap_name : (w.reap now rec).name = rec.name := by
  obtain h | ⟨-, code, h⟩ := reap_cases w now rec <;> rw [h]

theorem settled_reap (h : Settled rec.status rec.pid) :
    Settled (w.reap now rec).status (w.reap now rec).pid := by
  obtain heq | ⟨-, code, heq⟩ := reap_cases w now rec <;> rw [heq]
  · exact h
  · exact settled_exited

theorem spawn_cases (h : nextAction now probe rec = .spawn) :
    (killSwitchDecision rec.spec probe.killSwitchExists (probe.daemonMute rec)).isMuted = false ∧
      (rec.status = .exited ∧
          (rec.spec.throttleSeconds = 0 ∨ throttleDeadline rec.spec (rec.lastExitAt.getD now) ≤ now) ∨
        rec.status = .throttling ∧
          rec.throttleUntil.getD ((rec.lastExitAt.map (throttleDeadline rec.spec)).getD now) ≤ now ∨
        rec.status = .respawning) := by
  unfold nextAction at h
  dsimp only at h
  split at h
  · cases h
  rename_i hmuted
  refine ⟨Bool.eq_false_iff.mpr hmuted, ?_⟩
  cases hstatus : rec.status with
  | running | spawning =>
    rw [hstatus] at h
    cases h
  | respawning => exact Or.inr (Or.inr rfl)
  | throttling =>
    rw [hstatus] at h
    dsimp only at h
    split at h
    · exact Or.inr (Or.inl ⟨rfl, ‹_›⟩)
    · cases h
  | exited =>
    rw [hstatus] at h
    simp only [respawnDecision, hmuted] at h
    by_cases hzero : rec.spec.throttleSeconds = 0
    · exact Or.inl ⟨rfl, Or.inl hzero⟩
    by_cases hdeadline : throttleDeadline rec.spec (rec.lastExitAt.getD now) ≤ now
    · exact Or.inl ⟨rfl, Or.inr hdeadline⟩
    · simp [hzero, hdeadline] at h

theorem park_cases {deadline : Instant} (h : nextAction now probe rec = .park deadline) :
    rec.status = .exited ∧ deadline = throttleDeadline rec.spec (rec.lastExitAt.getD now) := by
  unfold nextAction at h
  dsimp only at h
  split at h
  · cases h
  rename_i hmuted
  cases hstatus : rec.status with
  | running | spawning | respawning =>
    rw [hstatus] at h
    cases h
  | throttling =>
    rw [hstatus] at h
    dsimp only at h
    split at h <;> cases h
  | exited =>
    rw [hstatus] at h
    simp only [respawnDecision, hmuted] at h
    by_cases hzero : rec.spec.throttleSeconds = 0
    · simp [hzero] at h
    by_cases hdeadline : throttleDeadline rec.spec (rec.lastExitAt.getD now) ≤ now
    · simp [hzero, hdeadline] at h
    · simp only [hzero, hdeadline, Bool.false_eq_true, if_false, Action.park.injEq] at h
      exact ⟨rfl, h.symm⟩

theorem pid_of_spawn (hrec : Settled rec.status rec.pid) (h : nextAction now probe rec = .spawn) : rec.pid = none := by
  rw [← Option.not_isSome_iff_eq_none, hrec.running]
  obtain ⟨hstatus, -⟩ | ⟨hstatus, -⟩ | hstatus := (spawn_cases h).2 <;> rw [hstatus] <;> decide

/-- A child is left alone, parked until its deadline, or spawned, which succeeds or not. -/
theorem carryOut_cases (now : Instant) (probe : Probe) (rec : ChildRecord) :
    (nextAction now probe rec ≠ .spawn ∧ carryOut now probe rec = rec) ∨
    (nextAction now probe rec ≠ .spawn ∧ rec.status = .exited ∧ carryOut now probe rec = { rec with
      status := .throttling
      throttleUntil := some (throttleDeadline rec.spec (rec.lastExitAt.getD now)) }) ∨
    (nextAction now probe rec = .spawn ∧ carryOut now probe rec = spawnChild now (probe.spawn rec.name) rec) := by
  unfold carryOut
  cases haction : nextAction now probe rec with
  | terminate pid => exact Or.inl ⟨fun hc => (by cases hc), rfl⟩
  | leave => exact Or.inl ⟨fun hc => (by cases hc), rfl⟩
  | park deadline =>
    obtain ⟨hstatus, rfl⟩ := park_cases haction
    exact Or.inr (Or.inl ⟨fun hc => (by cases hc), hstatus, rfl⟩)
  | spawn => exact Or.inr (Or.inr ⟨rfl, rfl⟩)

@[simp] theorem carryOut_name : (carryOut now probe rec).name = rec.name := by
  obtain ⟨-, heq⟩ | ⟨-, -, heq⟩ | ⟨-, heq⟩ := carryOut_cases now probe rec <;> rw [heq]
  unfold spawnChild
  split <;> rfl

theorem settled_carryOut (h : Settled rec.status rec.pid) :
    Settled (carryOut now probe rec).status (carryOut now probe rec).pid := by
  obtain ⟨-, heq⟩ | ⟨-, hstatus, heq⟩ | ⟨-, heq⟩ := carryOut_cases now probe rec <;> rw [heq]
  · exact h
  · have hpid : rec.pid = none := by
      rw [← Option.not_isSome_iff_eq_none, h.running, hstatus]
      decide
    dsimp only
    rw [hpid]
    exact ⟨by simp, by simp, by simp⟩
  · unfold spawnChild
    split
    · exact ⟨by simp, by simp, by simp⟩
    · exact settled_exited

end Turns

section Operations

variable {H : Type} [DecidableEq H] {specContentHash : DaemonSpec → H} {w : World} {now : Instant}
  {cfg : LoadedConfig}

theorem lookup_byName {name : String} {spec : DaemonSpec} (h : cfg.byName.lookup name = some spec) :
    spec.name = name ∧ spec ∈ cfg.1.daemons := by
  obtain ⟨l, l', heq, -⟩ := List.lookup_eq_some_iff.mp h
  have hmem : (name, spec) ∈ cfg.byName := by
    rw [heq]
    exact List.mem_append_right l List.mem_cons_self
  obtain ⟨spec', hspec, hpair⟩ := List.mem_map.mp hmem
  cases hpair
  exact ⟨rfl, hspec⟩

theorem lookup_of_mem {name : String} (h : name ∈ cfg.1.daemons.map (·.name)) :
    ∃ spec, cfg.byName.lookup name = some spec := by
  obtain ⟨spec, hspec, rfl⟩ := List.mem_map.mp h
  cases hlookup : cfg.byName.lookup spec.name with
  | some found => exact ⟨found, rfl⟩
  | none =>
    have hne := List.lookup_eq_none_iff.mp hlookup (spec.name, spec) (List.mem_map_of_mem hspec)
    simp at hne

theorem mem_spawn {name : String} : name ∈ (w.diff specContentHash cfg).spawn ↔
    name ∈ cfg.1.daemons.map (·.name) ∧ name ∉ w.children.map (·.name) := by
  simp [World.diff, diff, LoadedConfig.byName, List.mem_insertionSort]

theorem mem_kill {name : String} : name ∈ (w.diff specContentHash cfg).kill ↔
    name ∈ w.children.map (·.name) ∧ name ∉ cfg.1.daemons.map (·.name) := by
  simp [World.diff, diff, LoadedConfig.byName, List.mem_insertionSort]

theorem mem_changed {name : String} (h : name ∈ (w.diff specContentHash cfg).changed) :
    name ∈ w.children.map (·.name) ∧ name ∈ cfg.1.daemons.map (·.name) := by
  simp only [World.diff, diff, List.mem_insertionSort, List.mem_filter, decide_eq_true_eq] at h
  obtain ⟨hold, hsame⟩ := h
  refine ⟨by simpa using hold, ?_⟩
  unfold sameHash at hsame
  split at hsame
  · rename_i spec hnew
    obtain ⟨hname, hspec⟩ := lookup_byName hnew
    exact hname ▸ List.mem_map_of_mem hspec
  · cases hsame

theorem mem_reload {rec : ChildRecord} (h : rec ∈ (w.reload specContentHash now cfg).children) :
    (∃ old ∈ w.children, old.name ∈ cfg.1.daemons.map (·.name) ∧
      ((old.name ∉ (w.diff specContentHash cfg).changed ∧ rec = old) ∨
        (old.name ∈ (w.diff specContentHash cfg).changed ∧ rec = replaceSpec now cfg old))) ∨
    ∃ spec, rec = .fresh spec ∧ spec.name ∉ w.children.map (·.name) := by
  obtain ⟨old, hold, heq⟩ := List.mem_map.mp h
  obtain hold | hold := List.mem_append.mp hold
  · obtain ⟨hmem, hkill⟩ := List.mem_filter.mp hold
    have hkill := of_decide_eq_true hkill
    rw [mem_kill, not_and, not_not] at hkill
    refine Or.inl ⟨old, hmem, hkill (List.mem_map_of_mem hmem), ?_⟩
    split at heq
    · exact Or.inr ⟨‹_›, heq.symm⟩
    · exact Or.inl ⟨‹_›, heq.symm⟩
  · obtain ⟨spec, hspec, rfl⟩ := List.mem_map.mp hold
    obtain ⟨name, hname, hlookup⟩ := List.mem_filterMap.mp hspec
    obtain ⟨rfl, -⟩ := lookup_byName hlookup
    have habsent := (mem_spawn.mp hname).2
    have hsame : (ChildRecord.fresh spec).name ∉ (w.diff specContentHash cfg).changed :=
      fun hc => habsent (mem_changed hc).1
    rw [if_neg hsame] at heq
    exact Or.inr ⟨spec, heq.symm, habsent⟩

theorem reload_mem {old : ChildRecord} (h : old ∈ w.children) (hcfg : old.name ∈ cfg.1.daemons.map (·.name)) :
    (if old.name ∈ (w.diff specContentHash cfg).changed then replaceSpec now cfg old else old) ∈
      (w.reload specContentHash now cfg).children := by
  refine List.mem_map.mpr ⟨old, List.mem_append_left _ (List.mem_filter.mpr ⟨h, decide_eq_true fun hkill => ?_⟩), rfl⟩
  exact (mem_kill.mp hkill).2 hcfg

theorem names_lookup {names : List String} (h : ∀ n ∈ names, n ∈ cfg.1.daemons.map (·.name)) :
    ((names.filterMap fun n => cfg.byName.lookup n).map ChildRecord.fresh).map (·.name) = names := by
  induction names with
  | nil => rfl
  | cons n names ih =>
    rw [List.forall_mem_cons] at h
    obtain ⟨spec, hspec⟩ := lookup_of_mem h.1
    rw [List.filterMap_cons_some (f := fun n => cfg.byName.lookup n) hspec, List.map_cons, List.map_cons, ih h.2]
    exact congrArg (· :: names) (lookup_byName hspec).1

theorem reload_names (w : World) (now : Instant) (cfg : LoadedConfig) :
    (w.reload specContentHash now cfg).children.map (·.name) =
      (w.children.map (·.name)).filter (· ∉ (w.diff specContentHash cfg).kill) ++
        (w.diff specContentHash cfg).spawn := by
  have hsame : (fun rec : ChildRecord => rec.name) ∘
      (fun rec => if rec.name ∈ (w.diff specContentHash cfg).changed then replaceSpec now cfg rec else rec) =
      (·.name) := by
    funext rec
    dsimp only [Function.comp_apply]
    split <;> rfl
  simp only [World.reload, List.map_map, hsame, List.map_append, List.filter_map]
  congr 1
  have hnames : ((((w.diff specContentHash cfg).spawn.filterMap fun n => cfg.byName.lookup n).map
      ChildRecord.fresh).map (·.name)) = (w.diff specContentHash cfg).spawn :=
    names_lookup fun n hn => (mem_spawn.mp hn).1
  rw [← Function.comp_assoc, hsame]
  rwa [List.map_map] at hnames

theorem nodup_reload (h : (w.children.map (·.name)).Nodup) :
    ((w.reload specContentHash now cfg).children.map (·.name)).Nodup := by
  rw [reload_names]
  refine (h.filter _).append ?_ fun n hold hnew => (mem_spawn.mp hnew).2 (List.mem_of_mem_filter hold)
  have hcfg : (cfg.byName.map Prod.fst).Nodup := by
    rw [LoadedConfig.byName, List.map_map]
    exact cfg.nodup
  exact (List.perm_insertionSort _ _).nodup_iff.mpr (hcfg.filter _)

theorem recover_cases (w : World) (now : Instant) (spec : DaemonSpec) :
    (Keyed.get PersistedChild.name spec.name w.state = none ∧ w.recover now spec = .fresh spec) ∨
    ∃ p ∈ w.state, p.name = spec.name ∧ Keyed.get PersistedChild.name spec.name w.state = some p ∧
      ((∃ pid, p.pid = some pid ∧ w.alive pid = true ∧ (w.recover now spec).pid = some pid ∧
          (w.recover now spec).status = .running ∧ (w.recover now spec).lastExitAt = p.lastExitAt) ∨
        (p.pid.filter w.alive = none ∧ (w.recover now spec).pid = none ∧
          ((p.status = .running ∨ p.status = .spawning) ∧ (w.recover now spec).status = .exited ∧
              (w.recover now spec).lastExitAt = some now ∨
            ¬(p.status = .running ∨ p.status = .spawning) ∧ (w.recover now spec).status = p.status ∧
              (w.recover now spec).lastExitAt = p.lastExitAt))) := by
  unfold World.recover
  cases hget : Keyed.get PersistedChild.name spec.name w.state with
  | none => exact Or.inl ⟨rfl, rfl⟩
  | some p =>
    obtain ⟨hmem, hname⟩ := Keyed.get_mem hget
    refine Or.inr ⟨p, hmem, hname, rfl, ?_⟩
    dsimp only
    cases hpid : p.pid.filter w.alive with
    | some pid =>
      obtain ⟨hp, halive⟩ := Option.filter_eq_some_iff.mp hpid
      exact Or.inl ⟨pid, hp, halive, rfl, rfl, rfl⟩
    | none =>
      refine Or.inr ⟨rfl, ?_⟩
      by_cases hstatus : p.status = .running ∨ p.status = .spawning
      · simp [hstatus]
      · simp [hstatus, ChildRecord.fresh]

@[simp] theorem recover_name (w : World) (now : Instant) (spec : DaemonSpec) :
    (w.recover now spec).name = spec.name := by
  unfold World.recover
  split
  · rfl
  · dsimp only
    split
    · rfl
    · split <;> rfl

theorem settled_recover {spec : DaemonSpec} (h : ∀ p ∈ w.state, Settled p.status p.pid) :
    Settled (w.recover now spec).status (w.recover now spec).pid := by
  obtain ⟨-, heq⟩ | ⟨p, hp, -, -, hcases⟩ := recover_cases w now spec
  · rw [heq]
    exact settled_exited
  obtain ⟨pid, -, -, hpid, hstatus, -⟩ | ⟨-, hpid, ⟨-, hstatus, -⟩ | ⟨hneither, hstatus, -⟩⟩ := hcases
  · rw [hpid, hstatus]
    exact ⟨by simp, by simp, by simp⟩
  · rw [hpid, hstatus]
    exact settled_exited
  · rw [hpid, hstatus]
    exact ⟨by simpa using fun h => hneither (Or.inl h), (h p hp).spawning, (h p hp).respawning⟩

end Operations

/-- Names are keys, and every child and every saved child is settled. -/
structure Formed (w : World) : Prop where
  names : (w.children.map (·.name)).Nodup
  children : ∀ rec ∈ w.children, Settled rec.status rec.pid
  savedNames : (w.state.map (·.name)).Nodup
  saved : ∀ p ∈ w.state, Settled p.status p.pid

section Formed

variable {H : Type} [DecidableEq H] {specContentHash : DaemonSpec → H} {w : World} {now : Instant}

theorem stepOnce_names (w : World) (now : Instant) (probe : Probe) :
    (w.stepOnce now probe).children.map (·.name) = w.children.map (·.name) := by
  simp [World.stepOnce, Function.comp_def]

theorem mem_stepOnce {probe : Probe} {rec : ChildRecord} (h : rec ∈ (w.stepOnce now probe).children) :
    ∃ old ∈ w.children, rec = carryOut now probe (w.reap now old) := by
  obtain ⟨reaped, hreaped, rfl⟩ := List.mem_map.mp h
  obtain ⟨old, hold, rfl⟩ := List.mem_map.mp hreaped
  exact ⟨old, hold, rfl⟩

theorem formed_saved {children : List ChildRecord} (hnames : (children.map (·.name)).Nodup)
    (hchildren : ∀ rec ∈ children, Settled rec.status rec.pid) :
    ((children.map ChildRecord.toPersisted).map (·.name)).Nodup ∧
      ∀ p ∈ children.map ChildRecord.toPersisted, Settled p.status p.pid := by
  refine ⟨by rwa [List.map_map], fun p hp => ?_⟩
  obtain ⟨rec, hrec, rfl⟩ := List.mem_map.mp hp
  exact hchildren rec hrec

theorem formed_apply (h : Formed w) (timed : Instant × Op) : Formed (w.apply specContentHash timed) := by
  obtain ⟨now, op⟩ := timed
  cases op with
  | exit pid outcome => exact ⟨h.names, h.children, h.savedNames, h.saved⟩
  | step probe =>
    have hnames : ((w.stepOnce now probe).children.map (·.name)).Nodup := by
      rw [stepOnce_names]
      exact h.names
    have hchildren : ∀ rec ∈ (w.stepOnce now probe).children, Settled rec.status rec.pid := by
      intro rec hrec
      obtain ⟨old, hold, rfl⟩ := mem_stepOnce hrec
      exact settled_carryOut (settled_reap (h.children old hold))
    obtain ⟨hsavedNames, hsaved⟩ := formed_saved hnames hchildren
    exact ⟨hnames, hchildren, hsavedNames, hsaved⟩
  | reload cfg =>
    have hnames : ((w.reload specContentHash now cfg).children.map (·.name)).Nodup := nodup_reload h.names
    have hchildren : ∀ rec ∈ (w.reload specContentHash now cfg).children, Settled rec.status rec.pid := by
      intro rec hrec
      obtain ⟨old, hold, -, ⟨-, rfl⟩ | ⟨-, rfl⟩⟩ | ⟨spec, rfl, -⟩ := mem_reload hrec
      · exact h.children _ hold
      · exact settled_exited
      · exact settled_exited
    obtain ⟨hsavedNames, hsaved⟩ := formed_saved hnames hchildren
    exact ⟨hnames, hchildren, hsavedNames, hsaved⟩
  | restart cfg =>
    refine ⟨?_, fun rec hrec => ?_, h.savedNames, h.saved⟩
    · have hnames : ((w.restart now cfg).children.map (·.name)) = cfg.1.daemons.map (·.name) := by
        simp [World.restart, Function.comp_def]
      exact hnames ▸ cfg.nodup
    · obtain ⟨spec, -, rfl⟩ := List.mem_map.mp hrec
      exact settled_recover h.saved

theorem formed_before (ops : List (Instant × Op)) (k : Nat) : Formed (before specContentHash ops k) := by
  unfold before
  refine stateAt_preserves (P := Formed) {} (fun n op _ h => ?_) (Nat.zero_le k) ?_
  · exact formed_apply h op
  · exact ⟨List.nodup_nil, fun rec hrec => absurd hrec List.not_mem_nil, List.nodup_nil,
      fun p hp => absurd hp List.not_mem_nil⟩

end Formed

end Cosmon.Supervisor
