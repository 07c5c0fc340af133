import Cosmon.Supervisor.Children

namespace Cosmon.Supervisor

open Cosmon.Lib Cosmon.Lib.Runs Cosmon.State.Molecule

/-- The pids that a step hands out are new and differ from each other. -/
structure Probe.Fresh (probe : Probe) (w : World) : Prop where
  unused : ∀ name ∈ w.children.map (·.name), ∀ pid, probe.spawn name = some pid →
    pid ∉ w.processes.map (·.pid)
  apart : ∀ name ∈ w.children.map (·.name), ∀ name' ∈ w.children.map (·.name), ∀ pid,
    probe.spawn name = some pid → probe.spawn name' = some pid → name = name'

/-- One live process for a name, and a live one is the recorded pid of its name or was sent
SIGTERM when the name was dropped. -/
structure NoDoubleSpawn (w : World) : Prop where
  once : ∀ p ∈ w.processes, ∀ q ∈ w.processes, p.daemon = q.daemon → p.outcome = none → q.outcome = none → p = q
  known : ∀ p ∈ w.processes, p.outcome = none →
    (∃ rec ∈ w.children, rec.name = p.daemon ∧ rec.pid = some p.pid) ∨ (p.pid, .dropped) ∈ w.signals

section Conditions

variable {H : Type} [DecidableEq H] (specContentHash : DaemonSpec → H)

/-- A spawn finds no process of its daemon alive that was dropped earlier; a reload changes no
daemon, and a restart drops none, whose process is alive. -/
def Spares (w : World) (timed : Instant × Op) : Prop :=
  match timed.2 with
  | .exit _ _ => True
  | .step probe => ∀ rec ∈ w.children, nextAction timed.1 probe (w.reap timed.1 rec) = .spawn →
      (probe.spawn rec.name).isSome = true → ∀ p ∈ w.processes, p.daemon = rec.name →
      (p.pid, .dropped) ∈ w.signals → p.outcome ≠ none
  | .reload cfg => ∀ rec ∈ w.children, rec.name ∈ (w.diff specContentHash cfg).changed →
      ∀ pid, rec.pid = some pid → w.alive pid = false
  | .restart cfg => ∀ rec ∈ w.children, ∀ pid, rec.pid = some pid → w.alive pid = true →
      rec.name ∈ cfg.1.daemons.map (·.name)

def PidsNotReused (ops : List (Instant × Op)) : Prop :=
  ∀ (k : Nat) (now : Instant) (probe : Probe), ops[k]? = some (now, .step probe) →
    probe.Fresh (before specContentHash ops k)

end Conditions

/-- The pid is that of a process of the daemon, which was not dropped. -/
def Held (w : World) (name : String) (pid : Nat) : Prop :=
  (∃ p ∈ w.processes, p.pid = pid ∧ p.daemon = name) ∧ (pid, .dropped) ∉ w.signals

/-- The three views of the processes agree: every pid in the children or in the state file is
held, and the state file knows the live ones. -/
structure Tracked (w : World) : Prop where
  pids : (w.processes.map (·.pid)).Nodup
  signals : ∀ s ∈ w.signals, s.1 ∈ w.processes.map (·.pid)
  held : ∀ rec ∈ w.children, ∀ pid, rec.pid = some pid → Held w rec.name pid
  savedHeld : ∀ s ∈ w.state, ∀ pid, s.pid = some pid → Held w s.name pid
  saved : ∀ rec ∈ w.children, ∀ pid, rec.pid = some pid → w.alive pid = true →
    ∃ s ∈ w.state, s.name = rec.name ∧ s.pid = some pid

section Processes

variable {w : World} {now : Instant} {probe : Probe} {rec : ChildRecord} {p : Process}

theorem alive_iff (ht : Tracked w) (hp : p ∈ w.processes) : w.alive p.pid = true ↔ p.outcome = none := by
  rw [World.alive, List.any_eq_true]
  constructor
  · rintro ⟨q, hq, hmatch⟩
    obtain ⟨hpid, hnone⟩ := of_decide_eq_true hmatch
    rwa [← List.inj_on_of_nodup_map ht.pids hq hp hpid]
  · intro hnone
    exact ⟨p, hp, decide_eq_true ⟨rfl, hnone⟩⟩

theorem tryWait_eq (ht : Tracked w) (hp : p ∈ w.processes) : w.tryWait p.pid = p.outcome := by
  have hget : Keyed.get Process.pid p.pid w.processes = some p := (Keyed.get_iff ht.pids).mpr ⟨hp, rfl⟩
  unfold Keyed.get at hget
  rw [World.tryWait, hget, Option.bind_some]

theorem Held.unique (ht : Tracked w) {name name' : String} {pid : Nat} (h : Held w name pid)
    (h' : Held w name' pid) : name = name' := by
  obtain ⟨⟨p, hp, hpid, rfl⟩, -⟩ := h
  obtain ⟨⟨q, hq, hqid, rfl⟩, -⟩ := h'
  rw [List.inj_on_of_nodup_map ht.pids hp hq (hpid.trans hqid.symm)]

theorem reap_of_alive (ht : Tracked w) (hrec : rec ∈ w.children) {pid : Nat} (hpid : rec.pid = some pid)
    (halive : w.alive pid = true) : w.reap now rec = rec := by
  obtain ⟨⟨p, hp, rfl, -⟩, -⟩ := ht.held rec hrec pid hpid
  have hwait : w.tryWait p.pid = none := by rw [tryWait_eq ht hp, (alive_iff ht hp).mp halive]
  unfold World.reap
  rw [hpid]
  dsimp only
  rw [hwait, halive, if_pos rfl, ite_self]

theorem pid_of_reap {pid : Nat} (h : (w.reap now rec).pid = some pid) : w.reap now rec = rec ∧ rec.pid = some pid := by
  obtain heq | ⟨-, code, heq⟩ := reap_cases w now rec
  · exact ⟨heq, by rwa [heq] at h⟩
  · rw [heq] at h
    cases h

theorem carryOut_of_pid (hrec : Settled rec.status rec.pid) (hpid : rec.pid.isSome = true) :
    carryOut now probe rec = rec := by
  obtain ⟨-, heq⟩ | ⟨-, hstatus, -⟩ | ⟨haction, -⟩ := carryOut_cases now probe rec
  · exact heq
  · rw [hrec.running, hstatus] at hpid
    cases hpid
  · rw [pid_of_spawn hrec haction] at hpid
    cases hpid

theorem started_some (h : started now probe rec = some p) : nextAction now probe rec = .spawn ∧
    probe.spawn rec.name = some p.pid ∧ p.daemon = rec.name ∧ p.outcome = none := by
  unfold started at h
  split at h
  · obtain ⟨pid, hpid, rfl⟩ := Option.map_eq_some_iff.mp h
    exact ⟨‹_›, hpid, rfl, rfl⟩
  · cases h

theorem started_of_spawn {pid : Nat} (haction : nextAction now probe rec = .spawn)
    (hspawn : probe.spawn rec.name = some pid) :
    started now probe rec = some { pid, daemon := rec.name } := by
  rw [started, haction]
  dsimp only
  rw [hspawn, Option.map_some]

theorem mem_started (h : p ∈ (w.children.map (w.reap now)).filterMap (started now probe)) :
    ∃ rec ∈ w.children, nextAction now probe (w.reap now rec) = .spawn ∧
      probe.spawn rec.name = some p.pid ∧ p.daemon = rec.name ∧ p.outcome = none := by
  obtain ⟨reaped, hreaped, hstarted⟩ := List.mem_filterMap.mp h
  obtain ⟨rec, hrec, rfl⟩ := List.mem_map.mp hreaped
  obtain ⟨haction, hspawn, hdaemon, hnone⟩ := started_some hstarted
  rw [reap_name] at hspawn hdaemon
  exact ⟨rec, hrec, haction, hspawn, hdaemon, hnone⟩

theorem carryOut_of_spawn {pid : Nat} (haction : nextAction now probe rec = .spawn)
    (hspawn : probe.spawn rec.name = some pid) : (carryOut now probe rec).pid = some pid := by
  rw [carryOut, haction]
  dsimp only
  rw [hspawn, spawnChild]

theorem terminated_some {s : Nat × Reason} (h : terminated now probe rec = some s) :
    rec.pid = some s.1 ∧ s.2 = .muted := by
  unfold terminated at h
  split at h
  · rename_i pid haction
    obtain ⟨pid', rfl, rfl⟩ := Option.map_eq_some_iff.mp h
    refine ⟨?_, rfl⟩
    unfold nextAction at haction
    dsimp only at haction
    split at haction
    · exact Action.terminate.inj haction
    · cases hstatus : rec.status with
      | running | spawning | respawning =>
        rw [hstatus] at haction
        cases haction
      | throttling =>
        rw [hstatus] at haction
        dsimp only at haction
        split at haction <;> cases haction
      | exited =>
        rw [hstatus] at haction
        dsimp only at haction
        split at haction <;> cases haction
  · cases h

theorem pid_of_carryOut (hw : Formed w) (hrec : rec ∈ w.children) {pid : Nat}
    (h : (carryOut now probe (w.reap now rec)).pid = some pid) :
    rec.pid = some pid ∨ nextAction now probe (w.reap now rec) = .spawn ∧ probe.spawn rec.name = some pid := by
  obtain ⟨-, heq⟩ | ⟨-, hstatus, heq⟩ | ⟨haction, heq⟩ := carryOut_cases now probe (w.reap now rec)
  · rw [heq] at h
    exact Or.inl (pid_of_reap h).2
  · rw [heq] at h
    have hpid : (w.reap now rec).pid.isSome = true := by rw [h, Option.isSome_some]
    rw [(settled_reap (hw.children rec hrec)).running, hstatus] at hpid
    cases hpid
  · rw [heq, reap_name] at h
    cases hspawn : probe.spawn rec.name with
    | none =>
      rw [hspawn] at h
      cases h
    | some new =>
      rw [hspawn] at h
      cases h
      exact Or.inr ⟨haction, rfl⟩

end Processes

section Tracking

variable {H : Type} [DecidableEq H] {specContentHash : DaemonSpec → H} {w : World} {now : Instant}
  {probe : Probe} {cfg : LoadedConfig}

theorem held_saved {w' : World} (hstate : w'.state = w'.children.map ChildRecord.toPersisted)
    (h : ∀ rec ∈ w'.children, ∀ pid, rec.pid = some pid → Held w' rec.name pid) :
    (∀ s ∈ w'.state, ∀ pid, s.pid = some pid → Held w' s.name pid) ∧
      ∀ rec ∈ w'.children, ∀ pid, rec.pid = some pid → w'.alive pid = true →
        ∃ s ∈ w'.state, s.name = rec.name ∧ s.pid = some pid := by
  rw [hstate]
  refine ⟨fun s hs => ?_, fun rec hrec pid hpid _ => ⟨_, List.mem_map_of_mem hrec, rfl, hpid⟩⟩
  obtain ⟨rec, hrec, rfl⟩ := List.mem_map.mp hs
  exact h rec hrec

theorem nodup_started (hw : Formed w) (hfresh : probe.Fresh w) :
    (((w.children.map (w.reap now)).filterMap (started now probe)).map (·.pid)).Nodup := by
  rw [List.Nodup, List.pairwise_map, List.pairwise_filterMap, List.pairwise_map]
  have hnames := List.pairwise_map.mp hw.names
  refine hnames.imp_of_mem fun hrec hrec' hne p hp q hq heq => hne ?_
  obtain ⟨-, hspawn, -⟩ := started_some hp
  obtain ⟨-, hspawn', -⟩ := started_some hq
  rw [reap_name] at hspawn hspawn'
  exact hfresh.apart _ (List.mem_map_of_mem hrec) _ (List.mem_map_of_mem hrec') _ hspawn (heq ▸ hspawn')

theorem dropped_step {pid : Nat} :
    (pid, .dropped) ∈ (w.stepOnce now probe).signals ↔ (pid, .dropped) ∈ w.signals := by
  refine ⟨fun h => ?_, fun h => List.mem_append_left _ h⟩
  obtain h | h := List.mem_append.mp h
  · exact h
  · obtain ⟨rec, -, hterm⟩ := List.mem_filterMap.mp h
    cases (terminated_some hterm).2

theorem tracked_step (hw : Formed w) (ht : Tracked w) (hfresh : probe.Fresh w) :
    Tracked (w.stepOnce now probe) := by
  have hold {name : String} {pid : Nat} (h : Held w name pid) : Held (w.stepOnce now probe) name pid := by
    obtain ⟨⟨p, hp, hpid⟩, hdropped⟩ := h
    exact ⟨⟨p, List.mem_append_left _ hp, hpid⟩, fun hmem => hdropped (dropped_step.mp hmem)⟩
  have hheld : ∀ rec ∈ (w.stepOnce now probe).children, ∀ pid, rec.pid = some pid →
      Held (w.stepOnce now probe) rec.name pid := by
    intro rec hrec pid hpid
    obtain ⟨old, holdMem, rfl⟩ := mem_stepOnce hrec
    rw [carryOut_name, reap_name]
    obtain hpid | ⟨haction, hspawn⟩ := pid_of_carryOut hw holdMem hpid
    · exact hold (ht.held old holdMem pid hpid)
    · have hunused := hfresh.unused old.name (List.mem_map_of_mem holdMem) pid hspawn
      have hstarted : started now probe (w.reap now old) = some { pid, daemon := old.name } := by
        rw [started_of_spawn haction (by rwa [reap_name]), reap_name]
      have hmem := List.mem_filterMap.mpr ⟨_, List.mem_map_of_mem holdMem, hstarted⟩
      exact ⟨⟨_, List.mem_append_right _ hmem, rfl, rfl⟩, fun hdropped =>
        hunused (ht.signals _ (dropped_step.mp hdropped))⟩
  obtain ⟨hsavedHeld, hsaved⟩ := held_saved rfl hheld
  refine ⟨?_, fun s hs => ?_, hheld, hsavedHeld, hsaved⟩
  · rw [World.stepOnce, List.map_append, List.nodup_append]
    refine ⟨ht.pids, nodup_started hw hfresh, fun pid hpid pid' hpid' heq => ?_⟩
    obtain ⟨p, hp, rfl⟩ := List.mem_map.mp hpid'
    obtain ⟨rec, hrec, -, hspawn, -⟩ := mem_started hp
    exact hfresh.unused rec.name (List.mem_map_of_mem hrec) p.pid hspawn (heq ▸ hpid)
  · rw [World.stepOnce, List.map_append]
    refine List.mem_append_left _ ?_
    obtain hs | hs := List.mem_append.mp hs
    · exact ht.signals s hs
    · obtain ⟨reaped, hreaped, hterm⟩ := List.mem_filterMap.mp hs
      obtain ⟨old, holdMem, rfl⟩ := List.mem_map.mp hreaped
      obtain ⟨⟨p, hp, hpid, -⟩, -⟩ := ht.held old holdMem s.1 (pid_of_reap (terminated_some hterm).1).2
      exact hpid ▸ List.mem_map_of_mem hp

theorem dropped_reload (hw : Formed w) {pid : Nat} :
    (pid, .dropped) ∈ (w.reload specContentHash now cfg).signals ↔ (pid, .dropped) ∈ w.signals ∨
      ∃ rec ∈ w.children, rec.name ∉ cfg.1.daemons.map (·.name) ∧ rec.pid = some pid := by
  have hrecorded {name : String} : w.recordedPid name = some pid ↔
      ∃ rec ∈ w.children, rec.name = name ∧ rec.pid = some pid := by
    rw [World.recordedPid, Option.bind_eq_some_iff]
    simp only [Keyed.get_iff hw.names, and_assoc]
  simp only [World.reload, List.mem_append, List.mem_filterMap, Option.map_eq_some_iff, Prod.mk.injEq, reduceCtorEq,
    and_false, exists_false, or_false, and_true, exists_eq_right, hrecorded, mem_kill]
  constructor
  · rintro (h | ⟨name, ⟨-, hcfg⟩, rec, hrec, rfl, hpid⟩)
    · exact Or.inl h
    · exact Or.inr ⟨rec, hrec, hcfg, hpid⟩
  · rintro (h | ⟨rec, hrec, hcfg, hpid⟩)
    · exact Or.inl h
    · exact Or.inr ⟨rec.name, ⟨List.mem_map_of_mem hrec, hcfg⟩, rec, hrec, rfl, hpid⟩

theorem signals_reload {s : Nat × Reason} (hs : s ∈ (w.reload specContentHash now cfg).signals) :
    s ∈ w.signals ∨ ∃ rec ∈ w.children, rec.pid = some s.1 := by
  have hrecorded {name : String} {reason : Reason}
      (h : (w.recordedPid name).map (fun pid => (pid, reason)) = some s) :
      ∃ rec ∈ w.children, rec.pid = some s.1 := by
    obtain ⟨pid, hpid, rfl⟩ := Option.map_eq_some_iff.mp h
    obtain ⟨rec, hget, hpid⟩ := Option.bind_eq_some_iff.mp hpid
    exact ⟨rec, (Keyed.get_mem hget).1, hpid⟩
  obtain hs | hs := List.mem_append.mp hs
  · obtain hs | hs := List.mem_append.mp hs
    · exact Or.inl hs
    · obtain ⟨name, -, hs⟩ := List.mem_filterMap.mp hs
      exact Or.inr (hrecorded hs)
  · obtain ⟨name, -, hs⟩ := List.mem_filterMap.mp hs
    exact Or.inr (hrecorded hs)

theorem tracked_reload (hw : Formed w) (ht : Tracked w) : Tracked (w.reload specContentHash now cfg) := by
  have hheld : ∀ rec ∈ (w.reload specContentHash now cfg).children, ∀ pid, rec.pid = some pid →
      Held (w.reload specContentHash now cfg) rec.name pid := by
    intro rec hrec pid hpid
    obtain ⟨old, hold, hcfg, ⟨-, rfl⟩ | ⟨-, rfl⟩⟩ | ⟨spec, rfl, -⟩ := mem_reload hrec
    · have hheld := ht.held rec hold pid hpid
      refine ⟨hheld.1, fun hmem => ?_⟩
      obtain hmem | ⟨other, hother, hdropped, hsame⟩ := (dropped_reload hw).mp hmem
      · exact hheld.2 hmem
      · exact hdropped ((ht.held other hother pid hsame).unique ht hheld ▸ hcfg)
    · cases hpid
    · cases hpid
  obtain ⟨hsavedHeld, hsaved⟩ := held_saved rfl hheld
  refine ⟨ht.pids, fun s hs => ?_, hheld, hsavedHeld, hsaved⟩
  obtain hs | ⟨rec, hrec, hpid⟩ := signals_reload hs
  · exact ht.signals s hs
  · obtain ⟨⟨p, hp, hsame, -⟩, -⟩ := ht.held rec hrec s.1 hpid
    exact hsame ▸ List.mem_map_of_mem hp

theorem pid_of_recover {spec : DaemonSpec} {pid : Nat} (h : (w.recover now spec).pid = some pid) :
    ∃ s ∈ w.state, s.name = spec.name ∧ s.pid = some pid ∧ w.alive pid = true := by
  obtain ⟨-, heq⟩ | ⟨s, hs, hname, -, hcases⟩ := recover_cases w now spec
  · rw [heq] at h
    cases h
  obtain ⟨pid', hsaved, halive, hpid, -⟩ | ⟨-, hpid, -⟩ := hcases
  · rw [hpid, Option.some.injEq] at h
    exact ⟨s, hs, hname, h ▸ hsaved, h ▸ halive⟩
  · rw [hpid] at h
    cases h

theorem tracked_restart (ht : Tracked w) : Tracked (w.restart now cfg) := by
  refine ⟨ht.pids, ht.signals, fun rec hrec pid hpid => ?_, ht.savedHeld, fun rec hrec pid hpid _ => ?_⟩
  · obtain ⟨spec, -, rfl⟩ := List.mem_map.mp hrec
    obtain ⟨s, hs, hname, hsaved, -⟩ := pid_of_recover hpid
    rw [recover_name, ← hname]
    exact ht.savedHeld s hs pid hsaved
  · obtain ⟨spec, -, rfl⟩ := List.mem_map.mp hrec
    obtain ⟨s, hs, hname, hsaved, -⟩ := pid_of_recover hpid
    exact ⟨s, hs, by rw [recover_name, hname], hsaved⟩

section Exit

variable {pid : Nat} {outcome : Outcome}

theorem mem_exit {q : Process} (h : q ∈ (w.exit pid outcome).processes) :
    ∃ p ∈ w.processes, q.pid = p.pid ∧ q.daemon = p.daemon ∧ (q.outcome = none → q = p) := by
  obtain ⟨p, hp, rfl⟩ := List.mem_map.mp h
  refine ⟨p, hp, ?_⟩
  split
  · exact ⟨rfl, rfl, fun hnone => by cases hnone⟩
  · exact ⟨rfl, rfl, fun _ => rfl⟩

theorem exit_pids : (w.exit pid outcome).processes.map (·.pid) = w.processes.map (·.pid) := by
  rw [World.exit, List.map_map]
  refine List.map_congr_left fun p _ => ?_
  dsimp only [Function.comp_apply]
  split <;> rfl

theorem held_exit {name : String} {pid' : Nat} (h : Held w name pid') : Held (w.exit pid outcome) name pid' := by
  obtain ⟨⟨p, hp, hpid, hdaemon⟩, hdropped⟩ := h
  refine ⟨⟨_, List.mem_map_of_mem hp, ?_⟩, hdropped⟩
  split <;> exact ⟨hpid, hdaemon⟩

theorem alive_exit {pid' : Nat} (h : (w.exit pid outcome).alive pid' = true) : w.alive pid' = true := by
  obtain ⟨q, hq, hmatch⟩ := List.any_eq_true.mp h
  obtain ⟨p, hp, -, -, hsame⟩ := mem_exit hq
  have hlive := of_decide_eq_true hmatch
  rw [hsame hlive.2] at hmatch
  exact List.any_eq_true.mpr ⟨p, hp, hmatch⟩

theorem tracked_exit (ht : Tracked w) : Tracked (w.exit pid outcome) where
  pids := by
    rw [exit_pids]
    exact ht.pids
  signals := by
    rw [exit_pids]
    exact ht.signals
  held rec hrec pid' hpid := held_exit (ht.held rec hrec pid' hpid)
  savedHeld s hs pid' hpid := held_exit (ht.savedHeld s hs pid' hpid)
  saved rec hrec pid' hpid halive := ht.saved rec hrec pid' hpid (alive_exit halive)

theorem noDoubleSpawn_exit (h : NoDoubleSpawn w) : NoDoubleSpawn (w.exit pid outcome) := by
  refine ⟨fun p hp q hq hdaemon hplive hqlive => ?_, fun p hp hlive => ?_⟩
  · obtain ⟨p', hp', -, -, hpsame⟩ := mem_exit hp
    obtain ⟨q', hq', -, -, hqsame⟩ := mem_exit hq
    obtain rfl := hpsame hplive
    obtain rfl := hqsame hqlive
    exact h.once p hp' q hq' hdaemon hplive hqlive
  · obtain ⟨p', hp', -, -, hsame⟩ := mem_exit hp
    obtain rfl := hsame hlive
    exact h.known p hp' hlive

end Exit

theorem tracked_apply {timed : Instant × Op} (hw : Formed w) (ht : Tracked w)
    (hfresh : ∀ probe, timed.2 = .step probe → probe.Fresh w) : Tracked (w.apply specContentHash timed) := by
  obtain ⟨now, op⟩ := timed
  cases op with
  | exit pid outcome => exact tracked_exit ht
  | step probe => exact tracked_step hw ht (hfresh probe rfl)
  | reload cfg => exact tracked_reload hw ht
  | restart cfg => exact tracked_restart ht

theorem tracked_before {ops : List (Instant × Op)} (hpids : PidsNotReused specContentHash ops) (k : Nat) :
    Tracked (before specContentHash ops k) := by
  refine stateAt_preserves (P := Tracked) {} (fun n timed hop h => ?_) (Nat.zero_le k) ?_
  · refine tracked_apply (formed_before ops n) h fun probe hprobe => hpids n timed.1 probe ?_
    rw [hop, ← hprobe]
  · refine ⟨List.nodup_nil, ?_, ?_, ?_, ?_⟩
    · exact fun s hs => absurd hs List.not_mem_nil
    · exact fun rec hrec => absurd hrec List.not_mem_nil
    · exact fun s hs => absurd hs List.not_mem_nil
    · exact fun rec hrec => absurd hrec List.not_mem_nil

end Tracking

section Spawns

variable {H : Type} [DecidableEq H] {specContentHash : DaemonSpec → H} {w : World} {now : Instant}
  {probe : Probe} {cfg : LoadedConfig} (hw : Formed w) (ht : Tracked w) (h : NoDoubleSpawn w)

include hw ht h

theorem dead_of_spawn (hspares : Spares specContentHash w (now, .step probe)) {rec : ChildRecord}
    (hrec : rec ∈ w.children) (haction : nextAction now probe (w.reap now rec) = .spawn) {pid : Nat}
    (hspawn : probe.spawn rec.name = some pid) {p : Process} (hp : p ∈ w.processes)
    (hdaemon : p.daemon = rec.name) : p.outcome ≠ none := by
  intro hlive
  obtain ⟨other, hother, hsame, hpid⟩ | hdropped := h.known p hp hlive
  · obtain rfl := List.inj_on_of_nodup_map hw.names hother hrec (hsame.trans hdaemon)
    rw [reap_of_alive ht hother hpid ((alive_iff ht hp).mpr hlive)] at haction
    rw [pid_of_spawn (hw.children other hother) haction] at hpid
    cases hpid
  · exact hspares rec hrec haction (by rw [hspawn, Option.isSome_some]) p hp hdaemon hdropped hlive

theorem noDoubleSpawn_step (hspares : Spares specContentHash w (now, .step probe)) :
    NoDoubleSpawn (w.stepOnce now probe) := by
  refine ⟨fun p hp q hq hdaemon hplive hqlive => ?_, fun p hp hlive => ?_⟩
  · obtain hp | hp := List.mem_append.mp hp <;> obtain hq | hq := List.mem_append.mp hq
    · exact h.once p hp q hq hdaemon hplive hqlive
    · obtain ⟨rec, hrec, haction, hspawn, hname, -⟩ := mem_started hq
      exact absurd hplive (dead_of_spawn hw ht h hspares hrec haction hspawn hp (hdaemon.trans hname))
    · obtain ⟨rec, hrec, haction, hspawn, hname, -⟩ := mem_started hp
      exact absurd hqlive (dead_of_spawn hw ht h hspares hrec haction hspawn hq (hdaemon.symm.trans hname))
    · obtain ⟨rec, hrec, -, hspawn, hname, -⟩ := mem_started hp
      obtain ⟨rec', hrec', -, hspawn', hname', -⟩ := mem_started hq
      obtain rfl := List.inj_on_of_nodup_map hw.names hrec hrec' (hname.symm.trans (hdaemon.trans hname'))
      rw [hspawn, Option.some.injEq] at hspawn'
      exact Process.ext hspawn' hdaemon (hplive.trans hqlive.symm)
  · obtain hp | hp := List.mem_append.mp hp
    · obtain ⟨rec, hrec, hname, hpid⟩ | hdropped := h.known p hp hlive
      · have hreap : w.reap now rec = rec := reap_of_alive ht hrec hpid ((alive_iff ht hp).mpr hlive)
        have hsame : carryOut now probe (w.reap now rec) = rec := by
          rw [hreap]
          exact carryOut_of_pid (hw.children rec hrec) (by rw [hpid, Option.isSome_some])
        refine Or.inl ⟨_, List.mem_map_of_mem (List.mem_map_of_mem hrec), ?_⟩
        rw [hsame]
        exact ⟨hname, hpid⟩
      · exact Or.inr (dropped_step.mpr hdropped)
    · obtain ⟨rec, hrec, haction, hspawn, hname, -⟩ := mem_started hp
      refine Or.inl ⟨_, List.mem_map_of_mem (List.mem_map_of_mem hrec), ?_, ?_⟩
      · rw [carryOut_name, reap_name, hname]
      · exact carryOut_of_spawn haction (by rwa [reap_name])

omit hw ht h in
theorem spares_step (hfresh : probe.Fresh w) (h : NoDoubleSpawn (w.stepOnce now probe)) :
    Spares specContentHash w (now, .step probe) := by
  intro rec hrec haction hsome p hp hdaemon hdropped hlive
  obtain ⟨pid, hspawn⟩ := Option.isSome_iff_exists.mp hsome
  have hstarted : started now probe (w.reap now rec) = some { pid, daemon := rec.name } := by
    rw [started_of_spawn haction (by rwa [reap_name]), reap_name]
  have hmem := List.mem_filterMap.mpr ⟨_, List.mem_map_of_mem hrec, hstarted⟩
  have hsame := h.once p (List.mem_append_left _ hp) _ (List.mem_append_right _ hmem) hdaemon hlive rfl
  refine hfresh.unused rec.name (List.mem_map_of_mem hrec) pid hspawn (List.mem_map.mpr ⟨p, hp, ?_⟩)
  rw [hsame]

theorem noDoubleSpawn_reload (hspares : Spares specContentHash w (now, .reload cfg)) :
    NoDoubleSpawn (w.reload specContentHash now cfg) := by
  refine ⟨h.once, fun p hp hlive => ?_⟩
  obtain ⟨rec, hrec, hname, hpid⟩ | hdropped := h.known p hp hlive
  · by_cases hcfg : rec.name ∈ cfg.1.daemons.map (·.name)
    · have hchanged : rec.name ∉ (w.diff specContentHash cfg).changed := by
        intro hchanged
        have hdead := hspares rec hrec hchanged p.pid hpid
        rw [(alive_iff ht hp).mpr hlive] at hdead
        cases hdead
      have hmem : (if rec.name ∈ (w.diff specContentHash cfg).changed then replaceSpec now cfg rec else rec) ∈
          (w.reload specContentHash now cfg).children := reload_mem hrec hcfg
      rw [if_neg hchanged] at hmem
      exact Or.inl ⟨rec, hmem, hname, hpid⟩
    · exact Or.inr ((dropped_reload hw).mpr (Or.inr ⟨rec, hrec, hcfg, hpid⟩))
  · exact Or.inr ((dropped_reload hw).mpr (Or.inl hdropped))

omit h in
theorem spares_reload (hafter : NoDoubleSpawn (w.reload specContentHash now cfg)) :
    Spares specContentHash w (now, .reload cfg) := by
  intro rec hrec hchanged pid hpid
  by_contra halive
  rw [Bool.not_eq_false] at halive
  have hheld := ht.held rec hrec pid hpid
  obtain ⟨p, hp, rfl, hdaemon⟩ := hheld.1
  obtain ⟨new, hnew, hname, hnewPid⟩ | hdropped := hafter.known p hp ((alive_iff ht hp).mp halive)
  · obtain ⟨old, hold, -, ⟨hsame, rfl⟩ | ⟨-, rfl⟩⟩ | ⟨spec, rfl, -⟩ := mem_reload hnew
    · obtain rfl := List.inj_on_of_nodup_map hw.names hold hrec (hname.trans hdaemon)
      exact hsame hchanged
    · cases hnewPid
    · cases hnewPid
  · obtain hdropped | ⟨other, hother, hcfg, hsame⟩ := (dropped_reload hw).mp hdropped
    · exact hheld.2 hdropped
    · rw [(ht.held other hother p.pid hsame).unique ht hheld] at hcfg
      exact hcfg (mem_changed hchanged).2

theorem noDoubleSpawn_restart (hspares : Spares specContentHash w (now, .restart cfg)) :
    NoDoubleSpawn (w.restart now cfg) := by
  refine ⟨h.once, fun p hp hlive => ?_⟩
  obtain ⟨rec, hrec, hname, hpid⟩ | hdropped := h.known p hp hlive
  · have halive := (alive_iff ht hp).mpr hlive
    obtain ⟨spec, hspec, hspecName⟩ := List.mem_map.mp (hspares rec hrec p.pid hpid halive)
    obtain ⟨s, hs, hsName, hsPid⟩ := ht.saved rec hrec p.pid hpid halive
    have hget : Keyed.get PersistedChild.name spec.name w.state = some s :=
      (Keyed.get_iff hw.savedNames).mpr ⟨hs, hsName.trans hspecName.symm⟩
    refine Or.inl ⟨_, List.mem_map_of_mem hspec, by rw [recover_name, hspecName, hname], ?_⟩
    obtain ⟨hnone, -⟩ | ⟨s', -, -, hget', hcases⟩ := recover_cases w now spec
    · rw [hget] at hnone
      cases hnone
    rw [hget, Option.some.injEq] at hget'
    subst hget'
    obtain ⟨pid, hsaved, -, hrecovered, -⟩ | ⟨hdead, -⟩ := hcases
    · rw [hrecovered, ← hsaved, hsPid]
    · rw [hsPid, Option.filter_some, if_pos halive] at hdead
      cases hdead
  · exact Or.inr hdropped

omit hw h in
theorem spares_restart (hafter : NoDoubleSpawn (w.restart now cfg)) :
    Spares specContentHash w (now, .restart cfg) := by
  intro rec hrec pid hpid halive
  have hheld := ht.held rec hrec pid hpid
  obtain ⟨p, hp, rfl, hdaemon⟩ := hheld.1
  obtain ⟨new, hnew, hname, -⟩ | hdropped := hafter.known p hp ((alive_iff ht hp).mp halive)
  · obtain ⟨spec, hspec, rfl⟩ := List.mem_map.mp hnew
    rw [recover_name] at hname
    exact List.mem_map.mpr ⟨spec, hspec, hname.trans hdaemon⟩
  · exact absurd hdropped hheld.2

theorem noDoubleSpawn_apply_iff {timed : Instant × Op} (hfresh : ∀ probe, timed.2 = .step probe → probe.Fresh w) :
    NoDoubleSpawn (w.apply specContentHash timed) ↔ Spares specContentHash w timed := by
  obtain ⟨now, op⟩ := timed
  cases op with
  | exit pid outcome => exact ⟨fun _ => trivial, fun _ => noDoubleSpawn_exit h⟩
  | step probe => exact ⟨spares_step (hfresh probe rfl), noDoubleSpawn_step hw ht h⟩
  | reload cfg => exact ⟨spares_reload hw ht, noDoubleSpawn_reload hw ht h⟩
  | restart cfg => exact ⟨spares_restart ht, noDoubleSpawn_restart hw ht h⟩

end Spawns

section Runs

variable {H : Type} [DecidableEq H] (specContentHash : DaemonSpec → H)

/-- With pids that are not reused, no daemon is ever spawned twice exactly when every operation
spares what is alive. -/
theorem noDoubleSpawn_iff (ops : List (Instant × Op)) (hpids : PidsNotReused specContentHash ops) :
    (∀ k, NoDoubleSpawn (before specContentHash ops k)) ↔
      ∀ k timed, ops[k]? = some timed → Spares specContentHash (before specContentHash ops k) timed := by
  have hstep {k : Nat} {timed : Instant × Op} (hop : ops[k]? = some timed)
      (h : NoDoubleSpawn (before specContentHash ops k)) :
      NoDoubleSpawn (before specContentHash ops (k + 1)) ↔
        Spares specContentHash (before specContentHash ops k) timed := by
    unfold before at h ⊢
    rw [stateAt_succ _ hop]
    refine noDoubleSpawn_apply_iff (formed_before ops k) (tracked_before hpids k) h fun probe hprobe => ?_
    exact hpids k timed.1 probe (hprobe ▸ hop)
  constructor
  · intro h k timed hop
    exact (hstep hop (h k)).mp (h (k + 1))
  · intro h k
    induction k with
    | zero => exact ⟨fun p hp => absurd hp List.not_mem_nil, fun p hp => absurd hp List.not_mem_nil⟩
    | succ k ih =>
      cases hop : ops[k]? with
      | none =>
        unfold before at ih ⊢
        rwa [stateAt_none _ hop]
      | some timed => exact (hstep hop ih).mpr (h k timed hop)

end Runs

section Samples

theorem courier_fresh {w : World} {pid : Nat} {probe : Probe} (hstep : courierStep pid = .step probe)
    (hnames : w.children.map (·.name) = ["courier"]) (hpid : pid ∉ w.processes.map (·.pid)) : probe.Fresh w := by
  cases hstep
  constructor
  · rintro name - pid' hsome
    cases hsome
    exact hpid
  · intro name hname name' hname' _ _ _
    rw [hnames, List.mem_singleton] at hname hname'
    rw [hname, hname']

theorem courier_pids : PidsNotReused (fun spec => spec) courierRun := by
  intro k now probe hop
  obtain _ | _ | _ | _ | _ | _ | k := k
  · cases hop
  · exact courier_fresh (Prod.ext_iff.mp (Option.some.inj hop)).2 (by decide +kernel) (by decide +kernel)
  · exact courier_fresh (Prod.ext_iff.mp (Option.some.inj hop)).2 (by decide +kernel) (by decide +kernel)
  · cases hop
  · exact courier_fresh (Prod.ext_iff.mp (Option.some.inj hop)).2 (by decide +kernel) (by decide +kernel)
  · exact courier_fresh (Prod.ext_iff.mp (Option.some.inj hop)).2 (by decide +kernel) (by decide +kernel)
  · cases hop

theorem spares_courierStep {w : World} {now : Instant} {pid : Nat} (h : w.signals = []) :
    Spares (fun spec => spec) w (now, courierStep pid) := by
  intro rec _ _ _ p _ _ hdropped
  rw [h] at hdropped
  cases hdropped

theorem courier_noDoubleSpawn : NoDoubleSpawn (before (fun spec => spec) courierRun 6) := by
  refine (noDoubleSpawn_iff _ courierRun courier_pids).mpr (fun k timed hop => ?_) 6
  obtain _ | _ | _ | _ | _ | _ | k := k
  · cases hop
    exact fun rec hrec => absurd hrec List.not_mem_nil
  · cases hop
    exact spares_courierStep (by decide +kernel)
  · cases hop
    exact spares_courierStep (by decide +kernel)
  · cases hop
    trivial
  · cases hop
    exact spares_courierStep (by decide +kernel)
  · cases hop
    exact spares_courierStep (by decide +kernel)
  · cases hop

def quickConfig (args : List String) : LoadedConfig :=
  ⟨{ daemons := [{ courier with args, throttleSeconds := 0 }] }, courierConfig.2⟩

/-- The courier does not heed the SIGTERM that the change sends it. -/
def changedRun : List (Instant × Op) :=
  [(0, .restart (quickConfig [])), (1000000000, courierStep 41), (2000000000, .reload (quickConfig ["--quiet"])),
    (3000000000, courierStep 42)]

theorem changedRun_pids : PidsNotReused (fun spec => spec) changedRun := by
  intro k now probe hop
  obtain _ | _ | _ | _ | k := k
  · cases hop
  · exact courier_fresh (Prod.ext_iff.mp (Option.some.inj hop)).2 (by decide +kernel) (by decide +kernel)
  · cases hop
  · exact courier_fresh (Prod.ext_iff.mp (Option.some.inj hop)).2 (by decide +kernel) (by decide +kernel)
  · cases hop

/-- The reload forgets the pid, and the next step spawns a second courier. -/
theorem changedRun_doubles : PidsNotReused (fun spec => spec) changedRun ∧
    ¬∀ k, NoDoubleSpawn (before (fun spec => spec) changedRun k) := by
  refine ⟨changedRun_pids, fun h => ?_⟩
  have hlive : (before (fun spec => spec) changedRun 4).processes =
      [{ pid := 41, daemon := "courier" }, { pid := 42, daemon := "courier" }] := by
    decide +kernel
  have honce := (h 4).once
  rw [hlive] at honce
  cases honce _ List.mem_cons_self _ (List.mem_cons_of_mem _ List.mem_cons_self) rfl rfl rfl

end Samples

end Cosmon.Supervisor
