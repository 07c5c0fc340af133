import Cosmon.Supervisor.Children

namespace Cosmon.Supervisor

open Cosmon.Lib Cosmon.Lib.Runs Cosmon.State.Molecule

/-- An exit of the daemon, or a spawn of it that failed, is recorded at this time. -/
def ExitAt (log : List Event) (name : String) (t : Instant) : Prop :=
  .exited name t ∈ log ∨ ∃ spec globalMute daemonMute, .attempt name t spec globalMute daemonMute false ∈ log

/-- A spawn is attempted with nothing muting the daemon, and after the throttle of each of its
exits. -/
def Respects (name : String) (past : List Event) : Event → Prop
  | .attempt daemon t spec globalMute daemonMute _ =>
    daemon = name → globalMute = false ∧ daemonMute = false ∧ spec.enabled = true ∧
      ∀ e, ExitAt past name e → respawnTime spec e ≤ t
  | .exited _ _ => True

def Op.keeps (name : String) : Op → Prop
  | .reload cfg | .restart cfg => name ∈ cfg.1.daemons.map (·.name)
  | .exit _ _ | .step _ => True

/-- The exits of a daemon are over while it runs, and else no later than the last one. -/
def Latest (log : List Event) (name : String) (pid : Option Nat) (lastExitAt : Option Instant) : Prop :=
  ∀ e, ExitAt log name e → pid.isSome = true ∨ ∃ last, lastExitAt = some last ∧ e ≤ last

/-- A child that throttles waits at least for the deadline of its last exit. -/
def Parked (rec : ChildRecord) : Prop :=
  rec.status = .throttling → ∀ deadline last, rec.throttleUntil = some deadline → rec.lastExitAt = some last →
    throttleDeadline rec.spec last ≤ deadline

structure Throttles (name : String) (w : World) : Prop where
  latest : ∀ rec ∈ w.children, rec.name = name → Latest w.log name rec.pid rec.lastExitAt
  parked : ∀ rec ∈ w.children, rec.name = name → Parked rec
  saved : ∀ p ∈ w.state, p.name = name → Latest w.log name p.pid p.lastExitAt
  known : ∀ e, ExitAt w.log name e → name ∈ w.children.map (·.name) ∧ name ∈ w.state.map (·.name)
  respects : EachAfter (Respects name) w.log

section Events

variable {name : String} {past log batch : List Event} {t : Instant}

theorem exitAt_append : ExitAt (past ++ batch) name t ↔ ExitAt past name t ∨ ExitAt batch name t := by
  simp only [ExitAt, List.mem_append]
  constructor
  · rintro ((h | h) | ⟨spec, g, d, h | h⟩)
    · exact Or.inl (Or.inl h)
    · exact Or.inr (Or.inl h)
    · exact Or.inl (Or.inr ⟨spec, g, d, h⟩)
    · exact Or.inr (Or.inr ⟨spec, g, d, h⟩)
  · rintro ((h | ⟨spec, g, d, h⟩) | (h | ⟨spec, g, d, h⟩))
    · exact Or.inl (Or.inl h)
    · exact Or.inr ⟨spec, g, d, Or.inl h⟩
    · exact Or.inl (Or.inr h)
    · exact Or.inr ⟨spec, g, d, Or.inr h⟩

theorem respects_exits (h : EachAfter (Respects name) past) (hbatch : ∀ a ∈ batch, ∃ n t, a = .exited n t) :
    EachAfter (Respects name) (past ++ batch) := by
  apply eachAfter_append h
  intro front a back heq
  obtain ⟨n, t, rfl⟩ := hbatch a (heq ▸ List.mem_append_right _ List.mem_cons_self)
  trivial

theorem latest_of_past {pid : Option Nat} {last : Instant} (h : ∀ e, ExitAt log name e → e ≤ last) :
    Latest log name pid (some last) :=
  fun e he => Or.inr ⟨last, rfl, h e he⟩

end Events

section Step

variable {w : World} {now : Instant} {probe : Probe} {name : String}

def World.reapLog (w : World) (now : Instant) : List Event := w.log ++ w.children.filterMap (w.reaped now)

theorem reaped_some {rec : ChildRecord} {a : Event} (h : w.reaped now rec = some a) :
    a = .exited rec.name now ∧ rec.pid.isSome = true ∧ (w.reap now rec).pid = none := by
  unfold World.reaped at h
  split at h
  · rename_i hgone
    exact ⟨(Option.some.inj h).symm, hgone⟩
  · cases h

theorem attempted_some {rec : ChildRecord} {a : Event} (h : attempted now probe rec = some a) :
    nextAction now probe rec = .spawn ∧ a = .attempt rec.name now rec.spec probe.killSwitchExists
      (probe.daemonMute rec) (probe.spawn rec.name).isSome := by
  unfold attempted at h
  split at h
  · exact ⟨‹_›, (Option.some.inj h).symm⟩
  · cases h

theorem exitAt_reaped {e : Instant} (he : ExitAt (w.children.filterMap (w.reaped now)) name e) :
    e = now ∧ ∃ rec ∈ w.children, rec.name = name ∧ rec.pid.isSome = true ∧ (w.reap now rec).pid = none := by
  obtain he | ⟨spec, g, d, he⟩ := he
  · obtain ⟨rec, hrec, hreaped⟩ := List.mem_filterMap.mp he
    obtain ⟨heq, hgone⟩ := reaped_some hreaped
    cases heq
    exact ⟨rfl, rec, hrec, rfl, hgone⟩
  · obtain ⟨rec, -, hreaped⟩ := List.mem_filterMap.mp he
    cases (reaped_some hreaped).1

theorem exitAt_reapLog (hw : Formed w) {old : ChildRecord} (hold : old ∈ w.children) (hname : old.name = name)
    {e : Instant} (he : ExitAt (w.reapLog now) name e) :
    ExitAt w.log name e ∨ e = now ∧ (w.reap now old).lastExitAt = some now := by
  obtain he | he := exitAt_append.mp he
  · exact Or.inl he
  · obtain ⟨rfl, rec, hrec, hsame, hpid, hgone⟩ := exitAt_reaped he
    obtain rfl := List.inj_on_of_nodup_map hw.names hrec hold (hsame.trans hname.symm)
    refine Or.inr ⟨rfl, ?_⟩
    obtain heq | ⟨-, code, heq⟩ := reap_cases w e rec
    · rw [heq, ← Option.not_isSome_iff_eq_none] at hgone
      exact absurd hpid hgone
    · rw [heq]

theorem latest_reap (hw : Formed w) (h : Throttles name w) (hpast : ∀ e, ExitAt w.log name e → e ≤ now)
    {old : ChildRecord} (hold : old ∈ w.children) (hname : old.name = name) :
    Latest (w.reapLog now) name (w.reap now old).pid (w.reap now old).lastExitAt := by
  intro e he
  obtain he | ⟨rfl, hlast⟩ := exitAt_reapLog hw hold hname he
  · obtain heq | ⟨-, code, heq⟩ := reap_cases w now old <;> rw [heq]
    · exact h.latest old hold hname e he
    · exact Or.inr ⟨now, rfl, hpast e he⟩
  · exact Or.inr ⟨e, hlast, le_refl e⟩

theorem parked_reap {old : ChildRecord} (h : Parked old) : Parked (w.reap now old) := by
  obtain heq | ⟨-, code, heq⟩ := reap_cases w now old <;> rw [heq]
  · exact h
  · intro hstatus
    cases hstatus

theorem respawnTime_le {rec : ChildRecord} {log : List Event} (hrec : Settled rec.status rec.pid)
    (hparked : Parked rec) (hlatest : Latest log name rec.pid rec.lastExitAt)
    (hpast : ∀ e, ExitAt log name e → e ≤ now) (hspawn : nextAction now probe rec = .spawn) {e : Instant}
    (he : ExitAt log name e) : respawnTime rec.spec e ≤ now := by
  obtain hpid | ⟨last, hlast, hle⟩ := hlatest e he
  · rw [pid_of_spawn hrec hspawn] at hpid
    cases hpid
  have hdeadline {t : Instant} (ht : throttleDeadline rec.spec last ≤ t) : respawnTime rec.spec e ≤ t :=
    (respawnTime_mono rec.spec hle).trans ((respawnTime_le_deadline rec.spec last).trans ht)
  obtain ⟨-, hzero | hdue⟩ | ⟨hstatus, hdue⟩ | hstatus := (spawn_cases hspawn).2
  · exact (respawnTime_of_zero hzero e).trans (hpast e he)
  · rw [hlast] at hdue
    exact hdeadline hdue
  · cases huntil : rec.throttleUntil with
    | none =>
      rw [huntil, hlast] at hdue
      exact hdeadline hdue
    | some deadline =>
      rw [huntil] at hdue
      exact hdeadline ((hparked hstatus deadline last huntil hlast).trans hdue)
  · exact absurd hstatus hrec.respawning

theorem exitAt_attempts {reaped : List ChildRecord} {e : Instant}
    (he : ExitAt (reaped.filterMap (attempted now probe)) name e) :
    e = now ∧ ∃ rec ∈ reaped, rec.name = name ∧ nextAction now probe rec = .spawn ∧ probe.spawn name = none := by
  obtain he | ⟨spec, g, d, he⟩ := he
  · obtain ⟨rec, hrec, hattempted⟩ := List.mem_filterMap.mp he
    cases (attempted_some hattempted).2
  · obtain ⟨rec, hrec, hattempted⟩ := List.mem_filterMap.mp he
    obtain ⟨haction, heq⟩ := attempted_some hattempted
    rw [Event.attempt.injEq] at heq
    obtain ⟨rfl, rfl, -, -, -, hnone⟩ := heq
    exact ⟨rfl, rec, hrec, rfl, haction, Option.isSome_eq_false_iff.mp hnone.symm |> Option.isNone_iff_eq_none.mp⟩

theorem latest_carryOut {reaped : List ChildRecord} (hnodup : (reaped.map (·.name)).Nodup) {rec : ChildRecord}
    (hrec : rec ∈ reaped) (hname : rec.name = name) {log : List Event}
    (h : Latest log name rec.pid rec.lastExitAt) (hpast : ∀ e, ExitAt log name e → e ≤ now) :
    Latest (log ++ reaped.filterMap (attempted now probe)) name (carryOut now probe rec).pid
      (carryOut now probe rec).lastExitAt := by
  intro e he
  obtain he | he := exitAt_append.mp he
  · obtain ⟨-, heq⟩ | ⟨-, -, heq⟩ | ⟨-, heq⟩ := carryOut_cases now probe rec <;> rw [heq]
    · exact h e he
    · exact h e he
    · cases hspawn : probe.spawn rec.name with
      | some pid => exact Or.inl rfl
      | none => exact Or.inr ⟨now, rfl, hpast e he⟩
  · obtain ⟨rfl, other, hother, hsame, haction, hnone⟩ := exitAt_attempts he
    obtain rfl := List.inj_on_of_nodup_map hnodup hother hrec (hsame.trans hname.symm)
    obtain ⟨hne, -⟩ | ⟨hne, -⟩ | ⟨-, heq⟩ := carryOut_cases e probe other
    · exact absurd haction hne
    · exact absurd haction hne
    · rw [heq, hsame, hnone]
      exact Or.inr ⟨e, rfl, le_refl e⟩

theorem parked_carryOut {rec : ChildRecord} (h : Parked rec) : Parked (carryOut now probe rec) := by
  obtain ⟨-, heq⟩ | ⟨-, -, heq⟩ | ⟨-, heq⟩ := carryOut_cases now probe rec <;> rw [heq]
  · exact h
  · rintro - deadline last hdeadline hlast
    dsimp only at hdeadline hlast ⊢
    rw [hlast, Option.getD_some, Option.some.injEq] at hdeadline
    exact hdeadline.le
  · intro hstatus
    unfold spawnChild at hstatus
    split at hstatus <;> cases hstatus

theorem attempts_split {reaped : List ChildRecord} (hnodup : (reaped.map (·.name)).Nodup) {front back : List Event}
    {a : Event} (h : reaped.filterMap (attempted now probe) = front ++ a :: back) :
    ∃ rec ∈ reaped, attempted now probe rec = some a ∧ ∀ e, ¬ExitAt front rec.name e := by
  obtain ⟨l, l', rfl, rfl, hl'⟩ := List.filterMap_eq_append_iff.mp h
  obtain ⟨m, rec, m', rfl, -, hrec, -⟩ := List.filterMap_eq_cons_iff.mp hl'
  refine ⟨rec, List.mem_append_right _ (List.mem_append_right _ List.mem_cons_self), hrec, fun e he => ?_⟩
  obtain ⟨-, other, hother, hsame, -⟩ := exitAt_attempts he
  rw [List.map_append, List.nodup_append] at hnodup
  refine hnodup.2.2 other.name (List.mem_map_of_mem hother) rec.name ?_ hsame
  exact List.mem_map_of_mem (List.mem_append_right _ List.mem_cons_self)

theorem not_muted_probe {rec : ChildRecord}
    (h : (killSwitchDecision rec.spec probe.killSwitchExists (probe.daemonMute rec)).isMuted = false) :
    probe.killSwitchExists = false ∧ probe.daemonMute rec = false ∧ rec.spec.enabled = true := by
  obtain ⟨hglobal, hdaemon, henabled⟩ := not_muted h
  refine ⟨hglobal, ?_, henabled⟩
  cases hswitch : rec.spec.killSwitch with
  | none => rw [Probe.daemonMute, hswitch, Option.any_none]
  | some path => exact hdaemon (by rw [hswitch, Option.isSome_some])

theorem throttles_step (hw : Formed w) (h : Throttles name w) (hpast : ∀ e, ExitAt w.log name e → e ≤ now) :
    Throttles name (w.stepOnce now probe) := by
  have hnodup : ((w.children.map (w.reap now)).map (·.name)).Nodup := by
    simpa [Function.comp_def] using hw.names
  have hreapPast {old : ChildRecord} (hold : old ∈ w.children) (hname : old.name = name) :
      ∀ e, ExitAt (w.reapLog now) name e → e ≤ now := by
    intro e he
    obtain he | ⟨rfl, -⟩ := exitAt_reapLog hw hold hname he
    · exact hpast e he
    · exact le_refl e
  have hlatest : ∀ rec ∈ (w.stepOnce now probe).children, rec.name = name →
      Latest (w.stepOnce now probe).log name rec.pid rec.lastExitAt := by
    intro rec hrec hname
    obtain ⟨old, hold, rfl⟩ := mem_stepOnce hrec
    rw [carryOut_name] at hname
    have hold' : old.name = name := by rwa [reap_name] at hname
    exact latest_carryOut hnodup (List.mem_map_of_mem hold) hname (latest_reap hw h hpast hold hold')
      (hreapPast hold hold')
  refine ⟨hlatest, fun rec hrec hname => ?_, fun p hp hname => ?_, fun e he => ?_, ?_⟩
  · obtain ⟨old, hold, rfl⟩ := mem_stepOnce hrec
    rw [carryOut_name, reap_name] at hname
    exact parked_carryOut (parked_reap (h.parked old hold hname))
  · obtain ⟨rec, hrec, rfl⟩ := List.mem_map.mp hp
    exact hlatest rec hrec hname
  · have hmem : name ∈ w.children.map (·.name) := by
      obtain he | he := exitAt_append.mp he
      · obtain he | he := exitAt_append.mp he
        · exact (h.known e he).1
        · obtain ⟨-, rec, hrec, hname, -⟩ := exitAt_reaped he
          exact hname ▸ List.mem_map_of_mem hrec
      · obtain ⟨-, rec, hrec, hname, -⟩ := exitAt_attempts he
        obtain ⟨old, hold, rfl⟩ := List.mem_map.mp hrec
        rw [reap_name] at hname
        exact hname ▸ List.mem_map_of_mem hold
    rw [← stepOnce_names w now probe] at hmem
    refine ⟨hmem, ?_⟩
    have hsaved : (w.stepOnce now probe).state = (w.stepOnce now probe).children.map ChildRecord.toPersisted := rfl
    rw [hsaved, List.map_map]
    exact hmem
  · apply eachAfter_append
    · refine respects_exits h.respects fun a ha => ?_
      obtain ⟨rec, -, hreaped⟩ := List.mem_filterMap.mp ha
      exact ⟨_, _, (reaped_some hreaped).1⟩
    · intro front a back heq
      obtain ⟨rec, hrec, hattempted, hfront⟩ := attempts_split hnodup heq
      obtain ⟨haction, rfl⟩ := attempted_some hattempted
      rintro rfl
      obtain ⟨hglobal, hdaemon, henabled⟩ := not_muted_probe (spawn_cases haction).1
      refine ⟨hglobal, hdaemon, henabled, fun e he => ?_⟩
      obtain he | he := exitAt_append.mp he
      · obtain ⟨old, hold, rfl⟩ := List.mem_map.mp hrec
        have hold' : old.name = (w.reap now old).name := reap_name.symm
        exact respawnTime_le (settled_reap (hw.children old hold)) (parked_reap (h.parked old hold hold'))
          (latest_reap hw h hpast hold hold') (hreapPast hold hold') haction he
      · exact absurd he (hfront e)

end Step

section Config

variable {H : Type} [DecidableEq H] {specContentHash : DaemonSpec → H} {w : World} {now : Instant}
  {cfg : LoadedConfig} {name : String}

theorem exitAt_changed {changed : List String} {e : Instant}
    (he : ExitAt (changed.map fun daemon => .exited daemon now) name e) : e = now ∧ name ∈ changed := by
  obtain he | ⟨spec, g, d, he⟩ := he
  · obtain ⟨daemon, hdaemon, heq⟩ := List.mem_map.mp he
    cases heq
    exact ⟨rfl, hdaemon⟩
  · obtain ⟨daemon, -, heq⟩ := List.mem_map.mp he
    cases heq

theorem throttles_reload (h : Throttles name w) (hpast : ∀ e, ExitAt w.log name e → e ≤ now)
    (hkeep : name ∈ cfg.1.daemons.map (·.name)) : Throttles name (w.reload specContentHash now cfg) := by
  have hexit {e : Instant} (he : ExitAt (w.reload specContentHash now cfg).log name e) :
      ExitAt w.log name e ∨ e = now ∧ name ∈ (w.diff specContentHash cfg).changed := by
    exact (exitAt_append.mp he).imp_right exitAt_changed
  have hchildren {e : Instant} (he : ExitAt (w.reload specContentHash now cfg).log name e) :
      name ∈ w.children.map (·.name) := by
    obtain he | ⟨-, hchanged⟩ := hexit he
    · exact (h.known e he).1
    · exact (mem_changed hchanged).1
  have hlatest : ∀ rec ∈ (w.reload specContentHash now cfg).children, rec.name = name →
      Latest (w.reload specContentHash now cfg).log name rec.pid rec.lastExitAt := by
    intro rec hrec hname
    obtain ⟨old, hold, -, ⟨hsame, rfl⟩ | ⟨-, rfl⟩⟩ | ⟨spec, rfl, hfresh⟩ := mem_reload hrec
    · intro e he
      obtain he | ⟨-, hchanged⟩ := hexit he
      · exact h.latest rec hold hname e he
      · exact absurd (hname.symm ▸ hchanged) hsame
    · refine latest_of_past fun e he => ?_
      obtain he | ⟨rfl, -⟩ := hexit he
      · exact hpast e he
      · exact le_refl e
    · obtain rfl : spec.name = name := hname
      intro e he
      exact absurd (hchildren he) hfresh
  refine ⟨hlatest, fun rec hrec hname => ?_, fun p hp hname => ?_, fun e he => ?_, ?_⟩
  · obtain ⟨old, hold, -, ⟨-, rfl⟩ | ⟨-, rfl⟩⟩ | ⟨spec, rfl, -⟩ := mem_reload hrec
    · exact h.parked rec hold hname
    · intro hstatus
      cases hstatus
    · intro hstatus
      cases hstatus
  · obtain ⟨rec, hrec, rfl⟩ := List.mem_map.mp hp
    exact hlatest rec hrec hname
  · obtain ⟨old, hold, rfl⟩ := List.mem_map.mp (hchildren he)
    have hmem : old.name ∈ (w.reload specContentHash now cfg).children.map (·.name) := by
      refine List.mem_map.mpr ⟨_, reload_mem hold hkeep, ?_⟩
      split <;> rfl
    refine ⟨hmem, ?_⟩
    have hsaved : (w.reload specContentHash now cfg).state =
        (w.reload specContentHash now cfg).children.map ChildRecord.toPersisted := rfl
    rw [hsaved, List.map_map]
    exact hmem
  · refine respects_exits h.respects fun a ha => ?_
    obtain ⟨changed, -, rfl⟩ := List.mem_map.mp ha
    exact ⟨_, _, rfl⟩

theorem lost_some {spec : DaemonSpec} {a : Event} (h : w.lost now spec = some a) :
    a = .exited spec.name now ∧ ∃ p, Keyed.get PersistedChild.name spec.name w.state = some p ∧
      p.pid.filter w.alive = none ∧ (p.status = .running ∨ p.status = .spawning) := by
  unfold World.lost at h
  split at h
  · cases h
  · rename_i p hget
    split at h
    · exact ⟨(Option.some.inj h).symm, p, hget, ‹_›⟩
    · cases h

theorem exitAt_lost {e : Instant} (he : ExitAt (cfg.1.daemons.filterMap (w.lost now)) name e) :
    e = now ∧ ∃ p, Keyed.get PersistedChild.name name w.state = some p ∧ p.pid.filter w.alive = none ∧
      (p.status = .running ∨ p.status = .spawning) := by
  obtain he | ⟨spec, g, d, he⟩ := he
  · obtain ⟨spec, -, hlost⟩ := List.mem_filterMap.mp he
    obtain ⟨heq, hstate⟩ := lost_some hlost
    cases heq
    exact ⟨rfl, hstate⟩
  · obtain ⟨spec, -, hlost⟩ := List.mem_filterMap.mp he
    cases (lost_some hlost).1

theorem recover_throttleUntil (spec : DaemonSpec) : (w.recover now spec).throttleUntil = none := by
  unfold World.recover
  split
  · rfl
  · dsimp only
    split
    · rfl
    · split <;> rfl

theorem throttles_restart (hw : Formed w) (h : Throttles name w) (hpast : ∀ e, ExitAt w.log name e → e ≤ now)
    (hkeep : name ∈ cfg.1.daemons.map (·.name)) : Throttles name (w.restart now cfg) := by
  have hexit {e : Instant} (he : ExitAt (w.restart now cfg).log name e) :
      ExitAt w.log name e ∨ e = now ∧ ∃ p, Keyed.get PersistedChild.name name w.state = some p ∧
        p.pid.filter w.alive = none ∧ (p.status = .running ∨ p.status = .spawning) := by
    exact (exitAt_append.mp he).imp_right exitAt_lost
  have hstate {e : Instant} (he : ExitAt (w.restart now cfg).log name e) : name ∈ w.state.map (·.name) := by
    obtain he | ⟨-, p, hget, -⟩ := hexit he
    · exact (h.known e he).2
    · obtain ⟨hmem, hname⟩ := Keyed.get_mem hget
      exact hname ▸ List.mem_map_of_mem hmem
  refine ⟨fun rec hrec hname => ?_, fun rec hrec _ => ?_, fun p hp hname => ?_, fun e he => ?_, ?_⟩
  · obtain ⟨spec, -, rfl⟩ := List.mem_map.mp hrec
    rw [recover_name] at hname
    subst hname
    intro e he
    obtain ⟨hnone, -⟩ | ⟨p, hp, hname, hget, hcases⟩ := recover_cases w now spec
    · exact absurd (hstate he) (Keyed.get_none.mp hnone)
    obtain ⟨pid, -, -, hpid, -⟩ | ⟨-, -, ⟨-, -, hlast⟩ | ⟨hneither, -, hlast⟩⟩ := hcases
    · exact Or.inl (by rw [hpid, Option.isSome_some])
    · refine Or.inr ⟨now, hlast, ?_⟩
      obtain he | ⟨rfl, -⟩ := hexit he
      · exact hpast e he
      · exact le_refl e
    · obtain he | ⟨-, p', hget', -, hrunning⟩ := hexit he
      · obtain hpid | hlatest := h.saved p hp hname e he
        · exact absurd (Or.inl ((hw.saved p hp).running.mp hpid)) hneither
        · rw [hlast]
          exact Or.inr hlatest
      · rw [hget, Option.some.injEq] at hget'
        exact absurd (hget' ▸ hrunning) hneither
  · obtain ⟨spec, -, rfl⟩ := List.mem_map.mp hrec
    intro _ deadline last hdeadline
    rw [recover_throttleUntil] at hdeadline
    cases hdeadline
  · intro e he
    obtain he | ⟨-, p', hget, -, hrunning⟩ := hexit he
    · exact h.saved p hp hname e he
    · obtain rfl := Option.some.inj (((Keyed.get_iff hw.savedNames).mpr ⟨hp, hname⟩).symm.trans hget)
      -- it is saved as running: the exit is recorded in memory only
      obtain hrunning | hspawning := hrunning
      · exact Or.inl ((hw.saved p hp).running.mpr hrunning)
      · exact absurd hspawning (hw.saved p hp).spawning
  · refine ⟨?_, hstate he⟩
    simpa [World.restart, Function.comp_def] using hkeep
  · refine respects_exits h.respects fun a ha => ?_
    obtain ⟨spec, -, hlost⟩ := List.mem_filterMap.mp ha
    exact ⟨_, _, (lost_some hlost).1⟩

end Config

section Runs

variable {H : Type} [DecidableEq H] {specContentHash : DaemonSpec → H} {name : String}

theorem throttles_apply {w : World} {timed : Instant × Op} (hw : Formed w) (h : Throttles name w)
    (hpast : ∀ e, ExitAt w.log name e → e ≤ timed.1) (hkeep : timed.2.keeps name) :
    Throttles name (w.apply specContentHash timed) := by
  obtain ⟨now, op⟩ := timed
  cases op with
  | exit pid outcome => exact ⟨h.latest, h.parked, h.saved, h.known, h.respects⟩
  | step probe => exact throttles_step hw h hpast
  | reload cfg => exact throttles_reload h hpast hkeep
  | restart cfg => exact throttles_restart hw h hpast hkeep

theorem exitAt_apply {w : World} {timed : Instant × Op} {e : Instant}
    (he : ExitAt (w.apply specContentHash timed).log name e) : ExitAt w.log name e ∨ e = timed.1 := by
  obtain ⟨now, op⟩ := timed
  cases op with
  | exit pid outcome => exact Or.inl he
  | step probe =>
    obtain he | he := exitAt_append.mp he
    · exact (exitAt_append.mp he).imp_right fun he => (exitAt_reaped he).1
    · exact Or.inr (exitAt_attempts he).1
  | reload cfg => exact (exitAt_append.mp he).imp_right fun he => (exitAt_changed he).1
  | restart cfg => exact (exitAt_append.mp he).imp_right fun he => (exitAt_lost he).1

theorem exitAt_before {ops : List (Instant × Op)} {k : Nat} {e : Instant}
    (he : ExitAt (before specContentHash ops k).log name e) : ∃ j < k, ∃ op, ops[j]? = some (e, op) := by
  induction k with
  | zero => simp [before, stateAt, ExitAt] at he
  | succ k ih =>
    have hearlier (he : ExitAt (before specContentHash ops k).log name e) :
        ∃ j < k + 1, ∃ op, ops[j]? = some (e, op) := by
      obtain ⟨j, hj, hop⟩ := ih he
      exact ⟨j, Nat.lt_succ_of_lt hj, hop⟩
    unfold before at he
    cases hop : ops[k]? with
    | none =>
      rw [stateAt_none _ hop] at he
      exact hearlier he
    | some timed =>
      rw [stateAt_succ _ hop] at he
      obtain he | rfl := exitAt_apply he
      · exact hearlier he
      · exact ⟨k, Nat.lt_succ_self k, timed.2, hop⟩

/-- What holds of every spawn of a daemon that a run attempts. -/
structure RespawnDiscipline (log : List Event) (name : String) : Prop where
  notMuted : ∀ t spec globalMute daemonMute ok, .attempt name t spec globalMute daemonMute ok ∈ log →
    globalMute = false ∧ daemonMute = false ∧ spec.enabled = true
  throttled : ∀ past t spec globalMute daemonMute ok rest,
    log = past ++ .attempt name t spec globalMute daemonMute ok :: rest →
    ∀ e, ExitAt past name e → respawnTime spec e ≤ t

theorem throttles_before {ops : List (Instant × Op)} (htimes : ops.Pairwise fun a b => a.1 ≤ b.1)
    (hkeep : ∀ timed ∈ ops, timed.2.keeps name) (k : Nat) : Throttles name (before specContentHash ops k) := by
  induction k with
  | zero =>
    refine ⟨?_, ?_, ?_, ?_, eachAfter_nil⟩
    · exact fun rec hrec => absurd hrec List.not_mem_nil
    · exact fun rec hrec => absurd hrec List.not_mem_nil
    · exact fun p hp => absurd hp List.not_mem_nil
    · intro e he
      simp [before, stateAt, ExitAt] at he
  | succ k ih =>
    unfold before at ih ⊢
    cases hop : ops[k]? with
    | none =>
      rw [stateAt_none _ hop]
      exact ih
    | some timed =>
      rw [stateAt_succ _ hop]
      refine throttles_apply (formed_before ops k) ih (fun e he => ?_) (hkeep timed (List.mem_of_getElem? hop))
      obtain ⟨j, hj, op, hjop⟩ := exitAt_before he
      obtain ⟨hj', heq⟩ := List.getElem?_eq_some_iff.mp hjop
      obtain ⟨hk', rfl⟩ := List.getElem?_eq_some_iff.mp hop
      have hle := List.pairwise_iff_getElem.mp htimes j k hj' hk' hj
      rwa [heq] at hle

/-- At times that do not decrease, with the daemon kept in the config, it is spawned only when
nothing mutes it, and not before its throttle is over. -/
theorem respawnDiscipline (ops : List (Instant × Op)) (name : String)
    (htimes : ops.Pairwise fun a b => a.1 ≤ b.1) (hkeep : ∀ timed ∈ ops, timed.2.keeps name) (k : Nat) :
    RespawnDiscipline (before specContentHash ops k).log name := by
  have hthrottles : Throttles name (before specContentHash ops k) := throttles_before htimes hkeep k
  have hrespects := hthrottles.respects
  constructor
  · intro t spec globalMute daemonMute ok hmem
    obtain ⟨past, rest, heq⟩ := List.append_of_mem hmem
    obtain ⟨hglobal, hdaemon, henabled, -⟩ := hrespects past _ rest heq rfl
    exact ⟨hglobal, hdaemon, henabled⟩
  · intro past t spec globalMute daemonMute ok rest heq e he
    exact (hrespects past _ rest heq rfl).2.2.2 e he

end Runs

section Samples

theorem courier_respawnDiscipline :
    RespawnDiscipline (before (fun spec => spec) courierRun 6).log "courier" := by
  refine respawnDiscipline courierRun "courier" (by decide) (fun timed htimed => ?_) 6
  simp only [courierRun, List.mem_cons, List.not_mem_nil, or_false] at htimed
  obtain rfl | rfl | rfl | rfl | rfl | rfl := htimed
  · exact List.mem_singleton_self _
  all_goals trivial

end Samples

end Cosmon.Supervisor
