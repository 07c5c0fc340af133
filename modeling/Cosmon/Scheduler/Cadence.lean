import Cosmon.Scheduler.Tick

namespace Cosmon.Scheduler.Tick

open Cosmon.Core.PilotLeases Cosmon.Lib.Runs Cosmon.Scheduler.Cron Cosmon.State.Molecule

section Progress

variable (inv : Invocation) {p q : Progress} {name : String} {decided : String × Decision}

def SameFor (name : String) (p q : Progress) : Prop :=
  p.state name = q.state name ∧ (name ∈ p.dispatched ↔ name ∈ q.dispatched)

theorem carryOut_other (h : decided.1 ≠ name) : SameFor name (inv.carryOut p decided) p := by
  have hne : name ≠ decided.1 := Ne.symm h
  unfold Invocation.carryOut
  split
  · split
    · exact ⟨rfl, Iff.rfl⟩
    · split
      · exact ⟨Function.update_of_ne hne _ _, by simp [hne]⟩
      · exact ⟨rfl, Iff.rfl⟩
  · split
    · exact ⟨rfl, Iff.rfl⟩
    · exact ⟨Function.update_of_ne hne _ _, Iff.rfl⟩
  · exact ⟨rfl, Iff.rfl⟩
  · exact ⟨rfl, Iff.rfl⟩

theorem SameFor.carryOut (decided : String × Decision) (h : SameFor decided.1 p q) :
    SameFor decided.1 (inv.carryOut p decided) (inv.carryOut q decided) := by
  unfold Invocation.carryOut
  split
  · split
    · exact h
    · split
      · refine ⟨?_, by simp⟩
        simp [recordFire, h.1]
      · exact h
  · split
    · exact h
    · refine ⟨?_, h.2⟩
      simp [recordSunset, h.1]
  · exact h
  · exact h

theorem foldl_others {decisions : List (String × Decision)} (h : ∀ d ∈ decisions, d.1 ≠ name) :
    SameFor name (decisions.foldl inv.carryOut p) p := by
  induction decisions generalizing p with
  | nil => exact ⟨rfl, Iff.rfl⟩
  | cons d decisions ih =>
    rw [List.forall_mem_cons] at h
    have hrest := ih (p := inv.carryOut p d) h.2
    have hfirst := carryOut_other inv (p := p) h.1
    exact ⟨hrest.1.trans hfirst.1, hrest.2.trans hfirst.2⟩

end Progress

section Tick

variable {inv : Invocation} (state : SchedulerState) {name : String} {p : Patrol}

def Invocation.decision (inv : Invocation) (state : SchedulerState) (p : Patrol) : Decision :=
  evaluateOne p inv.env (inv.env.pathExists inv.cfg.killSwitch) inv.env.now (state p.name)

def UniqueName (cfg : Config) (name : String) : Prop := (cfg.patrols.filter (·.name = name)).length ≤ 1

theorem unique_split {cfg : Config} (h : UniqueName cfg p.name) (hp : p ∈ cfg.patrols) :
    ∃ front back, cfg.patrols = front ++ p :: back ∧ (∀ q ∈ front, q.name ≠ p.name) ∧
      ∀ q ∈ back, q.name ≠ p.name := by
  obtain ⟨front, back, heq⟩ := List.append_of_mem hp
  have hempty : front.filter (·.name = p.name) = [] ∧ back.filter (·.name = p.name) = [] := by
    rw [UniqueName, heq, List.filter_append, List.filter_cons_of_pos (by simp), List.length_append,
      List.length_cons] at h
    exact ⟨List.eq_nil_of_length_eq_zero (by omega), List.eq_nil_of_length_eq_zero (by omega)⟩
  refine ⟨front, back, heq, fun q hq hname => ?_, fun q hq hname => ?_⟩
  · exact List.not_mem_nil (hempty.1 ▸ List.mem_filter.mpr ⟨hq, decide_eq_true hname⟩)
  · exact List.not_mem_nil (hempty.2 ▸ List.mem_filter.mpr ⟨hq, decide_eq_true hname⟩)

theorem runTick_of_mem (hunique : UniqueName inv.cfg p.name) (hp : p ∈ inv.cfg.patrols) :
    SameFor p.name (runTick state inv) (inv.carryOut { state } (p.name, inv.decision state p)) := by
  obtain ⟨front, back, heq, hfront, hback⟩ := unique_split hunique hp
  have hothers {patrols : List Patrol} (h : ∀ q ∈ patrols, q.name ≠ p.name) :
      ∀ d ∈ patrols.map fun q => (q.name, inv.decision state q), d.1 ≠ p.name := by
    intro d hd
    obtain ⟨q, hq, rfl⟩ := List.mem_map.mp hd
    exact h q hq
  have htick : tick inv.cfg inv.env state = inv.cfg.patrols.map fun q => (q.name, inv.decision state q) := rfl
  rw [runTick, htick, heq, List.map_append, List.map_cons, List.foldl_append, List.foldl_cons]
  have hfirst : SameFor p.name _ ({ state } : Progress) := foldl_others inv (hothers hfront)
  have hlast := foldl_others inv
    (p := inv.carryOut ((front.map fun q => (q.name, inv.decision state q)).foldl inv.carryOut { state })
      (p.name, inv.decision state p)) (hothers hback)
  have hown := hfirst.carryOut inv (p.name, inv.decision state p)
  exact ⟨hlast.1.trans hown.1, hlast.2.trans hown.2⟩

theorem runTick_of_absent (h : ∀ q ∈ inv.cfg.patrols, q.name ≠ name) : SameFor name (runTick state inv) { state } := by
  refine foldl_others inv fun d hd => ?_
  obtain ⟨q, hq, rfl⟩ := List.mem_map.mp hd
  exact h q hq

/-- The tick decides to dispatch the patrol, and the dispatch succeeds. -/
def Fires (inv : Invocation) (state : SchedulerState) (p : Patrol) : Prop :=
  inv.decision state p = .wouldFire ∧ ∃ outcome, inv.dispatch p = .ok outcome

def lastFired (state : SchedulerState) (name : String) : Option Instant := (state name).bind (·.lastFiredAt)

def sunsetAt (state : SchedulerState) (name : String) : Option Instant := (state name).bind (·.sunsetDecidedAt)

theorem find_of_mem (hunique : UniqueName inv.cfg p.name) (hp : p ∈ inv.cfg.patrols) :
    inv.cfg.patrols.find? (·.name = p.name) = some p := by
  obtain ⟨front, back, heq, hfront, -⟩ := unique_split hunique hp
  rw [heq, List.find?_append, List.find?_eq_none.mpr (by simpa using hfront), Option.none_or,
    List.find?_cons_of_pos (by simp)]

theorem runTick_cases (hunique : UniqueName inv.cfg p.name) (hp : p ∈ inv.cfg.patrols) :
    (p.name ∈ (runTick state inv).dispatched ↔ Fires inv state p) ∧
      (Fires inv state p → lastFired (runTick state inv).state p.name = some inv.recordedAt) ∧
      (¬Fires inv state p → lastFired (runTick state inv).state p.name = lastFired state p.name) ∧
      ∀ t, sunsetAt state p.name = some t → sunsetAt (runTick state inv).state p.name = some t := by
  obtain ⟨hstate, hdispatched⟩ := runTick_of_mem state hunique hp
  have hfind := find_of_mem hunique hp
  unfold lastFired sunsetAt Fires
  rw [hstate, hdispatched]
  unfold Invocation.carryOut
  cases hd : inv.decision state p with
  | wouldFire =>
    simp only [hfind]
    cases hout : inv.dispatch p with
    | error e => simp
    | ok outcome =>
      refine ⟨by simp, by simp [recordFire], by simp, fun t ht => ?_⟩
      obtain ⟨entry, hentry, ht⟩ := Option.bind_eq_some_iff.mp ht
      simp [recordFire, hentry, ht]
  | wouldSunset reason =>
    simp only [hfind]
    refine ⟨by simp, by simp, fun _ => ?_, fun t ht => ?_⟩
    · cases hentry : state p.name <;> simp [recordSunset, hentry]
    · obtain ⟨entry, hentry, ht⟩ := Option.bind_eq_some_iff.mp ht
      simp [recordSunset, hentry, ht]
  | wouldSkip reason => simp
  | invalid reason => simp

end Tick

section Runs

variable (ticks : List Invocation) (name : String)

/-- The `k`-th tick dispatches the patrol. -/
def Dispatches (k : Nat) : Prop :=
  ∃ inv, ticks[k]? = some inv ∧ name ∈ (runTick (stateBefore ticks k) inv).dispatched

/-- Ticks run one after another, and a tick decides before it records. -/
structure Sequential : Prop where
  within : ∀ inv ∈ ticks, inv.env.now ≤ inv.recordedAt
  between : ticks.Pairwise fun inv inv' => inv.recordedAt ≤ inv'.env.now

def IsCron : Prop := ∀ inv ∈ ticks, ∀ p ∈ inv.cfg.patrols, p.name = name → p.cron.isSome = true

def IsInterval (secs : Nat) : Prop :=
  ∀ inv ∈ ticks, ∀ p ∈ inv.cfg.patrols, p.name = name → p.intervalSeconds = some secs

/-- The tick decides with no gate closed in a minute that the expression matches, and a
dispatch would succeed. -/
def Due (k : Nat) (inv : Invocation) : Prop :=
  ∃ p ∈ inv.cfg.patrols, p.name = name ∧ p.intervalSeconds = none ∧
    (∃ expr parsed, p.cron = some expr ∧ CronExpr.parse expr = .ok parsed ∧
      parsed.matches_ (inv.env.wallClock inv.env.now) = true) ∧
    closedGate p inv.env (inv.env.pathExists inv.cfg.killSwitch) (stateBefore ticks k name) = none ∧
    ∃ outcome, inv.dispatch p = .ok outcome

/-- What the scheduler promises of one patrol. -/
structure Cadence : Prop where
  onceAMinute : IsCron ticks name → ∀ j k inv inv', j < k → ticks[j]? = some inv → ticks[k]? = some inv' →
    Dispatches ticks name j → Dispatches ticks name k → floorMinute inv.env.now ≠ floorMinute inv'.env.now
  everyDueMinute : IsCron ticks name → ∀ k inv, ticks[k]? = some inv → Due ticks name k inv →
    ∃ j inv', ticks[j]? = some inv' ∧ Dispatches ticks name j ∧
      floorMinute inv'.env.now = floorMinute inv.env.now
  apart : ∀ secs : Nat, IsInterval ticks name secs → ∀ j k inv inv', j < k → ticks[j]? = some inv →
    ticks[k]? = some inv' → Dispatches ticks name j → Dispatches ticks name k →
    inv.env.now + secs * nanosPerSecond ≤ inv'.env.now
  sunset : ∀ j k, j ≤ k → (sunsetAt (stateBefore ticks j) name).isSome = true → ¬Dispatches ticks name k

/-- A dispatch is decided in one minute and recorded in a later one, in which the patrol is
due. -/
def Straddled : Prop :=
  ∃ j k inv inv', j < k ∧ ticks[j]? = some inv ∧ ticks[k]? = some inv' ∧ Dispatches ticks name j ∧
    Due ticks name k inv' ∧ floorMinute inv.env.now < floorMinute inv.recordedAt ∧
    floorMinute inv.recordedAt = floorMinute inv'.env.now

variable {ticks name}

theorem stateBefore_succ {n : Nat} {inv : Invocation} (h : ticks[n]? = some inv) :
    stateBefore ticks (n + 1) = (runTick (stateBefore ticks n) inv).state := stateAt_succ _ h _

theorem stateBefore_none {n : Nat} (h : ticks[n]? = none) : stateBefore ticks (n + 1) = stateBefore ticks n :=
  stateAt_none _ h _

theorem Sequential.le {j k : Nat} {inv inv' : Invocation} (h : Sequential ticks) (hjk : j < k)
    (hj : ticks[j]? = some inv) (hk : ticks[k]? = some inv') : inv.recordedAt ≤ inv'.env.now := by
  obtain ⟨hj', rfl⟩ := List.getElem?_eq_some_iff.mp hj
  obtain ⟨hk', rfl⟩ := List.getElem?_eq_some_iff.mp hk
  exact List.pairwise_iff_getElem.mp h.between j k hj' hk' hjk

theorem floorMinute_mono {s t : Instant} (h : s ≤ t) : floorMinute s ≤ floorMinute t := by
  have hint (s t : Int) (h : s ≤ t) : s - s % (60 * 1000000000) ≤ t - t % (60 * 1000000000) := by omega
  exact hint s t h

theorem Dispatches.fires (hunique : ∀ inv ∈ ticks, UniqueName inv.cfg name) {k : Nat}
    (h : Dispatches ticks name k) :
    ∃ inv p, ticks[k]? = some inv ∧ p ∈ inv.cfg.patrols ∧ p.name = name ∧ Fires inv (stateBefore ticks k) p := by
  obtain ⟨inv, hinv, hmem⟩ := h
  by_cases hp : ∃ p ∈ inv.cfg.patrols, p.name = name
  · obtain ⟨p, hp, rfl⟩ := hp
    have hcases := runTick_cases (stateBefore ticks k) (hunique inv (List.mem_of_getElem? hinv)) hp
    exact ⟨inv, p, hinv, hp, rfl, hcases.1.mp hmem⟩
  · have habsent : ∀ q ∈ inv.cfg.patrols, q.name ≠ name := fun q hq hname => hp ⟨q, hq, hname⟩
    have hempty := ((runTick_of_absent (stateBefore ticks k) habsent).2).mp hmem
    exact absurd hempty List.not_mem_nil

theorem dispatches_of_fires (hunique : ∀ inv ∈ ticks, UniqueName inv.cfg name) {k : Nat} {inv : Invocation}
    {p : Patrol} (hinv : ticks[k]? = some inv) (hp : p ∈ inv.cfg.patrols) (hname : p.name = name)
    (h : Fires inv (stateBefore ticks k) p) : Dispatches ticks name k := by
  subst hname
  have hcases := runTick_cases (stateBefore ticks k) (hunique inv (List.mem_of_getElem? hinv)) hp
  exact ⟨inv, hinv, hcases.1.mpr h⟩

/-- One tick: it dispatches and records so, or the last dispatch stays; a sunset stays. -/
theorem stateBefore_step (hunique : ∀ inv ∈ ticks, UniqueName inv.cfg name) {k : Nat} {inv : Invocation}
    (hinv : ticks[k]? = some inv) :
    (Dispatches ticks name k → lastFired (stateBefore ticks (k + 1)) name = some inv.recordedAt) ∧
      (¬Dispatches ticks name k →
        lastFired (stateBefore ticks (k + 1)) name = lastFired (stateBefore ticks k) name) ∧
      ∀ t, sunsetAt (stateBefore ticks k) name = some t → sunsetAt (stateBefore ticks (k + 1)) name = some t := by
  rw [stateBefore_succ hinv]
  by_cases hp : ∃ p ∈ inv.cfg.patrols, p.name = name
  · obtain ⟨p, hp, rfl⟩ := hp
    obtain ⟨hmem, hfires, hkept, hsunset⟩ :=
      runTick_cases (stateBefore ticks k) (hunique inv (List.mem_of_getElem? hinv)) hp
    refine ⟨fun ⟨inv', hinv', h⟩ => ?_, fun h => hkept fun hf => h ⟨inv, hinv, hmem.mpr hf⟩, hsunset⟩
    rw [hinv, Option.some.injEq] at hinv'
    exact hfires (hmem.mp (hinv' ▸ h))
  · have habsent : ∀ q ∈ inv.cfg.patrols, q.name ≠ name := fun q hq hname => hp ⟨q, hq, hname⟩
    obtain ⟨hstate, hdispatched⟩ := runTick_of_absent (stateBefore ticks k) habsent
    refine ⟨fun ⟨inv', hinv', h⟩ => ?_, fun _ => ?_, fun t ht => ?_⟩
    · rw [hinv, Option.some.injEq] at hinv'
      exact absurd (hdispatched.mp (hinv' ▸ h)) List.not_mem_nil
    · rw [lastFired, hstate, lastFired]
    · rw [sunsetAt, hstate]
      exact ht

theorem lastFired_latest (hunique : ∀ inv ∈ ticks, UniqueName inv.cfg name) (n : Nat) :
    (∀ j, j < n → Dispatches ticks name j → ∃ i inv, j ≤ i ∧ i < n ∧ ticks[i]? = some inv ∧
      Dispatches ticks name i ∧ lastFired (stateBefore ticks n) name = some inv.recordedAt) ∧
    ∀ last, lastFired (stateBefore ticks n) name = some last → ∃ i inv, i < n ∧ ticks[i]? = some inv ∧
      Dispatches ticks name i ∧ last = inv.recordedAt := by
  induction n with
  | zero => exact ⟨fun j hj => absurd hj (Nat.not_lt_zero j), fun last h => by cases h⟩
  | succ n ih =>
    obtain ⟨ihlater, ihlast⟩ := ih
    cases hinv : ticks[n]? with
    | none =>
      rw [stateBefore_none hinv]
      refine ⟨fun j hj hd => ?_, fun last h => ?_⟩
      · obtain ⟨inv, hj', -⟩ := id hd
        have hlt : j < n := by
          refine Nat.lt_of_le_of_ne (Nat.le_of_lt_succ hj) ?_
          rintro rfl
          rw [hinv] at hj'
          cases hj'
        obtain ⟨i, inv', hji, hin, hrest⟩ := ihlater j hlt hd
        exact ⟨i, inv', hji, hin.trans (Nat.lt_succ_self n), hrest⟩
      · obtain ⟨i, inv, hin, hrest⟩ := ihlast last h
        exact ⟨i, inv, hin.trans (Nat.lt_succ_self n), hrest⟩
    | some inv =>
      obtain ⟨hdone, hkept, -⟩ := stateBefore_step hunique hinv
      by_cases hn : Dispatches ticks name n
      · refine ⟨fun j hj _ => ⟨n, inv, Nat.le_of_lt_succ hj, Nat.lt_succ_self n, hinv, hn, hdone hn⟩,
          fun last h => ⟨n, inv, Nat.lt_succ_self n, hinv, hn, ?_⟩⟩
        rw [hdone hn, Option.some.injEq] at h
        exact h.symm
      · rw [hkept hn]
        refine ⟨fun j hj hd => ?_, fun last h => ?_⟩
        · have hlt : j < n := by
            refine Nat.lt_of_le_of_ne (Nat.le_of_lt_succ hj) ?_
            rintro rfl
            exact hn hd
          obtain ⟨i, inv', hji, hin, hrest⟩ := ihlater j hlt hd
          exact ⟨i, inv', hji, hin.trans (Nat.lt_succ_self n), hrest⟩
        · obtain ⟨i, inv', hin, hrest⟩ := ihlast last h
          exact ⟨i, inv', hin.trans (Nat.lt_succ_self n), hrest⟩

theorem sunset_stays (hunique : ∀ inv ∈ ticks, UniqueName inv.cfg name) {j k : Nat} (hjk : j ≤ k)
    (h : (sunsetAt (stateBefore ticks j) name).isSome = true) :
    (sunsetAt (stateBefore ticks k) name).isSome = true := by
  induction k, hjk using Nat.le_induction with
  | base => exact h
  | succ m _ ih =>
    cases hinv : ticks[m]? with
    | none => rwa [stateBefore_none hinv]
    | some inv =>
      obtain ⟨t, ht⟩ := Option.isSome_iff_exists.mp ih
      rw [(stateBefore_step hunique hinv).2.2 t ht]
      rfl

section Gates

variable {inv : Invocation} {state : SchedulerState} {p : Patrol}

theorem sunsetGate_ne_fire (sunset : Sunset) (env : Environment) : sunsetGate sunset env ≠ some .wouldFire := by
  unfold sunsetGate
  cases sunset.strategy with
  | varianceThreshold =>
    cases sunset.sampleFile <;> cases sunset.varianceThreshold <;> cases sunset.window <;> simp
  | sampleCount => cases sunset.sampleFile <;> cases sunset.minSamples <;> simp
  | operatorTriggerOnly => simp

theorem closedGate_ne_fire (env : Environment) (globalKill : Bool) (prior : Option PatrolState) :
    closedGate p env globalKill prior ≠ some .wouldFire := by
  unfold closedGate
  split
  · simp
  split
  · simp
  split
  · simp
  split
  · simp
  split
  · simp
  · cases p.sunset with
    | none => simp
    | some sunset => exact sunsetGate_ne_fire sunset env

theorem gates_of_fires (h : Fires inv state p) :
    closedGate p inv.env (inv.env.pathExists inv.cfg.killSwitch) (state p.name) = none ∧
      cadenceGate p inv.env inv.env.now (state p.name) = .wouldFire ∧ p.validateCadence = .ok () := by
  obtain ⟨hdecision, -⟩ := h
  unfold Invocation.decision evaluateOne at hdecision
  split at hdecision
  · cases hdecision
  · rename_i hvalid
    cases hgate : closedGate p inv.env (inv.env.pathExists inv.cfg.killSwitch) (state p.name) with
    | none =>
      rw [hgate] at hdecision
      exact ⟨rfl, hdecision, hvalid⟩
    | some d =>
      rw [hgate, Option.getD_some] at hdecision
      rw [hdecision] at hgate
      exact absurd hgate (closedGate_ne_fire _ _ _)

theorem sunsetAt_of_fires (h : Fires inv state p) : sunsetAt state p.name = none := by
  obtain ⟨hgate, -⟩ := gates_of_fires h
  unfold closedGate at hgate
  split at hgate
  · cases hgate
  split at hgate
  · cases hgate
  · rename_i hnot
    exact Option.not_isSome_iff_eq_none.mp hnot

/-- A cron patrol is not dispatched twice in the minute in which its last dispatch was
recorded. -/
theorem cron_of_fires (h : Fires inv state p) (hcron : p.cron.isSome = true) {last : Instant}
    (hlast : lastFired state p.name = some last) : floorMinute last < floorMinute inv.env.now := by
  obtain ⟨-, hcadence, hvalid⟩ := gates_of_fires h
  have hinterval : p.intervalSeconds = none := by
    unfold Patrol.validateCadence at hvalid
    rw [hcron] at hvalid
    cases hsecs : p.intervalSeconds with
    | none => rfl
    | some secs =>
      rw [hsecs] at hvalid
      cases hvalid
  obtain ⟨expr, hexpr⟩ := Option.isSome_iff_exists.mp hcron
  unfold lastFired at hlast
  simp only [cadenceGate, hinterval, hexpr, cronGate, hlast] at hcadence
  split at hcadence
  · cases hcadence
  split at hcadence
  · cases hcadence
  split at hcadence
  · cases hcadence
  · rename_i hnot
    simpa using hnot

theorem interval_of_fires (h : Fires inv state p) {secs : Nat} (hsecs : p.intervalSeconds = some secs)
    {last : Instant} (hlast : lastFired state p.name = some last) (hle : last ≤ inv.env.now) :
    last + secs * nanosPerSecond ≤ inv.env.now := by
  obtain ⟨-, hcadence, -⟩ := gates_of_fires h
  unfold lastFired at hlast
  simp only [cadenceGate, hsecs, intervalGate, hlast] at hcadence
  have hsub : 0 ≤ inv.env.now - last := Int.sub_nonneg.mpr hle
  have hnonneg : 0 ≤ numSeconds (inv.env.now - last) := Int.tdiv_nonneg hsub (by decide)
  have helapsed : numSeconds (inv.env.now - last) * nanosPerSecond ≤ inv.env.now - last := by
    rw [numSeconds, Int.tdiv_eq_ediv_of_nonneg hsub]
    exact Int.ediv_mul_le _ (by decide)
  split at hcadence
  · rename_i hneg
    exact absurd hneg (Int.not_lt.mpr hnonneg)
  split at hcadence
  · rename_i hdue
    have hsecs' : (secs : Int) ≤ numSeconds (inv.env.now - last) := by omega
    have hmul : secs * nanosPerSecond ≤ numSeconds (inv.env.now - last) * nanosPerSecond :=
      Int.mul_le_mul_of_nonneg_right hsecs' (by decide)
    exact Int.add_le_of_le_sub_left (hmul.trans helapsed)
  · cases hcadence

end Gates

section Promise

variable (hunique : ∀ inv ∈ ticks, UniqueName inv.cfg name) (hseq : Sequential ticks)

include hunique hseq

theorem recorded_before (hcron : IsCron ticks name) {j k : Nat} {inv inv' : Invocation} (hjk : j < k)
    (hj : ticks[j]? = some inv) (hk : ticks[k]? = some inv') (hdj : Dispatches ticks name j)
    (hdk : Dispatches ticks name k) : floorMinute inv.recordedAt < floorMinute inv'.env.now := by
  obtain ⟨i, last, hji, hik, hi, -, hlast⟩ := (lastFired_latest hunique k).1 j hjk hdj
  obtain ⟨inv₁, p, hk', hp, rfl, hfires⟩ := hdk.fires hunique
  rw [hk, Option.some.injEq] at hk'
  subst hk'
  have hfloor := cron_of_fires hfires (hcron inv' (List.mem_of_getElem? hk) p hp rfl) hlast
  have hle : inv.recordedAt ≤ last.recordedAt := by
    obtain rfl | hlt := Nat.eq_or_lt_of_le hji
    · rw [hj, Option.some.injEq] at hi
      rw [hi]
    · exact (hseq.le hlt hj hi).trans (hseq.within last (List.mem_of_getElem? hi))
  exact (floorMinute_mono hle).trans_lt hfloor

theorem dispatches_apart {secs : Nat} (hinterval : IsInterval ticks name secs) {j k : Nat}
    {inv inv' : Invocation} (hjk : j < k) (hj : ticks[j]? = some inv) (hk : ticks[k]? = some inv')
    (hdj : Dispatches ticks name j) (hdk : Dispatches ticks name k) :
    inv.env.now + secs * nanosPerSecond ≤ inv'.env.now := by
  obtain ⟨i, last, hji, hik, hi, -, hlast⟩ := (lastFired_latest hunique k).1 j hjk hdj
  obtain ⟨inv₁, p, hk', hp, rfl, hfires⟩ := hdk.fires hunique
  rw [hk, Option.some.injEq] at hk'
  subst hk'
  have hgap := interval_of_fires hfires (hinterval inv' (List.mem_of_getElem? hk) p hp rfl) hlast
    (hseq.le hik hi hk)
  have hle : inv.env.now ≤ last.recordedAt := by
    obtain rfl | hlt := Nat.eq_or_lt_of_le hji
    · rw [hj, Option.some.injEq] at hi
      rw [← hi]
      exact hseq.within inv (List.mem_of_getElem? hj)
    · exact (hseq.within inv (List.mem_of_getElem? hj)).trans
        ((hseq.le hlt hj hi).trans (hseq.within last (List.mem_of_getElem? hi)))
  exact (Int.add_le_add_right hle _).trans hgap

/-- A minute in which the patrol is due has a dispatch, unless an earlier one was recorded
in it. -/
theorem dispatched_of_due (hstraddled : ¬Straddled ticks name) {k : Nat}
    {inv : Invocation} (hk : ticks[k]? = some inv) (hdue : Due ticks name k inv) :
    ∃ j inv', ticks[j]? = some inv' ∧ Dispatches ticks name j ∧
      floorMinute inv'.env.now = floorMinute inv.env.now := by
  obtain ⟨p, hp, hname, hsecs, ⟨expr, parsed, hexpr, hparse, hmatches⟩, hgates, hout⟩ := id hdue
  have hdecision : inv.decision (stateBefore ticks k) p =
      cronGate inv.env expr inv.env.now (stateBefore ticks k p.name) := by
    have hvalid : p.validateCadence = .ok () := by simp [Patrol.validateCadence, hsecs, hexpr]
    rw [Invocation.decision, evaluateOne, hvalid]
    dsimp only
    rw [hname, hgates, Option.getD_none, cadenceGate, hsecs, hexpr]
  by_cases hfire : inv.decision (stateBefore ticks k) p = .wouldFire
  · exact ⟨k, inv, hk, dispatches_of_fires hunique hk hp hname ⟨hfire, hout⟩, rfl⟩
  -- the last dispatch was recorded in this minute
  have hlast : ∃ last, lastFired (stateBefore ticks k) name = some last ∧
      floorMinute inv.env.now ≤ floorMinute last := by
    rw [hdecision, cronGate, hparse] at hfire
    simp only [hmatches, Bool.not_true, Bool.false_eq_true, if_false] at hfire
    split at hfire
    · rename_i hany
      rw [Option.any_eq_true] at hany
      obtain ⟨last, hlast, hle⟩ := hany
      exact ⟨last, hname ▸ hlast, of_decide_eq_true hle⟩
    · exact absurd rfl hfire
  obtain ⟨last, hlast, hle⟩ := hlast
  obtain ⟨j, inv', hjk, hj, hdj, rfl⟩ := (lastFired_latest hunique k).2 last hlast
  have hsame : floorMinute inv'.recordedAt = floorMinute inv.env.now :=
    le_antisymm (floorMinute_mono (hseq.le hjk hj hk)) hle
  refine ⟨j, inv', hj, hdj, ?_⟩
  by_contra hne
  have hdecided := floorMinute_mono (hseq.within inv' (List.mem_of_getElem? hj))
  rw [hsame] at hdecided
  exact hstraddled ⟨j, k, inv', inv, hjk, hj, hk, hdj, hdue,
    hsame ▸ lt_of_le_of_ne hdecided hne, hsame⟩

theorem not_dispatched_of_straddled (hcron : IsCron ticks name) (h : Straddled ticks name) :
    ∃ k inv, ticks[k]? = some inv ∧ Due ticks name k inv ∧
      ∀ i inv', ticks[i]? = some inv' → Dispatches ticks name i →
        floorMinute inv'.env.now ≠ floorMinute inv.env.now := by
  obtain ⟨j, k, inv, inv', hjk, hj, hk, hdj, hdue, hlt, hsame⟩ := h
  refine ⟨k, inv', hk, hdue, fun i inv₁ hi hdi hminute => ?_⟩
  obtain hij | rfl | hji := Nat.lt_trichotomy i j
  · have hle := floorMinute_mono ((hseq.within inv₁ (List.mem_of_getElem? hi)).trans (hseq.le hij hi hj))
    rw [hminute, ← hsame] at hle
    exact absurd hlt (not_lt.mpr hle)
  · rw [hi, Option.some.injEq] at hj
    rw [hj] at hminute
    rw [hminute, ← hsame] at hlt
    exact absurd hlt (lt_irrefl _)
  · have hbefore := recorded_before hunique hseq hcron hji hj hi hdj hdi
    rw [hminute, ← hsame] at hbefore
    exact absurd hbefore (lt_irrefl _)

end Promise

/-- One after another, the ticks keep the cadence of a patrol exactly when no dispatch of a
cron patrol is recorded in a later minute in which the patrol is due. -/
theorem cadence_iff (ticks : List Invocation) (name : String)
    (hunique : ∀ inv ∈ ticks, UniqueName inv.cfg name) (hseq : Sequential ticks) :
    Cadence ticks name ↔ (IsCron ticks name → ¬Straddled ticks name) := by
  constructor
  · intro h hcron hstraddled
    obtain ⟨k, inv, hk, hdue, hnone⟩ := not_dispatched_of_straddled hunique hseq hcron hstraddled
    obtain ⟨j, inv', hj, hdj, hminute⟩ := h.everyDueMinute hcron k inv hk hdue
    exact hnone j inv' hj hdj hminute
  · intro h
    constructor
    · intro hcron j k inv inv' hjk hj hk hdj hdk
      have hbefore := recorded_before hunique hseq hcron hjk hj hk hdj hdk
      exact ((floorMinute_mono (hseq.within inv (List.mem_of_getElem? hj))).trans_lt hbefore).ne
    · intro hcron k inv hk hdue
      exact dispatched_of_due hunique hseq (h hcron) hk hdue
    · intro secs hinterval j k inv inv' hjk hj hk hdj hdk
      exact dispatches_apart hunique hseq hinterval hjk hj hk hdj hdk
    · intro j k hjk hsunset hdk
      obtain ⟨inv, p, -, -, rfl, hfires⟩ := hdk.fires hunique
      have hstays := sunset_stays hunique hjk hsunset
      rw [sunsetAt_of_fires hfires] at hstays
      cases hstays

end Runs

section Samples

def everyMinute : Patrol := { name := "pulse", cron := some "* * * * *" }

def sampleClock (t : Instant) : WallClock where
  minute := (t / nanosPerMinute % 60).toNat
  hour := (t / (60 * nanosPerMinute) % 24).toNat
  day := 1
  month := 1
  weekday := 4

/-- A tick that decides and records at these milliseconds, and dispatches what is due. -/
def sampleTick (decided recorded : Int) : Invocation where
  cfg := { killSwitch := "~/.cosmon/stand-down.lock", patrols := [everyMinute] }
  env :=
    { pathExists := fun _ => false
      envVarSet := fun _ => true
      now := decided * 1000000
      wallClock := sampleClock
      samples := fun _ => 0
      converged := fun _ _ _ _ => false }
  recordedAt := recorded * 1000000
  dispatch := fun _ => .ok { pid := some 42017, exitCode := none }

def everyField : CronExpr where
  minute := ⟨0x0FFFFFFFFFFFFFFF#64⟩
  hour := ⟨0xFFFFFF#64⟩
  dayOfMonth := ⟨0xFFFFFFFE#64⟩
  month := ⟨0x1FFE#64⟩
  dayOfWeek := ⟨0xFF#64⟩

theorem parse_everyMinute : CronExpr.parse "* * * * *" = .ok everyField := by
  decide +kernel

theorem isCron_sample {ticks : List Invocation} (h : ∀ inv ∈ ticks, ∃ d r, inv = sampleTick d r) :
    IsCron ticks "pulse" := by
  intro inv hinv p hp _
  obtain ⟨d, r, rfl⟩ := h inv hinv
  cases List.mem_singleton.mp hp
  rfl

theorem uniqueName_sample {ticks : List Invocation} (h : ∀ inv ∈ ticks, ∃ d r, inv = sampleTick d r) :
    ∀ inv ∈ ticks, UniqueName inv.cfg "pulse" := by
  intro inv hinv
  obtain ⟨d, r, rfl⟩ := h inv hinv
  exact List.length_filter_le _ _

/-- The dispatch of the first minute is recorded in the second, whose own is lost. -/
theorem straddling_not_cadence : ¬Cadence [sampleTick 59900 60100, sampleTick 90000 90100] "pulse" := by
  intro h
  let ticks := [sampleTick 59900 60100, sampleTick 90000 90100]
  have hsample : ∀ inv ∈ ticks, ∃ d r, inv = sampleTick d r := by simp [ticks]
  have hdue : Due ticks "pulse" 1 (sampleTick 90000 90100) := by
    refine ⟨everyMinute, List.mem_singleton_self _, rfl, rfl,
      ⟨"* * * * *", everyField, rfl, parse_everyMinute, by decide +kernel⟩, by decide +kernel, _, rfl⟩
  obtain ⟨j, inv, hj, ⟨inv', hj', hdispatched⟩, hminute⟩ := h.everyDueMinute (isCron_sample hsample) 1 _ rfl hdue
  rw [hj, Option.some.injEq] at hj'
  subst hj'
  obtain _ | _ | j := j
  · cases hj
    revert hminute
    decide
  · cases hj
    revert hdispatched
    decide +kernel
  · cases hj

/-- Ticks that record in the minute in which they decide. -/
theorem steady_cadence : Cadence [sampleTick 30000 30100, sampleTick 59000 59100, sampleTick 90000 90100] "pulse" := by
  let ticks := [sampleTick 30000 30100, sampleTick 59000 59100, sampleTick 90000 90100]
  have hsample : ∀ inv ∈ ticks, ∃ d r, inv = sampleTick d r := by simp [ticks]
  refine (cadence_iff ticks "pulse" (uniqueName_sample hsample) ⟨?_, ?_⟩).mpr ?_
  · decide
  · decide
  · rintro - ⟨j, k, inv, inv', -, hj, -, -, -, hlt, -⟩
    have hsteady : ∀ inv ∈ ticks, floorMinute inv.recordedAt = floorMinute inv.env.now := by decide
    rw [hsteady inv (List.mem_of_getElem? hj)] at hlt
    exact absurd hlt (lt_irrefl _)

end Samples

end Cosmon.Scheduler.Tick
