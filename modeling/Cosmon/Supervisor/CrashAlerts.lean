import Cosmon.Supervisor.CrashLoops

namespace Cosmon.Supervisor

open Cosmon.Lib Cosmon.Lib.Checks Cosmon.Lib.Episodes Cosmon.Core.PilotLeases Cosmon.State.Molecule

/-- At least `threshold` crashes, with the `i`-th, lie in the closed window that ends at it. -/
def Looping (threshold : Nat) (window : Instant) (times : List Instant) (i : Nat) : Prop :=
  ∃ t, times[i]? = some t ∧ threshold ≤ ((times.take (i + 1)).filter fun s => t - window ≤ s ∧ s ≤ t).length

section Looping

variable {threshold : Nat} {window : Instant} {times : List Instant}

theorem not_looping {i : Nat} (h : times.length ≤ i) : ¬Looping threshold window times i := by
  rintro ⟨t, ht, -⟩
  rw [List.getElem?_eq_none h] at ht
  cases ht

theorem looping_append {i : Nat} (h : i < times.length) (later : List Instant) :
    Looping threshold window (times ++ later) i ↔ Looping threshold window times i := by
  rw [Looping, Looping, List.getElem?_append_left h, List.take_append_of_le_length (by omega)]

theorem looping_last {now : Instant} (hle : ∀ t ∈ times, t ≤ now) :
    Looping threshold window (times ++ [now]) times.length ↔
      threshold ≤ (since (now - window) (times ++ [now])).length := by
  have hall : ∀ t ∈ times ++ [now], t ≤ now := by
    intro t ht
    obtain ht | ht := List.mem_append.mp ht
    · exact hle t ht
    · exact le_of_eq (List.mem_singleton.mp ht)
  have htake : (times ++ [now]).take (times.length + 1) = times ++ [now] :=
    List.take_of_length_le (by rw [List.length_append, List.length_singleton])
  rw [Looping, List.getElem?_concat_length, htake, since_window hall]
  constructor
  · rintro ⟨t, ht, hcount⟩
    cases ht
    exact hcount
  · exact fun hcount => ⟨now, rfl, hcount⟩

theorem looping_before (now : Instant) :
    (∀ j, j + 1 = times.length → ¬Looping threshold window (times ++ [now]) j) ↔
      ¬Looping threshold window times (times.length - 1) := by
  constructor
  · intro h hlooping
    have hpos : 0 < times.length := by
      by_contra hzero
      exact not_looping (by omega) hlooping
    rw [← looping_append (by omega) [now]] at hlooping
    exact h _ (by omega) hlooping
  · intro h j hj
    rw [looping_append (by omega)]
    obtain rfl : j = times.length - 1 := by omega
    exact h

end Looping

def ofDaemon (name : String) (log : List Recorded) : List Recorded := log.filter fun r => r.daemon = name

def timesOf (own : List Recorded) : List Instant := own.map (·.time)

/-- An alert fired at the `i`-th crash. -/
def Fired (own : List Recorded) (i : Nat) : Prop := ∃ r, own[i]? = some r ∧ r.alert.isSome = true

/-- What a child knows of its crashes: those that can matter from now on, and whether the
last one was in a loop; and its alerts came where loops begin. -/
structure WatchedChild.Follows (rec : WatchedChild) (threshold : Nat) (window : Instant) (own : List Recorded) :
    Prop where
  history : ∀ now, (∀ t ∈ timesOf own, t ≤ now) →
    since (now - window) rec.crashTimes = since (now - window) (timesOf own)
  alerted : rec.propulsionAlerted = true ↔ Looping threshold window (timesOf own) (own.length - 1)
  onsets : ∀ i, Fired own i ↔ Onset (Looping threshold window (timesOf own)) i

section Follows

variable {threshold : Nat} {window now : Instant} {rec : WatchedChild} {own : List Recorded}

theorem follows_nil (hhistory : rec.crashTimes = []) (hlatch : rec.propulsionAlerted = false) :
    rec.Follows threshold window [] where
  history := fun now _ => by rw [hhistory]; rfl
  alerted := by
    rw [hlatch]
    exact ⟨fun h => (nomatch h), fun h => absurd h (not_looping (Nat.zero_le _))⟩
  onsets := fun i =>
    ⟨fun h => (nomatch h.choose_spec.1), fun h => absurd h.1 (not_looping (Nat.zero_le _))⟩

theorem kept_eq (h : rec.Follows threshold window own) (hwindow : 0 ≤ window) (hle : ∀ t ∈ timesOf own, t ≤ now) :
    rec.kept now window = since (now - window) (timesOf own ++ [now]) := by
  rw [WatchedChild.kept, h.history now hle, since_append, since_singleton (Int.sub_le_self now hwindow)]

theorem isDue_kept (h : rec.Follows threshold window own) (hthreshold : 0 < threshold) (hwindow : 0 ≤ window)
    (hle : ∀ t ∈ timesOf own, t ≤ now) :
    isDue threshold (rec.kept now window).length = true ↔
      Looping threshold window (timesOf own ++ [now]) (timesOf own).length := by
  rw [looping_last hle, ← kept_eq h hwindow hle, isDue, decide_eq_true_iff]
  exact and_iff_right hthreshold

theorem fired_concat {r : Recorded}
    (hfired : r.alert.isSome = true ↔ Looping threshold window (timesOf own ++ [r.time]) (timesOf own).length ∧
      ¬Looping threshold window (timesOf own) ((timesOf own).length - 1))
    (honsets : ∀ i, Fired own i ↔ Onset (Looping threshold window (timesOf own)) i) (i : Nat) :
    Fired (own ++ [r]) i ↔ Onset (Looping threshold window (timesOf own ++ [r.time])) i := by
  have hlength : (timesOf own).length = own.length := List.length_map _
  obtain hlt | rfl | hgt := Nat.lt_trichotomy i own.length
  · rw [Fired, List.getElem?_append_left hlt]
    refine (honsets i).trans (onset_congr fun j hj => (looping_append (by omega) _).symm)
  · rw [Fired, List.getElem?_concat_length, Onset, ← hlength, looping_before, ← hfired]
    constructor
    · rintro ⟨_, heq, hsome⟩
      cases heq
      exact hsome
    · exact fun hsome => ⟨r, rfl, hsome⟩
  · have hpast : (own ++ [r]).length ≤ i := by
      rw [List.length_append, List.length_singleton]
      omega
    have htimes : (timesOf own ++ [r.time]).length = (own ++ [r]).length := by
      rw [List.length_append, List.length_append, hlength, List.length_singleton, List.length_singleton]
    have hquiet : ¬Looping threshold window (timesOf own ++ [r.time]) i := not_looping (htimes.trans_le hpast)
    rw [Fired, List.getElem?_eq_none hpast]
    exact ⟨fun h => (nomatch h.choose_spec.1), fun h => absurd h.1 hquiet⟩

end Follows

section Steps

variable {threshold : Nat} {window : Instant} {rec : WatchedChild} {own : List Recorded}

theorem follows_after (h : rec.Follows threshold window own) (hthreshold : 0 < threshold) (hwindow : 0 ≤ window)
    {r : Recorded} (hle : ∀ t ∈ timesOf own, t ≤ r.time) (hfires : r.alert.isSome = rec.fires r.time threshold window) :
    (rec.after r.time threshold window).Follows threshold window (own ++ [r]) := by
  have htimes : timesOf (own ++ [r]) = timesOf own ++ [r.time] := List.map_append
  have hlength : (own ++ [r]).length - 1 = (timesOf own).length := by
    rw [List.length_append, List.length_singleton, Nat.add_sub_cancel, timesOf, List.length_map]
  have hdue := isDue_kept h hthreshold hwindow hle
  refine ⟨fun now hnow => ?_, ?_, fun i => ?_⟩
  · rw [htimes] at hnow ⊢
    have hlater : r.time ≤ now := hnow r.time (List.mem_append_right _ (List.mem_singleton.mpr rfl))
    rw [WatchedChild.after, kept_eq h hwindow hle]
    exact since_since (Int.sub_le_sub_right hlater window) _
  · rw [htimes, hlength]
    exact hdue
  · rw [htimes]
    refine fired_concat ?_ h.onsets i
    have halerted := h.alerted
    rw [hfires, WatchedChild.fires, Bool.and_eq_true, hdue, Bool.not_eq_true', ← Bool.not_eq_true, halerted, timesOf,
      List.length_map]

end Steps

section Run

variable {s : Valve} {file : LoadedFile} {log : List Recorded}

def Valve.Follows (s : Valve) (file : LoadedFile) (log : List Recorded) : Prop :=
  ∀ name rec, Keyed.get childName name s.children = some rec →
    rec.Follows file.supervisor.crashLoopThreshold file.window (ofDaemon name log)

theorem get_isSome (h : s.RunsOn file) {name : String} (hname : name ∈ file.names) :
    ∃ rec, Keyed.get childName name s.children = some rec := by
  apply Option.ne_none_iff_exists'.mp
  intro hnone
  rw [← h.names] at hname
  exact Keyed.get_none.mp hnone hname

theorem record_error (h : s.RunsOn file) (log : List Recorded) {crash : String × Instant}
    (hname : crash.1 ∈ file.names) (hdate : ¬IsDateTime (crash.2 - file.window)) :
    record (s, log) crash = .error .subtraction := by
  obtain ⟨rec, hget⟩ := get_isSome h hname
  rw [← h.window] at hdate
  rw [record, recordCrash_error hget hdate]
  rfl

theorem ofDaemon_concat {name : String} {r : Recorded} (h : r.daemon = name) (log : List Recorded) :
    ofDaemon name (log ++ [r]) = ofDaemon name log ++ [r] := by
  rw [ofDaemon, ofDaemon, List.filter_append, List.filter_cons_of_pos (by rwa [decide_eq_true_eq]), List.filter_nil]

theorem ofDaemon_concat_of_ne {name : String} {r : Recorded} (h : r.daemon ≠ name) (log : List Recorded) :
    ofDaemon name (log ++ [r]) = ofDaemon name log := by
  rw [ofDaemon, ofDaemon, List.filter_append, List.filter_cons_of_neg (by rwa [decide_eq_true_eq]), List.filter_nil,
    List.append_nil]

theorem follows_set (h : s.Follows file log) (hthreshold : 0 < file.supervisor.crashLoopThreshold) {r : Recorded}
    (hlog : ∀ r' ∈ log, r'.time ≤ r.time) {rec : WatchedChild}
    (hget : Keyed.get childName r.daemon s.children = some rec)
    (hfires : r.alert.isSome = rec.fires r.time file.supervisor.crashLoopThreshold file.window) :
    (s.set (rec.after r.time file.supervisor.crashLoopThreshold file.window)).Follows file (log ++ [r]) := by
  have hname : childName (rec.after r.time file.supervisor.crashLoopThreshold file.window) = r.daemon :=
    (Keyed.get_mem hget).2
  intro other rec' hother
  by_cases heq : r.daemon = other
  · rw [← heq, get_set hget hname, Option.some.injEq] at hother
    subst hother
    rw [ofDaemon_concat heq]
    refine follows_after (h other rec (heq ▸ hget)) hthreshold file.window_nonneg ?_ hfires
    intro t ht
    obtain ⟨r', hr', rfl⟩ := List.mem_map.mp ht
    exact hlog r' (List.mem_of_mem_filter hr')
  · rw [get_set_of_ne (by rwa [hname])] at hother
    rw [ofDaemon_concat_of_ne heq]
    exact h other rec' hother

theorem follows_stranger (h : s.Follows file log) {r : Recorded}
    (hget : Keyed.get childName r.daemon s.children = none) : s.Follows file (log ++ [r]) := by
  intro other rec hother
  have hne : r.daemon ≠ other := by
    rintro rfl
    rw [hget] at hother
    cases hother
  rw [ofDaemon_concat_of_ne hne]
  exact h other rec hother

theorem record_ok (h : s.RunsOn file) (log : List Recorded) (crash : String × Instant)
    (hdate : crash.1 ∈ file.names → IsDateTime (crash.2 - file.window)) :
    ∃ s' r, record (s, log) crash = .ok (s', log ++ [r]) ∧ (r.daemon, r.time) = crash ∧ s'.RunsOn file ∧
      (0 < file.supervisor.crashLoopThreshold → (∀ r' ∈ log, r'.time ≤ r.time) → s.Follows file log →
        s'.Follows file (log ++ [r])) := by
  obtain ⟨name, now⟩ := crash
  cases hget : Keyed.get childName name s.children with
  | none =>
    refine ⟨s, ⟨name, now, none⟩, ?_, rfl, h, fun _ _ hfollows => follows_stranger hfollows hget⟩
    rw [record, recordCrash_none hget]
    rfl
  | some rec =>
    obtain ⟨hmem, hrecName⟩ := Keyed.get_mem hget
    have hname : name ∈ file.names := by
      rw [← h.names, ← hrecName]
      exact List.mem_map_of_mem hmem
    have hwindow : 0 ≤ s.crashLoopWindow := h.window ▸ file.window_nonneg
    have hnow : IsDateTime (now - s.crashLoopWindow) := by
      rw [h.window]
      exact hdate hname
    obtain ⟨alert, hfires, hrecord⟩ := recordCrash_ok hget hwindow hnow
    rw [h.threshold, h.window] at hfires hrecord
    refine ⟨s.set (rec.after now file.supervisor.crashLoopThreshold file.window), ⟨name, now, alert⟩, ?_, rfl,
      ⟨Keyed.keys_set.trans h.names, h.threshold, h.window⟩,
      fun hthreshold hlog hfollows => follows_set hfollows hthreshold hlog hget hfires⟩
    rw [record, hrecord]
    rfl

theorem records_ok (h : s.RunsOn file) {crashes : List (String × Instant)}
    (hdates : ∀ crash ∈ crashes, crash.1 ∈ file.names → IsDateTime (crash.2 - file.window))
    (htimes : crashes.Pairwise fun a b => a.2 ≤ b.2) :
    ∃ s' log, crashes.foldlM record (s, []) = .ok (s', log) ∧ log.map (fun r => (r.daemon, r.time)) = crashes ∧
      s'.RunsOn file ∧ (0 < file.supervisor.crashLoopThreshold → s.Follows file [] → s'.Follows file log) := by
  induction crashes using List.reverseRecOn with
  | nil => exact ⟨s, [], rfl, rfl, h, fun _ hfollows => hfollows⟩
  | append_singleton past crash ih =>
    obtain ⟨hpast, -, hlast⟩ := List.pairwise_append.mp htimes
    obtain ⟨s₁, log, hrun, hlog, hs₁, hfollows₁⟩ := ih (fun c hc => hdates c (List.mem_append_left _ hc)) hpast
    obtain ⟨s₂, r, hrecord, hr, hs₂, hfollows₂⟩ :=
      record_ok hs₁ log crash (hdates crash (List.mem_append_right _ (List.mem_singleton.mpr rfl)))
    refine ⟨s₂, log ++ [r], ?_, ?_, hs₂, fun hthreshold hfollows => ?_⟩
    · rw [List.foldlM_append, hrun]
      dsimp only [bind, Except.bind]
      rw [List.foldlM_cons, hrecord]
      rfl
    · rw [List.map_append, hlog, List.map_singleton, hr]
    · refine hfollows₂ hthreshold (fun r' hr' => ?_) (hfollows₁ hthreshold hfollows)
      rw [← hlog] at hlast
      have hle := hlast _ (List.mem_map_of_mem hr') crash (List.mem_singleton.mpr rfl)
      rwa [← hr] at hle

theorem dates_of_records (h : s.RunsOn file) {crashes : List (String × Instant)} {out : Valve × List Recorded}
    (hrun : crashes.foldlM record (s, []) = .ok out) :
    ∀ crash ∈ crashes, crash.1 ∈ file.names → IsDateTime (crash.2 - file.window) := by
  have hall := foldlM_ok (f := record)
    (P := fun past out => out.1.RunsOn file ∧
      ∀ crash ∈ past, crash.1 ∈ file.names → IsDateTime (crash.2 - file.window))
    ⟨h, fun _ hcrash => absurd hcrash List.not_mem_nil⟩ ?_ hrun
  · exact hall.2
  rintro past ⟨s₁, log⟩ crash out' ⟨hs₁, hpast⟩ hrecord
  have hdate : crash.1 ∈ file.names → IsDateTime (crash.2 - file.window) := by
    intro hname
    by_contra hdate
    rw [record_error hs₁ log hname hdate] at hrecord
    cases hrecord
  obtain ⟨s₂, r, heq, -, hs₂, -⟩ := record_ok hs₁ log crash hdate
  rw [heq] at hrecord
  cases hrecord
  refine ⟨hs₂, fun c hc => ?_⟩
  obtain hc | hc := List.mem_append.mp hc
  · exact hpast c hc
  · rw [List.mem_singleton.mp hc]
    exact hdate

theorem inRange_of_watch {w : World} {start : Instant} {crashes : List (String × Instant)}
    {out : Valve × List Recorded} (h : watch w start file crashes = .ok out) : InRange file crashes := by
  by_cases hsecs : file.supervisor.crashLoopWindowSeconds ≤ (2 ^ 63 - 1) / 1000
  · obtain ⟨s, hnew, hs, -⟩ := new_ok hsecs w start
    rw [watch, hnew] at h
    exact ⟨hsecs, dates_of_records hs h⟩
  · rw [watch, new_error hsecs] at h
    cases h

end Run

/-- How the crashes of a daemon are announced: an alert fires in a crash loop when none has
fired since the last crash outside one, and each episode has one alert. -/
structure Announced (threshold : Nat) (window : Instant) (own : List Recorded) : Prop where
  fires : ∀ i, Fired own i ↔ Looping threshold window (timesOf own) i ∧
    ∀ j < i, Fired own j → ∃ k, j < k ∧ k < i ∧ ¬Looping threshold window (timesOf own) k
  once : ∀ first last, Episode (Looping threshold window (timesOf own)) first last →
    ∃! i, first ≤ i ∧ i ≤ last ∧ Fired own i

theorem WatchedChild.Follows.announced {rec : WatchedChild} {threshold : Nat} {window : Instant}
    {own : List Recorded} (h : rec.Follows threshold window own) : Announced threshold window own where
  fires := fires_iff h.onsets
  once := fun first last hepisode => by
    simp only [h.onsets]
    exact hepisode.onset

/-- The supervisor starts, records the crashes and announces those of every daemon. -/
def Announces (w : World) (start : Instant) (file : LoadedFile) (crashes : List (String × Instant)) : Prop :=
  ∃ s log, watch w start file crashes = .ok (s, log) ∧ log.map (fun r => (r.daemon, r.time)) = crashes ∧
    (1 ≤ file.supervisor.crashLoopThreshold →
      ∀ name ∈ file.names, Announced file.supervisor.crashLoopThreshold file.window (ofDaemon name log))

theorem announces_iff (w : World) (start : Instant) (file : LoadedFile) {crashes : List (String × Instant)}
    (htimes : crashes.Pairwise fun a b => a.2 ≤ b.2) : Announces w start file crashes ↔ InRange file crashes := by
  constructor
  · rintro ⟨s, log, hrun, -⟩
    exact inRange_of_watch hrun
  · rintro ⟨hsecs, hdates⟩
    obtain ⟨s, hnew, hs, hfresh⟩ := new_ok hsecs w start
    obtain ⟨s', log, hrun, hlog, hs', hfollows⟩ := records_ok hs hdates htimes
    refine ⟨s', log, ?_, hlog, fun hthreshold name hname => ?_⟩
    · rw [watch, hnew]
      exact hrun
    · obtain ⟨rec, hget⟩ := get_isSome hs' hname
      refine (hfollows hthreshold (fun name rec hget => ?_) name rec hget).announced
      obtain ⟨hhistory, hlatch⟩ := hfresh rec (Keyed.get_mem hget).1
      exact follows_nil hhistory hlatch

/-- The courier crashes four times, recovers and crashes again. -/
theorem announces_courier :
    Announces {} 0 { supervisor := { crashLoopThreshold := 3 }, config := courierConfig }
      ([0, 10, 20, 30, 900, 910].map fun secs => ("courier", secs * nanosPerSecond)) :=
  (announces_iff _ _ _ (by decide)).mpr (by decide)

/-- A window for ever is more than a duration holds, and one of ten thousand milliards of seconds
begins before all times. -/
theorem announces_far :
    ¬Announces {} 0 { supervisor := { crashLoopWindowSeconds := 9223372036854775807 }, config := courierConfig } [] ∧
    ¬Announces {} 0 { supervisor := { crashLoopWindowSeconds := 10000000000000 }, config := courierConfig }
      [("courier", 1700000000000000000)] := by
  constructor
  · rintro ⟨s, log, hrun, -⟩
    exact absurd (inRange_of_watch hrun) (by decide)
  · rintro ⟨s, log, hrun, -⟩
    exact absurd (inRange_of_watch hrun) (by decide)

end Cosmon.Supervisor
