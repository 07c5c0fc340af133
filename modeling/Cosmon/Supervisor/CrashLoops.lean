import Cosmon.Lib.Checks
import Cosmon.Lib.Episodes
import Cosmon.Supervisor.Children

namespace Cosmon.Supervisor

open Cosmon.Lib Cosmon.Lib.Episodes Cosmon.Core.PilotLeases Cosmon.State.Molecule

/-- Where an operation on durations or times stops the process: its result is out of range. -/
inductive Panic
  | seconds
  | subtraction
  deriving DecidableEq

/-- The first instant that a `DateTime` holds. -/
def minUtc : Instant := -8334601228800000000000

def IsDateTime (t : Instant) : Prop := minUtc ≤ t ∧ t ≤ maxUtc

instance (t : Instant) : Decidable (IsDateTime t) := inferInstanceAs (Decidable (_ ∧ _))

/-- `trySeconds` for callers that rely on its success. -/
def seconds (secs : Nat) : Except Panic Instant :=
  match trySeconds secs with
  | none => .error .seconds
  | some duration => .ok duration

def subtract (t duration : Instant) : Except Panic Instant :=
  if IsDateTime (t - duration) then .ok (t - duration) else .error .subtraction

def crashLoopAlert (crashTimes : List Instant) (now : Instant) (threshold : Nat) (window : Instant) :
    Except Panic Bool :=
  if threshold = 0 then .ok false
  else do
    let cutoff ← subtract now window
    let recent := (crashTimes.filter fun t => cutoff ≤ t).length
    .ok (decide (threshold ≤ recent))

def pruneCrashTimes (crashTimes : List Instant) (now window : Instant) : Except Panic (List Instant) := do
  let cutoff ← subtract now window
  .ok (crashTimes.filter fun t => cutoff ≤ t)

structure SupervisorConfig where
  crashLoopThreshold : Nat := 5
  crashLoopWindowSeconds : Nat := 300
  notifyCommand : List String := ["cs", "notify"]

/-- A config file that `load` returns; its check looks at the daemons only. -/
structure LoadedFile where
  supervisor : SupervisorConfig := {}
  config : LoadedConfig

def LoadedFile.names (file : LoadedFile) : List String := file.config.1.daemons.map (·.name)

structure WatchedChild extends ChildRecord where
  crashTimes : List Instant := []
  propulsionAlerted : Bool := false

structure Valve where
  children : List WatchedChild
  crashLoopThreshold : Nat
  crashLoopWindow : Instant
  notifyCommand : List String

def Valve.new (w : World) (now : Instant) (file : LoadedFile) : Except Panic Valve := do
  let crashLoopWindow ← seconds (min file.supervisor.crashLoopWindowSeconds (2 ^ 63 - 1))
  .ok {
    children := (w.restart now file.config).children.map fun rec => { toChildRecord := rec }
    crashLoopThreshold := file.supervisor.crashLoopThreshold
    crashLoopWindow
    notifyCommand := file.supervisor.notifyCommand }

structure PropulsionDown where
  message : String
  command : Option (String × List String)
  deriving DecidableEq

def Valve.emitPropulsionDown (s : Valve) (name : String) (recent : Nat) : PropulsionDown :=
  let windowS := numSeconds s.crashLoopWindow
  let msg :=
    s!"PROPULSION DOWN: daemon '{name}' crash-looped {recent} times in {windowS}s. " ++
    "The supervisor keeps restarting it but it will not stay up — inspect its " ++
    "binary/config (a semantically-broken config that parses is the usual cause)."
  { message := s!"cosmon-daemon-supervisor: {msg}"
    command :=
      match s.notifyCommand with
      | [] => none
      | program :: rest => some (program, rest ++ ["--title", "PropulsionDown", "--level", "alert", msg]) }

/-- The child after a crash, whether an alert is due, and how many crashes it is about. -/
def WatchedChild.crash (rec : WatchedChild) (now : Instant) (threshold : Nat) (window : Instant) :
    Except Panic (WatchedChild × Bool × Nat) := do
  let pruned ← pruneCrashTimes rec.crashTimes now window
  let crashTimes := pruned ++ [now]
  let alert ← crashLoopAlert crashTimes now threshold window
  let recent := crashTimes.length
  let fire := alert && !rec.propulsionAlerted
  let propulsionAlerted :=
    if fire = true then true
    else if alert = false then false
    else rec.propulsionAlerted
  .ok ({ rec with crashTimes, propulsionAlerted }, fire, recent)

def childName (rec : WatchedChild) : String := rec.name

def Valve.set (s : Valve) (rec : WatchedChild) : Valve :=
  { s with children := Keyed.set childName rec s.children }

def Valve.recordCrash (s : Valve) (name : String) (now : Instant) :
    Except Panic (Valve × Option PropulsionDown) :=
  match Keyed.get childName name s.children with
  | none => .ok (s, none)
  | some rec => do
    let (rec', shouldFire, recent) ← rec.crash now s.crashLoopThreshold s.crashLoopWindow
    let s' := s.set rec'
    .ok (s', if shouldFire = true then some (s'.emitPropulsionDown name recent) else none)

structure Recorded where
  daemon : String
  time : Instant
  alert : Option PropulsionDown

def record (past : Valve × List Recorded) (crash : String × Instant) :
    Except Panic (Valve × List Recorded) := do
  let (s, alert) ← past.1.recordCrash crash.1 crash.2
  .ok (s, past.2 ++ [{ daemon := crash.1, time := crash.2, alert }])

def watch (w : World) (start : Instant) (file : LoadedFile) (crashes : List (String × Instant)) :
    Except Panic (Valve × List Recorded) := do
  let s ← Valve.new w start file
  crashes.foldlM record (s, [])

section Crash

variable {now window : Instant}

theorem pruneCrashTimes_ok (h : IsDateTime (now - window)) (crashTimes : List Instant) :
    pruneCrashTimes crashTimes now window = .ok (since (now - window) crashTimes) := by
  rw [pruneCrashTimes, subtract, if_pos h]
  rfl

/-- No alert is due with a threshold of zero. -/
def isDue (threshold recent : Nat) : Bool := decide (0 < threshold ∧ threshold ≤ recent)

theorem crashLoopAlert_ok (h : IsDateTime (now - window)) (crashTimes : List Instant) (threshold : Nat) :
    crashLoopAlert crashTimes now threshold window =
      .ok (isDue threshold (since (now - window) crashTimes).length) := by
  rw [crashLoopAlert, isDue]
  by_cases hzero : threshold = 0
  · rw [if_pos hzero, decide_eq_false (by omega)]
  · rw [if_neg hzero, subtract, if_pos h]
    have hpos : 0 < threshold := by omega
    simp only [bind, Except.bind, hpos, true_and, since]

def WatchedChild.kept (rec : WatchedChild) (now window : Instant) : List Instant :=
  since (now - window) rec.crashTimes ++ [now]

theorem since_kept (hwindow : 0 ≤ window) (rec : WatchedChild) :
    since (now - window) (rec.kept now window) = rec.kept now window := by
  rw [WatchedChild.kept, since_append, since_since le_rfl, since_singleton (Int.sub_le_self now hwindow)]

def WatchedChild.after (rec : WatchedChild) (now : Instant) (threshold : Nat) (window : Instant) : WatchedChild :=
  { rec with
    crashTimes := rec.kept now window
    propulsionAlerted := isDue threshold (rec.kept now window).length }

def WatchedChild.fires (rec : WatchedChild) (now : Instant) (threshold : Nat) (window : Instant) : Bool :=
  isDue threshold (rec.kept now window).length && !rec.propulsionAlerted

/-- The latch keeps what the last crash found: an alert that is due fires unless one was due before. -/
theorem WatchedChild.crash_ok (hwindow : 0 ≤ window) (h : IsDateTime (now - window)) (rec : WatchedChild)
    (threshold : Nat) :
    rec.crash now threshold window =
      .ok (rec.after now threshold window, rec.fires now threshold window, (rec.kept now window).length) := by
  have hkept : since (now - window) (rec.kept now window) = rec.kept now window := since_kept hwindow rec
  rw [WatchedChild.kept] at hkept
  rw [WatchedChild.crash, pruneCrashTimes_ok h]
  dsimp only [bind, Except.bind]
  rw [crashLoopAlert_ok h, hkept]
  dsimp only
  rw [← WatchedChild.kept, WatchedChild.after, WatchedChild.fires]
  cases isDue threshold (rec.kept now window).length <;> cases rec.propulsionAlerted <;> rfl

theorem WatchedChild.crash_error (h : ¬IsDateTime (now - window)) (rec : WatchedChild) (threshold : Nat) :
    rec.crash now threshold window = .error .subtraction := by
  rw [WatchedChild.crash, pruneCrashTimes, subtract, if_neg h]
  rfl

end Crash

section Run

variable {s : Valve} {file : LoadedFile} {name : String} {now : Instant} {rec : WatchedChild}

theorem get_set (hget : Keyed.get childName name s.children = some rec) {rec' : WatchedChild}
    (hname : childName rec' = name) : Keyed.get childName name (s.set rec').children = some rec' := by
  rw [Valve.set, Keyed.get_eq_head, Keyed.filter_set hname, List.head?_map, ← Keyed.get_eq_head, hget, Option.map_some]

theorem get_set_of_ne {rec' : WatchedChild} (h : childName rec' ≠ name) (s : Valve) :
    Keyed.get childName name (s.set rec').children = Keyed.get childName name s.children :=
  Keyed.get_set_of_ne h s.children

theorem recordCrash_none (hget : Keyed.get childName name s.children = none) (now : Instant) :
    s.recordCrash name now = .ok (s, none) := by
  rw [Valve.recordCrash, hget]

theorem recordCrash_ok (hget : Keyed.get childName name s.children = some rec) (hwindow : 0 ≤ s.crashLoopWindow)
    (h : IsDateTime (now - s.crashLoopWindow)) :
    ∃ alert : Option PropulsionDown,
      alert.isSome = rec.fires now s.crashLoopThreshold s.crashLoopWindow ∧
      s.recordCrash name now = .ok (s.set (rec.after now s.crashLoopThreshold s.crashLoopWindow), alert) := by
  rw [Valve.recordCrash, hget]
  dsimp only [bind, Except.bind]
  rw [WatchedChild.crash_ok hwindow h]
  refine ⟨_, ?_, rfl⟩
  cases rec.fires now s.crashLoopThreshold s.crashLoopWindow <;> rfl

theorem recordCrash_error (hget : Keyed.get childName name s.children = some rec)
    (h : ¬IsDateTime (now - s.crashLoopWindow)) : s.recordCrash name now = .error .subtraction := by
  rw [Valve.recordCrash, hget]
  dsimp only [bind, Except.bind]
  rw [WatchedChild.crash_error h]

/-- The window as the config file gives it. -/
def LoadedFile.window (file : LoadedFile) : Instant := file.supervisor.crashLoopWindowSeconds * nanosPerSecond

theorem LoadedFile.window_nonneg (file : LoadedFile) : 0 ≤ file.window :=
  Int.mul_nonneg (Int.natCast_nonneg _) (by decide)

structure Valve.RunsOn (s : Valve) (file : LoadedFile) : Prop where
  names : s.children.map childName = file.names
  threshold : s.crashLoopThreshold = file.supervisor.crashLoopThreshold
  window : s.crashLoopWindow = file.window

/-- The window is a duration, and no crash of a daemon is so early that it begins before all times. -/
def InRange (file : LoadedFile) (crashes : List (String × Instant)) : Prop :=
  file.supervisor.crashLoopWindowSeconds ≤ (2 ^ 63 - 1) / 1000 ∧
    ∀ crash ∈ crashes, crash.1 ∈ file.names → IsDateTime (crash.2 - file.window)

instance (crashes : List (String × Instant)) : Decidable (InRange file crashes) :=
  inferInstanceAs (Decidable (_ ∧ _))

theorem new_ok (hsecs : file.supervisor.crashLoopWindowSeconds ≤ (2 ^ 63 - 1) / 1000) (w : World)
    (start : Instant) :
    ∃ s, Valve.new w start file = .ok s ∧ s.RunsOn file ∧
      ∀ rec ∈ s.children, rec.crashTimes = [] ∧ rec.propulsionAlerted = false := by
  have hmin : min file.supervisor.crashLoopWindowSeconds (2 ^ 63 - 1) = file.supervisor.crashLoopWindowSeconds := by
    omega
  refine ⟨⟨(w.restart start file.config).children.map fun rec => { toChildRecord := rec },
    file.supervisor.crashLoopThreshold, file.window, file.supervisor.notifyCommand⟩, ?_, ⟨?_, rfl, rfl⟩, ?_⟩
  · rw [Valve.new, hmin, seconds, trySeconds, if_pos hsecs]
    rfl
  · rw [List.map_map, World.restart, List.map_map]
    exact List.map_congr_left fun spec _ => recover_name w start spec
  · intro rec hrec
    obtain ⟨_, -, rfl⟩ := List.mem_map.mp hrec
    exact ⟨rfl, rfl⟩

theorem new_error (hsecs : ¬file.supervisor.crashLoopWindowSeconds ≤ (2 ^ 63 - 1) / 1000) (w : World)
    (start : Instant) : Valve.new w start file = .error .seconds := by
  have hmin : ¬min file.supervisor.crashLoopWindowSeconds (2 ^ 63 - 1) ≤ (2 ^ 63 - 1) / 1000 := by omega
  rw [Valve.new, seconds, trySeconds, if_neg hmin]
  rfl

end Run

end Cosmon.Supervisor
