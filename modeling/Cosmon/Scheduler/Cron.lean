import Cosmon.Lib.Checks
import Cosmon.Lib.Text

namespace Cosmon.Scheduler.Cron

open Cosmon.Lib.Text

/-- The values that a field matches, one bit each. -/
structure FieldSet where
  bits : BitVec 64
deriving DecidableEq

def FieldSet.empty : FieldSet := ⟨0⟩

def FieldSet.insert (set : FieldSet) (value : Nat) : FieldSet :=
  if value < 64 then ⟨set.bits ||| (1#64 <<< value)⟩ else set

def FieldSet.contains (set : FieldSet) (value : Nat) : Bool := value < 64 && set.bits.getLsbD value

structure CronExpr where
  minute : FieldSet
  hour : FieldSet
  dayOfMonth : FieldSet
  month : FieldSet
  dayOfWeek : FieldSet
deriving DecidableEq

inductive CronError where
  | wrongArity (found : Nat)
  | badField (index : Nat) (raw reason : String)
deriving DecidableEq

def CronError.toString : CronError → String
  | .wrongArity found => "cron expression must have 5 fields, got " ++ found.repr
  | .badField index raw reason => "cron field #" ++ index.repr ++ " '" ++ raw ++ "' invalid: " ++ reason

/-- The part of a token before its step: `*`, `N` or `N-M`. -/
def parseRange (part : List Char) (lo hi : Nat) : Except String (Nat × Nat) :=
  if part = ['*'] then .ok (lo, hi)
  else
    match splitOnce '-' part with
    | some (a, b) =>
      match parseUnsigned 32 a with
      | none => .error ("bad range start '" ++ String.ofList a ++ "'")
      | some start =>
        match parseUnsigned 32 b with
        | none => .error ("bad range end '" ++ String.ofList b ++ "'")
        | some stop =>
          if start < lo ∨ hi < stop ∨ stop < start then
            .error ("range " ++ start.repr ++ "-" ++ stop.repr ++ " not within " ++ lo.repr ++ "..=" ++ hi.repr)
          else .ok (start, stop)
    | none =>
      match parseUnsigned 32 part with
      | none => .error ("bad value '" ++ String.ofList part ++ "'")
      | some v =>
        if v < lo ∨ hi < v then
          .error ("value " ++ v.repr ++ " out of range " ++ lo.repr ++ "..=" ++ hi.repr)
        else .ok (v, v)

def parseStep (token : List Char) : Except String (List Char × Nat) :=
  match splitOnce '/' token with
  | none => .ok (token, 1)
  | some (range, s) =>
    match parseUnsigned 32 s with
    | none => .error ("bad step '" ++ String.ofList s ++ "'")
    | some 0 => .error ("step must be >= 1, got '" ++ String.ofList s ++ "'")
    | some step => .ok (range, step)

/-- One token between commas: every `step`-th value of its range. -/
def parseToken (lo hi : Nat) (into : FieldSet) (token : List Char) : Except String FieldSet := do
  let (range, step) ← parseStep token
  let (start, stop) ← parseRange range lo hi
  return (List.range' start ((stop - start) / step + 1) step).foldl FieldSet.insert into

def parseField (raw : List Char) (index lo hi : Nat) : Except CronError FieldSet :=
  ((raw.splitOn ',').foldlM (parseToken lo hi) FieldSet.empty).mapError
    (.badField index (String.ofList raw))

def CronExpr.parse (expr : String) : Except CronError CronExpr :=
  match (expr.toList.splitOnP isWhiteSpace).filter (· ≠ []) with
  | [minute, hour, dayOfMonth, month, dayOfWeek] => do
    return {
      minute := ← parseField minute 0 0 59
      hour := ← parseField hour 1 0 23
      dayOfMonth := ← parseField dayOfMonth 2 1 31
      month := ← parseField month 3 1 12
      dayOfWeek := ← parseField dayOfWeek 4 0 7 }
  | fields => .error (.wrongArity fields.length)

/-- What the operator's clock on the wall shows; the week starts with Sunday as 0. -/
structure WallClock where
  minute : Nat
  hour : Nat
  day : Nat
  month : Nat
  weekday : Nat
deriving DecidableEq

def CronExpr.matches_ (e : CronExpr) (t : WallClock) : Bool :=
  e.minute.contains t.minute && e.hour.contains t.hour && e.dayOfMonth.contains t.day &&
    e.month.contains t.month &&
    (e.dayOfWeek.contains t.weekday || (t.weekday = 0 && e.dayOfWeek.contains 7))

section Legal

variable {lo hi : Nat}

def FieldSet.Within (lo hi : Nat) (set : FieldSet) : Prop := ∀ v, set.contains v = true → lo ≤ v ∧ v ≤ hi

theorem contains_insert {set : FieldSet} {value v : Nat} (h : (set.insert value).contains v = true) :
    set.contains v = true ∨ v = value := by
  unfold FieldSet.insert at h
  split at h
  · simp only [FieldSet.contains, BitVec.getLsbD_or, BitVec.getLsbD_shiftLeft, BitVec.getLsbD_one,
      Bool.and_eq_true, Bool.or_eq_true, decide_eq_true_eq, Bool.not_eq_true'] at h ⊢
    obtain ⟨hlt, hold | ⟨⟨_, hle⟩, _, hzero⟩⟩ := h
    · exact Or.inl ⟨hlt, hold⟩
    · refine Or.inr ?_
      simp only [decide_eq_false_iff_not] at hle
      omega
  · exact Or.inl h

end Legal

end Cosmon.Scheduler.Cron
