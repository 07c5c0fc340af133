import Cosmon.Core.Formulas
import Cosmon.Lib.Inodes
import Cosmon.Lib.Runs

namespace Cosmon.Pilot.Checkpoints

open Cosmon.Core.Formulas Cosmon.Lib.Inodes Cosmon.Lib.Runs

/-- The alphabet of an identifier, `[A-Za-z0-9._-]`. -/
def isIdChar (c : Char) : Bool := isAsciiAlphanumeric c || c = '.' || c = '_' || c = '-'

/-- A text that `validate` accepts. -/
structure Id where
  asStr : String
  nonempty : asStr.toList ≠ []
  alphabet : asStr.toList.all isIdChar = true
  notDots : asStr.toList.all (· = '.') = false
deriving DecidableEq

abbrev MissionId := Id
abbrev CheckpointId := Id

/-- A hand-over record. Past its ids the store only writes it out. -/
structure PilotCheckpoint (B : Type) where
  id : CheckpointId
  missionId : MissionId
  body : B
deriving DecidableEq

structure CheckpointStore where
  root : String

section Paths

variable (s : CheckpointStore) (mission : MissionId) (id : CheckpointId)

def CheckpointStore.missionDir : String := s.root ++ "/" ++ mission.asStr

def recordName (id : CheckpointId) : String := id.asStr ++ ".json"

def tmpName (id : CheckpointId) : String := "." ++ id.asStr ++ ".json.tmp"

def CheckpointStore.file (name : String) : String := s.missionDir mission ++ "/" ++ name

def CheckpointStore.pathOf : String := s.file mission (recordName id)

def CheckpointStore.tmpOf : String := s.file mission (tmpName id)

def extension (name : String) : Option String :=
  let reversed := name.toList.reverse
  match reversed.dropWhile (· ≠ '.') with
  | [] | [_] => none
  | _ => some (String.ofList (reversed.takeWhile (· ≠ '.')).reverse)

/-- What `list` does not skip. -/
def isListed (name : String) : Bool :=
  extension name = some "json" && name.toList.head? ≠ some '.'

end Paths

/-- How far a call of `publish` is. -/
inductive Phase where
  | absent
  | opened (inode offset : Nat)
  | renamed
  | returned
  | alreadyPublished
  | stopped
deriving DecidableEq

structure Call (B : Type) where
  checkpoint : PilotCheckpoint B
  phase : Phase
deriving DecidableEq

structure Reader where
  path : String
  inode : Nat
  bytes : List UInt8
  finished : Bool
deriving DecidableEq

structure World (B : Type) where
  fs : Fs String
  calls : Nat → Option (Call B)
  readers : Nat → Option Reader

variable {B : Type}

def World.start : World B := ⟨.empty, fun _ => none, fun _ => none⟩

/-- The steps of the publishers and of the readers. A write, or a read, takes a part of
what is left, of any size. A call that fails stops where it is, as a crash would. -/
inductive Op (B : Type) where
  | check (call : Nat) (checkpoint : PilotCheckpoint B)
  | create (call : Nat)
  | write (call : Nat) (more : Nat)
  | rename (call : Nat)
  | finish (call : Nat)
  | crash (call : Nat)
  | load (reader : Nat) (mission : MissionId) (id : CheckpointId)
  | list (reader : Nat) (mission : MissionId) (name : String)
  | read (reader : Nat) (more : Nat)
deriving DecidableEq

def World.set (w : World B) (call : Nat) (c : Call B) : World B :=
  { w with calls := Function.update w.calls call (some c) }

def World.open_ (w : World B) (reader : Nat) (path : String) : World B :=
  match w.fs.inode path with
  | some inode => { w with readers := Function.update w.readers reader (some ⟨path, inode, [], false⟩) }
  | none => w

section Steps

variable (s : CheckpointStore) (encode : PilotCheckpoint B → List UInt8)
  (decode : List UInt8 → Option (PilotCheckpoint B))

def CheckpointStore.recordOf (c : PilotCheckpoint B) : String := s.pathOf c.missionId c.id

def CheckpointStore.tmpOfRecord (c : PilotCheckpoint B) : String := s.tmpOf c.missionId c.id

def World.step (w : World B) : Op B → World B
  | .check call c =>
    match w.calls call with
    | some _ => w
    | none => w.set call ⟨c, if (w.fs.inode (s.recordOf c)).isSome then .alreadyPublished else .absent⟩
  | .create call =>
    match w.calls call with
    | some ⟨c, .absent⟩ =>
      { w.set call ⟨c, .opened (w.fs.handle (s.tmpOfRecord c)) 0⟩ with fs := w.fs.create (s.tmpOfRecord c) }
    | _ => w
  | .write call more =>
    match w.calls call with
    | some ⟨c, .opened inode offset⟩ =>
      if offset < (encode c).length then
        let bytes := ((encode c).drop offset).take (more + 1)
        { w.set call ⟨c, .opened inode (offset + bytes.length)⟩ with fs := w.fs.write inode offset bytes }
      else w
    | _ => w
  | .rename call =>
    match w.calls call with
    | some ⟨c, .opened _ offset⟩ =>
      if offset < (encode c).length then w
      else
        match w.fs.rename (s.tmpOfRecord c) (s.recordOf c) with
        | some fs => { w.set call ⟨c, .renamed⟩ with fs := fs }
        | none => w.set call ⟨c, .stopped⟩
    | _ => w
  | .finish call =>
    match w.calls call with
    | some ⟨c, .renamed⟩ => w.set call ⟨c, .returned⟩
    | _ => w
  | .crash call =>
    match w.calls call with
    | some ⟨c, .absent⟩ | some ⟨c, .opened _ _⟩ | some ⟨c, .renamed⟩ => w.set call ⟨c, .stopped⟩
    | _ => w
  | .load reader mission id => w.open_ reader (s.pathOf mission id)
  | .list reader mission name => if isListed name then w.open_ reader (s.file mission name) else w
  | .read reader more =>
    match w.readers reader with
    | some r =>
      let rest := (w.fs.content r.inode).drop r.bytes.length
      let r' : Reader := { r with bytes := r.bytes ++ rest.take (more + 1), finished := rest.isEmpty }
      if r.finished then w else { w with readers := Function.update w.readers reader (some r') }
    | none => w

/-- The store of a run before its `n`-th step. -/
def worldAt (ops : List (Op B)) (n : Nat) : World B := stateAt (World.step s encode) World.start ops n

/-- `read_record` on a file that does not change meanwhile. -/
def readRecord (fs : Fs String) (path : String) : Option (PilotCheckpoint B) := (fs.read path).bind decode

/-- A checkpoint stays as it was once read, a reader gets a record as it was published, and
an id is published once. -/
structure AppendOnly (ops : List (Op B)) : Prop where
  unchanged : ∀ n m mission id c, n ≤ m →
    readRecord decode (worldAt s encode ops n).fs (s.pathOf mission id) = some c →
    readRecord decode (worldAt s encode ops m).fs (s.pathOf mission id) = some c
  whole : ∀ n reader r, (worldAt s encode ops n).readers reader = some r → r.finished = true →
    (decode r.bytes).isSome = true →
    ∃ call c, (worldAt s encode ops n).calls call = some c ∧ r.path = s.recordOf c.checkpoint ∧
      r.bytes = encode c.checkpoint
  once : ∀ n call call' c c', (worldAt s encode ops n).calls call = some ⟨c, .returned⟩ →
    (worldAt s encode ops n).calls call' = some ⟨c', .returned⟩ →
    c.missionId = c'.missionId → c.id = c'.id → call = call'

/-- A step that no other publisher has come before: it renames a temporary file as its
call wrote it, where no record is yet, and it writes to no file that is a record. -/
structure Undisturbed (w : World B) (op : Op B) : Prop where
  rename : ∀ call c inode offset, op = .rename call → w.calls call = some ⟨c, .opened inode offset⟩ →
    (encode c).length ≤ offset → w.fs.inode (s.recordOf c) = none ∧
      ∀ text, w.fs.read (s.tmpOfRecord c) = some text → text = encode c
  write : ∀ call more c inode offset, op = .write call more →
    w.calls call = some ⟨c, .opened inode offset⟩ → offset < (encode c).length →
    ∀ mission id, w.fs.inode (s.pathOf mission id) ≠ some inode

/-- A publisher opens its temporary file only while the id has no record and no other
publisher at work. -/
def Apart (w : World B) (op : Op B) : Prop :=
  ∀ call c, op = .create call → w.calls call = some ⟨c, .absent⟩ → w.fs.inode (s.recordOf c) = none ∧
    ∀ call' c' inode offset, w.calls call' = some ⟨c', .opened inode offset⟩ →
      s.tmpOfRecord c' ≠ s.tmpOfRecord c

end Steps

end Cosmon.Pilot.Checkpoints
