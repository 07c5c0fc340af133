import Cosmon.Lib.Bytes
import Cosmon.Lib.FileCalls

namespace Cosmon.Harness.PathAuthority

open Cosmon.Lib.Bytes Cosmon.Lib.FileTree Cosmon.Lib.UnixPath

inductive ToolError where
  | io (message : String)
  | pathEscape (message : String)
deriving DecidableEq

def describe : Errno → String
  | .noent => "No such file or directory (os error 2)"
  | .exist => "File exists (os error 17)"
  | .notdir => "Not a directory (os error 20)"
  | .isdir => "Is a directory (os error 21)"
  | .loop => "Too many levels of symbolic links (os error 40)"
  | .inval => "file name contained an unexpected NUL byte"

def readPath (path : List Char) : Route Char := Route.of '/' '.' path

def display (path : List Char) : String := String.ofList path

def displayParts : List (Component Char) → String
  | [] => ""
  | .rootDir :: rest => "/" ++ displayParts rest
  | [part] => displayPart part
  | part :: rest => displayPart part ++ "/" ++ displayParts rest
where
  displayPart : Component Char → String
    | .rootDir => "/"
    | .curDir => "."
    | .parentDir => ".."
    | .normal name => String.ofList name

def sanitizeJoin (workDir : List Char) (raw : String) : Except ToolError (List Char) :=
  if isAbsolute '/' raw.toList then .error (.pathEscape ("absolute path refused: " ++ raw))
  else if .parentDir ∈ components '/' '.' raw.toList then .error (.pathEscape ("parent-dir escape: " ++ raw))
  else .ok (join '/' workDir raw.toList)

section Authority

variable (t : Nodes Char) (cwd : Loc Char) (workDir : List Char)

def holdsNul (parts : List (Component Char)) : Bool :=
  parts.any fun
    | .normal name => decide ('\x00' ∈ name)
    | _ => false

def symlinkMetadata (p : Route Char) : Except Errno (Node Char) :=
  if holdsNul p.parts then .error .inval else lstat t cwd p

def canonicalize (p : Route Char) : Except Errno (Loc Char) :=
  if holdsNul p.parts then .error .inval else realpath t cwd p

def canonicalRoot : Except ToolError (Loc Char) :=
  (canonicalize t cwd (readPath workDir)).mapError fun e => .io ("canonicalize work_dir: " ++ describe e)

/-- The loop of `ensure_write_target_inside`; the path that is probed is given from its last part
on, and the parent of a single part has none left. -/
def probeAncestors (root : Loc Char) (target : List Char) : List (Component Char) → Bool → Except ToolError Unit
  | [], _ => .error (.pathEscape ("cannot resolve any ancestor of " ++ display target))
  | part :: front, dir =>
    match symlinkMetadata t cwd ⟨(part :: front).reverse, dir⟩ with
    | .ok _ =>
      match canonicalize t cwd ⟨(part :: front).reverse, dir⟩ with
      | .ok canonical =>
        if root <+: canonical then .ok ()
        else .error (.pathEscape ("path escapes work_dir via symlink: " ++ display target))
      | .error e => .error (.pathEscape
          ("cannot resolve " ++ displayParts (part :: front).reverse ++ ": " ++ describe e))
    | .error .noent => probeAncestors root target front false
    | .error e => .error (.pathEscape
        ("cannot inspect " ++ displayParts (part :: front).reverse ++ ": " ++ describe e))

def ensureWriteTargetInside (target : List Char) : Except ToolError Unit := do
  let root ← canonicalRoot t cwd workDir
  match symlinkMetadata t cwd (readPath target) with
  | .ok (.link _) => .error (.pathEscape ("symlink target refused: " ++ display target))
  | _ => probeAncestors t cwd root target (readPath target).parts.reverse (readPath target).dir

def resolveWriteTarget (rel : String) : Except ToolError (List Char) := do
  let target ← sanitizeJoin workDir rel
  ensureWriteTargetInside t cwd workDir target
  .ok target

end Authority

def mixNonce (nanos pid : BitVec 128) : BitVec 128 := nanos * 0x9E3779B97F4A7C15 + pid

/-- `.{nonce:032x}.tmp` -/
def tmpSuffix (nonce : BitVec 128) : List Char :=
  '.' :: (hexText (leBytes 16 nonce.toNat).reverse ++ ".tmp".toList)

def tmpPath (target : List Char) (nonce : BitVec 128) : Route Char := readPath (target ++ tmpSuffix nonce)

/-- `write_via_rename` of `write_file` and of `edit_file`, which are the same. -/
def writeViaRename (cwd : Loc Char) (target : List Char) (nonce : BitVec 128) (bytes : List UInt8)
    (w : Lib.FileTree.World Char) : Except Errno Unit × Lib.FileTree.World Char :=
  match createDirAll cwd (readPath target).parent.parts.reverse w with
  | (.error e, w') => (.error e, w')
  | (.ok (), w') => stage cwd (tmpPath target nonce) (readPath target) bytes w'

end Cosmon.Harness.PathAuthority
