import Cosmon.Harness.PathAuthority
import Cosmon.Lib.Occurrences
import Cosmon.Lib.Checks

namespace Cosmon.Harness.EditFile

open Cosmon.Harness.PathAuthority Cosmon.Lib.Bytes Cosmon.Lib.FileTree Cosmon.Lib.Occurrences

structure EditOp where
  path : String
  search : String
  replace : String
deriving DecidableEq

structure EditResult where
  path : String
  deltaBytes : Int
  summary : String
deriving DecidableEq

inductive EditError where
  | noMatch (path : String)
  | ambiguous (path : String) (count : Nat)
  | alreadyExists (path : String)
  | io (text : String)
deriving DecidableEq

def countOccurrences (haystack needle : List UInt8) : Nat :=
  if needle = [] then 0 else occurrences needle haystack

/-- `str::replacen` with one replacement. -/
def replacen (text pat new : List UInt8) : List UInt8 := replaceFirst pat new text

def applyOp (relPath : String) (content : Option (List UInt8)) (op : EditOp) :
    Except EditError (List UInt8 × String) :=
  if op.search = "" then
    match content with
    | some _ => .error (.alreadyExists relPath)
    | none => .ok (utf8 op.replace, "created with " ++ toString (utf8 op.replace).length ++ " bytes")
  else
    match content with
    | none => .error (.noMatch relPath)
    | some current =>
      match countOccurrences current (utf8 op.search) with
      | 0 => .error (.noMatch relPath)
      | 1 => .ok (replacen current (utf8 op.search) (utf8 op.replace),
          "replaced 1 occurrence (" ++ toString (utf8 op.search).length ++ " -> " ++
            toString (utf8 op.replace).length ++ " bytes)")
      | n => .error (.ambiguous relPath n)

def applyOps (relPath : String) : Option (List UInt8) → List EditOp →
    Except EditError (Option (List UInt8) × List String)
  | content, [] => .ok (content, [])
  | content, op :: rest => do
    let (text, line) ← applyOp relPath content op
    let (final, lines) ← applyOps relPath (some text) rest
    .ok (final, line :: lines)

/-- `i64::try_from` of a length, with the largest value for those that do not fit. -/
def lenI64 (bytes : List UInt8) : Int := min bytes.length 9223372036854775807

def computeFileOps (t : Nodes Char) (cwd : Loc Char) (relPath : String) (target : List Char) (ops : List EditOp) :
    Except EditError (EditResult × List UInt8) := do
  let original ← match readFile t cwd (readPath target) with
    | .ok bytes =>
      if (String.fromUTF8? ⟨bytes.toArray⟩).isSome then .ok (some bytes)
      else .error (.io "stream did not contain valid UTF-8")
    | .error .noent => .ok none
    | .error e => .error (.io (describe e))
  let (content, lines) ← applyOps relPath original ops
  .ok (⟨relPath, lenI64 (content.getD []) - lenI64 (original.getD []), String.intercalate "; " lines⟩,
    content.getD [])

structure Group where
  path : String
  ops : List EditOp
deriving DecidableEq

def addOp (groups : List Group) (op : EditOp) : List Group :=
  if groups.any (·.path = op.path) then
    groups.map fun g => if g.path = op.path then ⟨g.path, g.ops ++ [op]⟩ else g
  else groups ++ [⟨op.path, [op]⟩]

def groupEdits (workDir : List Char) (edits : List EditOp) : Except ToolError (List Group) :=
  edits.foldlM (fun groups op => do
    let _ ← sanitizeJoin workDir op.path
    .ok (addOp groups op)) []

structure Commit where
  target : List Char
  bytes : List UInt8
deriving DecidableEq

def computeGroup (t : Nodes Char) (cwd : Loc Char) (workDir : List Char) (g : Group) :
    Except ToolError (Except EditError (EditResult × Commit)) := do
  let target ← sanitizeJoin workDir g.path
  ensureWriteTargetInside t cwd workDir target
  .ok ((computeFileOps t cwd g.path target g.ops).map fun r => (r.1, ⟨target, r.2⟩))

def commitAll (cwd : Loc Char) : (Nat → BitVec 128) → List Commit → Lib.FileTree.World Char →
    Except ToolError Unit × Lib.FileTree.World Char
  | _, [], w => (.ok (), w)
  | nonces, c :: rest, w =>
    match writeViaRename cwd c.target (nonces 0) c.bytes w with
    | (.error e, w') => (.error (.io (display c.target ++ ": " ++ describe e)), w')
    | (.ok (), w') => commitAll cwd (fun k => nonces (k + 1)) rest w'

def computeAll (t : Nodes Char) (cwd : Loc Char) (workDir : List Char) (edits : List EditOp) :
    Except ToolError (List (Except EditError (EditResult × Commit))) := do
  let groups ← groupEdits workDir edits
  groups.mapM (computeGroup t cwd workDir)

def applyEdits (cwd : Loc Char) (workDir : List Char) (nonces : Nat → BitVec 128) (edits : List EditOp)
    (w : Lib.FileTree.World Char) : Except ToolError (List (Except EditError EditResult)) × Lib.FileTree.World Char :=
  match computeAll w.node cwd workDir edits with
  | .error e => (.error e, w)
  | .ok computed =>
    match computed.mapM id with
    | .error _ => (.ok (computed.map (Except.map Prod.fst)), w)
    | .ok planned =>
      match commitAll cwd nonces (planned.map Prod.snd) w with
      | (.error e, w') => (.error e, w')
      | (.ok (), w') => (.ok (computed.map (Except.map Prod.fst)), w')

end Cosmon.Harness.EditFile

namespace Cosmon.Harness.EditFile

open Cosmon.Harness.PathAuthority Cosmon.Lib.Bytes Cosmon.Lib.Checks Cosmon.Lib.FileTree Cosmon.Lib.Occurrences

/-- What an operation makes of a file: a file that is not there is created, and in one that is there
the sole occurrence of the text that is searched is replaced. -/
inductive Edited (op : EditOp) : Option (List UInt8) → Option (List UInt8) → Prop where
  | create : op.search = "" → Edited op none (some (utf8 op.replace))
  | replace {front back : List UInt8} : op.search ≠ "" →
      Sole (utf8 op.search) front (front ++ utf8 op.search ++ back) →
      Edited op (some (front ++ utf8 op.search ++ back)) (some (front ++ utf8 op.replace ++ back))

inductive EditedAll : List EditOp → Option (List UInt8) → Option (List UInt8) → Prop where
  | nil (content : Option (List UInt8)) : EditedAll [] content content
  | cons {op : EditOp} {rest : List EditOp} {before between after : Option (List UInt8)} :
      Edited op before between → EditedAll rest between after → EditedAll (op :: rest) before after

section Operations

variable {op : EditOp} {ops : List EditOp} {content after : Option (List UInt8)}

theorem utf8_ne_nil {text : String} (h : text ≠ "") : utf8 text ≠ [] := fun hnil => h (utf8_injective hnil)

theorem countOccurrences_eq_one {text pat : List UInt8} (hpat : pat ≠ []) :
    countOccurrences text pat = 1 ↔ ∃ front, Sole pat front text := by
  rw [countOccurrences, if_neg hpat, occurrences_eq_one hpat]

theorem edited_iff (relPath : String) : Edited op content after ↔
    ∃ text line, applyOp relPath content op = .ok (text, line) ∧ after = some text := by
  constructor
  · rintro (hsearch | ⟨hsearch, hsole⟩)
    · rw [applyOp, if_pos hsearch]
      exact ⟨_, _, rfl, rfl⟩
    · have hpat := utf8_ne_nil hsearch
      rw [applyOp, if_neg hsearch]
      rw [(countOccurrences_eq_one hpat).mpr ⟨_, hsole⟩]
      exact ⟨_, _, rfl, congrArg some (replaceFirst_sole hpat hsole _).symm⟩
  · rintro ⟨text, line, h, rfl⟩
    unfold applyOp at h
    split at h
    · rename_i hsearch
      cases content with
      | some text => cases h
      | none =>
        obtain ⟨rfl, -⟩ := Prod.mk.inj (Except.ok.inj h)
        exact Edited.create hsearch
    · rename_i hsearch
      have hpat := utf8_ne_nil hsearch
      cases content with
      | none => cases h
      | some current =>
        dsimp only at h
        split at h
        · cases h
        · rename_i hone
          obtain ⟨rfl, -⟩ := Prod.mk.inj (Except.ok.inj h)
          obtain ⟨front, hsole⟩ := (countOccurrences_eq_one hpat).mp hone
          obtain ⟨back, rfl⟩ := hsole.1
          rw [replacen, replaceFirst_sole hpat hsole]
          exact Edited.replace hsearch hsole
        · cases h

theorem editedAll_iff (relPath : String) : EditedAll ops content after ↔
    ∃ lines, applyOps relPath content ops = .ok (after, lines) := by
  constructor
  · intro h
    induction h with
    | nil content => exact ⟨[], rfl⟩
    | cons hop _ ih =>
      obtain ⟨text, line, happly, rfl⟩ := (edited_iff relPath).mp hop
      obtain ⟨lines, hlines⟩ := ih
      refine ⟨line :: lines, ?_⟩
      rw [applyOps, happly]
      change (applyOps relPath (some text) _ >>= _) = _
      rw [hlines]
      rfl
  · rintro ⟨lines, h⟩
    induction ops generalizing content lines with
    | nil =>
      obtain ⟨rfl, -⟩ := Prod.mk.inj (Except.ok.inj h)
      exact EditedAll.nil content
    | cons op rest ih =>
      obtain ⟨⟨text, line⟩, happly, h⟩ := bind_ok h
      obtain ⟨⟨final, more⟩, hrest, h⟩ := bind_ok h
      obtain ⟨rfl, -⟩ := Prod.mk.inj (Except.ok.inj h)
      exact EditedAll.cons ((edited_iff relPath).mpr ⟨text, line, happly, rfl⟩) (ih more hrest)

theorem EditedAll.det {after' : Option (List UInt8)} (h : EditedAll ops content after)
    (h' : EditedAll ops content after') : after = after' := by
  obtain ⟨lines, heq⟩ := (editedAll_iff "").mp h
  obtain ⟨lines', heq'⟩ := (editedAll_iff "").mp h'
  rw [heq] at heq'
  exact congrArg Prod.fst (Except.ok.inj heq')

theorem EditedAll.some (h : EditedAll ops content after) (hops : ops ≠ []) : ∃ bytes, after = some bytes := by
  induction h with
  | nil content => exact absurd rfl hops
  | @cons op rest before between after hop hrest ih =>
    cases rest with
    | nil =>
      cases hrest
      cases hop with
      | create hsearch => exact ⟨_, rfl⟩
      | replace hsearch hsole => exact ⟨_, rfl⟩
    | cons next more => exact ih (List.cons_ne_nil next more)

end Operations

end Cosmon.Harness.EditFile
