import Cosmon.Lib.Inodes
import Cosmon.Lib.Runs
import Cosmon.State.Molecule

namespace Cosmon.Filestore.Cas

open Cosmon.Lib.Inodes Cosmon.Lib.Runs Cosmon.State.Molecule

def hexChars : Vector Char 16 :=
  #v['0', '1', '2', '3', '4', '5', '6', '7', '8', '9', 'a', 'b', 'c', 'd', 'e', 'f']

def hexChar (n : UInt8) : Char := hexChars.get (Fin.ofNat 16 n.toNat)

def hexEncode (bytes : List UInt8) : String :=
  String.ofList (bytes.flatMap fun b : UInt8 => [hexChar (b >>> 4), hexChar (b &&& 0x0F)])

/-- The hash of a content, 64 digits in lower case. -/
structure ContentHash where
  asStr : String
  length : asStr.toList.length = 64
  hex : ∀ c ∈ asStr.toList, c ∈ hexChars.toList
deriving DecidableEq

def ContentHash.prefixStr (h : ContentHash) : String := String.ofList (h.asStr.toList.take 2)

theorem length_hexEncode (bytes : List UInt8) : (hexEncode bytes).toList.length = 2 * bytes.length := by
  rw [hexEncode, String.toList_ofList, List.length_flatMap]
  induction bytes with
  | nil => rfl
  | cons b bytes ih =>
    simp only [List.map_cons, List.sum_cons, List.length_cons, List.length_nil] at ih ⊢
    omega

theorem mem_hexEncode {bytes : List UInt8} {c : Char} (h : c ∈ (hexEncode bytes).toList) :
    c ∈ hexChars.toList := by
  have hchar (n : UInt8) : hexChar n ∈ hexChars.toList := Vector.mem_toList_iff.mpr (Vector.getElem_mem _)
  rw [hexEncode, String.toList_ofList, List.mem_flatMap] at h
  obtain ⟨b, _, h⟩ := h
  obtain rfl | rfl := List.mem_pair.mp h
  · exact hchar (b >>> 4)
  · exact hchar (b &&& 0x0F)

structure FileCas where
  root : String

section Paths

variable (s : FileCas) (h : ContentHash)

def FileCas.blobPath : String := s.root ++ "/" ++ h.prefixStr ++ "/" ++ h.asStr

/-- The `.tmp` sibling of a blob. -/
def FileCas.tmpPath : String := s.blobPath h ++ ".tmp"

theorem length_blobPath : (s.blobPath h).toList.length = s.root.toList.length + 68 := by
  rw [FileCas.blobPath]
  simp only [String.toList_append, List.length_append, h.length, ContentHash.prefixStr, String.toList_ofList,
    List.length_take]
  change s.root.toList.length + 1 + 2 + 1 + 64 = _
  omega

variable {s} {h h' : ContentHash}

theorem blobPath_inj (heq : s.blobPath h = s.blobPath h') : h = h' := by
  have hlists := congrArg String.toList heq
  simp only [FileCas.blobPath, String.toList_append] at hlists
  have hstr := (List.append_inj' hlists (h.length.trans h'.length.symm)).2
  cases h
  cases h'
  cases String.toList_inj.mp hstr
  rfl

theorem tmpPath_inj (heq : s.tmpPath h = s.tmpPath h') : h = h' := by
  have hlists := congrArg String.toList heq
  simp only [FileCas.tmpPath, String.toList_append] at hlists
  exact blobPath_inj (String.toList_inj.mp (List.append_inj_left' hlists rfl))

theorem blobPath_ne_tmpPath : s.blobPath h ≠ s.tmpPath h' := by
  intro heq
  have hlength := congrArg (fun path => path.toList.length) heq
  simp only [FileCas.tmpPath, String.toList_append, List.length_append, length_blobPath] at hlength
  change _ = _ + 68 + 4 at hlength
  omega

end Paths

section Put

variable (digest : List UInt8 → Vector UInt8 32) (s : FileCas)

def sha256 (data : List UInt8) : ContentHash where
  asStr := hexEncode (digest data).toList
  length := by rw [length_hexEncode, Vector.length_toList]
  hex _ h := mem_hexEncode h

def FileCas.get (fs : Fs String) (h : ContentHash) : Except CosmonError (List UInt8) :=
  match fs.read (s.blobPath h) with
  | none => .error (.other ("runtime error: blob not found: " ++ h.asStr))
  | some data => .ok data

def FileCas.exists (fs : Fs String) (h : ContentHash) : Bool := (fs.inode (s.blobPath h)).isSome

/-- How far a call of `put` is: it has found no blob, has opened its temporary file and
written up to an offset, has returned the hash, or has failed or crashed. -/
inductive Phase where
  | absent
  | opened (inode offset : Nat)
  | returned
  | stopped
deriving DecidableEq

structure Call where
  data : List UInt8
  phase : Phase
deriving DecidableEq

structure World where
  fs : Fs String
  calls : Nat → Option Call

def World.start (fs : Fs String) : World := ⟨fs, fun _ => none⟩

inductive Op where
  | check (call : Nat) (data : List UInt8)
  | create (call : Nat)
  | write (call : Nat) (more : Nat)
  | rename (call : Nat)
  | crash (call : Nat)
deriving DecidableEq

def World.set (w : World) (call : Nat) (c : Call) : World :=
  { w with calls := Function.update w.calls call (some c) }

def World.step (w : World) : Op → World
  | .check call data =>
    match w.calls call with
    | some _ => w
    | none => w.set call ⟨data, if s.exists w.fs (sha256 digest data) then .returned else .absent⟩
  | .create call =>
    match w.calls call with
    | some ⟨data, .absent⟩ =>
      let tmp := s.tmpPath (sha256 digest data)
      { w.set call ⟨data, .opened (w.fs.handle tmp) 0⟩ with fs := w.fs.create tmp }
    | _ => w
  | .write call more =>
    match w.calls call with
    | some ⟨data, .opened inode offset⟩ =>
      if offset < data.length then
        let bytes := (data.drop offset).take (more + 1)
        { w.set call ⟨data, .opened inode (offset + bytes.length)⟩ with fs := w.fs.write inode offset bytes }
      else w
    | _ => w
  | .rename call =>
    match w.calls call with
    | some ⟨data, .opened _ offset⟩ =>
      if offset < data.length then w
      else
        let hash := sha256 digest data
        match w.fs.rename (s.tmpPath hash) (s.blobPath hash) with
        | some fs => { w.set call ⟨data, .returned⟩ with fs := fs }
        | none => w.set call ⟨data, .stopped⟩
    | _ => w
  | .crash call =>
    match w.calls call with
    | some ⟨data, .absent⟩ | some ⟨data, .opened _ _⟩ => w.set call ⟨data, .stopped⟩
    | _ => w

/-- The store of a run before its `n`-th step. -/
def worldAt (fs : Fs String) (ops : List Op) (n : Nat) : World :=
  stateAt (World.step digest s) (World.start fs) ops n

/-- Every blob that can be read has its hash, and what has been put is there from then on. -/
structure ContentAddressed (fs : Fs String) (ops : List Op) : Prop where
  get : ∀ n h data, s.get (worldAt digest s fs ops n).fs h = .ok data → sha256 digest data = h
  put : ∀ n call data, (worldAt digest s fs ops n).calls call = some ⟨data, .returned⟩ → ∀ m, n ≤ m →
    s.get (worldAt digest s fs ops m).fs (sha256 digest data) = .ok data

def RenamesWhole (fs : Fs String) (ops : List Op) : Prop :=
  ∀ n call data inode offset text, ops[n]? = some (.rename call) →
    (worldAt digest s fs ops n).calls call = some ⟨data, .opened inode offset⟩ → data.length ≤ offset →
    (worldAt digest s fs ops n).fs.read (s.tmpPath (sha256 digest data)) = some text → text = data

end Put

end Cosmon.Filestore.Cas
