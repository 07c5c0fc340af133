import Cosmon.Lib.Effects
import Cosmon.State.Rebuild

namespace Cosmon.State.RebuildFiles

open Cosmon.Lib.Effects Cosmon.Lib.Effects.Effect Cosmon.State.Molecule Cosmon.State.Rebuild

/-- The errors of `CosmonError` that a rebuild returns. -/
inductive RebuildError where
  | stateStore (reason : String)
  | stateParse (path reason : String)
  | io (message : String)
  | json (message : String)
deriving DecidableEq

def RebuildError.isIo : RebuildError → Bool
  | .stateParse _ _ => false
  | _ => true

inductive RebuildOutcome where
  | createdFromEvents
  | rebuiltFromEvents
  | upToDate
  | noEventsForMolecule
deriving DecidableEq

/-- `serde_json` on molecule records. What it writes it can read. -/
structure Codec where
  fromSlice : List UInt8 → Except String MoleculeData
  toStringPretty : MoleculeData → Except String (List UInt8)
  reads : ∀ data text, toStringPretty data = .ok text → ∃ data', fromSlice text = .ok data'

/-- The event log: whether the file exists, whether it can be read, and its envelopes. -/
structure EventsLog where
  path : String
  envelopes : Option (Except String (List Envelope))

abbrev Files := String → Option (List UInt8)

def stateFile : String := "state.json"

def tmpFile : String := "state.json.tmp"

def archiveFile (n : Nat) : String := "state.json.broken." ++ n.repr

/-- A write that the system fails, with what it leaves of the file if the file was opened. -/
structure WriteFault where
  left : Option (List UInt8) := none
  error : String

structure Faults where
  read : Option String := none
  createArchive : Nat → Option String := fun _ => none
  writeArchive : Option WriteFault := none
  createDir : Option String := none
  writeTmp : Option WriteFault := none
  rename : Option String := none

def ioError (action path error : String) : RebuildError :=
  .stateStore ("failed to " ++ action ++ " " ++ path ++ ": " ++ error)

/-- A byte that is no content: NUL, or ASCII whitespace. -/
def blank (b : UInt8) : Bool := b = 0 || b = 9 || b = 10 || b = 12 || b = 13 || b = 32

inductive CacheState where
  | valid (data : MoleculeData)
  | missing
  | noContent (bytes : List UInt8)

def classifyCache (json : Codec) (faults : Faults) (dir : String) (files : Files) :
    Except RebuildError CacheState :=
  match files stateFile with
  | none => .ok .missing
  | some bytes =>
    match faults.read with
    | some e => .error (ioError "read" (dir ++ "/" ++ stateFile) e)
    | none =>
      match json.fromSlice bytes with
      | .ok data => .ok (.valid data)
      | .error reason =>
        if bytes.all blank then .ok (.noContent bytes)
        else .error (.stateParse (dir ++ "/" ++ stateFile) reason)

def projectSingle (id : MoleculeId) (envelopes : List Envelope) : Option MoleculeData :=
  projectMoleculesFromEvents envelopes id

def projectFromLog (log : EventsLog) (id : MoleculeId) : Except RebuildError (Option MoleculeData) :=
  match log.envelopes with
  | none => .ok none
  | some (.error e) => .error (.stateStore ("failed to read events log " ++ log.path ++ ": " ++ e))
  | some (.ok envelopes) => .ok (projectSingle id envelopes)

/-- Try the archive names from the `n`th on: an existing one is passed over. -/
def archiveFrom (faults : Faults) (dir : String) (bytes : List UInt8) :
    Nat → Nat → Effect Files RebuildError Unit
  | 0, _ => .fail (.stateStore ("no free archive name next to " ++ dir ++ "/" ++ stateFile))
  | fuel + 1, n => fun files =>
    match faults.createArchive n with
    | some e => (.error (ioError "create archive" (dir ++ "/" ++ archiveFile n) e), files)
    | none =>
      match files (archiveFile n) with
      | some _ => archiveFrom faults dir bytes fuel (n + 1) files
      | none =>
        match faults.writeArchive with
        | some f =>
          (.error (ioError "write archive" (dir ++ "/" ++ archiveFile n) f.error),
            Function.update files (archiveFile n) (some (f.left.getD [])))
        | none => (.ok (), Function.update files (archiveFile n) (some bytes))

/-- The counter of the archives is a `u32` and starts at one. -/
def archiveBytes (faults : Faults) (dir : String) (bytes : List UInt8) : Effect Files RebuildError Unit :=
  archiveFrom faults dir bytes (2 ^ 32 - 1) 1

def orIo : Option String → Except RebuildError Unit
  | none => .ok ()
  | some e => .error (.io e)

def writeTmp (faults : Faults) (text : List UInt8) : Effect Files RebuildError Unit := fun files =>
  match faults.writeTmp with
  | some f =>
    (.error (.io f.error),
      match f.left with
      | some left => Function.update files tmpFile (some left)
      | none => files)
  | none => (.ok (), Function.update files tmpFile (some text))

def renameTmp (faults : Faults) : Effect Files RebuildError Unit := fun files =>
  match faults.rename with
  | some e => (.error (.io e), files)
  | none => (.ok (), Function.update (Function.update files stateFile (files tmpFile)) tmpFile none)

def writeState (json : Codec) (faults : Faults) (data : MoleculeData) : Effect Files RebuildError Unit := do
  Effect.ofExcept (orIo faults.createDir)
  let text ← Effect.ofExcept ((json.toStringPretty data).mapError RebuildError.json)
  writeTmp faults text
  renameTmp faults

def rebuildMoleculeState (json : Codec) (log : EventsLog) (faults : Faults) (dir : String) (id : MoleculeId) :
    Effect Files RebuildError RebuildOutcome := do
  match ← Effect.read (classifyCache json faults dir) with
  | .valid _ => pure .upToDate
  | .missing =>
    match ← Effect.ofExcept (projectFromLog log id) with
    | none => pure .noEventsForMolecule
    | some data =>
      writeState json faults data
      pure .createdFromEvents
  | .noContent bytes =>
    match ← Effect.ofExcept (projectFromLog log id) with
    | none =>
      Effect.fail (.stateParse (dir ++ "/" ++ stateFile)
        ("the file holds no content and events.jsonl has no events for this molecule, " ++
          "so there is nothing to rebuild it from"))
    | some data =>
      archiveBytes faults dir bytes
      writeState json faults data
      pure .rebuiltFromEvents

/-- Next to the state file and its temporary copy, no file is changed and only archives appear. -/
structure Around (files files' : Files) : Prop where
  kept : ∀ name bytes, name ≠ stateFile → name ≠ tmpFile → files name = some bytes → files' name = some bytes
  fresh : ∀ name bytes, name ≠ stateFile → name ≠ tmpFile → files name = none → files' name = some bytes →
    ∃ n, name = archiveFile n

instance : Std.Refl Around where
  refl files := ⟨fun _ _ _ _ h => h, fun name bytes _ _ hnone hsome => by rw [hnone] at hsome; cases hsome⟩

instance : IsTrans Files Around where
  trans a b c hab hbc := by
    constructor
    · intro name bytes hstate htmp h
      exact hbc.kept name bytes hstate htmp (hab.kept name bytes hstate htmp h)
    · intro name bytes hstate htmp hnone hsome
      cases hb : b name with
      | none => exact hbc.fresh name bytes hstate htmp hb hsome
      | some bytes' => exact hab.fresh name bytes' hstate htmp hnone hb

theorem around_write {name : String} (h : name = stateFile ∨ name = tmpFile) (files : Files)
    (v : Option (List UInt8)) : Around files (Function.update files name v) := by
  have hne : ∀ other, other ≠ stateFile → other ≠ tmpFile → other ≠ name := by
    rintro other hstate htmp rfl
    exact h.elim hstate htmp
  constructor
  · intro other bytes hstate htmp hsome
    rwa [Function.update_of_ne (hne other hstate htmp)]
  · intro other bytes hstate htmp hnone hsome
    rw [Function.update_of_ne (hne other hstate htmp), hnone] at hsome
    cases hsome

theorem around_archive {files : Files} {n : Nat} (h : files (archiveFile n) = none) (v : Option (List UInt8)) :
    Around files (Function.update files (archiveFile n) v) := by
  constructor
  · intro name bytes _ _ hsome
    have hne : name ≠ archiveFile n := by
      rintro rfl
      rw [h] at hsome
      cases hsome
    rwa [Function.update_of_ne hne]
  · intro name bytes _ _ hnone hsome
    by_cases hname : name = archiveFile n
    · exact ⟨n, hname⟩
    · rw [Function.update_of_ne hname, hnone] at hsome
      cases hsome

section Rebuild

variable {json : Codec} {log : EventsLog} {faults : Faults} {dir : String} {id : MoleculeId}

theorem archiveFrom_around (bytes : List UInt8) (fuel n : Nat) :
    Keeps Around (archiveFrom faults dir bytes fuel n) := by
  induction fuel generalizing n with
  | zero => exact keeps_fail _
  | succ fuel ih =>
    intro files
    simp only [archiveFrom]
    split
    · exact refl_of Around files
    · split
      · exact ih (n + 1) files
      · next hnone =>
        split
        · exact around_archive hnone _
        · exact around_archive hnone _

theorem archiveFrom_fails (bytes : List UInt8) (fuel n : Nat) :
    Fails (fun e => e.isIo = true) (archiveFrom faults dir bytes fuel n) := by
  induction fuel generalizing n with
  | zero =>
    intro files e files' h
    cases h
    rfl
  | succ fuel ih =>
    intro files e files' h
    simp only [archiveFrom] at h
    split at h
    · cases h
      rfl
    · split at h
      · exact ih (n + 1) files e files' h
      · split at h
        · cases h
          rfl
        · cases h

theorem writeTmp_around (text : List UInt8) : Keeps Around (writeTmp faults text) := by
  intro files
  simp only [writeTmp]
  split
  · split
    · exact around_write (.inr rfl) files _
    · exact refl_of Around files
  · exact around_write (.inr rfl) files _

theorem renameTmp_around : Keeps Around (renameTmp faults) := by
  intro files
  simp only [renameTmp]
  split
  · exact refl_of Around files
  · exact trans_of Around (around_write (.inl rfl) files _) (around_write (.inr rfl) _ _)

theorem writeState_around (data : MoleculeData) : Keeps Around (writeState json faults data) :=
  (keeps_read _).bind fun _ => (keeps_read _).bind fun text => (writeTmp_around text).bind fun _ => renameTmp_around

def Stopped (r : Except RebuildError RebuildOutcome) : Prop := ∃ e, r = .error e ∧ e.isIo = true

def Readable (json : Codec) (files : Files) : Prop :=
  ∃ text data, files stateFile = some text ∧ json.fromSlice text = .ok data

theorem writeState_ok {data : MoleculeData} {files files' : Files}
    (h : writeState json faults data files = (.ok (), files')) :
    Readable json files' := by
  obtain ⟨⟨⟩, -, h⟩ := bind_read_ok.mp h
  obtain ⟨text, htext, h⟩ := bind_read_ok.mp h
  obtain ⟨⟨⟩, files₁, hwrite, hrename⟩ := bind_ok.mp h
  simp only [writeTmp] at hwrite
  split at hwrite
  · cases hwrite
  · cases hwrite
    simp only [renameTmp] at hrename
    split at hrename
    · cases hrename
    · cases hrename
      have hread : ∃ data', json.fromSlice text = .ok data' := by
        cases hdata : json.toStringPretty data with
        | error e =>
          rw [hdata] at htext
          cases htext
        | ok text' =>
          rw [hdata] at htext
          cases htext
          exact json.reads data text hdata
      obtain ⟨data', hdata'⟩ := hread
      refine ⟨text, data', ?_, hdata'⟩
      rw [Function.update_of_ne (by decide), Function.update_self, Function.update_self]

theorem writeState_fails (data : MoleculeData) : Fails (fun e => e.isIo = true) (writeState json faults data) := by
  have hmkdir : Fails (fun e => e.isIo = true)
      (Effect.ofExcept (orIo faults.createDir) : Effect Files RebuildError Unit) := by
    refine fails_read fun _ e h => ?_
    cases hd : faults.createDir <;> rw [hd] at h <;> cases h
    rfl
  have hjson : Fails (fun e => e.isIo = true)
      (Effect.ofExcept ((json.toStringPretty data).mapError RebuildError.json) :
        Effect Files RebuildError (List UInt8)) := by
    refine fails_read fun _ e h => ?_
    cases hd : json.toStringPretty data <;> rw [hd] at h <;> cases h
    rfl
  refine hmkdir.bind fun _ => hjson.bind fun text => Fails.bind ?_ fun _ => ?_
  · intro files e files' h
    simp only [writeTmp] at h
    split at h
    · cases h
      rfl
    · cases h
  · intro files e files' h
    simp only [renameTmp] at h
    split at h
    · cases h
      rfl
    · cases h

/-- A state file that holds something to lose: it can be read, or some byte of it is content. -/
def Precious (json : Codec) (bytes : List UInt8) : Prop :=
  (∃ data, json.fromSlice bytes = .ok data) ∨ bytes.all blank = false

/-- What a rebuild keeps of the files: a state file that has content and all others. -/
structure Safe (json : Codec) (files files' : Files) : Prop extends Around files files' where
  state : ∀ bytes, files stateFile = some bytes → Precious json bytes → files' stateFile = some bytes

instance : Std.Refl (Safe json) where
  refl files := ⟨refl_of Around files, fun _ h _ => h⟩

instance : IsTrans Files (Safe json) where
  trans _ _ _ hab hbc :=
    ⟨trans_of Around hab.toAround hbc.toAround, fun bytes h hp => hbc.state bytes (hab.state bytes h hp) hp⟩

def Due (json : Codec) (log : EventsLog) (id : MoleculeId) (files : Files) : Prop :=
  (∀ bytes, files stateFile = some bytes → ¬Precious json bytes) ∧
    ∃ data, projectFromLog log id = .ok (some data)

theorem classify_cases (json : Codec) (faults : Faults) (dir : String) (files : Files) :
    (∃ e, classifyCache json faults dir files = .error e ∧
      (e.isIo = true ∨ ∃ bytes, files stateFile = some bytes ∧ Precious json bytes)) ∨
    (∃ data bytes, classifyCache json faults dir files = .ok (.valid data) ∧ files stateFile = some bytes ∧
      Precious json bytes) ∨
    (classifyCache json faults dir files = .ok .missing ∧ files stateFile = none) ∨
    ∃ bytes, classifyCache json faults dir files = .ok (.noContent bytes) ∧ files stateFile = some bytes ∧
      ¬Precious json bytes := by
  cases hfile : files stateFile with
  | none => exact .inr (.inr (.inl ⟨by simp only [classifyCache, hfile], rfl⟩))
  | some bytes =>
    cases hread : faults.read with
    | some e =>
      refine .inl ⟨ioError "read" (dir ++ "/" ++ stateFile) e, ?_, .inl rfl⟩
      simp only [classifyCache, hfile, hread]
    | none =>
      cases hparse : json.fromSlice bytes with
      | ok data =>
        refine .inr (.inl ⟨data, bytes, ?_, rfl, .inl ⟨data, hparse⟩⟩)
        simp only [classifyCache, hfile, hread, hparse]
      | error reason =>
        cases hblank : bytes.all blank with
        | true =>
          refine .inr (.inr (.inr ⟨bytes, ?_, rfl, ?_⟩))
          · simp only [classifyCache, hfile, hread, hparse, hblank, if_true]
          · rintro (⟨data, hdata⟩ | hfalse)
            · rw [hparse] at hdata
              cases hdata
            · rw [hblank] at hfalse
              cases hfalse
        | false =>
          refine .inl ⟨.stateParse (dir ++ "/" ++ stateFile) reason, ?_, .inr ⟨bytes, rfl, .inr hblank⟩⟩
          simp only [classifyCache, hfile, hread, hparse, hblank, Bool.false_eq_true, if_false]

theorem projectFromLog_fails {e : RebuildError} (h : projectFromLog log id = .error e) : e.isIo = true := by
  unfold projectFromLog at h
  split at h <;> cases h
  rfl

theorem write_cases {data : MoleculeData} {outcome : RebuildOutcome} {files files' : Files}
    {r : Except RebuildError RebuildOutcome}
    (h : (writeState json faults data >>= fun _ => pure outcome) files = (r, files')) :
    Around files files' ∧ (Stopped r ∨ Readable json files') := by
  have haround : Around files (writeState json faults data files).2 := writeState_around data files
  obtain ⟨⟨⟩, files₁, hw⟩ | ⟨e, files₁, hw⟩ := Effect.outcome (writeState json faults data) files
  · rw [bind_of_ok hw] at h
    cases h
    rw [hw] at haround
    exact ⟨haround, .inr (writeState_ok hw)⟩
  · rw [bind_of_error hw] at h
    cases h
    rw [hw] at haround
    exact ⟨haround, .inl ⟨e, rfl, writeState_fails data files e _ hw⟩⟩

theorem archive_cases {bytes : List UInt8} {data : MoleculeData} {outcome : RebuildOutcome} {files files' : Files}
    {r : Except RebuildError RebuildOutcome}
    (h : (archiveBytes faults dir bytes >>= fun _ => writeState json faults data >>= fun _ => pure outcome) files =
      (r, files')) : Around files files' ∧ (Stopped r ∨ Readable json files') := by
  have harchive : Around files (archiveBytes faults dir bytes files).2 := archiveFrom_around bytes _ 1 files
  obtain ⟨⟨⟩, files₁, ha⟩ | ⟨e, files₁, ha⟩ := Effect.outcome (archiveBytes faults dir bytes) files
  · rw [bind_of_ok ha] at h
    rw [ha] at harchive
    obtain ⟨haround, hend⟩ := write_cases h
    exact ⟨trans_of Around harchive haround, hend⟩
  · rw [bind_of_error ha] at h
    cases h
    rw [ha] at harchive
    exact ⟨harchive, .inl ⟨e, rfl, archiveFrom_fails bytes _ 1 files e _ ha⟩⟩

theorem project_cases {f : Option MoleculeData → Effect Files RebuildError RebuildOutcome} {files files' : Files}
    {r : Except RebuildError RebuildOutcome} (hlose : ∀ bytes, files stateFile = some bytes → ¬Precious json bytes)
    (hnone : (f none files).2 = files)
    (hsome : ∀ data r files', f (some data) files = (r, files') →
      Around files files' ∧ (Stopped r ∨ Readable json files'))
    (h : (Effect.ofExcept (projectFromLog log id) >>= f) files = (r, files')) :
    Around files files' ∧ ((files' = files ∧ (Stopped r ∨ ¬Due json log id files)) ∨
      Due json log id files ∧ (Stopped r ∨ Readable json files')) := by
  cases hlog : projectFromLog log id with
  | error e =>
    rw [bind_of_error (ofExcept_eq hlog files)] at h
    cases h
    exact ⟨refl_of Around _, .inl ⟨rfl, .inl ⟨e, rfl, projectFromLog_fails hlog⟩⟩⟩
  | ok found =>
    rw [bind_of_ok (ofExcept_eq hlog files)] at h
    cases found with
    | none =>
      rw [h] at hnone
      dsimp only at hnone
      subst hnone
      refine ⟨refl_of Around _, .inl ⟨rfl, .inr ?_⟩⟩
      rintro ⟨-, data, hdata⟩
      rw [hlog] at hdata
      cases hdata
    | some data =>
      obtain ⟨haround, hend⟩ := hsome data r files' h
      exact ⟨haround, .inr ⟨⟨hlose, data, hlog⟩, hend⟩⟩

/-- How a rebuild can end: nothing is due, the system stops it, or a fresh state is written. -/
theorem rebuild_cases (files : Files) {r : Except RebuildError RebuildOutcome} {files' : Files}
    (h : rebuildMoleculeState json log faults dir id files = (r, files')) :
    Around files files' ∧ ((files' = files ∧ (Stopped r ∨ ¬Due json log id files)) ∨
      Due json log id files ∧ (Stopped r ∨ Readable json files')) := by
  have hprecious : ∀ bytes, files stateFile = some bytes → Precious json bytes → ¬Due json log id files :=
    fun bytes hbytes hp hdue => hdue.1 bytes hbytes hp
  obtain ⟨e, hc, hwhy⟩ | ⟨data, bytes, hc, hbytes, hp⟩ | ⟨hc, hfile⟩ | ⟨bytes, hc, hbytes, hp⟩ :=
    classify_cases json faults dir files
  · rw [rebuildMoleculeState, bind_of_error (read_error hc)] at h
    cases h
    refine ⟨refl_of Around _, .inl ⟨rfl, ?_⟩⟩
    obtain hio | ⟨bytes, hbytes, hp⟩ := hwhy
    · exact .inl ⟨e, rfl, hio⟩
    · exact .inr (hprecious bytes hbytes hp)
  · rw [rebuildMoleculeState, bind_of_ok (read_ok.mpr ⟨hc, rfl⟩)] at h
    cases h
    exact ⟨refl_of Around _, .inl ⟨rfl, .inr (hprecious bytes hbytes hp)⟩⟩
  · rw [rebuildMoleculeState, bind_of_ok (read_ok.mpr ⟨hc, rfl⟩)] at h
    refine project_cases ?_ rfl (fun data r files' => write_cases) h
    intro bytes hbytes
    rw [hfile] at hbytes
    cases hbytes
  · rw [rebuildMoleculeState, bind_of_ok (read_ok.mpr ⟨hc, rfl⟩)] at h
    refine project_cases ?_ rfl (fun data r files' => archive_cases) h
    intro bytes' hbytes'
    rw [hbytes] at hbytes'
    cases hbytes'
    exact hp

theorem rebuild_idle {files : Files} (h : ¬Due json log id files) :
    (rebuildMoleculeState json log faults dir id files).2 = files := by
  obtain ⟨-, ⟨hsame, -⟩ | ⟨hdue, -⟩⟩ := rebuild_cases files (Prod.eta _).symm
  · exact hsame
  · exact absurd hdue h

/-- A rebuild loses neither a state file with content nor an archive nor any other file. -/
theorem rebuild_safe : Keeps (Safe json) (rebuildMoleculeState json log faults dir id) := by
  intro files
  refine ⟨(rebuild_cases files (Prod.eta _).symm).1, ?_⟩
  intro bytes hbytes hprecious
  rw [rebuild_idle fun hdue => hdue.1 bytes hbytes hprecious]
  exact hbytes

theorem rebuild_done {files : Files} (h : ¬Stopped (rebuildMoleculeState json log faults dir id files).1) :
    ¬Due json log id (rebuildMoleculeState json log faults dir id files).2 := by
  obtain ⟨-, ⟨hsame, hwhy⟩ | ⟨-, hwhy⟩⟩ := rebuild_cases files (Prod.eta _).symm
  · rw [hsame]
    exact hwhy.resolve_left h
  · obtain ⟨text, data, hfile, hdata⟩ := hwhy.resolve_left h
    exact fun hdue => hdue.1 text hfile (.inl ⟨data, hdata⟩)

end Rebuild

end Cosmon.State.RebuildFiles
