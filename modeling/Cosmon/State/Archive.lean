import Cosmon.Hashing.Canonical
import Cosmon.Lib.Checks
import Cosmon.Lib.Directory
import Cosmon.Lib.UnixPath
import Cosmon.State.Molecule

namespace Cosmon.State.Archive

open Cosmon.Lib Cosmon.Lib.Directory Cosmon.State.Molecule
open Cosmon.Hashing.Canonical (Json)
open Cosmon.Hashing.Digest (Hash)

def schemaVersion : String := "1"

inductive IoError where
  | refused
  | json
deriving DecidableEq

structure LiveDir where
  responses : Option (List (String × Node))
  distinct : ((responses.getD []).map Prod.fst).Nodup
  synthesis : Option (List UInt8)

/-- The directory of an archive entry, and its `responses/`. -/
structure Entry where
  files : Dir String
  responses : Dir String

/-- What the writer renders of the molecule, its journal and the transition. -/
structure Texts where
  molecule : List UInt8
  edges : List UInt8
  journal : Except IoError (List UInt8)
  event : List UInt8

/-- `path.with_extension("tmp")`, for the name of a file. -/
def tmpName (name : String) : String := String.ofList (UnixPath.withExtension '.' name.toList "tmp".toList)

def writeAtomic (d : Dir String) (name : String) (bytes : List UInt8) : Except IoError (Dir String) :=
  match stage tmpName d name bytes with
  | some d' => .ok d'
  | none => .error .refused

def appendJsonl (d : Dir String) (name : String) (line : List UInt8) : Except IoError (Dir String) :=
  match d name with
  | some .dir => .error .refused
  | some (.file bytes) => .ok (Function.update d name (some (.file (bytes ++ line ++ [10]))))
  | none => .ok (Function.update d name (some (.file (line ++ [10]))))

def mapInsert {V : Type} (k : String) (v : V) (fields : List (String × V)) : List (String × V) :=
  Keyed.insert Prod.fst (k, v) fields

def mapGet {V : Type} (k : String) (fields : List (String × V)) : Option V := (Keyed.get Prod.fst k fields).map Prod.snd

def manifestValue (mol : MoleculeData) (responseHashes : List (String × String)) (synthesisHash : Option String)
    (warnings : List String) : Json :=
  let fields := mapInsert "schema_version" (.string schemaVersion) []
  let fields := mapInsert "formula_pin" (.string mol.formulaId) fields
  let fields := mapInsert "molecule_id" (.string mol.id) fields
  let fields := mapInsert "status" (.string mol.status.asStr) fields
  let fields := mapInsert "response_hashes" (.object (responseHashes.map fun p => (p.1, .string p.2))) fields
  let fields :=
    match synthesisHash with
    | some h => mapInsert "synthesis_hash" (.string h) fields
    | none => fields
  .object (if warnings = [] then fields else mapInsert "warnings" (.array (warnings.map .string)) fields)

section Write

variable (sha256 : List UInt8 → Hash) (render : Json → List UInt8)

def sha256Hex (bytes : List UInt8) : String := (sha256 bytes).toHex

def copyResponses : List (String × Node) → Dir String → List (String × String) →
    Except IoError (Dir String × List (String × String))
  | [], dest, hashes => .ok (dest, hashes)
  | (_, .dir) :: rest, dest, hashes => copyResponses rest dest hashes
  | (name, .file bytes) :: rest, dest, hashes => do
    let dest ← writeAtomic dest name bytes
    copyResponses rest dest (mapInsert name (sha256Hex sha256 bytes) hashes)

def copyLive (live : LiveDir) (entry : Entry) : Except IoError (Entry × List (String × String)) :=
  match live.responses with
  | none => .ok (entry, [])
  | some responses =>
    match entry.files "responses" with
    | some (.file _) => .error .refused
    | _ => do
      let (dest, hashes) ← copyResponses sha256 responses entry.responses []
      .ok (⟨Function.update entry.files "responses" (some .dir), dest⟩, hashes)

def copySynthesis (live : LiveDir) (files : Dir String) : Except IoError (Dir String) :=
  match live.synthesis with
  | none => .ok files
  | some bytes => writeAtomic files "synthesis.md" bytes

def writeWithWarnings (texts : Texts) (mol : MoleculeData) (warnings : List String) (live : LiveDir) (entry : Entry) :
    Except IoError Entry := do
  let files ← writeAtomic entry.files "molecule.json" texts.molecule
  let files ← writeAtomic files "edges.json" texts.edges
  let (entry, hashes) ← copyLive sha256 live { entry with files := files }
  let files ← copySynthesis live entry.files
  let manifest := manifestValue mol hashes (live.synthesis.map (sha256Hex sha256)) warnings
  let files ← writeAtomic files "manifest.json" (render manifest)
  let journal ← texts.journal
  let files ← writeAtomic files "journal.jsonl" journal
  let files ← appendJsonl files "events.jsonl" texts.event
  .ok { entry with files := files }

end Write

structure VerifyCheck where
  artifact : String
  kind : String
  ok : Bool
  sealedHash : String
  currentHash : String

structure VerifyReport where
  moleculeId : String
  checks : List VerifyCheck
  ok : Bool

def get (v : Json) (k : String) : Option Json :=
  match v with
  | .object fields => mapGet k fields
  | _ => none

def asStr : Json → Option String
  | .string s => some s
  | _ => none

def asObject : Json → Option (List (String × Json))
  | .object fields => some fields
  | _ => none

section Verify

variable (sha256 : List UInt8 → Hash) (parse : List UInt8 → Option Json)

def currentHash (d : Dir String) (name : String) : String :=
  match d name with
  | some (.file bytes) => sha256Hex sha256 bytes
  | _ => ""

def checkOf (d : Dir String) (kind name sealedHash : String) : VerifyCheck where
  artifact := name
  kind := kind
  ok := currentHash sha256 d name ≠ "" && currentHash sha256 d name = sealedHash
  sealedHash := sealedHash
  currentHash := currentHash sha256 d name

def checks (entry : Entry) (manifest : Json) : List VerifyCheck :=
  (((get manifest "response_hashes").bind asObject).getD []).map
      (fun p => checkOf sha256 entry.responses "response" p.1 ((asStr p.2).getD "")) ++
    (((get manifest "synthesis_hash").bind asStr).map (checkOf sha256 entry.files "synthesis" "synthesis.md")).toList

def verifyEntry (entry : Entry) : Except IoError VerifyReport :=
  match entry.files "manifest.json" with
  | some (.file bytes) =>
    match parse bytes with
    | none => .error .json
    | some manifest => .ok
      { moleculeId := ((get manifest "molecule_id").bind asStr).getD "<unknown>"
        checks := checks sha256 entry manifest
        ok := (checks sha256 entry manifest).all VerifyCheck.ok }
  | _ => .error .refused

end Verify

end Cosmon.State.Archive
