import Cosmon.Lib.Lines
import Cosmon.State.Molecule
import Mathlib.Data.List.DropRight

namespace Cosmon.State.EventLog

open Cosmon.Lib.Lines Cosmon.State.Molecule

abbrev newline : UInt8 := 10
abbrev carriageReturn : UInt8 := 13

/-- The state of a UTF-8 decoder: how many continuation bytes are due, and
the range of the next one. -/
structure Utf8State where
  due : Nat
  low : UInt8
  high : UInt8

def Utf8State.boundary : Utf8State := ⟨0, 0x80, 0xBF⟩

def Utf8State.feed (s : Utf8State) (b : UInt8) : Option Utf8State :=
  match s.due with
  | n + 1 => if s.low ≤ b ∧ b ≤ s.high then some ⟨n, 0x80, 0xBF⟩ else none
  | 0 =>
    if b ≤ 0x7F then some .boundary
    else if 0xC2 ≤ b ∧ b ≤ 0xDF then some ⟨1, 0x80, 0xBF⟩
    else if b = 0xE0 then some ⟨2, 0xA0, 0xBF⟩
    else if b = 0xED then some ⟨2, 0x80, 0x9F⟩
    else if 0xE1 ≤ b ∧ b ≤ 0xEF then some ⟨2, 0x80, 0xBF⟩
    else if b = 0xF0 then some ⟨3, 0x90, 0xBF⟩
    else if 0xF1 ≤ b ∧ b ≤ 0xF3 then some ⟨3, 0x80, 0xBF⟩
    else if b = 0xF4 then some ⟨3, 0x80, 0x8F⟩
    else none

/-- `str::from_utf8` accepts the bytes. -/
def validUtf8 (bytes : List UInt8) : Bool :=
  match bytes.foldlM Utf8State.feed .boundary with
  | some s => s.due = 0
  | none => false

/-- `Seq::next`, on 64 bits. -/
def seqNext (n : Nat) : Nat := (n + 1) % 2 ^ 64

inductive EmitterKind where
  | cli
  | worker
  | patrol
  | formulaStep
  | attendant
  | mission
  | oversee
  | reduce
  | while_
  | retrospective
  | pilot
  | operator
  | unknown
deriving DecidableEq

structure EmitterHeader where
  kind : EmitterKind := .unknown
  id : String := ""
  metaLevel : Nat := 0
deriving DecidableEq

inductive QualityBand where
  | diurne
  | nocturne
  | postVeille
deriving DecidableEq

structure Envelope (E : Type) where
  seq : Nat
  molSeq : Option Nat
  timestamp : Instant
  causalParent : Option Nat
  qualityBand : Option QualityBand
  emitter : EmitterHeader
  event : E
deriving DecidableEq

/-- What the writer relies on and does not define: the JSON form of an
envelope, its parser and the legacy one, what an event says about itself, the
quality band and the fingerprint. A line the serializer produces is UTF-8,
has no newline in it and ends with a closing brace. -/
structure Codec (E : Type) where
  encode : Envelope E → Option (List UInt8)
  decode : List UInt8 → Option (Envelope E)
  migrateLegacyLine : List UInt8 → Option (Envelope E)
  moleculeId : E → Option MoleculeId
  isVerb : E → Bool
  bandFor : Instant → Option Instant → QualityBand
  digest : Nat → List UInt8 → String
  encode_newline : ∀ env text, encode env = some text → newline ∉ text
  encode_utf8 : ∀ env text, encode env = some text → validUtf8 text
  encode_brace : ∀ env text, encode env = some text → text.getLast? = some 0x7D

structure Caches where
  nextSeq : Nat
  molSeqs : MoleculeId → Option Nat
  lastVerbTs : Option Instant

def Caches.empty : Caches := { nextSeq := 0, molSeqs := fun _ => none, lastVerbTs := none }

structure EventLogWriter where
  caches : Caches
  scannedTo : Nat

def EventLogWriter.fresh : EventLogWriter := { caches := .empty, scannedTo := 0 }

/-- The sidecar: the fold of a prefix and a fingerprint of its tail. -/
structure SeqCheckpoint where
  scannedTo : Nat
  caches : Caches
  probeDigest : String

structure Key where
  seq : Nat
  molSeq : Option Nat
  timestamp : Instant
  molecule : Option MoleculeId
  verb : Bool
deriving DecidableEq

variable {E : Type} (cx : Codec E)

def Codec.key (env : Envelope E) : Key :=
  { seq := env.seq
    molSeq := env.molSeq
    timestamp := env.timestamp
    molecule := cx.moleculeId env.event
    verb := cx.isVerb env.event }

/-- The scan of one complete line. Empty, non-UTF-8 and unrecognised lines
do not contribute. -/
def parseLine (line : List UInt8) : Option (Envelope E) :=
  if line = [] then none
  else if ¬validUtf8 line then none
  else
    let trimmed := line.rdropWhile (· = carriageReturn)
    if trimmed = [] then none else cx.decode trimmed

def Caches.absorb (c : Caches) (k : Key) : Caches :=
  { nextSeq := if c.nextSeq < seqNext k.seq then seqNext k.seq else c.nextSeq
    molSeqs :=
      match k.molecule, k.molSeq with
      | some mol, some ms =>
        let entry := (c.molSeqs mol).getD 0
        Function.update c.molSeqs mol (some (if entry < seqNext ms then seqNext ms else entry))
      | _, _ => c.molSeqs
    lastVerbTs :=
      if k.verb ∧ c.lastVerbTs.all (· < k.timestamp) then some k.timestamp else c.lastVerbTs }

def keys (text : List UInt8) : List Key :=
  (completeLines newline text).filterMap fun line => (parseLine cx line).map cx.key

def scan (c : Caches) (text : List UInt8) : Caches := (keys cx text).foldl Caches.absorb c

/-- Read the bytes past the cursor. A file shorter than the cursor was
rotated, and is walked from its beginning. -/
def catchUpScan (file : List UInt8) (w : EventLogWriter) : EventLogWriter :=
  let w := if file.length < w.scannedTo then .fresh else w
  if file.length = w.scannedTo then w
  else
    let delta := file.drop w.scannedTo
    { caches := scan cx w.caches delta, scannedTo := w.scannedTo + consumed newline delta }

def checkpointProbeBytes : Nat := 4096

def prefixProbeDigest (file : List UInt8) (prefixLen : Nat) : String :=
  let probeLen := min prefixLen checkpointProbeBytes
  cx.digest prefixLen ((file.drop (prefixLen - probeLen)).take probeLen)

/-- Seed a writer from a sidecar. One that does not describe a prefix of the
file is ignored. -/
def restoreCheckpoint (file : List UInt8) : Option SeqCheckpoint → EventLogWriter
  | none => .fresh
  | some cp =>
    if file.length < cp.scannedTo then .fresh
    else if prefixProbeDigest cx file cp.scannedTo ≠ cp.probeDigest then .fresh
    else { caches := cp.caches, scannedTo := cp.scannedTo }

def EventLogWriter.open (file : List UInt8) (sidecar : Option SeqCheckpoint) : EventLogWriter :=
  catchUpScan cx file (restoreCheckpoint cx file sidecar)

/-- One call of `emit`. `now` and `timestamp` are readings of the clock,
`cut` says that the write stopped after so many bytes, and `saves` that the
sidecar could be written. -/
structure EmitCall (E : Type) where
  event : E
  causalParent : Option Nat := none
  emitter : EmitterHeader := {}
  now : Instant
  timestamp : Instant
  cut : Option Nat := none
  saves : Bool := true

def stamp (w : EventLogWriter) (call : EmitCall E) : Envelope E :=
  { seq := w.caches.nextSeq
    molSeq := (cx.moleculeId call.event).map fun mol => (w.caches.molSeqs mol).getD 0
    timestamp := call.timestamp
    causalParent := call.causalParent
    qualityBand := if cx.isVerb call.event then some (cx.bandFor call.now w.caches.lastVerbTs) else none
    emitter := call.emitter
    event := call.event }

def Caches.advance (c : Caches) (k : Key) : Caches :=
  { nextSeq := seqNext k.seq
    molSeqs :=
      match k.molecule, k.molSeq with
      | some mol, some ms => Function.update c.molSeqs mol (some (seqNext ms))
      | _, _ => c.molSeqs
    lastVerbTs := if k.verb then some k.timestamp else c.lastVerbTs }

inductive IoError where
  | invalidData
  | writeFailed
deriving DecidableEq

structure Emitted (E : Type) where
  file : List UInt8
  writer : EventLogWriter
  checkpoint : Option SeqCheckpoint
  result : Except IoError (Envelope E)

/-- `emit_locked`. The call returns the `seq` of the envelope in `result`. -/
def emitLocked (file : List UInt8) (w : EventLogWriter) (call : EmitCall E) : Emitted E :=
  let w := catchUpScan cx file w
  let env := stamp cx w call
  match cx.encode env with
  | none => { file := file, writer := w, checkpoint := none, result := .error .invalidData }
  | some text =>
    match call.cut with
    | some n =>
      { file := file ++ text.take n, writer := w, checkpoint := none, result := .error .writeFailed }
    | none =>
      let file := file ++ (text ++ [newline])
      let w : EventLogWriter :=
        { caches := w.caches.advance (cx.key env)
          scannedTo := w.scannedTo + (text ++ [newline]).length }
      let checkpoint :=
        { scannedTo := w.scannedTo
          caches := w.caches
          probeDigest := prefixProbeDigest cx file w.scannedTo }
      { file := file
        writer := w
        checkpoint := if call.saves then some checkpoint else none
        result := .ok env }

def fromLine (line : List UInt8) : Option (Envelope E) :=
  match cx.decode line with
  | some env => some env
  | none => cx.migrateLegacyLine line

/-- The lines `BufRead::lines` yields: a line ending keeps no carriage return,
and a partial last line is a line. -/
def readerLines (file : List UInt8) : List (List UInt8) :=
  let split := splitLines newline file
  split.1.map (fun line => if line.getLast? = some carriageReturn then line.dropLast else line) ++
    if split.2 = [] then [] else [split.2]

def isBlank (line : List UInt8) : Bool := line.all fun b => b ∈ [0x09, 0x0A, 0x0B, 0x0C, 0x0D, 0x20]

/-- `read_all`. A line that is not UTF-8 fails the whole read; a line that
cannot be coerced is skipped. -/
def readAll (file : List UInt8) : Except IoError (List (Envelope E)) :=
  if (readerLines file).all validUtf8 then
    .ok ((readerLines file).filterMap fun line => if isBlank line then none else fromLine cx line)
  else .error .invalidData

/-- Every line written for the event parses back to the key it was written
with. -/
def ReadsBack (event : E) : Prop :=
  ∀ env : Envelope E, env.event = event → ∀ text, cx.encode env = some text →
    (cx.decode text).map cx.key = some (cx.key env)

end Cosmon.State.EventLog
