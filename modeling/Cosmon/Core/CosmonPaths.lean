import Cosmon.Core.SignedTexts
import Cosmon.Lib.UnixPath

namespace Cosmon.Core.CosmonPaths

open Cosmon.Core.Formulas (moleculeIdNew isAsciiAlphanumeric)
open Cosmon.Lib.Text Cosmon.Lib.UnixPath

/-- An id of `simple_id!`: any text but the empty one. -/
structure SimpleId where
  text : String
  nonempty : text ≠ ""
deriving DecidableEq

abbrev SessionId := SimpleId

abbrev FleetId := SimpleId

structure MoleculeId where
  text : String
  valid : moleculeIdNew text = .ok text
deriving DecidableEq

def isLowerHex (c : Char) : Bool := c.isDigit || ('a' ≤ c && c ≤ 'f')

structure ContentHash where
  text : String
  valid : text.toList.length = 64 ∧ text.toList.all isLowerHex = true
deriving DecidableEq

def ContentHash.shard (h : ContentHash) : String := String.ofList (h.text.toList.take 2)

inductive CosmonPathKind where
  | fleet
  | fleetRuntime
  | fleetLock
  | moleculeWriteLock
  | trunkLock
  | fleetEvents
  | moleculeState
  | moleculeEvents
  | legacyMoleculeState
  | presenceSnapshot
  | presenceLog
  | presenceSeek
  | presenceInbox
  | presenceInboxAck
  | pilotLeaseRequests
  | pilotLeaseGrants
  | cas
  | collapseReceipt
  | archiveMolecule
  | archiveFleetEvents
  | archiveSchemaVersion
deriving DecidableEq

inductive CosmonPath where
  | fleet
  | fleetRuntime
  | fleetLock
  | moleculeWriteLock (id : MoleculeId)
  | trunkLock
  | fleetEvents
  | moleculeState (fleet : FleetId) (id : MoleculeId)
  | moleculeEvents (fleet : FleetId) (id : MoleculeId)
  | legacyMoleculeState (id : MoleculeId)
  | presenceSnapshot (session : SessionId)
  | presenceLog (session : SessionId)
  | presenceSeek (session : SessionId)
  | presenceInbox (session : SessionId)
  | presenceInboxAck (session : SessionId)
  | pilotLeaseRequests (mission : MoleculeId)
  | pilotLeaseGrants (mission : MoleculeId)
  | cas (hash : ContentHash)
  | collapseReceipt (keyHash : ContentHash)
  | archiveMolecule (year : Int) (month : Nat) (id : MoleculeId)
  | archiveFleetEvents (year : Int) (month : Nat)
  | archiveSchemaVersion
deriving DecidableEq

def CosmonPath.kind : CosmonPath → CosmonPathKind
  | .fleet => .fleet
  | .fleetRuntime => .fleetRuntime
  | .fleetLock => .fleetLock
  | .moleculeWriteLock _ => .moleculeWriteLock
  | .trunkLock => .trunkLock
  | .fleetEvents => .fleetEvents
  | .moleculeState _ _ => .moleculeState
  | .moleculeEvents _ _ => .moleculeEvents
  | .legacyMoleculeState _ => .legacyMoleculeState
  | .presenceSnapshot _ => .presenceSnapshot
  | .presenceLog _ => .presenceLog
  | .presenceSeek _ => .presenceSeek
  | .presenceInbox _ => .presenceInbox
  | .presenceInboxAck _ => .presenceInboxAck
  | .pilotLeaseRequests _ => .pilotLeaseRequests
  | .pilotLeaseGrants _ => .pilotLeaseGrants
  | .cas _ => .cas
  | .collapseReceipt _ => .collapseReceipt
  | .archiveMolecule _ _ _ => .archiveMolecule
  | .archiveFleetEvents _ _ => .archiveFleetEvents
  | .archiveSchemaVersion => .archiveSchemaVersion

def presenceFileStem (session : SessionId) : String :=
  if "session-".toList <+: session.text.toList then session.text else "session-" ++ session.text

def zeroPad (width n : Nat) : List Char :=
  List.replicate (width - (Nat.toDigits 10 n).length) '0' ++ Nat.toDigits 10 n

/-- The sign counts for the width and comes before the zeros. -/
def padYear : Int → String
  | .ofNat n => String.ofList (zeroPad 4 n)
  | .negSucc n => String.ofList ('-' :: zeroPad 3 (n + 1))

def padMonth (month : Nat) : String := String.ofList (zeroPad 2 month)

/-- `PathBuf::from(base).join(..).join(..)`. -/
def joins (base : String) (parts : List String) : List Char :=
  parts.foldl (fun path part => join '/' path part.toList) base.toList

def CosmonPath.rel : CosmonPath → List Char
  | .fleet => joins "fleet.json" []
  | .fleetRuntime => joins "fleet.runtime.json" []
  | .fleetLock => joins "fleet.lock" []
  | .moleculeWriteLock id => joins "molecule-write-locks" [id.text ++ ".lock"]
  | .trunkLock => joins "trunk.lock" []
  | .fleetEvents => joins "events.jsonl" []
  | .moleculeState f id => joins "fleets" [f.text, "molecules", id.text, "state.json"]
  | .moleculeEvents f id => joins "fleets" [f.text, "molecules", id.text, "events.jsonl"]
  | .legacyMoleculeState id => joins "ops" ["molecules", id.text, "state.json"]
  | .presenceSnapshot session => joins "presence" [presenceFileStem session ++ ".json"]
  | .presenceLog session => joins "presence" [presenceFileStem session ++ ".log"]
  | .presenceSeek session => joins "presence" [presenceFileStem session ++ ".seek"]
  | .presenceInbox session => joins "presence" [session.text ++ ".inbox.jsonl"]
  | .presenceInboxAck session => joins "presence" [session.text ++ ".inbox.ack.jsonl"]
  | .pilotLeaseRequests mission => joins "pilot-lease" [mission.text ++ ".requests.jsonl"]
  | .pilotLeaseGrants mission => joins "pilot-lease" [mission.text ++ ".grants.jsonl"]
  | .cas hash => joins "cas" [hash.shard, hash.text]
  | .collapseReceipt keyHash => joins "collapse-receipts" [keyHash.text ++ ".json"]
  | .archiveMolecule year month id => joins "archive" [padYear year, padMonth month, id.text]
  | .archiveFleetEvents year month =>
    joins "archive" ["events", "events-" ++ padYear year ++ "-" ++ padMonth month ++ ".jsonl"]
  | .archiveSchemaVersion => joins "archive" ["SCHEMA_VERSION"]

abbrev Comps := List (Component Char)

def comps (path : List Char) : Comps := components '/' '.' path

/-- A relative path without a `..`. -/
def Contained (path : List Char) : Prop := isAbsolute '/' path = false ∧ Component.parentDir ∉ comps path

def Apart (p q : CosmonPath) : Prop := comps p.rel ≠ comps q.rel ∧ Contained p.rel ∧ Contained q.rel

section Condition

def parts (text : String) : List (List Char) := text.toList.splitOn '/'

def innerParts (text : String) : List (List Char) := (parts text).dropLast

def lastPart (text : String) : List Char := (parts text).getLast?.getD []

/-- The parts that a path keeps: not the empty ones and not `.`. -/
def kept (ps : List (List Char)) : Comps := ps.filterMap (component '.')

def rooted (text : String) : Bool := isAbsolute '/' text.toList

def Rootless : CosmonPath → Prop
  | .moleculeState f _ | .moleculeEvents f _ => rooted f.text = false
  | .presenceInbox session | .presenceInboxAck session => rooted session.text = false
  | _ => True

def idParts : CosmonPath → List (List Char)
  | .moleculeState f _ | .moleculeEvents f _ => parts f.text
  | .presenceSnapshot session | .presenceLog session | .presenceSeek session => innerParts (presenceFileStem session)
  | .presenceInbox session | .presenceInboxAck session => innerParts session.text
  | _ => []

def Inside (p : CosmonPath) : Prop := Rootless p ∧ ['.', '.'] ∉ idParts p

def SameName (s t : String) : Prop := kept (innerParts s) = kept (innerParts t) ∧ lastPart s = lastPart t

/-- Two values of one kind whose sessions have one stem, or whose ids are spelled alike. -/
def Alike : CosmonPath → CosmonPath → Prop
  | .moleculeState f id, .moleculeState g id' => kept (parts f.text) = kept (parts g.text) ∧ id = id'
  | .moleculeEvents f id, .moleculeEvents g id' => kept (parts f.text) = kept (parts g.text) ∧ id = id'
  | .presenceSnapshot s, .presenceSnapshot t => SameName (presenceFileStem s) (presenceFileStem t)
  | .presenceLog s, .presenceLog t => SameName (presenceFileStem s) (presenceFileStem t)
  | .presenceSeek s, .presenceSeek t => SameName (presenceFileStem s) (presenceFileStem t)
  | .presenceInbox s, .presenceInbox t => SameName s.text t.text
  | .presenceInboxAck s, .presenceInboxAck t => SameName s.text t.text
  | _, _ => False

end Condition

section Names

theorem MoleculeId.plain (id : MoleculeId) : Plain '/' '.' id.text.toList := by
  apply plain_of_chars
  · intro hempty
    have hvalid := id.valid
    rw [String.toList_eq_nil_iff.mp hempty] at hvalid
    cases hvalid
  · intro c hc
    have hchar := Cosmon.Core.SignedTexts.moleculeIdNew_chars id.valid c hc
    constructor
    · rintro rfl
      revert hchar
      decide
    · rintro rfl
      revert hchar
      decide

theorem plain_of_hex {name : List Char} (hne : name ≠ []) (h : name.all isLowerHex = true) : Plain '/' '.' name := by
  apply plain_of_chars hne
  intro c hc
  have hchar := List.all_eq_true.mp h c hc
  constructor
  · rintro rfl
    revert hchar
    decide
  · rintro rfl
    revert hchar
    decide

theorem ContentHash.plain (h : ContentHash) : Plain '/' '.' h.text.toList := by
  apply plain_of_hex _ h.valid.2
  intro hempty
  have hlength := h.valid.1
  rw [hempty] at hlength
  cases hlength

theorem ContentHash.shard_plain (h : ContentHash) : Plain '/' '.' h.shard.toList := by
  rw [shard, String.toList_ofList]
  apply plain_of_hex
  · intro hempty
    have hlength := congrArg List.length hempty
    rw [List.length_take, h.valid.1] at hlength
    cases hlength
  · exact List.all_eq_true.mpr fun c hc => List.all_eq_true.mp h.valid.2 c (List.mem_of_mem_take hc)

theorem zeroPad_digits {width n : Nat} {c : Char} (h : c ∈ zeroPad width n) : c.isDigit = true := by
  rcases List.mem_append.mp h with hzero | hdigit
  · rw [List.eq_of_mem_replicate hzero]
    decide
  · exact isDigit_toDigits hdigit

theorem zeroPad_ne_nil (width n : Nat) : zeroPad width n ≠ [] :=
  List.append_ne_nil_of_right_ne_nil _ Nat.toDigits_ne_nil

theorem zeroPad_injective {width m n : Nat} (h : zeroPad width m = zeroPad width n) : m = n := by
  have hvalue := congrArg (fun digits => Nat.ofDigitChars 10 digits 0) h
  simpa [zeroPad, Nat.ofDigitChars_append, Nat.ofDigitChars_replicate_zero] using hvalue

theorem isDigit_apart {c : Char} (h : c.isDigit = true) : c ≠ '/' ∧ c ≠ '.' ∧ c ≠ '-' := by
  refine ⟨?_, ?_, ?_⟩
  · rintro rfl
    revert h
    decide
  · rintro rfl
    revert h
    decide
  · rintro rfl
    revert h
    decide

theorem padMonth_digits {month : Nat} {c : Char} (h : c ∈ (padMonth month).toList) : c.isDigit = true := by
  rw [padMonth, String.toList_ofList] at h
  exact zeroPad_digits h

theorem padMonth_plain (month : Nat) : Plain '/' '.' (padMonth month).toList := by
  apply plain_of_chars
  · rw [padMonth, String.toList_ofList]
    exact zeroPad_ne_nil 2 month
  · exact fun c hc => ⟨(isDigit_apart (padMonth_digits hc)).1, (isDigit_apart (padMonth_digits hc)).2.1⟩

theorem padMonth_injective {m n : Nat} (h : padMonth m = padMonth n) : m = n :=
  zeroPad_injective (String.ofList_injective h)

theorem padYear_chars {year : Int} {c : Char} (h : c ∈ (padYear year).toList) : c = '-' ∨ c.isDigit = true := by
  cases year with
  | ofNat n =>
    rw [padYear, String.toList_ofList] at h
    exact Or.inr (zeroPad_digits h)
  | negSucc n =>
    rw [padYear, String.toList_ofList] at h
    exact (List.mem_cons.mp h).imp_right zeroPad_digits

theorem padYear_plain (year : Int) : Plain '/' '.' (padYear year).toList := by
  apply plain_of_chars
  · cases year with
    | ofNat n =>
      rw [padYear, String.toList_ofList]
      exact zeroPad_ne_nil 4 n
    | negSucc n =>
      rw [padYear, String.toList_ofList]
      exact List.cons_ne_nil _ _
  · intro c hc
    rcases padYear_chars hc with rfl | hdigit
    · decide
    · exact ⟨(isDigit_apart hdigit).1, (isDigit_apart hdigit).2.1⟩

theorem padYear_injective {y z : Int} (h : padYear y = padYear z) : y = z := by
  have hminus : ∀ {m n : Nat}, zeroPad 4 m ≠ '-' :: zeroPad 3 n := by
    intro m n heq
    have hmem : '-' ∈ zeroPad 4 m := heq ▸ List.mem_cons_self
    exact (isDigit_apart (zeroPad_digits hmem)).2.2 rfl
  cases y with
  | ofNat m =>
    cases z with
    | ofNat n => exact congrArg Int.ofNat (zeroPad_injective (String.ofList_injective h))
    | negSucc n => exact absurd (String.ofList_injective h) hminus
  | negSucc m =>
    cases z with
    | ofNat n => exact absurd (String.ofList_injective h).symm hminus
    | negSucc n =>
      have hdigits := zeroPad_injective (List.cons.inj (String.ofList_injective h)).2
      exact congrArg Int.negSucc (Nat.succ.inj hdigits)

end Names

section Layout

def top : CosmonPathKind → String
  | .fleet => "fleet.json"
  | .fleetRuntime => "fleet.runtime.json"
  | .fleetLock => "fleet.lock"
  | .moleculeWriteLock => "molecule-write-locks"
  | .trunkLock => "trunk.lock"
  | .fleetEvents => "events.jsonl"
  | .moleculeState | .moleculeEvents => "fleets"
  | .legacyMoleculeState => "ops"
  | .presenceSnapshot | .presenceLog | .presenceSeek | .presenceInbox | .presenceInboxAck => "presence"
  | .pilotLeaseRequests | .pilotLeaseGrants => "pilot-lease"
  | .cas => "cas"
  | .collapseReceipt => "collapse-receipts"
  | .archiveMolecule | .archiveFleetEvents | .archiveSchemaVersion => "archive"

def back : CosmonPath → List (List Char)
  | .fleet | .fleetRuntime | .fleetLock | .trunkLock | .fleetEvents => []
  | .moleculeWriteLock id => [(id.text ++ ".lock").toList]
  | .moleculeState _ id => ["molecules".toList, id.text.toList, "state.json".toList]
  | .moleculeEvents _ id => ["molecules".toList, id.text.toList, "events.jsonl".toList]
  | .legacyMoleculeState id => ["molecules".toList, id.text.toList, "state.json".toList]
  | .presenceSnapshot session => [lastPart (presenceFileStem session) ++ ".json".toList]
  | .presenceLog session => [lastPart (presenceFileStem session) ++ ".log".toList]
  | .presenceSeek session => [lastPart (presenceFileStem session) ++ ".seek".toList]
  | .presenceInbox session => [lastPart session.text ++ ".inbox.jsonl".toList]
  | .presenceInboxAck session => [lastPart session.text ++ ".inbox.ack.jsonl".toList]
  | .pilotLeaseRequests mission => [(mission.text ++ ".requests.jsonl").toList]
  | .pilotLeaseGrants mission => [(mission.text ++ ".grants.jsonl").toList]
  | .cas hash => [hash.shard.toList, hash.text.toList]
  | .collapseReceipt keyHash => [(keyHash.text ++ ".json").toList]
  | .archiveMolecule year month id => [(padYear year).toList, (padMonth month).toList, id.text.toList]
  | .archiveFleetEvents year month =>
    ["events".toList, ("events-" ++ padYear year ++ "-" ++ padMonth month ++ ".jsonl").toList]
  | .archiveSchemaVersion => ["SCHEMA_VERSION".toList]

def layout (p : CosmonPath) : Comps :=
  .normal (top p.kind).toList :: (kept (idParts p) ++ (back p).map .normal)

theorem top_plain (k : CosmonPathKind) : Plain '/' '.' (top k).toList := by
  cases k <;> decide

theorem comps_top (k : CosmonPathKind) : comps (top k).toList = [.normal (top k).toList] :=
  components_plain (top_plain k)

theorem comps_plain {base name : List Char} {cs : Comps} (h : comps base = cs) (hname : Plain '/' '.' name) :
    comps (join '/' base name) = cs ++ [.normal name] := by
  rw [comps, components_join hname]
  exact congrArg (· ++ _) h

theorem comps_suffix (k : CosmonPathKind) {id suffix : String} (hid : rooted id = false) (hslash : '/' ∉ suffix.toList)
    (hlong : 2 < suffix.toList.length) :
    comps (join '/' (top k).toList (id ++ suffix).toList) =
      .normal (top k).toList :: (kept (innerParts id) ++ [.normal (lastPart id ++ suffix.toList)]) := by
  have hrel : isAbsolute '/' (id ++ suffix).toList = false := by
    rw [String.toList_append]
    unfold rooted at hid
    cases htext : id.toList with
    | nil =>
      cases hsuffix : suffix.toList with
      | nil => rfl
      | cons c rest =>
        rw [hsuffix] at hslash
        exact decide_eq_false fun heq => hslash (Option.some.inj heq ▸ List.mem_cons_self)
    | cons c rest => rwa [htext] at hid
  rw [comps, components_join_relative (top_plain k).1 hrel, String.toList_append, names_suffix _ hslash hlong]
  exact congrArg (· ++ _) (comps_top k)

theorem stem_rootless (session : SessionId) : rooted (presenceFileStem session) = false := by
  unfold presenceFileStem rooted
  split
  · rename_i hprefix
    obtain ⟨rest, hrest⟩ := hprefix
    rw [← hrest]
    rfl
  · rw [String.toList_append]
    rfl

theorem comps_fleets {f : FleetId} (hf : rooted f.text = false) (id : MoleculeId) {file : String}
    (hfile : Plain '/' '.' file.toList) :
    comps (joins "fleets" [f.text, "molecules", id.text, file]) =
      .normal "fleets".toList ::
        (kept (parts f.text) ++ [.normal "molecules".toList, .normal id.text.toList, .normal file.toList]) := by
  have hfleet : comps (join '/' "fleets".toList f.text.toList) = .normal "fleets".toList :: kept (parts f.text) := by
    rw [comps, components_join_relative (by decide) hf]
    exact congrArg (· ++ _) (comps_top .moleculeState)
  have hmolecules : Plain '/' '.' "molecules".toList := by decide
  refine (comps_plain (comps_plain (comps_plain hfleet hmolecules) id.plain) hfile).trans ?_
  simp only [List.cons_append, List.append_assoc, List.nil_append]

theorem fleetEvents_plain (year : Int) (month : Nat) :
    Plain '/' '.' ("events-" ++ padYear year ++ "-" ++ padMonth month ++ ".jsonl").toList := by
  have hfirst : "events-".toList.Forall fun c => c ≠ '/' ∧ c ≠ '.' := by decide
  have hdash : "-".toList.Forall fun c => c ≠ '/' ∧ c ≠ '.' := by decide
  rw [String.toList_append]
  apply Plain.suffix _ (by decide) (by decide)
  apply plain_of_chars
  · simp only [String.toList_append]
    exact List.append_ne_nil_of_right_ne_nil _ (padMonth_plain month).1
  · intro c hc
    simp only [String.toList_append, List.mem_append] at hc
    rcases hc with ((hc | hc) | hc) | hc
    · exact List.forall_iff_forall_mem.mp hfirst c hc
    · rcases padYear_chars hc with rfl | hdigit
      · decide
      · exact ⟨(isDigit_apart hdigit).1, (isDigit_apart hdigit).2.1⟩
    · exact List.forall_iff_forall_mem.mp hdash c hc
    · exact ⟨(isDigit_apart (padMonth_digits hc)).1, (isDigit_apart (padMonth_digits hc)).2.1⟩

theorem comps_rel {p : CosmonPath} (h : Rootless p) : comps p.rel = layout p := by
  have hmolecules : Plain '/' '.' "molecules".toList := by decide
  have hstate : Plain '/' '.' "state.json".toList := by decide
  cases p with
  | fleet => exact comps_top .fleet
  | fleetRuntime => exact comps_top .fleetRuntime
  | fleetLock => exact comps_top .fleetLock
  | trunkLock => exact comps_top .trunkLock
  | fleetEvents => exact comps_top .fleetEvents
  | moleculeWriteLock id =>
    apply comps_plain (comps_top .moleculeWriteLock)
    rw [String.toList_append]
    exact id.plain.suffix (by decide) (by decide)
  | moleculeState f id => exact comps_fleets h id hstate
  | moleculeEvents f id => exact comps_fleets h id (by decide)
  | legacyMoleculeState id =>
    exact comps_plain (comps_plain (comps_plain (comps_top .legacyMoleculeState) hmolecules) id.plain) hstate
  | presenceSnapshot session => exact comps_suffix .presenceSnapshot (stem_rootless session) (by decide) (by decide)
  | presenceLog session => exact comps_suffix .presenceLog (stem_rootless session) (by decide) (by decide)
  | presenceSeek session => exact comps_suffix .presenceSeek (stem_rootless session) (by decide) (by decide)
  | presenceInbox session => exact comps_suffix .presenceInbox h (by decide) (by decide)
  | presenceInboxAck session => exact comps_suffix .presenceInboxAck h (by decide) (by decide)
  | pilotLeaseRequests mission =>
    apply comps_plain (comps_top .pilotLeaseRequests)
    rw [String.toList_append]
    exact mission.plain.suffix (by decide) (by decide)
  | pilotLeaseGrants mission =>
    apply comps_plain (comps_top .pilotLeaseGrants)
    rw [String.toList_append]
    exact mission.plain.suffix (by decide) (by decide)
  | cas hash => exact comps_plain (comps_plain (comps_top .cas) hash.shard_plain) hash.plain
  | collapseReceipt keyHash =>
    apply comps_plain (comps_top .collapseReceipt)
    rw [String.toList_append]
    exact keyHash.plain.suffix (by decide) (by decide)
  | archiveMolecule year month id =>
    exact comps_plain (comps_plain (comps_plain (comps_top .archiveMolecule) (padYear_plain year))
      (padMonth_plain month)) id.plain
  | archiveFleetEvents year month =>
    have hevents : Plain '/' '.' "events".toList := by decide
    exact comps_plain (comps_plain (comps_top .archiveFleetEvents) hevents) (fleetEvents_plain year month)
  | archiveSchemaVersion =>
    have hversion : Plain '/' '.' "SCHEMA_VERSION".toList := by decide
    exact comps_plain (comps_top .archiveSchemaVersion) hversion

end Layout

end Cosmon.Core.CosmonPaths
