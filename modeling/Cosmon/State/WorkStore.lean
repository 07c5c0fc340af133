import Cosmon.Core.WorkProjection
import Cosmon.Lib.Runs
import Mathlib.Logic.Function.Basic

namespace Cosmon.State.WorkStore

open Cosmon.State.Molecule Cosmon.Core.WorkMessage Cosmon.Core.WorkProjection
open Cosmon.Lib Cosmon.Lib.Checks

inductive ReceiptLine where
  | record (receipt : Receipt)
  | malformed
deriving DecidableEq

/-- The receipts of one key. A last line without its newline is `terminated = false`. -/
structure ReceiptFile where
  key : MessageKey
  lines : List ReceiptLine
  terminated : Bool
deriving DecidableEq

/-- Bytes at the end of a file. After a line without newline they join that line. -/
def ReceiptFile.append (file : ReceiptFile) (line : ReceiptLine) (newline : Bool) : ReceiptFile :=
  if file.terminated then { file with lines := file.lines ++ [line], terminated := newline }
  else { file with lines := file.lines.dropLast ++ [.malformed], terminated := newline }

/-- The `work` directory of one owner. -/
structure Store where
  scope : Option WorkScope
  scopes : List (ScopeRevision × WorkScope)
  payloads : Hash → Option (List UInt8)
  envelopes : List Envelope
  receipts : List ReceiptFile
  notes : Hash → Option (List UInt8)

def Store.empty : Store := ⟨none, [], fun _ => none, [], [], fun _ => none⟩

inductive StoreError where
  | io (error : String)
  | json
  | domain (error : WorkMessageError)
  | corruptEvidence
  | noScope
  | payloadMismatch
  | existingPayloadMismatch
  | envelopeConflict (key : MessageKey)
  | injected
deriving DecidableEq

structure WorkRecords where
  scope : Option WorkScope
  envelopes : List Envelope
  receipts : List Receipt
  history : List WorkScope

def Store.lines (s : Store) : List ReceiptLine := s.receipts.flatMap ReceiptFile.lines

def ReceiptLine.read : ReceiptLine → Except StoreError Receipt
  | .record receipt => .ok receipt
  | .malformed => .error .json

def Store.loadAll (s : Store) : Except StoreError WorkRecords := do
  let receipts ← s.lines.mapM ReceiptLine.read
  .ok ⟨s.scope, s.envelopes, receipts, s.scopes.map Prod.snd⟩

variable (hashing : Hashing)

def Store.readPayload (s : Store) (envelope : Envelope) : Except StoreError (List UInt8) :=
  match s.payloads envelope.payloadDigest with
  | none => .error (.io "No such file or directory")
  | some bytes =>
    if bytes.length ≠ envelope.payloadBytes.toNat ∨ hashing.ofBytes bytes ≠ envelope.payloadDigest then
      .error .existingPayloadMismatch
    else .ok bytes

def putBytes (files : Hash → Option (List UInt8)) (digest : Hash) (bytes : List UInt8) :
    Except StoreError (Hash → Option (List UInt8)) :=
  if hashing.ofBytes bytes ≠ digest then .error .payloadMismatch
  else
    match files digest with
    | none => .ok (Function.update files digest (some bytes))
    | some existing =>
      if hashing.ofBytes existing ≠ digest then .error .existingPayloadMismatch else .ok files

def Store.putPayload (s : Store) (digest : Hash) (bytes : List UInt8) : Except StoreError Store :=
  (putBytes hashing s.payloads digest bytes).map fun payloads => { s with payloads }

def Store.putNote (s : Store) (digest : Hash) (bytes : List UInt8) : Except StoreError Store :=
  (putBytes hashing s.notes digest bytes).map fun notes => { s with notes }

inductive PutOutcome where
  | created
  | alreadyPresent
deriving DecidableEq

def Store.putEnvelope (s : Store) (envelope : Envelope) : Except StoreError (Store × PutOutcome) := do
  let _ ← s.readPayload hashing envelope
  match Keyed.get Envelope.key envelope.key s.envelopes with
  | none => .ok ({ s with envelopes := s.envelopes ++ [envelope] }, .created)
  | some existing =>
    if existing = envelope then .ok (s, .alreadyPresent)
    else .error (.envelopeConflict envelope.key)

def Store.appendLine (s : Store) (key : MessageKey) (line : ReceiptLine) (newline : Bool) : Store :=
  match Keyed.get ReceiptFile.key key s.receipts with
  | none => { s with receipts := s.receipts ++ [⟨key, [line], newline⟩] }
  | some file => { s with receipts := Keyed.set ReceiptFile.key (file.append line newline) s.receipts }

def Store.appendReceipt (s : Store) (receipt : Receipt) : Store :=
  s.appendLine receipt.key (.record receipt) true

inductive Write where
  | history (revision : ScopeRevision) (scope : WorkScope)
  | scope (scope : WorkScope)
  | payload (digest : Hash) (bytes : List UInt8)
  | note (digest : Hash) (bytes : List UInt8)
  | envelope (envelope : Envelope)
  | receipt (receipt : Receipt)

def Store.write (s : Store) : Write → Except StoreError Store
  | .history revision scope =>
    if (Keyed.get Prod.fst revision s.scopes).isSome then .ok s
    else .ok { s with scopes := s.scopes ++ [(revision, scope)] }
  | .scope scope => .ok { s with scope := some scope }
  | .payload digest bytes => s.putPayload hashing digest bytes
  | .note digest bytes => s.putNote hashing digest bytes
  | .envelope envelope => do
    match ← s.putEnvelope hashing envelope with
    | (s, .created) => .ok s
    | (_, .alreadyPresent) => .error (.envelopeConflict envelope.key)
  | .receipt receipt => .ok (s.appendReceipt receipt)

def Store.writeAll (s : Store) : List Write → Store × Except StoreError Unit
  | [] => (s, .ok ())
  | write :: rest =>
    match s.write hashing write with
    | .error e => (s, .error e)
    | .ok s' => s'.writeAll rest

/-- What a crash leaves of an append. The other writes are made with one link or one
rename. -/
inductive Cut where
  | nothing
  | torn
  | unterminated
deriving DecidableEq

def Store.cut (s : Store) : Write → Cut → Store
  | .receipt receipt, .torn => s.appendLine receipt.key .malformed false
  | .receipt receipt, .unterminated => s.appendLine receipt.key (.record receipt) false
  | _, _ => s

/-- A crash after some writes, in the middle of the next one. -/
structure Crash where
  writes : Nat
  cut : Cut
deriving DecidableEq

def Store.interrupted (s : Store) (writes : List Write) (crash : Crash) : Store :=
  match s.writeAll hashing (writes.take crash.writes) with
  | (s', .error _) => s'
  | (s', .ok ()) =>
    match writes[crash.writes]? with
    | none => s'
    | some write => s'.cut write crash.cut

def Store.perform {α : Type} (s : Store) (writes : List Write) (answer : α) (crash : Option Crash) :
    Store × Except StoreError α :=
  match crash with
  | none => ((s.writeAll hashing writes).1, (s.writeAll hashing writes).2.map fun _ => answer)
  | some crash => (s.interrupted hashing writes crash, .error .injected)

def Store.declare (s : Store) (scope : WorkScope) (crash : Option Crash) :
    Store × Except StoreError ScopeRevision :=
  match (scope.validate >>= fun _ => scope.revision hashing).mapError .domain with
  | .error e => (s, .error e)
  | .ok revision => s.perform hashing [.history revision scope, .scope scope] revision crash

def isAdmittedReceipt (key : MessageKey) (receipt : Receipt) : Bool :=
  receipt.key = key && receipt.stage = .admitted

def Store.plan (s : Store) (records : WorkRecords) (bytes : List UInt8) (now : Instant) :
    Admission → Except StoreError (List Write)
  | .admitNew envelope =>
    .ok [.payload envelope.payloadDigest bytes, .envelope envelope,
      .receipt (Receipt.forEnvelope envelope .boundary now .admitted)]
  | .duplicate envelope => do
    let _ ← s.readPayload hashing envelope
    if records.receipts.any (isAdmittedReceipt envelope.key) then .ok []
    else .ok [.receipt (Receipt.forEnvelope envelope .boundary envelope.admittedAt .admitted)]

def Store.admission (s : Store) (submission : Submission) (bytes : List UInt8) (now : Instant) :
    Except StoreError (Admission × List Write) :=
  if hashing.ofBytes bytes ≠ submission.payloadDigest ∨ bytes.length ≠ submission.payloadBytes.toNat then
    .error .payloadMismatch
  else do
    let records ← s.loadAll
    match records.scope with
    | none => .error .noScope
    | some scope =>
      let projection ← (foldWithHistory hashing scope records.history records.envelopes
        records.receipts now).mapError .domain
      if projection.findings.any ProjectionFinding.isCorrupt then .error .corruptEvidence
      else
        let decision ← (admitSubmission hashing scope projection submission now).mapError .domain
        let writes ← s.plan hashing records bytes now decision
        .ok (decision, writes)

def Store.submit (s : Store) (submission : Submission) (bytes : List UInt8) (now : Instant)
    (crash : Option Crash) : Store × Except StoreError Admission :=
  match s.admission hashing submission bytes now with
  | .error e => (s, .error e)
  | .ok (decision, writes) => s.perform hashing writes decision crash

section Records

variable {s : Store} {records : WorkRecords}

theorem mapM_read (receipts : List Receipt) :
    (receipts.map ReceiptLine.record).mapM ReceiptLine.read = .ok receipts := by
  induction receipts with
  | nil => rfl
  | cons receipt rest ih =>
    rw [List.map_cons, List.mapM_cons, ih]
    rfl

theorem loadAll_of_records {receipts : List Receipt} (h : s.lines = receipts.map ReceiptLine.record) :
    s.loadAll = .ok ⟨s.scope, s.envelopes, receipts, s.scopes.map Prod.snd⟩ := by
  rw [Store.loadAll, h, mapM_read]
  rfl

theorem loadAll_ok (h : s.loadAll = .ok records) :
    s.lines = records.receipts.map ReceiptLine.record ∧
      records = ⟨s.scope, s.envelopes, records.receipts, s.scopes.map Prod.snd⟩ := by
  obtain ⟨receipts, hread, h⟩ := bind_ok h
  cases h
  have hlines := mapM_ok (g := ReceiptLine.record) (k := id) (fun line receipt hline => ?_) hread
  · rw [List.map_id] at hlines
    exact ⟨hlines.symm, rfl⟩
  · cases line with
    | record found =>
      cases hline
      rfl
    | malformed => cases hline

theorem readPayload_ok {envelope : Envelope} {bytes : List UInt8}
    (h : s.readPayload hashing envelope = .ok bytes) :
    s.payloads envelope.payloadDigest = some bytes ∧ bytes.length = envelope.payloadBytes.toNat ∧
      hashing.ofBytes bytes = envelope.payloadDigest := by
  unfold Store.readPayload at h
  cases hget : s.payloads envelope.payloadDigest with
  | none =>
    simp only [hget] at h
    cases h
  | some found =>
    simp only [hget] at h
    obtain ⟨hmatch, h⟩ := guard_ok.mp h
    cases h
    rw [not_or, not_not, not_not] at hmatch
    exact ⟨rfl, hmatch.1, hmatch.2⟩

theorem admission_iff {submission : Submission} {bytes : List UInt8} {now : Instant}
    {decision : Admission} {writes : List Write} :
    s.admission hashing submission bytes now = .ok (decision, writes) ↔
      hashing.ofBytes bytes = submission.payloadDigest ∧
        bytes.length = submission.payloadBytes.toNat ∧
          ∃ records scope projection, s.loadAll = .ok records ∧ records.scope = some scope ∧
            foldWithHistory hashing scope records.history records.envelopes records.receipts now =
                .ok projection ∧
              projection.findings.any ProjectionFinding.isCorrupt = false ∧
                admitSubmission hashing scope projection submission now = .ok decision ∧
                  s.plan hashing records bytes now decision = .ok writes := by
  unfold Store.admission
  rw [guard_ok, not_or, not_not, not_not, and_assoc]
  refine and_congr_right fun _ => and_congr_right fun _ => ⟨fun h => ?_, ?_⟩
  · obtain ⟨records, hload, h⟩ := bind_ok h
    cases hscope : records.scope with
    | none =>
      simp only [hscope] at h
      cases h
    | some scope =>
      simp only [hscope] at h
      obtain ⟨projection, hfold, h⟩ := bind_ok h
      obtain ⟨hsound, h⟩ := guard_ok.mp h
      obtain ⟨found, hadmit, h⟩ := bind_ok h
      obtain ⟨planned, hplan, h⟩ := bind_ok h
      cases h
      exact ⟨records, scope, projection, hload, hscope, mapError_ok hfold, Bool.eq_false_of_not_eq_true hsound,
        mapError_ok hadmit, hplan⟩
  · rintro ⟨records, scope, projection, hload, hscope, hfold, hsound, hadmit, hplan⟩
    rw [hload]
    simp only [bind, Except.bind, hscope, hfold, hadmit, hplan, Except.mapError, hsound, Bool.false_eq_true,
      if_false]

end Records

section Writes

variable {hashing} {s : Store}

def Write.envelope? : Write → Option Envelope
  | .envelope published => some published
  | .history _ _ | .scope _ | .payload _ _ | .note _ _ | .receipt _ => none

theorem putBytes_ok {files files' : Hash → Option (List UInt8)} {digest : Hash} {bytes : List UInt8}
    (h : putBytes hashing files digest bytes = .ok files') :
    hashing.ofBytes bytes = digest ∧
      ((files digest = none ∧ files' = Function.update files digest (some bytes)) ∨
        (∃ existing, files digest = some existing ∧ hashing.ofBytes existing = digest ∧ files' = files)) := by
  obtain ⟨hdigest, h⟩ := guard_ok.mp h
  refine ⟨of_not_not hdigest, ?_⟩
  cases hget : files digest with
  | none =>
    simp only [hget] at h
    cases h
    exact Or.inl ⟨rfl, rfl⟩
  | some existing =>
    simp only [hget] at h
    obtain ⟨hexisting, h⟩ := guard_ok.mp h
    cases h
    exact Or.inr ⟨existing, rfl, of_not_not hexisting, rfl⟩

theorem putBytes_again {files files' : Hash → Option (List UInt8)} {digest : Hash} {bytes : List UInt8}
    (h : putBytes hashing files digest bytes = .ok files') :
    putBytes hashing files' digest bytes = .ok files' := by
  obtain ⟨hdigest, ⟨_, rfl⟩ | ⟨existing, hget, hexisting, rfl⟩⟩ := putBytes_ok h
  · unfold putBytes
    rw [if_neg (not_not.mpr hdigest), Function.update_self]
    exact if_neg (not_not.mpr hdigest)
  · exact h

theorem putEnvelope_created {envelope : Envelope} {s' : Store}
    (h : s.write hashing (.envelope envelope) = .ok s') :
    (∃ bytes, s.readPayload hashing envelope = .ok bytes) ∧ envelope.key ∉ s.envelopes.map Envelope.key ∧
      s' = { s with envelopes := s.envelopes ++ [envelope] } := by
  obtain ⟨⟨put, outcome⟩, hput, h⟩ := bind_ok h
  obtain ⟨bytes, hread, hput⟩ := bind_ok hput
  cases hget : Keyed.get Envelope.key envelope.key s.envelopes with
  | none =>
    simp only [hget] at hput
    cases hput
    cases h
    exact ⟨⟨bytes, hread⟩, Keyed.get_none.mp hget, rfl⟩
  | some existing =>
    simp only [hget] at hput
    split at hput
    · cases hput
      cases h
    · cases hput

theorem appendLine_envelopes {key : MessageKey} {line : ReceiptLine} {newline : Bool} :
    (s.appendLine key line newline).envelopes = s.envelopes := by
  rw [Store.appendLine]
  split <;> rfl

theorem write_envelopes {write : Write} {s' : Store} (h : s.write hashing write = .ok s') :
    s'.envelopes = s.envelopes ++ write.envelope?.toList := by
  cases write with
  | envelope envelope =>
    obtain ⟨_, _, rfl⟩ := putEnvelope_created h
    rfl
  | history revision scope =>
    rw [Store.write] at h
    split at h <;>
    · cases h
      exact (List.append_nil _).symm
  | scope scope =>
    cases h
    exact (List.append_nil _).symm
  | payload digest bytes | note digest bytes =>
    obtain ⟨files, _, rfl⟩ := map_ok h
    exact (List.append_nil _).symm
  | receipt receipt =>
    cases h
    exact appendLine_envelopes.trans (List.append_nil _).symm

def Write.onMessage : Write → Bool
  | .history _ _ | .scope _ => false
  | .payload _ _ | .note _ _ | .envelope _ | .receipt _ => true

theorem appendLine_scope {key : MessageKey} {line : ReceiptLine} {newline : Bool} :
    (s.appendLine key line newline).scope = s.scope ∧ (s.appendLine key line newline).scopes = s.scopes := by
  rw [Store.appendLine]
  split <;> exact ⟨rfl, rfl⟩

theorem write_scope {write : Write} {s' : Store} (hwrite : write.onMessage = true)
    (h : s.write hashing write = .ok s') : s'.scope = s.scope ∧ s'.scopes = s.scopes := by
  cases write with
  | history revision scope | scope scope => cases hwrite
  | payload digest bytes | note digest bytes =>
    obtain ⟨files, _, rfl⟩ := map_ok h
    exact ⟨rfl, rfl⟩
  | envelope envelope =>
    obtain ⟨_, _, rfl⟩ := putEnvelope_created h
    exact ⟨rfl, rfl⟩
  | receipt receipt =>
    cases h
    exact appendLine_scope

variable (hashing) in
def Ready (R : Store → Write → Prop) : Store → List Write → Prop
  | _, [] => True
  | s, write :: rest => R s write ∧ ∀ s', s.write hashing write = .ok s' → Ready R s' rest

variable {R : Store → Write → Prop} {P : Store → Prop}

theorem ready_of_forall {writes : List Write} (h : ∀ write ∈ writes, ∀ s, R s write) (s : Store) :
    Ready hashing R s writes := by
  induction writes generalizing s with
  | nil => trivial
  | cons write rest ih =>
    obtain ⟨hwrite, hrest⟩ := List.forall_mem_cons.mp h
    exact ⟨hwrite s, fun s' _ => ih hrest s'⟩

theorem Ready.take {writes : List Write} (h : Ready hashing R s writes) (n : Nat) :
    Ready hashing R s (writes.take n) := by
  induction writes generalizing s n with
  | nil =>
    rw [List.take_nil]
    trivial
  | cons write rest ih =>
    cases n with
    | zero => trivial
    | succ n => exact ⟨h.1, fun s' hs' => ih (h.2 s' hs') n⟩

theorem writeAll_preserves (hwrite : ∀ s write s', P s → R s write → s.write hashing write = .ok s' → P s')
    {writes : List Write} (hready : Ready hashing R s writes) (hs : P s) : P (s.writeAll hashing writes).1 := by
  induction writes generalizing s with
  | nil => exact hs
  | cons write rest ih =>
    rw [Store.writeAll]
    cases hnext : s.write hashing write with
    | error e => exact hs
    | ok s' => exact ih (hready.2 s' hnext) (hwrite s write s' hs hready.1 hnext)

theorem Ready.at_crash {writes : List Write} (h : Ready hashing R s writes) {n : Nat} {s' : Store} {write : Write}
    (hdone : s.writeAll hashing (writes.take n) = (s', .ok ())) (hwrite : writes[n]? = some write) :
    R s' write := by
  induction writes generalizing s n with
  | nil => cases hwrite
  | cons first rest ih =>
    cases n with
    | zero =>
      cases hdone
      cases hwrite
      exact h.1
    | succ n =>
      rw [List.take_succ_cons, Store.writeAll] at hdone
      cases hfirst : s.write hashing first with
      | error e =>
        simp only [hfirst] at hdone
        cases hdone
      | ok next =>
        simp only [hfirst] at hdone
        exact ih (h.2 next hfirst) hdone hwrite

theorem perform_preserves {α : Type} {answer : α} {crash : Option Crash} {writes : List Write}
    (hwrite : ∀ s write s', P s → R s write → s.write hashing write = .ok s' → P s')
    (hcut : ∀ s' write hit, P s' → R s' write → crash = some hit → writes[hit.writes]? = some write →
      s.writeAll hashing (writes.take hit.writes) = (s', .ok ()) → P (s'.cut write hit.cut))
    (hready : Ready hashing R s writes) (hs : P s) : P (s.perform hashing writes answer crash).1 := by
  cases crash with
  | none => exact writeAll_preserves hwrite hready hs
  | some hit =>
    have hdone := writeAll_preserves hwrite (hready.take hit.writes) hs
    rw [Store.perform, Store.interrupted]
    cases hrun : s.writeAll hashing (writes.take hit.writes) with
    | mk s' outcome =>
      rw [hrun] at hdone
      cases outcome with
      | error e => exact hdone
      | ok _ =>
        cases hget : writes[hit.writes]? with
        | none => exact hdone
        | some write => exact hcut s' write hit hdone (hready.at_crash hrun hget) rfl hget hrun

theorem writeAll_cons {write : Write} {s' : Store} (h : s.write hashing write = .ok s') (rest : List Write) :
    s.writeAll hashing (write :: rest) = s'.writeAll hashing rest := by
  rw [Store.writeAll, h]

theorem writeAll_cons_ok {write : Write} {rest : List Write} {t : Store}
    (h : s.writeAll hashing (write :: rest) = (t, .ok ())) :
    ∃ s', s.write hashing write = .ok s' ∧ s'.writeAll hashing rest = (t, .ok ()) := by
  rw [Store.writeAll] at h
  cases hwrite : s.write hashing write with
  | error e =>
    simp only [hwrite] at h
    cases h
  | ok s' =>
    simp only [hwrite] at h
    exact ⟨s', rfl, h⟩

theorem writeAll_append {writes : List Write} {s' : Store} (h : s.writeAll hashing writes = (s', .ok ()))
    (rest : List Write) : s.writeAll hashing (writes ++ rest) = s'.writeAll hashing rest := by
  induction writes generalizing s with
  | nil =>
    cases h
    rfl
  | cons write more ih =>
    obtain ⟨next, hwrite, hmore⟩ := writeAll_cons_ok h
    rw [List.cons_append, writeAll_cons hwrite]
    exact ih hmore

theorem submit_iff {submission : Submission} {bytes : List UInt8} {now : Instant} {t : Store}
    {decision : Admission} :
    s.submit hashing submission bytes now none = (t, .ok decision) ↔
      ∃ writes, s.admission hashing submission bytes now = .ok (decision, writes) ∧
        s.writeAll hashing writes = (t, .ok ()) := by
  rw [Store.submit]
  cases hadmission : s.admission hashing submission bytes now with
  | error e => exact ⟨fun h => (nomatch h), fun ⟨_, h, _⟩ => (nomatch h)⟩
  | ok decided =>
    obtain ⟨found, writes⟩ := decided
    dsimp only
    rw [Store.perform]
    cases hwrites : s.writeAll hashing writes with
    | mk s' outcome =>
      cases outcome with
      | error e =>
        refine ⟨fun h => (nomatch h), fun ⟨_, h, hdone⟩ => ?_⟩
        cases h
        rw [hwrites] at hdone
        cases hdone
      | ok _ =>
        constructor
        · intro h
          cases h
          exact ⟨writes, rfl, hwrites⟩
        · rintro ⟨_, h, hdone⟩
          cases h
          rw [hwrites] at hdone
          cases hdone
          rfl

theorem appendLine_key (s : Store) (key : MessageKey) (line : ReceiptLine) (newline : Bool) :
    key ∈ (s.appendLine key line newline).receipts.map ReceiptFile.key := by
  rw [Store.appendLine]
  cases hget : Keyed.get ReceiptFile.key key s.receipts with
  | none =>
    rw [List.map_append]
    exact List.mem_append_right _ (List.mem_singleton_self _)
  | some file =>
    obtain ⟨hmem, rfl⟩ := Keyed.get_mem hget
    dsimp only
    rw [Keyed.keys_set]
    exact List.mem_map_of_mem hmem

theorem malformed_mem_append (file : ReceiptFile) (newline : Bool) :
    ReceiptLine.malformed ∈ (file.append .malformed newline).lines := by
  rw [ReceiptFile.append]
  split <;> exact List.mem_append_right _ (List.mem_singleton_self _)

theorem malformed_mem_appendLine (s : Store) (key : MessageKey) (newline : Bool) :
    ReceiptLine.malformed ∈ (s.appendLine key .malformed newline).lines := by
  rw [Store.appendLine, Store.lines]
  cases hget : Keyed.get ReceiptFile.key key s.receipts with
  | none =>
    refine List.mem_flatMap.mpr ⟨_, List.mem_append_right _ (List.mem_singleton_self _), ?_⟩
    exact List.mem_singleton_self _
  | some file =>
    refine List.mem_flatMap.mpr ⟨file.append .malformed newline, ?_, malformed_mem_append file newline⟩
    have hkey : (file.append .malformed newline).key = file.key := by
      rw [ReceiptFile.append]
      split <;> rfl
    refine List.mem_map.mpr ⟨file, (Keyed.get_mem hget).1, if_pos hkey.symm⟩

theorem admission_malformed {submission : Submission} {bytes : List UInt8} {now : Instant}
    {decision : Admission} {writes : List Write} (hline : ReceiptLine.malformed ∈ s.lines) :
    s.admission hashing submission bytes now ≠ .ok (decision, writes) := by
  intro h
  obtain ⟨_, _, records, _, _, hload, _⟩ := (admission_iff hashing).mp h
  rw [(loadAll_ok hload).1] at hline
  obtain ⟨receipt, _, hrecord⟩ := List.mem_map.mp hline
  cases hrecord

theorem cut_envelopes (write : Write) (cut : Cut) : (s.cut write cut).envelopes = s.envelopes := by
  unfold Store.cut
  split
  · exact appendLine_envelopes
  · exact appendLine_envelopes
  · rfl

theorem cut_scope (write : Write) (cut : Cut) :
    (s.cut write cut).scope = s.scope ∧ (s.cut write cut).scopes = s.scopes := by
  unfold Store.cut
  split
  · exact appendLine_scope
  · exact appendLine_scope
  · exact ⟨rfl, rfl⟩

variable (hashing) in
theorem perform_envelopes {α : Type} (s : Store) (writes : List Write) (answer : α) (crash : Option Crash) :
    s.envelopes <+: (s.perform hashing writes answer crash).1.envelopes := by
  refine perform_preserves (P := fun t => s.envelopes <+: t.envelopes) (R := fun _ _ => True)
    (fun t write t' ht _ hwrite => ?_) (fun t write hit ht _ _ _ _ => ?_)
    (ready_of_forall (fun _ _ _ => trivial) s) (List.prefix_refl _)
  · rw [write_envelopes hwrite]
    exact ht.trans (List.prefix_append _ _)
  · rw [cut_envelopes]
    exact ht

theorem perform_envelopes_same {α : Type} {s : Store} {writes : List Write} {answer : α} {crash : Option Crash}
    (hready : Ready hashing (fun _ write => write.envelope? = none) s writes) :
    (s.perform hashing writes answer crash).1.envelopes = s.envelopes := by
  refine perform_preserves (P := fun t => t.envelopes = s.envelopes) (fun t write t' ht hnone hwrite => ?_)
    (fun t write hit ht _ _ _ _ => (cut_envelopes write hit.cut).trans ht) hready rfl
  rw [write_envelopes hwrite, hnone, ht]
  exact List.append_nil _

theorem perform_scope {α : Type} {s : Store} {writes : List Write} {answer : α} {crash : Option Crash}
    (hwrites : ∀ write ∈ writes, write.onMessage = true) :
    (s.perform hashing writes answer crash).1.scope = s.scope ∧
      (s.perform hashing writes answer crash).1.scopes = s.scopes := by
  refine perform_preserves (P := fun t => t.scope = s.scope ∧ t.scopes = s.scopes)
    (R := fun _ write => write.onMessage = true) (fun t write t' ht hmessage hwrite => ?_)
    (fun t write hit ht _ _ _ _ => ?_) (ready_of_forall (fun write hmem _ => hwrites write hmem) s) ⟨rfl, rfl⟩
  · obtain ⟨hscope, hscopes⟩ := write_scope hmessage hwrite
    exact ⟨hscope.trans ht.1, hscopes.trans ht.2⟩
  · obtain ⟨hscope, hscopes⟩ := cut_scope (s := t) write hit.cut
    exact ⟨hscope.trans ht.1, hscopes.trans ht.2⟩

end Writes

section Submit

variable (hashing : Hashing)

def admissionWrites (envelope : Envelope) (bytes : List UInt8) : List Write :=
  [.payload envelope.payloadDigest bytes, .envelope envelope,
    .receipt (Receipt.forEnvelope envelope .boundary envelope.admittedAt .admitted)]

/-- What a submission found that passed the checks that know nothing of other messages. -/
structure Decided (s : Store) (submission : Submission) (bytes : List UInt8) (scope : WorkScope)
    (current : ScopeRevision) (earlier : List (ScopeRevision × WorkScope)) : Prop where
  declared : s.scope = some scope
  required : submission.require hashing scope = .ok current
  history : revisions hashing (s.scopes.map Prod.snd) = .ok earlier
  digest : hashing.ofBytes bytes = submission.payloadDigest
  length : bytes.length = submission.payloadBytes.toNat

structure Known (s : Store) (submission : Submission) (scope : WorkScope) (envelope : Envelope) : Prop where
  mem : envelope ∈ s.envelopes
  key : envelope.key = submission.messageKey hashing
  retry : retryMatches envelope submission scope.budget.defaultTtlSecs = true

/-- The submission is a new message. -/
structure New (s : Store) (submission : Submission) (scope : WorkScope) (current : ScopeRevision)
    (now : Instant) (envelope : Envelope) : Prop where
  key : submission.messageKey hashing ∉ s.envelopes.map Envelope.key
  budget : ∃ p : WorkProjection, (p.envelopes.map EnvelopeView.envelope).Perm s.envelopes ∧
    p.withinBudget scope.budget submission = .ok ()
  envelope : ∃ expiresAt, expiry (submission.ttlSecs.getD scope.budget.defaultTtlSecs) now = .ok expiresAt ∧
    envelope = submission.envelope scope current (submission.messageKey hashing) expiresAt now

variable {hashing} {s : Store} {submission : Submission} {bytes : List UInt8} {now : Instant}

theorem admission_cases (hkeys : (s.envelopes.map Envelope.key).Nodup) {decision : Admission}
    {writes : List Write} (h : s.admission hashing submission bytes now = .ok (decision, writes)) :
    ∃ records scope current earlier, s.loadAll = .ok records ∧
      Decided hashing s submission bytes scope current earlier ∧
        ((∃ envelope, Known hashing s submission scope envelope ∧ decision = .duplicate envelope ∧
            (writes = [] ∧ records.receipts.any (isAdmittedReceipt envelope.key) = true ∨
              writes = [.receipt (Receipt.forEnvelope envelope .boundary envelope.admittedAt .admitted)] ∧
                records.receipts.any (isAdmittedReceipt envelope.key) = false)) ∨
          ∃ envelope, New hashing s submission scope current now envelope ∧ decision = .admitNew envelope ∧
            writes = admissionWrites envelope bytes) := by
  obtain ⟨hdigest, hlength, records, scope, projection, hload, hscope, hfold, _, hadmit, hplan⟩ :=
    (admission_iff hashing).mp h
  obtain ⟨_, hrecords⟩ := loadAll_ok hload
  rw [hrecords] at hscope hfold
  obtain ⟨earlier, _, hearlier, hfolded⟩ := foldWithHistory_ok hkeys hfold
  obtain ⟨current, hrequire, hcases⟩ := admit_iff.mp hadmit
  refine ⟨records, scope, current, earlier, hload, ⟨hscope, hrequire, hearlier, hdigest, hlength⟩, ?_⟩
  obtain ⟨view, hget, hretry, rfl⟩ | ⟨hget, _, hbudget, expiresAt, hexpiry, rfl⟩ := hcases
  · obtain ⟨_, hmem, hkey⟩ := hfolded.get_some hget
    refine Or.inl ⟨view.envelope, ⟨hmem, hkey, hretry⟩, rfl, ?_⟩
    obtain ⟨_, _, hplan⟩ := bind_ok hplan
    split at hplan
    · rename_i hadmitted
      cases hplan
      exact Or.inl ⟨rfl, hadmitted⟩
    · rename_i hadmitted
      cases hplan
      exact Or.inr ⟨rfl, Bool.eq_false_of_not_eq_true hadmitted⟩
  · cases hplan
    exact Or.inr ⟨_, ⟨hfolded.get_none.mp hget, ⟨projection, hfolded.perm, hbudget⟩, expiresAt, hexpiry, rfl⟩,
      rfl, rfl⟩

variable (hashing) in
theorem perform_admission (s : Store) (envelope : Envelope) (bytes : List UInt8) (decision : Admission)
    (crash : Option Crash) :
    (s.perform hashing (admissionWrites envelope bytes) decision crash).1.envelopes =
        s.envelopes ++ [envelope] ∨
      (s.perform hashing (admissionWrites envelope bytes) decision crash).1 = s ∨
        s.putPayload hashing envelope.payloadDigest bytes =
          .ok (s.perform hashing (admissionWrites envelope bytes) decision crash).1 := by
  refine perform_preserves (P := fun t => t.envelopes = s.envelopes ++ [envelope] ∨ t = s ∨
      s.putPayload hashing envelope.payloadDigest bytes = .ok t)
    (R := fun t write => (write.envelope? = some envelope ∧ t.envelopes = s.envelopes) ∨
      (write.envelope? = none ∧ t.envelopes = s.envelopes ++ [envelope]) ∨
        t = s ∧ write = .payload envelope.payloadDigest bytes)
    (fun t write t' ht hturn hwrite => ?_) (fun t write hit ht hturn hhit hget _ => ?_) ?_ (Or.inr (Or.inl rfl))
  · obtain ⟨hpublish, hsame⟩ | ⟨hnone, hpublished⟩ | ⟨rfl, rfl⟩ := hturn
    · rw [write_envelopes hwrite, hpublish, hsame]
      exact Or.inl rfl
    · rw [write_envelopes hwrite, hnone, hpublished]
      exact Or.inl (List.append_nil _)
    · exact Or.inr (Or.inr hwrite)
  · obtain ⟨hpublish, _⟩ | ⟨_, hpublished⟩ | ⟨rfl, rfl⟩ := hturn
    · cases write with
      | envelope published => exact ht
      | history _ _ | scope _ | payload _ _ | note _ _ | receipt _ => cases hpublish
    · rw [cut_envelopes]
      exact Or.inl hpublished
    · exact ht
  · refine ⟨Or.inr (Or.inr ⟨rfl, rfl⟩), fun s₁ h₁ => ⟨Or.inl ⟨rfl, ?_⟩, fun s₂ h₂ =>
      ⟨Or.inr (Or.inl ⟨rfl, ?_⟩), fun _ _ => trivial⟩⟩⟩
    · exact (write_envelopes h₁).trans (List.append_nil _)
    · rw [write_envelopes h₂, write_envelopes h₁]
      exact congrArg (· ++ [envelope]) (List.append_nil _)

theorem admission_onMessage {writes : List Write} {decision : Admission}
    (h : s.admission hashing submission bytes now = .ok (decision, writes)) :
    ∀ write ∈ writes, write.onMessage = true := by
  obtain ⟨_, _, _, _, _, _, _, _, _, _, hplan⟩ := (admission_iff hashing).mp h
  cases decision with
  | admitNew envelope =>
    cases hplan
    simp only [List.forall_mem_cons, Write.onMessage, List.not_mem_nil, false_implies, implies_true, and_self]
  | duplicate envelope =>
    obtain ⟨_, _, hplan⟩ := bind_ok hplan
    split at hplan <;>
    · cases hplan
      simp only [List.forall_mem_cons, Write.onMessage, List.not_mem_nil, false_implies, implies_true, and_self]

variable (hashing) in
theorem submit_scope (s : Store) (submission : Submission) (bytes : List UInt8) (now : Instant)
    (crash : Option Crash) :
    (s.submit hashing submission bytes now crash).1.scope = s.scope ∧
      (s.submit hashing submission bytes now crash).1.scopes = s.scopes := by
  rw [Store.submit]
  cases hadmission : s.admission hashing submission bytes now with
  | error e => exact ⟨rfl, rfl⟩
  | ok decided => exact perform_scope (admission_onMessage hadmission)

theorem submit_envelopes (hkeys : (s.envelopes.map Envelope.key).Nodup) (submission : Submission) (bytes : List UInt8)
    (now : Instant) (crash : Option Crash) :
    (s.submit hashing submission bytes now crash).1.envelopes = s.envelopes ∨
      ∃ scope current earlier envelope, Decided hashing s submission bytes scope current earlier ∧
        New hashing s submission scope current now envelope ∧
          (s.submit hashing submission bytes now crash).1.envelopes = s.envelopes ++ [envelope] := by
  cases hadmission : s.admission hashing submission bytes now with
  | error e =>
    rw [Store.submit, hadmission]
    exact Or.inl rfl
  | ok decided =>
    obtain ⟨found, writes⟩ := decided
    rw [Store.submit, hadmission]
    dsimp only
    obtain ⟨_, scope, current, earlier, _, hdecided, ⟨known, _, _, hwrites⟩ | ⟨envelope, hnew, _, rfl⟩⟩ :=
      admission_cases hkeys hadmission
    · refine Or.inl (perform_envelopes_same ?_)
      obtain ⟨rfl, _⟩ | ⟨rfl, _⟩ := hwrites
      · trivial
      · exact ⟨rfl, fun _ _ => trivial⟩
    · obtain hpublished | hsame | hput := perform_admission hashing s envelope bytes found crash
      · exact Or.inr ⟨scope, current, earlier, envelope, hdecided, hnew, hpublished⟩
      · exact Or.inl (congrArg Store.envelopes hsame)
      · have hwrite : s.write hashing (.payload envelope.payloadDigest bytes) = _ := hput
        exact Or.inl ((write_envelopes hwrite).trans (List.append_nil _))

end Submit

end Cosmon.State.WorkStore
