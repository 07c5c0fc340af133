import Cosmon.State.WorkStore
import Mathlib.Data.Set.List

namespace Cosmon.State.WorkRuns

open Cosmon.State.Molecule Cosmon.Core.WorkMessage Cosmon.Core.WorkProjection
open Cosmon.State.WorkStore Cosmon.Lib Cosmon.Lib.Checks Cosmon.Lib.Runs

section Sound

variable (hashing : Hashing)

/-- A store without a torn line: each envelope has its payload, and each file of receipts
is the admission of an envelope. -/
structure Sound (s : Store) : Prop where
  keys : (s.envelopes.map Envelope.key).Nodup
  payloads : ∀ envelope ∈ s.envelopes, ∃ bytes, s.readPayload hashing envelope = .ok bytes
  receipts : ∀ file ∈ s.receipts, ∃ envelope ∈ s.envelopes, file.key = envelope.key ∧
    ∃ instant, file.lines = [.record (Receipt.forEnvelope envelope .boundary instant .admitted)]
  files : (s.receipts.map ReceiptFile.key).Nodup

def Fresh (s : Store) : Write → Prop
  | .receipt receipt => receipt.key ∉ s.receipts.map ReceiptFile.key ∧
      ∃ envelope ∈ s.envelopes, ∃ instant, receipt = Receipt.forEnvelope envelope .boundary instant .admitted
  | .history _ _ | .scope _ | .payload _ _ | .note _ _ | .envelope _ => True

variable {hashing} {s : Store}

theorem appendLine_new {key : MessageKey} (h : key ∉ s.receipts.map ReceiptFile.key) (line : ReceiptLine)
    (newline : Bool) :
    s.appendLine key line newline = { s with receipts := s.receipts ++ [⟨key, [line], newline⟩] } := by
  rw [Store.appendLine, Keyed.get_none.mpr h]

theorem Sound.receipt (hs : Sound hashing s) {receipt : Receipt} (h : Fresh s (.receipt receipt))
    (newline : Bool) : Sound hashing (s.appendLine receipt.key (.record receipt) newline) := by
  obtain ⟨hnew, envelope, hmem, instant, rfl⟩ := h
  rw [appendLine_new hnew]
  refine ⟨hs.keys, hs.payloads, fun file hfile => ?_, ?_⟩
  · obtain hold | hlast := List.mem_append.mp hfile
    · exact hs.receipts file hold
    · rw [List.mem_singleton.mp hlast]
      exact ⟨envelope, hmem, rfl, instant, rfl⟩
  · exact Keyed.nodup_append hs.files hnew

theorem readPayload_congr {s' : Store} {envelope : Envelope}
    (h : s'.payloads envelope.payloadDigest = s.payloads envelope.payloadDigest) :
    s'.readPayload hashing envelope = s.readPayload hashing envelope := by
  unfold Store.readPayload
  rw [h]

theorem readPayload_put {s' : Store} {digest : Hash} {bytes : List UInt8}
    (h : s.putPayload hashing digest bytes = .ok s') {envelope : Envelope} {payload : List UInt8}
    (hread : s.readPayload hashing envelope = .ok payload) :
    s'.readPayload hashing envelope = .ok payload := by
  obtain ⟨files, hput, rfl⟩ := map_ok h
  obtain ⟨hget, _⟩ := readPayload_ok hashing hread
  refine (readPayload_congr ?_).trans hread
  obtain ⟨_, ⟨hnone, rfl⟩ | ⟨_, _, _, rfl⟩⟩ := putBytes_ok hput
  · refine Function.update_of_ne (fun heq => ?_) _ _
    rw [heq, hnone] at hget
    cases hget
  · rfl

theorem Sound.write (hs : Sound hashing s) {write : Write} {s' : Store} (hfresh : Fresh s write)
    (h : s.write hashing write = .ok s') : Sound hashing s' := by
  cases write with
  | history revision scope =>
    rw [Store.write] at h
    split at h <;>
    · cases h
      exact ⟨hs.keys, hs.payloads, hs.receipts, hs.files⟩
  | scope scope =>
    cases h
    exact ⟨hs.keys, hs.payloads, hs.receipts, hs.files⟩
  | payload digest bytes =>
    have hpayloads : ∀ envelope ∈ s.envelopes, ∃ bytes, s'.readPayload hashing envelope = .ok bytes := by
      intro envelope hmem
      obtain ⟨payload, hpayload⟩ := hs.payloads envelope hmem
      exact ⟨payload, readPayload_put h hpayload⟩
    obtain ⟨files, _, rfl⟩ := map_ok h
    exact ⟨hs.keys, hpayloads, hs.receipts, hs.files⟩
  | note digest bytes =>
    obtain ⟨files, _, rfl⟩ := map_ok h
    exact ⟨hs.keys, hs.payloads, hs.receipts, hs.files⟩
  | envelope envelope =>
    obtain ⟨hpayload, hnew, rfl⟩ := putEnvelope_created h
    refine ⟨Keyed.nodup_append hs.keys hnew, fun other hother => ?_, fun file hfile => ?_, hs.files⟩
    · obtain hold | hlast := List.mem_append.mp hother
      · exact hs.payloads other hold
      · rw [List.mem_singleton.mp hlast]
        exact hpayload
    · obtain ⟨known, hmem, hrest⟩ := hs.receipts file hfile
      exact ⟨known, List.mem_append_left _ hmem, hrest⟩
  | receipt receipt =>
    cases h
    exact hs.receipt hfresh true

theorem Sound.cut (hs : Sound hashing s) {write : Write} (hfresh : Fresh s write) {cut : Cut}
    (hcut : ∀ receipt, write = .receipt receipt → cut ≠ .torn) : Sound hashing (s.cut write cut) := by
  unfold Store.cut
  split
  · exact absurd rfl (hcut _ rfl)
  · exact hs.receipt hfresh false
  · exact hs

theorem Sound.loadAll (hs : Sound hashing s) : ∃ receipts,
    s.loadAll = .ok ⟨s.scope, s.envelopes, receipts, s.scopes.map Prod.snd⟩ ∧
      (∀ receipt ∈ receipts, ∃ envelope ∈ s.envelopes, receipt.Fits envelope) ∧
        ∀ key, receipts.any (isAdmittedReceipt key) = true ↔ key ∈ s.receipts.map ReceiptFile.key := by
  have hrecord : ∀ line ∈ s.lines, line ∈ Set.range ReceiptLine.record := by
    intro line hline
    obtain ⟨file, hfile, hline⟩ := List.mem_flatMap.mp hline
    obtain ⟨envelope, _, _, instant, hlines⟩ := hs.receipts file hfile
    rw [hlines, List.mem_singleton] at hline
    exact ⟨_, hline.symm⟩
  obtain ⟨receipts, hlines⟩ : s.lines ∈ Set.range (List.map ReceiptLine.record) := by
    rw [Set.range_list_map]
    exact hrecord
  have hmem (receipt : Receipt) : receipt ∈ receipts ↔
      ∃ file ∈ s.receipts, ReceiptLine.record receipt ∈ file.lines := by
    rw [← List.mem_flatMap, ← Store.lines, ← hlines, List.mem_map_of_injective fun _ _ h => by
      injection h]
  refine ⟨receipts, loadAll_of_records hlines.symm, fun receipt hreceipt => ?_, fun key => ?_⟩
  · obtain ⟨file, hfile, hline⟩ := (hmem receipt).mp hreceipt
    obtain ⟨envelope, henvelope, _, instant, hfileLines⟩ := hs.receipts file hfile
    rw [hfileLines, List.mem_singleton] at hline
    cases hline
    exact ⟨envelope, henvelope, rfl, rfl, by intro h; cases h⟩
  · rw [List.any_eq_true, List.mem_map]
    constructor
    · rintro ⟨receipt, hreceipt, hadmitted⟩
      obtain ⟨file, hfile, hline⟩ := (hmem receipt).mp hreceipt
      obtain ⟨envelope, _, hkey, instant, hfileLines⟩ := hs.receipts file hfile
      rw [hfileLines, List.mem_singleton] at hline
      cases hline
      rw [isAdmittedReceipt, Bool.and_eq_true, decide_eq_true_eq] at hadmitted
      exact ⟨file, hfile, hkey.trans hadmitted.1⟩
    · rintro ⟨file, hfile, rfl⟩
      obtain ⟨envelope, _, hkey, instant, hfileLines⟩ := hs.receipts file hfile
      refine ⟨_, (hmem _).mpr ⟨file, hfile, hfileLines ▸ List.mem_singleton_self _⟩, ?_⟩
      rw [isAdmittedReceipt, Bool.and_eq_true, decide_eq_true_eq]
      exact ⟨hkey.symm, rfl⟩

end Sound

section Submit

variable {hashing : Hashing} {s : Store} {submission : Submission} {bytes : List UInt8} {now : Instant}
  {scope : WorkScope} {current : ScopeRevision} {earlier : List (ScopeRevision × WorkScope)}

theorem Sound.admission (hs : Sound hashing s) {decision : Admission} {writes : List Write}
    (h : s.admission hashing submission bytes now = .ok (decision, writes)) :
    ∃ scope current earlier, Decided hashing s submission bytes scope current earlier ∧
      ((∃ envelope, Known hashing s submission scope envelope ∧ decision = .duplicate envelope ∧
          (writes = [] ∧ envelope.key ∈ s.receipts.map ReceiptFile.key ∨
            writes = [.receipt (Receipt.forEnvelope envelope .boundary envelope.admittedAt .admitted)] ∧
              envelope.key ∉ s.receipts.map ReceiptFile.key)) ∨
        ∃ envelope, New hashing s submission scope current now envelope ∧ decision = .admitNew envelope ∧
          writes = admissionWrites envelope bytes) := by
  obtain ⟨receipts, hload, _, hany⟩ := hs.loadAll
  obtain ⟨records, scope, current, earlier, hrecords, hdecided, hcases⟩ := admission_cases hs.keys h
  rw [hload] at hrecords
  cases hrecords
  refine ⟨scope, current, earlier, hdecided, hcases.imp_left ?_⟩
  rintro ⟨envelope, hknown, rfl, hwrites⟩
  refine ⟨envelope, hknown, rfl, hwrites.imp (And.imp_right fun hadmitted => (hany _).mp hadmitted)
    (And.imp_right fun hadmitted hmem => ?_)⟩
  rw [(hany _).mpr hmem] at hadmitted
  cases hadmitted

theorem Sound.fresh (hs : Sound hashing s) {decision : Admission} {writes : List Write}
    (h : s.admission hashing submission bytes now = .ok (decision, writes)) :
    Ready hashing Fresh s writes := by
  obtain ⟨scope, current, earlier, _, ⟨envelope, hknown, _, ⟨rfl, _⟩ | ⟨rfl, hnew⟩⟩ |
    ⟨envelope, hnew, _, rfl⟩⟩ := hs.admission h
  · trivial
  · exact ⟨⟨hnew, envelope, hknown.mem, envelope.admittedAt, rfl⟩, fun _ _ => trivial⟩
  · refine ⟨trivial, fun s₁ h₁ => ⟨trivial, fun s₂ h₂ => ⟨⟨fun hmem => hnew.key ?_, ?_⟩, fun _ _ => trivial⟩⟩⟩
    · obtain ⟨_, _, rfl⟩ := putEnvelope_created h₂
      obtain ⟨_, _, rfl⟩ := map_ok h₁
      obtain ⟨file, hfile, hkey⟩ := List.mem_map.mp hmem
      obtain ⟨known, hknown, hfileKey, _⟩ := hs.receipts file hfile
      obtain ⟨expiresAt, _, rfl⟩ := hnew.envelope
      exact List.mem_map.mpr ⟨known, hknown, hfileKey.symm.trans hkey⟩
    · obtain ⟨_, _, rfl⟩ := putEnvelope_created h₂
      exact ⟨envelope, List.mem_append_right _ (List.mem_singleton_self _), envelope.admittedAt, rfl⟩

/-- The crash hits the append of a receipt and leaves a part of its line. -/
def TearsReceipt (hashing : Hashing) (s : Store) (submission : Submission) (bytes : List UInt8)
    (now : Instant) (crash : Option Crash) : Prop :=
  ∃ hit decision writes receipt, crash = some hit ∧ hit.cut = .torn ∧
    s.admission hashing submission bytes now = .ok (decision, writes) ∧
      writes[hit.writes]? = some (.receipt receipt) ∧
        (s.writeAll hashing (writes.take hit.writes)).2 = .ok ()

theorem Sound.submit (hs : Sound hashing s) {crash : Option Crash}
    (hcrash : ¬TearsReceipt hashing s submission bytes now crash) :
    Sound hashing (s.submit hashing submission bytes now crash).1 := by
  rw [Store.submit]
  cases hadmission : s.admission hashing submission bytes now with
  | error e => exact hs
  | ok decided =>
    obtain ⟨decision, writes⟩ := decided
    refine perform_preserves (P := Sound hashing) (R := Fresh) (fun s write s' hs hfresh h => hs.write hfresh h)
      (fun s' write hit hs' hfresh hhit hget hdone => hs'.cut hfresh ?_) (hs.fresh hadmission) hs
    rintro receipt rfl htorn
    exact hcrash ⟨hit, decision, writes, receipt, hhit, htorn, hadmission, hget, by rw [hdone]⟩

def isAdmission (key : MessageKey) : ReceiptLine → Bool
  | .record receipt => isAdmittedReceipt key receipt
  | .malformed => false

/-- The store has one envelope of the key and one receipt of its admission. -/
def AdmittedOnce (s : Store) (key : MessageKey) : Prop :=
  (s.envelopes.map Envelope.key).count key = 1 ∧ s.lines.countP (isAdmission key) = 1

theorem Sound.admittedOnce (hs : Sound hashing s) {envelope : Envelope} (hmem : envelope ∈ s.envelopes)
    (hreceipt : envelope.key ∈ s.receipts.map ReceiptFile.key) : AdmittedOnce s envelope.key := by
  refine ⟨List.count_eq_one_of_mem hs.keys (List.mem_map_of_mem hmem), ?_⟩
  rw [← List.count_eq_one_of_mem hs.files hreceipt, Store.lines]
  have hfiles := hs.receipts
  generalize s.receipts = files at hfiles
  induction files with
  | nil => rfl
  | cons file rest ih =>
    obtain ⟨hfile, hrest⟩ := List.forall_mem_cons.mp hfiles
    obtain ⟨known, _, hkey, instant, hlines⟩ := hfile
    rw [List.flatMap_cons, List.countP_append, ih hrest, List.map_cons, List.count_cons, hlines, hkey,
      List.countP_singleton, Nat.add_comm]
    congr 1
    by_cases hsame : known.key = envelope.key <;>
      simp [isAdmission, isAdmittedReceipt, Receipt.forEnvelope, hsame]

theorem Sound.submit_ok (hs : Sound hashing s) {t : Store} {decision : Admission}
    (h : s.submit hashing submission bytes now none = (t, .ok decision)) :
    decision.envelope.key = submission.messageKey hashing ∧ AdmittedOnce t decision.envelope.key := by
  have ht : Sound hashing (s.submit hashing submission bytes now none).1 := by
    refine hs.submit ?_
    rintro ⟨_, _, _, _, hnone, _⟩
    cases hnone
  rw [h] at ht
  obtain ⟨writes, hadmission, hwrites⟩ := submit_iff.mp h
  obtain ⟨scope, current, earlier, _, ⟨envelope, hknown, rfl, ⟨rfl, hreceipt⟩ | ⟨rfl, _⟩⟩ |
    ⟨envelope, hnew, rfl, rfl⟩⟩ := hs.admission hadmission
  · cases hwrites
    exact ⟨hknown.key, ht.admittedOnce hknown.mem hreceipt⟩
  · obtain ⟨s₁, hreceipt, hdone⟩ := writeAll_cons_ok hwrites
    cases hdone
    cases hreceipt
    refine ⟨hknown.key, ht.admittedOnce ?_ (appendLine_key _ _ _ _)⟩
    rw [Store.appendReceipt, appendLine_envelopes]
    exact hknown.mem
  · obtain ⟨s₁, _, hrest⟩ := writeAll_cons_ok hwrites
    obtain ⟨s₂, hpublish, hrest⟩ := writeAll_cons_ok hrest
    obtain ⟨s₃, hreceipt, hdone⟩ := writeAll_cons_ok hrest
    obtain ⟨_, _, rfl⟩ := putEnvelope_created hpublish
    cases hdone
    cases hreceipt
    refine ⟨?_, ht.admittedOnce ?_ (appendLine_key _ _ _ _)⟩
    · obtain ⟨expiresAt, _, rfl⟩ := hnew.envelope
      rfl
    · rw [Store.appendReceipt, appendLine_envelopes]
      exact List.mem_append_right _ (List.mem_singleton_self _)

theorem Sound.submit_known (hs : Sound hashing s)
    (hdecided : Decided hashing s submission bytes scope current earlier) {envelope : Envelope}
    (hknown : Known hashing s submission scope envelope) (now : Instant) :
    ∃ t, s.submit hashing submission bytes now none = (t, .ok (.duplicate envelope)) := by
  obtain ⟨receipts, hload, hfits, _⟩ := hs.loadAll
  obtain ⟨payload, hpayload⟩ := hs.payloads envelope hknown.mem
  obtain ⟨projection, hfold⟩ := foldWithHistory_exists (require_ok hdecided.required).1 hdecided.history
    s.envelopes receipts now
  obtain ⟨_, _, _, hfolded⟩ := foldWithHistory_ok hs.keys hfold
  obtain ⟨view, hget, hview⟩ := hfolded.get_of_mem hs.keys hknown.mem
  rw [hknown.key] at hget
  have hadmit : admitSubmission hashing scope projection submission now = .ok (.duplicate envelope) :=
    admit_iff.mpr ⟨current, hdecided.required, Or.inl ⟨view, hget, hview ▸ hknown.retry, by rw [hview]⟩⟩
  have hadmission (writes : List Write) (hplan : s.plan hashing
      ⟨s.scope, s.envelopes, receipts, s.scopes.map Prod.snd⟩ bytes now (.duplicate envelope) = .ok writes) :
      s.admission hashing submission bytes now = .ok (.duplicate envelope, writes) :=
    (admission_iff hashing).mpr ⟨hdecided.digest, hdecided.length, _, scope, projection, hload,
      hdecided.declared, hfold, hfolded.sound.mpr hfits, hadmit, hplan⟩
  rw [Store.plan, hpayload] at hadmission
  cases hany : receipts.any (isAdmittedReceipt envelope.key) with
  | true => exact ⟨s, submit_iff.mpr ⟨_, hadmission [] (if_pos hany), rfl⟩⟩
  | false =>
    exact ⟨_, submit_iff.mpr ⟨_, hadmission _ (if_neg (Bool.eq_false_iff.mp hany)), rfl⟩⟩

theorem Sound.submit_put (hs : Sound hashing s) {t : Store}
    (hput : s.putPayload hashing submission.payloadDigest bytes = .ok t) {s₁ : Store} {decision : Admission}
    (h : s.submit hashing submission bytes now none = (s₁, .ok decision)) :
    ∃ t₁, t.submit hashing submission bytes now none = (t₁, .ok decision) := by
  obtain ⟨writes, hadmission, hwrites⟩ := submit_iff.mp h
  have hread {envelope : Envelope} {payload : List UInt8}
      (hpayload : s.readPayload hashing envelope = .ok payload) :
      t.readPayload hashing envelope = .ok payload := readPayload_put hput hpayload
  have hagain : t.putPayload hashing submission.payloadDigest bytes = .ok t := by
    obtain ⟨files, hfiles, rfl⟩ := map_ok hput
    rw [Store.putPayload, putBytes_again hfiles]
    rfl
  have hadmission' : t.admission hashing submission bytes now = .ok (decision, writes) := by
    obtain ⟨hdigest, hlength, records, scope, projection, hload, hscope, hfold, hsound, hadmit, hplan⟩ :=
      (admission_iff hashing).mp hadmission
    refine (admission_iff hashing).mpr
      ⟨hdigest, hlength, records, scope, projection, ?_, hscope, hfold, hsound, hadmit, ?_⟩
    · obtain ⟨files, _, rfl⟩ := map_ok hput
      exact hload
    · cases decision with
      | admitNew envelope => exact hplan
      | duplicate envelope =>
        obtain ⟨payload, hpayload, hplan⟩ := bind_ok hplan
        rw [Store.plan, hread hpayload]
        exact hplan
  obtain ⟨_, _, _, hdecided, ⟨envelope, _, _, ⟨rfl, _⟩ | ⟨rfl, _⟩⟩ | ⟨envelope, hnew, _, rfl⟩⟩ :=
    hs.admission hadmission
  · exact ⟨t, submit_iff.mpr ⟨_, hadmission', rfl⟩⟩
  · exact ⟨_, submit_iff.mpr ⟨_, hadmission', rfl⟩⟩
  · obtain ⟨s', hfirst, hrest⟩ := writeAll_cons_ok hwrites
    obtain ⟨_, _, rfl⟩ := hnew.envelope
    have hsame : s' = t := by
      rw [Store.write, Submission.envelope, hput] at hfirst
      injection hfirst with hfirst
      exact hfirst.symm
    subst hsame
    have hfirst' : s'.write hashing (.payload submission.payloadDigest bytes) = .ok s' := hagain
    exact ⟨s₁, submit_iff.mpr ⟨_, hadmission', (writeAll_cons hfirst' _).trans hrest⟩⟩

theorem Sound.retry (hs : Sound hashing s) {crash : Option Crash}
    (hcrash : ¬TearsReceipt hashing s submission bytes now crash) {now' : Instant} {s₁ : Store}
    {decision : Admission} (h : s.submit hashing submission bytes now' none = (s₁, .ok decision)) :
    ∃ t decision', (s.submit hashing submission bytes now crash).1.submit hashing submission bytes now' none =
      (t, .ok decision') := by
  have hsound := hs.submit hcrash
  obtain ⟨hscope, hscopes⟩ := submit_scope hashing s submission bytes now crash
  cases hadmission : s.admission hashing submission bytes now with
  | error e =>
    have hsame : (s.submit hashing submission bytes now crash).1 = s := by
      rw [Store.submit, hadmission]
    rw [hsame]
    exact ⟨s₁, decision, h⟩
  | ok decided =>
    obtain ⟨found, writes⟩ := decided
    have hperform : s.submit hashing submission bytes now crash = s.perform hashing writes found crash := by
      rw [Store.submit, hadmission]
    rw [hperform] at hsound hscope hscopes ⊢
    obtain ⟨scope, current, earlier, hdecided, hcases⟩ := hs.admission hadmission
    have hdecided' : Decided hashing (s.perform hashing writes found crash).1 submission bytes scope current
        earlier := ⟨hscope.trans hdecided.declared, hdecided.required, hscopes ▸ hdecided.history,
          hdecided.digest, hdecided.length⟩
    obtain ⟨envelope, hknown, _, _⟩ | ⟨envelope, hnew, _, rfl⟩ := hcases
    · have hmem := (perform_envelopes hashing s writes found crash).subset hknown.mem
      obtain ⟨t, ht⟩ := hsound.submit_known hdecided' ⟨hmem, hknown.key, hknown.retry⟩ now'
      exact ⟨t, _, ht⟩
    · obtain ⟨expiresAt, hexpiry, henvelope⟩ := hnew.envelope
      obtain hpublished | hsame | hput := perform_admission hashing s envelope bytes found crash
      · have hmem : envelope ∈ (s.perform hashing (admissionWrites envelope bytes) found crash).1.envelopes := by
          rw [hpublished]
          exact List.mem_append_right _ (List.mem_singleton_self _)
        have hkey : envelope.key = submission.messageKey hashing := by
          rw [henvelope]
          rfl
        have hretry : retryMatches envelope submission scope.budget.defaultTtlSecs = true := by
          rw [henvelope]
          exact retryMatches_envelope (require_ok hdecided.required).2 hexpiry
        obtain ⟨t, ht⟩ := hsound.submit_known hdecided' ⟨hmem, hkey, hretry⟩ now'
        exact ⟨t, _, ht⟩
      · rw [hsame]
        exact ⟨s₁, decision, h⟩
      · have hdigest : envelope.payloadDigest = submission.payloadDigest := by
          rw [henvelope]
          rfl
        rw [hdigest] at hput
        obtain ⟨t, ht⟩ := hs.submit_put hput h
        exact ⟨t, _, ht⟩

end Submit

section Runs

variable (hashing : Hashing)

inductive Op where
  | declare (scope : WorkScope) (crash : Option Crash)
  | submit (submission : Submission) (bytes : List UInt8) (now : Instant) (crash : Option Crash)

def Op.apply (s : Store) : Op → Store
  | .declare scope crash => (s.declare hashing scope crash).1
  | .submit submission bytes now crash => (s.submit hashing submission bytes now crash).1

/-- The store, and the budget that was in force when a seat's last message came in. -/
structure World where
  store : Store
  lastBudget : AdvisorySeatId → Option MessageBudget

def World.empty : World := ⟨Store.empty, fun _ => none⟩

def World.step (w : World) (op : Op) : World :=
  let next := op.apply hashing w.store
  { store := next
    lastBudget :=
      match next.envelopes[w.store.envelopes.length]? with
      | none => w.lastBudget
      | some envelope =>
        Function.update w.lastBudget envelope.sender (w.store.scope.map WorkScope.budget) }

/-- The world before the `n`-th call on a new store. -/
def worldAt (ops : List Op) (n : Nat) : World := stateAt (World.step hashing) World.empty ops n

/-- No seat has sent more than the budget of its last admission allows. -/
def WithinBudgets (w : World) : Prop :=
  ∀ seat, sentBy seat w.store.envelopes ≠ [] → ∃ budget, w.lastBudget seat = some budget ∧
    (sentBy seat w.store.envelopes).length ≤ budget.maxMessagesPerSeat.toNat ∧
      sentBytes seat w.store.envelopes ≤ budget.maxBytesPerSeat.toNat

/-- A submission is accepted after its crash, if it would have been without, and is there
once. -/
def Retried (s : Store) (submission : Submission) (bytes : List UInt8) (now : Instant)
    (crash : Option Crash) : Prop :=
  ∀ now' s' decision, s.submit hashing submission bytes now' none = (s', .ok decision) →
    ∃ t decision', (s.submit hashing submission bytes now crash).1.submit hashing submission bytes now' none =
        (t, .ok decision') ∧
      decision'.envelope.key = submission.messageKey hashing ∧
        AdmittedOnce t (submission.messageKey hashing)

/-- What a store keeps through every call and every crash. -/
structure Kept (ops : List Op) : Prop where
  once : ∀ n, ((worldAt hashing ops n).store.envelopes.map Envelope.key).Nodup
  immutable : ∀ n m, n ≤ m →
    (worldAt hashing ops n).store.envelopes <+: (worldAt hashing ops m).store.envelopes
  payload : ∀ n, ∀ envelope ∈ (worldAt hashing ops n).store.envelopes, ∃ bytes,
    (worldAt hashing ops n).store.payloads envelope.payloadDigest = some bytes ∧
      hashing.ofBytes bytes = envelope.payloadDigest ∧ bytes.length = envelope.payloadBytes.toNat
  budget : ∀ n, WithinBudgets (worldAt hashing ops n)
  retry : ∀ n submission bytes now crash, ops[n]? = some (.submit submission bytes now crash) →
    Retried hashing (worldAt hashing ops n).store submission bytes now crash

variable {hashing} {s : Store} {submission : Submission} {bytes : List UInt8} {now : Instant}
  {crash : Option Crash}

theorem plan_receipt {decision : Admission} {writes : List Write}
    (h : s.admission hashing submission bytes now = .ok (decision, writes)) {n : Nat} {receipt : Receipt}
    (hget : writes[n]? = some (.receipt receipt)) : writes = writes.take n ++ [.receipt receipt] := by
  obtain ⟨_, _, _, _, _, _, _, _, _, _, hplan⟩ := (admission_iff hashing).mp h
  cases decision with
  | admitNew envelope =>
    cases hplan
    match n with
    | 0 => cases hget
    | 1 => cases hget
    | 2 =>
      cases hget
      rfl
    | n + 3 => cases hget
  | duplicate envelope =>
    obtain ⟨_, _, hplan⟩ := bind_ok hplan
    split at hplan
    · cases hplan
      cases hget
    · cases hplan
      cases n with
      | zero =>
        cases hget
        rfl
      | succ n => cases hget

theorem Retried.not_tears (h : Retried hashing s submission bytes now crash) :
    ¬TearsReceipt hashing s submission bytes now crash := by
  rintro ⟨hit, decision, writes, receipt, rfl, htorn, hadmission, hget, hdone⟩
  obtain ⟨s', hrun⟩ : ∃ s', s.writeAll hashing (writes.take hit.writes) = (s', .ok ()) := ⟨_, Prod.ext rfl hdone⟩
  have hwrites : s.writeAll hashing writes = (s'.appendReceipt receipt, .ok ()) := by
    rw [plan_receipt hadmission hget, writeAll_append hrun]
    rfl
  obtain ⟨t, decision', ht, _⟩ := h now _ decision (submit_iff.mpr ⟨writes, hadmission, hwrites⟩)
  obtain ⟨writes', hagain, _⟩ := submit_iff.mp ht
  refine admission_malformed ?_ hagain
  rw [Store.submit, hadmission]
  dsimp only [Store.perform]
  rw [Store.interrupted, hrun]
  simp only [hget, Store.cut, htorn]
  exact malformed_mem_appendLine s' _ _

theorem Sound.retried (hs : Sound hashing s) (hcrash : ¬TearsReceipt hashing s submission bytes now crash) :
    Retried hashing s submission bytes now crash := by
  intro now' s' decision h
  obtain ⟨t, decision', ht⟩ := hs.retry hcrash h
  obtain ⟨hkey, honce⟩ := (hs.submit hcrash).submit_ok ht
  exact ⟨t, decision', ht, hkey, hkey ▸ honce⟩

theorem Sound.declare (hs : Sound hashing s) (scope : WorkScope) (crash : Option Crash) :
    Sound hashing (s.declare hashing scope crash).1 ∧
      (s.declare hashing scope crash).1.envelopes = s.envelopes := by
  rw [Store.declare]
  split
  · exact ⟨hs, rfl⟩
  · rename_i revision hrevision
    refine perform_preserves (P := fun t => Sound hashing t ∧ t.envelopes = s.envelopes)
      (R := fun t write => Fresh t write ∧ write.envelope? = none ∧ write.onMessage = false)
      (fun t write t' ht hwrite h => ⟨ht.1.write hwrite.1 h, ?_⟩)
      (fun t write hit ht hwrite _ _ _ => ⟨ht.1.cut hwrite.1 ?_, (cut_envelopes write hit.cut).trans ht.2⟩)
      ⟨⟨trivial, rfl, rfl⟩, fun _ _ => ⟨⟨trivial, rfl, rfl⟩, fun _ _ => trivial⟩⟩ ⟨hs, rfl⟩
    · rw [write_envelopes h, hwrite.2.1, ht.2]
      exact List.append_nil _
    · rintro receipt rfl
      cases hwrite.2.2

theorem sentBy_concat (seat : AdvisorySeatId) (envelopes : List Envelope) (envelope : Envelope) :
    sentBy seat (envelopes ++ [envelope]) =
      if envelope.sender = seat then sentBy seat envelopes ++ [envelope] else sentBy seat envelopes := by
  rw [sentBy, List.filter_append, List.filter_cons, List.filter_nil]
  by_cases hseat : envelope.sender = seat
  · rw [if_pos (decide_eq_true hseat), if_pos hseat]
    rfl
  · rw [if_neg (by simpa using hseat), if_neg hseat]
    exact List.append_nil _

theorem sentBytes_concat (envelopes : List Envelope) (envelope : Envelope) :
    sentBytes envelope.sender (envelopes ++ [envelope]) =
      sentBytes envelope.sender envelopes + envelope.payloadBytes.toNat := by
  rw [sentBytes, sentBy_concat, if_pos rfl, List.map_append, List.sum_append, List.map_singleton,
    List.sum_singleton]
  rfl

/-- One call keeps every seat within its budget, while the counters of the seats do not
reach their end. -/
theorem WithinBudgets.step {w : World} (hw : WithinBudgets w) (hs : Sound hashing w.store) (op : Op)
    (hcounter : ∀ seat, sentBytes seat (w.step hashing op).store.envelopes < 2 ^ 64) :
    WithinBudgets (w.step hashing op) := by
  have hsame (h : (op.apply hashing w.store).envelopes = w.store.envelopes) :
      WithinBudgets (w.step hashing op) := by
    intro seat hsent
    rw [World.step] at hsent ⊢
    dsimp only at hsent ⊢
    rw [h] at hsent ⊢
    rw [List.getElem?_eq_none (Nat.le_refl _)]
    exact hw seat hsent
  cases op with
  | declare scope crash => exact hsame (hs.declare scope crash).2
  | submit submission bytes now crash =>
    obtain h | ⟨scope, current, earlier, envelope, hdecided, hnew, h⟩ :=
      submit_envelopes hs.keys submission bytes now crash
    · exact hsame h
    · intro seat hsent
      have hbytes := hcounter seat
      rw [World.step] at hsent hbytes ⊢
      dsimp only [Op.apply] at hsent hbytes ⊢
      rw [h] at hsent hbytes ⊢
      rw [List.getElem?_concat_length, hdecided.declared]
      dsimp only
      by_cases hseat : envelope.sender = seat
      · subst hseat
        rw [sentBytes_concat] at hbytes
        refine ⟨scope.budget, Function.update_self _ _ _, ?_⟩
        obtain ⟨expiresAt, _, rfl⟩ := hnew.envelope
        obtain ⟨p, hperm, hbudget⟩ := hnew.budget
        rw [sentBytes_concat, sentBy_concat, if_pos rfl, List.length_append]
        exact withinBudget_ok hperm hbudget (Or.inr hbytes)
      · rw [sentBy_concat, if_neg hseat] at hsent
        obtain ⟨budget, hlast, hcount, hsum⟩ := hw seat hsent
        refine ⟨budget, (Function.update_of_ne (Ne.symm hseat) _ _).trans hlast, ?_⟩
        rw [sentBytes, sentBy_concat, if_neg hseat]
        exact ⟨hcount, hsum⟩

theorem Sound.empty : Sound hashing Store.empty :=
  ⟨List.nodup_nil, fun _ h => absurd h List.not_mem_nil, fun _ h => absurd h List.not_mem_nil,
    List.nodup_nil⟩

theorem Op.apply_envelopes (op : Op) (s : Store) : s.envelopes <+: (op.apply hashing s).envelopes := by
  cases op with
  | declare scope crash =>
    rw [Op.apply, Store.declare]
    split
    · exact List.prefix_refl _
    · exact perform_envelopes hashing s _ _ crash
  | submit submission bytes now crash =>
    rw [Op.apply, Store.submit]
    split
    · exact List.prefix_refl _
    · exact perform_envelopes hashing s _ _ crash

variable (hashing) in
def NoTornReceipt (ops : List Op) : Prop :=
  ∀ n submission bytes now crash, ops[n]? = some (.submit submission bytes now crash) →
    ¬TearsReceipt hashing (worldAt hashing ops n).store submission bytes now crash

variable {ops : List Op}

/-- The store of a run without torn receipts is sound throughout, with every seat within
its budget while the counters last. -/
theorem sound_worldAt (htorn : NoTornReceipt hashing ops)
    (hcounter : ∀ n seat, sentBytes seat (worldAt hashing ops n).store.envelopes < 2 ^ 64) (n : Nat) :
    Sound hashing (worldAt hashing ops n).store ∧ WithinBudgets (worldAt hashing ops n) := by
  induction n with
  | zero => exact ⟨Sound.empty, fun seat h => absurd rfl h⟩
  | succ n ih =>
    obtain ⟨hs, hw⟩ := ih
    cases hop : ops[n]? with
    | none =>
      have hstays : worldAt hashing ops (n + 1) = worldAt hashing ops n := stateAt_none _ hop _
      rw [hstays]
      exact ⟨hs, hw⟩
    | some op =>
      have hnext : worldAt hashing ops (n + 1) = (worldAt hashing ops n).step hashing op :=
        stateAt_succ _ hop _
      have hcounterNext := hcounter (n + 1)
      rw [hnext] at hcounterNext ⊢
      refine ⟨?_, hw.step hs op hcounterNext⟩
      cases op with
      | declare scope crash => exact (hs.declare scope crash).1
      | submit submission bytes now crash => exact hs.submit (htorn n submission bytes now crash hop)

/-- The store keeps its messages, its budgets and its promise of a retry, through every
crash but one in the middle of a receipt line, as long as no seat sends more bytes than
its counter holds. -/
theorem kept_iff (hashing : Hashing) (ops : List Op) : Kept hashing ops ↔ NoTornReceipt hashing ops ∧
    ∀ n seat, sentBytes seat (worldAt hashing ops n).store.envelopes < 2 ^ 64 := by
  constructor
  · intro h
    refine ⟨fun n submission bytes now crash hop => (h.retry n submission bytes now crash hop).not_tears,
      fun n seat => ?_⟩
    by_cases hsent : sentBy seat (worldAt hashing ops n).store.envelopes = []
    · rw [sentBytes, hsent]
      exact Nat.two_pow_pos 64
    · obtain ⟨budget, _, _, hbytes⟩ := h.budget n seat hsent
      exact Nat.lt_of_le_of_lt hbytes budget.maxBytesPerSeat.toNat_lt
  · rintro ⟨htorn, hcounter⟩
    have hsound (n : Nat) := (sound_worldAt htorn hcounter n).1
    refine ⟨fun n => (hsound n).keys, fun n m hnm => ?_, fun n envelope hmem => ?_,
      fun n => (sound_worldAt htorn hcounter n).2,
      fun n submission bytes now crash hop => (hsound n).retried (htorn n submission bytes now crash hop)⟩
    · exact stateAt_preserves (P := fun w : World => (worldAt hashing ops n).store.envelopes <+: w.store.envelopes)
        World.empty (fun k op _ hprefix => hprefix.trans (Op.apply_envelopes op _)) hnm (List.prefix_refl _)
    · obtain ⟨bytes, hread⟩ := (hsound n).payloads envelope hmem
      obtain ⟨hget, hlength, hdigest⟩ := readPayload_ok hashing hread
      exact ⟨bytes, hget, hdigest, hlength⟩

def pairSeats : Seats where
  entries := [("a", ⟨"task-20260928-aaaa", true, none⟩), ("b", ⟨"task-20260928-bbbb", true, none⟩)]
  sorted := by decide

def pairScope : WorkScope where
  schemaVersion := workMessageSchemaVersion
  owner := "task-20260928-0000"
  seats := pairSeats
  budget := ⟨100, 2, 500, 3600, 60, 2⟩
  declaredAt := 1000000000000

def pairHashing : Hashing where
  ofBytes bytes := String.ofList (bytes.map fun b => Char.ofNat b.toNat)
  canonicalSerialize scope := .ok (scope.seats.entries.map fun _ => 42)

def finding : Submission where
  scopeOwner := "task-20260928-0000"
  scopeRevision := "**"
  sender := "a"
  recipient := "b"
  key := some "m1"
  payloadDigest := "fi"
  payloadBytes := 2
  senderTime := 1000000000000
  replyTo := none
  phase := none
  confidentiality := .internal
  ttlSecs := none
  senderEvidence := .callerEnvSameUid

def findingBytes : List UInt8 := [102, 105]

def tornRun : List Op :=
  [.declare pairScope none, .submit finding findingBytes 1000000000000 (some ⟨2, .torn⟩)]

theorem tornRun_not_kept : ¬Kept pairHashing tornRun := by
  intro h
  refine (h.retry 1 finding findingBytes 1000000000000 (some ⟨2, .torn⟩) rfl).not_tears ?_
  exact ⟨⟨2, .torn⟩, _, _, _, rfl, rfl, rfl, rfl, rfl⟩

end Runs

end Cosmon.State.WorkRuns
