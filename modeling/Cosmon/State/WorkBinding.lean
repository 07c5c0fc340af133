import Cosmon.State.WorkOps
import Cosmon.State.WorkRuns

namespace Cosmon.State.WorkBinding

open Cosmon.State.Molecule Cosmon.Core.WorkMessage Cosmon.Core.WorkProjection
open Cosmon.State.WorkStore Cosmon.State.WorkOps Cosmon.Lib Cosmon.Lib.Checks Cosmon.Lib.Runs

section Readable

variable (hashing : Hashing)

/-- A store that no crash has hit: every receipt tells of its envelope. -/
structure Readable (s : Store) : Prop where
  keys : (s.envelopes.map Envelope.key).Nodup
  lines : ∀ line ∈ s.lines, ∃ receipt, line = .record receipt ∧
    ∃ envelope ∈ s.envelopes, receipt.Fits envelope
  terminated : ∀ file ∈ s.receipts, file.terminated = true
  files : (s.receipts.map ReceiptFile.key).Nodup
  notes : ∀ digest bytes, s.notes digest = some bytes → hashing.ofBytes bytes = digest

def Fitting (s : Store) : Write → Prop
  | .receipt receipt => ∃ envelope ∈ s.envelopes, receipt.Fits envelope
  | .history _ _ | .scope _ | .payload _ _ | .note _ _ | .envelope _ => True

variable {hashing} {s : Store}

theorem append_terminated {file : ReceiptFile} (h : file.terminated = true) (line : ReceiptLine) :
    file.append line true = ⟨file.key, file.lines ++ [line], true⟩ := if_pos h

theorem flatMap_set_perm {files : List ReceiptFile} (hkeys : (files.map ReceiptFile.key).Nodup)
    {file longer : ReceiptFile} (hfile : file ∈ files) (hkey : longer.key = file.key) {line : ReceiptLine}
    (hlines : longer.lines = file.lines ++ [line]) :
    ((Keyed.set ReceiptFile.key longer files).flatMap ReceiptFile.lines).Perm
      (files.flatMap ReceiptFile.lines ++ [line]) := by
  induction files with
  | nil => exact absurd hfile List.not_mem_nil
  | cons first rest ih =>
    rw [List.map_cons, List.nodup_cons] at hkeys
    rw [Keyed.set, List.map_cons, List.flatMap_cons, List.flatMap_cons, List.append_assoc, hkey]
    obtain rfl | hrest := List.mem_cons.mp hfile
    · have hother : ∀ other ∈ rest, (if other.key = file.key then longer else other) = other := by
        refine fun other hother => if_neg fun heq => hkeys.1 ?_
        rw [← heq]
        exact List.mem_map_of_mem hother
      rw [if_pos rfl, List.map_congr_left hother, List.map_id', hlines, List.append_assoc]
      exact List.perm_append_comm.append_left _
    · have hne : first.key ≠ file.key := fun heq => hkeys.1 (heq ▸ List.mem_map_of_mem hrest)
      rw [if_neg hne, ← hkey]
      exact (ih hkeys.2 hrest).append_left _

theorem Readable.append_perm (hs : Readable hashing s) (receipt : Receipt) :
    (s.appendReceipt receipt).lines.Perm (s.lines ++ [.record receipt]) := by
  rw [Store.appendReceipt, Store.appendLine]
  cases hget : Keyed.get ReceiptFile.key receipt.key s.receipts with
  | none =>
    rw [Store.lines, List.flatMap_append, List.flatMap_singleton]
    exact List.Perm.refl _
  | some file =>
    obtain ⟨hfile, _⟩ := Keyed.get_mem hget
    dsimp only
    rw [append_terminated (hs.terminated file hfile)]
    refine flatMap_set_perm hs.files hfile ?_ ?_ <;> rfl

theorem Readable.mem_append (hs : Readable hashing s) (receipt : Receipt) (line : ReceiptLine) :
    line ∈ (s.appendReceipt receipt).lines ↔ line ∈ s.lines ∨ line = .record receipt := by
  rw [(hs.append_perm receipt).mem_iff, List.mem_append, List.mem_singleton]

theorem Readable.receipt (hs : Readable hashing s) {receipt : Receipt} (h : Fitting s (.receipt receipt)) :
    Readable hashing (s.appendReceipt receipt) := by
  have hline := hs.mem_append receipt
  have henvelopes : (s.appendReceipt receipt).envelopes = s.envelopes := appendLine_envelopes
  have hnotes : (s.appendReceipt receipt).notes = s.notes := by
    rw [Store.appendReceipt, Store.appendLine]
    split <;> rfl
  refine ⟨henvelopes ▸ hs.keys, fun line hmem => ?_, ?_, ?_, hnotes ▸ hs.notes⟩
  · rw [henvelopes]
    obtain hmem | rfl := (hline line).mp hmem
    · exact hs.lines line hmem
    · exact ⟨receipt, rfl, h⟩
  · rw [Store.appendReceipt, Store.appendLine]
    cases hget : Keyed.get ReceiptFile.key receipt.key s.receipts with
    | none =>
      intro file hfile
      obtain hfile | hfile := List.mem_append.mp hfile
      · exact hs.terminated file hfile
      · rw [List.mem_singleton.mp hfile]
    | some file =>
      intro other hother
      obtain ⟨rfl, _⟩ | ⟨hmem, _⟩ := Keyed.mem_set hother
      · rw [append_terminated (hs.terminated file (Keyed.get_mem hget).1)]
      · exact hs.terminated other hmem
  · rw [Store.appendReceipt, Store.appendLine]
    cases hget : Keyed.get ReceiptFile.key receipt.key s.receipts with
    | none => exact Keyed.nodup_append hs.files (Keyed.get_none.mp hget)
    | some file =>
      dsimp only
      rw [Keyed.keys_set]
      exact hs.files

theorem Readable.write (hs : Readable hashing s) {write : Write} {s' : Store} (hfit : Fitting s write)
    (h : s.write hashing write = .ok s') : Readable hashing s' := by
  cases write with
  | history revision scope =>
    rw [Store.write] at h
    split at h <;>
    · cases h
      exact ⟨hs.keys, hs.lines, hs.terminated, hs.files, hs.notes⟩
  | scope scope =>
    cases h
    exact ⟨hs.keys, hs.lines, hs.terminated, hs.files, hs.notes⟩
  | payload digest bytes =>
    obtain ⟨files, _, rfl⟩ := map_ok h
    exact ⟨hs.keys, hs.lines, hs.terminated, hs.files, hs.notes⟩
  | note digest bytes =>
    obtain ⟨files, hput, rfl⟩ := map_ok h
    refine ⟨hs.keys, hs.lines, hs.terminated, hs.files, fun other found hfound => ?_⟩
    dsimp only at hfound
    obtain ⟨hdigest, ⟨_, rfl⟩ | ⟨_, _, _, rfl⟩⟩ := putBytes_ok hput
    · by_cases hother : other = digest
      · subst hother
        rw [Function.update_self] at hfound
        cases hfound
        exact hdigest
      · rw [Function.update_of_ne hother] at hfound
        exact hs.notes other found hfound
    · exact hs.notes other found hfound
  | envelope envelope =>
    obtain ⟨_, hnew, rfl⟩ := putEnvelope_created h
    refine ⟨Keyed.nodup_append hs.keys hnew, fun line hline => ?_, hs.terminated, hs.files, hs.notes⟩
    obtain ⟨receipt, hrecord, known, hknown, hfits⟩ := hs.lines line hline
    exact ⟨receipt, hrecord, known, List.mem_append_left _ hknown, hfits⟩
  | receipt receipt =>
    cases h
    exact hs.receipt hfit

def Write.receipt? : Write → Option Receipt
  | .receipt appended => some appended
  | .history _ _ | .scope _ | .payload _ _ | .note _ _ | .envelope _ => none

def addedLines (writes : List Write) : List ReceiptLine :=
  (writes.filterMap Write.receipt?).map ReceiptLine.record

theorem addedLines_append (writes more : List Write) :
    addedLines (writes ++ more) = addedLines writes ++ addedLines more := by
  rw [addedLines, List.filterMap_append, List.map_append]
  rfl

theorem mem_addedLines {writes : List Write} {line : ReceiptLine} (h : line ∈ addedLines writes) :
    ∃ receipt, .receipt receipt ∈ writes ∧ line = .record receipt := by
  obtain ⟨receipt, hmem, rfl⟩ := List.mem_map.mp h
  obtain ⟨write, hwrite, hreceipt⟩ := List.mem_filterMap.mp hmem
  cases write with
  | receipt appended =>
    cases hreceipt
    exact ⟨receipt, hwrite, rfl⟩
  | history _ _ | scope _ | payload _ _ | note _ _ | envelope _ => cases hreceipt

theorem Readable.write_perm (hs : Readable hashing s) {write : Write} {s' : Store}
    (h : s.write hashing write = .ok s') : s'.lines.Perm (s.lines ++ addedLines [write]) := by
  have hsame (hreceipts : s'.receipts = s.receipts) : s'.lines.Perm (s.lines ++ []) := by
    rw [List.append_nil, Store.lines, hreceipts]
    exact List.Perm.refl _
  cases write with
  | history revision scope =>
    rw [Store.write] at h
    split at h <;>
    · cases h
      exact hsame rfl
  | scope scope =>
    cases h
    exact hsame rfl
  | payload digest bytes =>
    obtain ⟨files, _, rfl⟩ := map_ok h
    exact hsame rfl
  | note digest bytes =>
    obtain ⟨files, _, rfl⟩ := map_ok h
    exact hsame rfl
  | envelope envelope =>
    obtain ⟨_, _, rfl⟩ := putEnvelope_created h
    exact hsame rfl
  | receipt receipt =>
    cases h
    exact hs.append_perm receipt

theorem ready_fitting {writes : List Write}
    (h : ∀ receipt, .receipt receipt ∈ writes → ∃ envelope ∈ s.envelopes, receipt.Fits envelope) {t : Store}
    (ht : ∀ envelope ∈ s.envelopes, envelope ∈ t.envelopes) : Ready hashing Fitting t writes := by
  induction writes generalizing t with
  | nil => trivial
  | cons write rest ih =>
    refine ⟨?_, fun t' ht' => ih (fun receipt hmem => h receipt (List.mem_cons_of_mem _ hmem))
      fun envelope hmem => ?_⟩
    · cases write with
      | receipt receipt =>
        obtain ⟨envelope, hmem, hfits⟩ := h receipt List.mem_cons_self
        exact ⟨envelope, ht envelope hmem, hfits⟩
      | history _ _ | scope _ | payload _ _ | note _ _ | envelope _ => trivial
    · rw [write_envelopes ht']
      exact List.mem_append_left _ (ht envelope hmem)

theorem Readable.writeAll (hs : Readable hashing s) {writes : List Write}
    (hready : Ready hashing Fitting s writes) :
    Readable hashing (s.writeAll hashing writes).1 ∧ ∃ done, done <+: writes ∧
      (s.writeAll hashing writes).1.lines.Perm (s.lines ++ addedLines done) ∧
        ((s.writeAll hashing writes).2 = .ok () → done = writes) := by
  induction writes generalizing s with
  | nil =>
    refine ⟨hs, [], List.prefix_refl _, ?_, fun _ => rfl⟩
    exact List.Perm.of_eq (List.append_nil _).symm
  | cons write rest ih =>
    obtain ⟨hfit, hrest⟩ := hready
    rw [Store.writeAll]
    cases hwrite : s.write hashing write with
    | error e =>
      refine ⟨hs, [], List.nil_prefix, List.Perm.of_eq (List.append_nil _).symm, fun h => ?_⟩
      cases h
    | ok t =>
      obtain ⟨hreadable, done, hfront, hlines, hall⟩ := ih (hs.write hfit hwrite) (hrest t hwrite)
      refine ⟨hreadable, write :: done, (List.prefix_cons_inj write).mpr hfront, ?_,
        fun hdone => congrArg (write :: ·) (hall hdone)⟩
      have hsplit : addedLines (write :: done) = addedLines [write] ++ addedLines done :=
        addedLines_append [write] done
      rw [hsplit, ← List.append_assoc]
      exact hlines.trans ((hs.write_perm hwrite).append_right _)

theorem Readable.perform {α : Type} (hs : Readable hashing s) {writes : List Write}
    (hready : Ready hashing Fitting s writes) (answer : α) :
    Readable hashing (s.perform hashing writes answer none).1 ∧
      (∀ line ∈ s.lines, line ∈ (s.perform hashing writes answer none).1.lines) ∧
        ∀ line ∈ (s.perform hashing writes answer none).1.lines,
          line ∈ s.lines ∨ ∃ receipt, .receipt receipt ∈ writes ∧ line = .record receipt := by
  obtain ⟨hreadable, done, hfront, hlines, _⟩ := hs.writeAll hready
  refine ⟨hreadable, fun line hline => hlines.symm.subset (List.mem_append_left _ hline), fun line hline => ?_⟩
  refine (List.mem_append.mp (hlines.subset hline)).imp_right fun hadded => ?_
  obtain ⟨receipt, hmem, rfl⟩ := mem_addedLines hadded
  exact ⟨receipt, hfront.subset hmem, rfl⟩

end Readable

section Operations

variable {hashing : Hashing} {s : Store}

theorem projection_ok (hs : Readable hashing s) {caller : AdmittedWorkCaller} {revision : ScopeRevision}
    {now : Instant} {projection : WorkProjection}
    (h : currentProjection hashing s caller revision now = .ok projection) :
    ∃ receipts scope earlier, s.lines = receipts.map ReceiptLine.record ∧ s.scope = some scope ∧
      scope.revision hashing = .ok projection.revision ∧
        revisions hashing (s.scopes.map Prod.snd) = .ok earlier ∧
          FoldedWork scope earlier s.envelopes receipts now projection := by
  obtain ⟨records, scope, hload, hscope, hfold⟩ := currentProjection_ok h
  obtain ⟨hlines, hrecords⟩ := loadAll_ok hload
  rw [hrecords] at hscope hfold
  obtain ⟨earlier, hrevision, hearlier, hfolded⟩ := foldWithHistory_ok hs.keys hfold
  exact ⟨records.receipts, scope, earlier, hlines, hscope, hrevision, hearlier, hfolded⟩

def Consumed (s : Store) (envelope : Envelope) : Prop :=
  ∃ receipt, .record receipt ∈ s.lines ∧ receipt.Consumes envelope

theorem consumed_iff {receipts : List Receipt} (h : s.lines = receipts.map ReceiptLine.record)
    (envelope : Envelope) : Consumed s envelope ↔ ∃ receipt ∈ receipts, receipt.Consumes envelope := by
  refine exists_congr fun receipt => and_congr_left fun _ => ?_
  rw [h, List.mem_map_of_injective fun _ _ h => by injection h]

theorem send_ready (hs : Readable hashing s) {submission : Submission} {bytes : List UInt8} {now : Instant}
    {decision : Admission} {writes : List Write}
    (h : s.admission hashing submission bytes now = .ok (decision, writes)) :
    Ready hashing Fitting s writes ∧ ∀ receipt, .receipt receipt ∈ writes → receipt.stage = .admitted := by
  obtain ⟨_, _, _, _, _, _, ⟨envelope, hknown, _, ⟨rfl, _⟩ | ⟨rfl, _⟩⟩ | ⟨envelope, _, _, rfl⟩⟩ :=
    admission_cases hs.keys h
  · exact ⟨trivial, fun _ hmem => absurd hmem List.not_mem_nil⟩
  · refine ⟨⟨⟨envelope, hknown.mem, rfl, rfl, by intro h; cases h⟩, fun _ _ => trivial⟩, fun receipt hmem => ?_⟩
    cases List.mem_singleton.mp hmem
    rfl
  · refine ⟨⟨trivial, fun s₁ h₁ => ⟨trivial, fun s₂ h₂ => ⟨⟨envelope, ?_, rfl, rfl, by intro h; cases h⟩,
      fun _ _ => trivial⟩⟩⟩, fun receipt hmem => ?_⟩
    · rw [write_envelopes h₂]
      exact List.mem_append_right _ (List.mem_singleton_self _)
    · have hlast : receipt = Receipt.forEnvelope envelope .boundary envelope.admittedAt .admitted := by
        simpa [admissionWrites] using hmem
      rw [hlast]
      rfl

theorem pull_receipts (hs : Readable hashing s) {caller : AdmittedWorkCaller} {request : PullRequest}
    {now : Instant} {maxMessages : Nat} {maxPayloadBytes : UInt64}
    {decide : List PulledMessage → PulledMessage → Except StoreError PageDecision} {page : BoundedPull}
    {writes : List Write}
    (h : pullPage hashing s caller request now maxMessages maxPayloadBytes decide = .ok (page, writes)) :
    ∀ receipt, .receipt receipt ∈ writes →
      (∃ envelope ∈ s.envelopes, receipt.Fits envelope) ∧ receipt.stage.isConsumed = false := by
  intro receipt hmem
  obtain ⟨projection, hprojection, hpage, hwrites⟩ := pullPage_ok h
  obtain ⟨_, _, _, _, _, _, _, hfolded⟩ := projection_ok hs hprojection
  obtain ⟨message, hmessage, hobservation⟩ := hwrites _ hmem
  obtain ⟨view, hview, henvelope, _⟩ :=
    deliverable_mem (hpage message.envelope (List.mem_append_left _ (List.mem_map_of_mem hmessage)))
  have hknown : message.envelope ∈ s.envelopes :=
    henvelope ▸ hfolded.perm.subset (List.mem_map_of_mem hview)
  obtain hattempt | hcontext := List.mem_cons.mp hobservation
  · cases hattempt
    exact ⟨⟨message.envelope, hknown, rfl, rfl, by intro h; cases h⟩, rfl⟩
  · obtain ⟨observation, _, hwrite⟩ := Option.map_eq_some_iff.mp (Option.mem_toList.mp hcontext)
    cases hwrite
    exact ⟨⟨message.envelope, hknown, rfl, rfl, by intro h; cases h⟩, rfl⟩

theorem acknowledgment_receipts (hs : Readable hashing s) {caller : AdmittedWorkCaller}
    {request : AcknowledgeRequest} {now : Instant} {outcome : AcknowledgeOutcome} {writes : List Write}
    (h : acknowledgment hashing s caller request now = .ok (outcome, writes)) :
    ∀ receipt, .receipt receipt ∈ writes → ∃ projection view,
      Accepted hashing s caller request now projection view ∧ view.envelope ∈ s.envelopes ∧
        view.envelope.key = request.key ∧ receipt = request.report hashing view.envelope caller.seat now ∧
          outcome = .recorded receipt := by
  intro receipt hmem
  cases outcome with
  | duplicate =>
    rw [acknowledgment_duplicate h] at hmem
    exact absurd hmem List.not_mem_nil
  | recorded reported =>
    obtain ⟨projection, view, haccepted, hreported, hwrites⟩ := acknowledgment_iff.mp h
    obtain ⟨_, _, _, _, _, _, _, hfolded⟩ := projection_ok hs haccepted.current
    obtain ⟨_, hview, hkey⟩ := hfolded.get_some haccepted.found
    rw [hwrites] at hmem
    obtain hnote | hlast := List.mem_append.mp hmem
    · obtain ⟨note, _, hwrite⟩ := Option.map_eq_some_iff.mp (Option.mem_toList.mp hnote)
      cases hwrite
    · cases List.mem_singleton.mp hlast
      exact ⟨projection, view, haccepted, hview, hkey, hreported, rfl⟩

theorem report_consumes {caller : AdmittedWorkCaller} {request : AcknowledgeRequest} {now : Instant}
    {projection : WorkProjection} {view : EnvelopeView}
    (h : Accepted hashing s caller request now projection view) :
    (request.report hashing view.envelope caller.seat now).Consumes view.envelope :=
  ⟨⟨rfl, rfl, fun _ => congrArg ObserverId.seat h.recipient⟩, rfl⟩

end Operations

section Runs

variable (hashing : Hashing)

inductive Op where
  | declare (scope : WorkScope)
  | send (caller : AdmittedWorkCaller) (request : SendRequest) (payload : List UInt8) (admittedAt : Instant)
  | pull (caller : AdmittedWorkCaller) (request : PullRequest) (now : Instant) (maxMessages : Nat)
      (maxPayloadBytes : UInt64)
      (decide : List PulledMessage → PulledMessage → Except StoreError PageDecision)
  | acknowledge (caller : AdmittedWorkCaller) (request : AcknowledgeRequest) (now : Instant)

def Op.apply (s : Store) : Op → Store
  | .declare scope => (s.declare hashing scope none).1
  | .send caller request payload admittedAt => (WorkOps.send hashing s caller request payload admittedAt).1
  | .pull caller request now maxMessages maxPayloadBytes decide =>
    (pullBounded hashing s caller request now maxMessages maxPayloadBytes decide).1
  | .acknowledge caller request now => (WorkOps.acknowledge hashing s caller request now).1

/-- The store, and the scope that each message was admitted under. -/
structure World where
  store : Store
  admittedUnder : MessageKey → Option WorkScope

def World.empty : World := ⟨Store.empty, fun _ => none⟩

def World.step (w : World) (op : Op) : World :=
  let next := op.apply hashing w.store
  { store := next
    admittedUnder :=
      match next.envelopes[w.store.envelopes.length]? with
      | none => w.admittedUnder
      | some envelope => Function.update w.admittedUnder envelope.key w.store.scope }

/-- The world before the `n`-th operation on a new work. -/
def worldAt (ops : List Op) (n : Nat) : World := stateAt (World.step hashing) World.empty ops n

/-- The molecule that holds the recipient's seat held it when the message was admitted. -/
def Bound (w : World) (envelope : Envelope) : Prop :=
  ∃ past current molecule, w.admittedUnder envelope.key = some past ∧ w.store.scope = some current ∧
    past.holder envelope.recipient = some molecule ∧ current.holder envelope.recipient = some molecule

def Op.scope? : Op → Option WorkScope
  | .declare declared => some declared
  | .send _ _ _ _ | .pull _ _ _ _ _ _ | .acknowledge _ _ _ => none

def DistinctRevisions (scopes : List WorkScope) : Prop :=
  ∀ scope ∈ scopes, ∀ other ∈ scopes, ∀ revision, scope.revision hashing = .ok revision →
    other.revision hashing = .ok revision → scope = other

/-- The roster of a run: every scope that was in force is on record. -/
structure Steady (declared : List WorkScope) (w : World) : Prop where
  readable : Readable hashing w.store
  scopes : ∀ entry ∈ w.store.scopes, entry.2 ∈ declared ∧ entry.2.revision hashing = .ok entry.1
  scope : ∀ scope, w.store.scope = some scope → ∃ revision, (revision, scope) ∈ w.store.scopes
  admitted : ∀ envelope ∈ w.store.envelopes, ∃ past molecule, w.admittedUnder envelope.key = some past ∧
    (envelope.scopeRevision, past) ∈ w.store.scopes ∧ past.holder envelope.recipient = some molecule

variable {hashing} {declared : List WorkScope} {w : World}

theorem bound_iff_holder {envelope : Envelope} {past scope : WorkScope} {molecule : MoleculeId}
    (hunder : w.admittedUnder envelope.key = some past) (hscope : w.store.scope = some scope)
    (hholder : past.holder envelope.recipient = some molecule) :
    Bound w envelope ↔ scope.holder envelope.recipient = some molecule := by
  constructor
  · rintro ⟨past', current, molecule', hunder', hcurrent, hthen, hnow⟩
    rw [hunder] at hunder'
    rw [hscope] at hcurrent
    cases hunder'
    cases hcurrent
    rw [← hthen, hholder] at hnow
    exact hnow
  · exact fun h => ⟨past, scope, molecule, hunder, hscope, hholder, h⟩

theorem Steady.recipientBound_iff (hw : Steady hashing declared w) (hdistinct : DistinctRevisions hashing declared)
    {caller : AdmittedWorkCaller} {revision : ScopeRevision} {now : Instant} {projection : WorkProjection}
    (h : currentProjection hashing w.store caller revision now = .ok projection) {view : EnvelopeView}
    (hview : view ∈ projection.envelopes) : view.recipientBound = true ↔ Bound w view.envelope := by
  obtain ⟨_, scope, earlier, _, hscope, hrevision, hearlier, hfolded⟩ := projection_ok hw.readable h
  obtain ⟨past, molecule, hunder, hpast, hholder⟩ :=
    hw.admitted view.envelope (hfolded.perm.subset (List.mem_map_of_mem hview))
  obtain ⟨hpastDeclared, hpastRevision⟩ := hw.scopes _ hpast
  obtain ⟨current, hcurrent⟩ := hw.scope scope hscope
  rw [hfolded.bound view hview, bound_iff_holder hunder hscope hholder, isRecipientBound, Bool.or_eq_true,
    decide_eq_true_eq]
  by_cases hsame : view.envelope.scopeRevision = projection.revision
  · have heq : past = scope := hdistinct past hpastDeclared scope (hw.scopes _ hcurrent).1 _ hpastRevision
      (hsame ▸ hrevision)
    rw [← heq]
    exact ⟨fun _ => hholder, fun _ => Or.inl hsame⟩
  · obtain ⟨hfrom, hto⟩ := revisions_ok hearlier
    have hmem := hto past (List.mem_map_of_mem hpast) _ hpastRevision
    have hfind : earlier.find? (fun entry => entry.1 = view.envelope.scopeRevision) =
        some (view.envelope.scopeRevision, past) := by
      cases hfind : earlier.find? (fun entry => entry.1 = view.envelope.scopeRevision) with
      | none => exact absurd (decide_eq_true rfl) (List.find?_eq_none.mp hfind _ hmem)
      | some entry =>
        obtain ⟨hentry, hrev⟩ := hfrom entry (List.mem_of_find?_eq_some hfind)
        have hkey := List.find?_some hfind
        rw [decide_eq_true_eq] at hkey
        obtain ⟨known, hknown, hsnd⟩ := List.mem_map.mp hentry
        have heq : entry.2 = past := hdistinct _ (hsnd ▸ (hw.scopes known hknown).1) past hpastDeclared _ hrev
          (hkey ▸ hpastRevision)
        rw [← hkey, ← heq]
    rw [recipientBoundNow, hfind, Option.bind_some, hholder]
    simp only [hsame, false_or, Option.isSome_some, Bool.true_and, decide_eq_true_eq]
    exact eq_comm

variable (hashing) in
theorem declare_cases (s : Store) (scope : WorkScope) :
    (s.declare hashing scope none).1 = s ∨ ∃ revision scopes, scope.revision hashing = .ok revision ∧
      (s.declare hashing scope none).1 = { s with scope := some scope, scopes := scopes } ∧
        ((scopes = s.scopes ∧ revision ∈ s.scopes.map Prod.fst) ∨ scopes = s.scopes ++ [(revision, scope)]) := by
  rw [Store.declare]
  cases hrevision : (scope.validate >>= fun _ => scope.revision hashing).mapError StoreError.domain with
  | error e => exact Or.inl rfl
  | ok revision =>
    obtain ⟨_, _, hrevision⟩ := bind_ok (mapError_ok hrevision)
    refine Or.inr ?_
    dsimp only [Store.perform]
    cases hget : Keyed.get Prod.fst revision s.scopes with
    | none =>
      refine ⟨revision, _, hrevision, ?_, Or.inr rfl⟩
      simp only [Store.writeAll, Store.write, hget, Option.isSome_none, Bool.false_eq_true, if_false]
    | some known =>
      obtain ⟨hmem, hkey⟩ := Keyed.get_mem hget
      refine ⟨revision, _, hrevision, ?_, Or.inl ⟨rfl, hkey ▸ List.mem_map_of_mem hmem⟩⟩
      simp only [Store.writeAll, Store.write, hget, Option.isSome_some, if_true]

/-- What an operation on messages keeps of the store. -/
structure Carries (hashing : Hashing) (s t : Store) : Prop where
  readable : Readable hashing t
  lines : ∀ line ∈ s.lines, line ∈ t.lines
  scope : t.scope = s.scope
  scopes : t.scopes = s.scopes

theorem Carries.refl {s : Store} (hs : Readable hashing s) : Carries hashing s s :=
  ⟨hs, fun _ hline => hline, rfl, rfl⟩

theorem send_carries {s : Store} (hs : Readable hashing s) (caller : AdmittedWorkCaller) (request : SendRequest)
    (payload : List UInt8) (admittedAt : Instant) :
    Carries hashing s (WorkOps.send hashing s caller request payload admittedAt).1 ∧
      ∀ line ∈ (WorkOps.send hashing s caller request payload admittedAt).1.lines, line ∈ s.lines ∨
        ∃ receipt, line = .record receipt ∧ receipt.stage.isConsumed = false := by
  rw [WorkOps.send]
  obtain ⟨hscope, hscopes⟩ :=
    submit_scope hashing s (request.submission hashing caller payload) payload admittedAt none
  cases hadmission : s.admission hashing (request.submission hashing caller payload) payload admittedAt with
  | error e =>
    rw [Store.submit, hadmission]
    exact ⟨Carries.refl hs, fun _ hline => Or.inl hline⟩
  | ok decided =>
    obtain ⟨decision, writes⟩ := decided
    obtain ⟨hready, hadmitted⟩ := send_ready hs hadmission
    rw [Store.submit, hadmission] at hscope hscopes ⊢
    obtain ⟨hreadable, hlines, hnew⟩ := hs.perform hready decision
    refine ⟨⟨hreadable, hlines, hscope, hscopes⟩, fun line hline => (hnew line hline).imp_right ?_⟩
    rintro ⟨receipt, hwrite, rfl⟩
    refine ⟨receipt, rfl, ?_⟩
    rw [hadmitted receipt hwrite]
    rfl

theorem append_carries {α : Type} {s : Store} (hs : Readable hashing s) {writes : List Write} (answer : α)
    (hmessage : ∀ write ∈ writes, write.onMessage = true ∧ write.envelope? = none)
    (hreceipts : ∀ receipt, .receipt receipt ∈ writes → ∃ envelope ∈ s.envelopes, receipt.Fits envelope) :
    Carries hashing s (s.perform hashing writes answer none).1 ∧
      (s.perform hashing writes answer none).1.envelopes = s.envelopes ∧
        ∀ line ∈ (s.perform hashing writes answer none).1.lines,
          line ∈ s.lines ∨ ∃ receipt, .receipt receipt ∈ writes ∧ line = .record receipt := by
  obtain ⟨hreadable, hlines, hnew⟩ :=
    hs.perform (ready_fitting hreceipts fun _ hmem => hmem) answer
  obtain ⟨hscope, hscopes⟩ := perform_scope fun write hmem => (hmessage write hmem).1
  exact ⟨⟨hreadable, hlines, hscope, hscopes⟩,
    perform_envelopes_same (ready_of_forall (fun write hmem _ => (hmessage write hmem).2) s), hnew⟩

theorem pull_carries {s : Store} (hs : Readable hashing s) (caller : AdmittedWorkCaller) (request : PullRequest)
    (now : Instant) (maxMessages : Nat) (maxPayloadBytes : UInt64)
    (decide : List PulledMessage → PulledMessage → Except StoreError PageDecision) :
    Carries hashing s (pullBounded hashing s caller request now maxMessages maxPayloadBytes decide).1 ∧
      (pullBounded hashing s caller request now maxMessages maxPayloadBytes decide).1.envelopes =
          s.envelopes ∧
        ∀ line ∈ (pullBounded hashing s caller request now maxMessages maxPayloadBytes decide).1.lines,
          line ∈ s.lines ∨ ∃ receipt, line = .record receipt ∧ receipt.stage.isConsumed = false := by
  rw [pullBounded]
  cases hpage : pullPage hashing s caller request now maxMessages maxPayloadBytes decide with
  | error e => exact ⟨Carries.refl hs, rfl, fun _ hline => Or.inl hline⟩
  | ok pulled =>
    obtain ⟨page, writes⟩ := pulled
    have hreceipts := pull_receipts hs hpage
    have hmessage : ∀ write ∈ writes, write.onMessage = true ∧ write.envelope? = none := by
      intro write hmem
      obtain ⟨_, _, _, hwrites⟩ := pullPage_ok hpage
      obtain ⟨message, _, hobservation⟩ := hwrites write hmem
      obtain rfl | hcontext := List.mem_cons.mp hobservation
      · exact ⟨rfl, rfl⟩
      · obtain ⟨observation, _, rfl⟩ := Option.map_eq_some_iff.mp (Option.mem_toList.mp hcontext)
        exact ⟨rfl, rfl⟩
    obtain ⟨hcarries, hsame, hnew⟩ := append_carries hs page hmessage fun receipt hmem => (hreceipts receipt hmem).1
    refine ⟨hcarries, hsame, fun line hline => (hnew line hline).imp_right ?_⟩
    rintro ⟨receipt, hwrite, rfl⟩
    exact ⟨receipt, rfl, (hreceipts receipt hwrite).2⟩

theorem noteWrites_ok {s : Store} (hs : Readable hashing s) (request : AcknowledgeRequest) :
    ∃ t, s.writeAll hashing (request.noteWrites hashing) = (t, .ok ()) := by
  rw [AcknowledgeRequest.noteWrites]
  cases request.note with
  | none => exact ⟨s, rfl⟩
  | some note =>
    have hput : ∃ files, putBytes hashing s.notes (hashing.ofBytes note) note = .ok files := by
      rw [putBytes, if_neg (not_not.mpr rfl)]
      cases hget : s.notes (hashing.ofBytes note) with
      | none => exact ⟨_, rfl⟩
      | some existing => exact ⟨_, if_neg (not_not.mpr (hs.notes _ _ hget))⟩
    obtain ⟨files, hfiles⟩ := hput
    have hwrite : s.write hashing (.note (hashing.ofBytes note) note) = .ok { s with notes := files } := by
      rw [Store.write, Store.putNote, hfiles]
      rfl
    exact ⟨_, writeAll_cons hwrite []⟩

theorem acknowledge_recorded {s : Store} (hs : Readable hashing s) {caller : AdmittedWorkCaller}
    {request : AcknowledgeRequest} {now : Instant} {projection : WorkProjection} {view : EnvelopeView}
    (h : Accepted hashing s caller request now projection view) :
    ∃ t, Readable hashing t ∧ WorkOps.acknowledge hashing s caller request now =
      (t.appendReceipt (request.report hashing view.envelope caller.seat now),
        .ok (.recorded (request.report hashing view.envelope caller.seat now))) := by
  obtain ⟨t, ht⟩ := noteWrites_ok hs request
  have hready : Ready hashing Fitting s (request.noteWrites hashing) := by
    refine ready_fitting (fun receipt hmem => ?_) fun _ hmem => hmem
    obtain ⟨note, _, hwrite⟩ := Option.map_eq_some_iff.mp (Option.mem_toList.mp hmem)
    cases hwrite
  have hreadable := (hs.perform hready ()).1
  dsimp only [Store.perform] at hreadable
  rw [ht] at hreadable
  refine ⟨t, hreadable, ?_⟩
  rw [WorkOps.acknowledge, acknowledgment_iff.mpr ⟨projection, view, h, rfl, rfl⟩]
  dsimp only [Store.perform]
  rw [writeAll_append ht]
  rfl

theorem acknowledge_carries {s : Store} (hs : Readable hashing s) (caller : AdmittedWorkCaller)
    (request : AcknowledgeRequest) (now : Instant) :
    Carries hashing s (WorkOps.acknowledge hashing s caller request now).1 ∧
      (WorkOps.acknowledge hashing s caller request now).1.envelopes = s.envelopes ∧
        ∀ line ∈ (WorkOps.acknowledge hashing s caller request now).1.lines, line ∈ s.lines ∨
          ∃ projection view, Accepted hashing s caller request now projection view ∧
            view.envelope ∈ s.envelopes ∧ view.envelope.key = request.key ∧
              line = .record (request.report hashing view.envelope caller.seat now) ∧
                (WorkOps.acknowledge hashing s caller request now).2 =
                  .ok (.recorded (request.report hashing view.envelope caller.seat now)) := by
  cases hack : acknowledgment hashing s caller request now with
  | error e =>
    rw [WorkOps.acknowledge, hack]
    exact ⟨Carries.refl hs, rfl, fun _ hline => Or.inl hline⟩
  | ok answered =>
    obtain ⟨outcome, writes⟩ := answered
    have hreceipts := acknowledgment_receipts hs hack
    have hmessage : ∀ write ∈ writes, write.onMessage = true ∧ write.envelope? = none := by
      intro write hmem
      cases outcome with
      | duplicate =>
        rw [acknowledgment_duplicate hack] at hmem
        exact absurd hmem List.not_mem_nil
      | recorded reported =>
        obtain ⟨_, _, _, _, rfl⟩ := acknowledgment_iff.mp hack
        obtain hnote | hlast := List.mem_append.mp hmem
        · obtain ⟨note, _, rfl⟩ := Option.map_eq_some_iff.mp (Option.mem_toList.mp hnote)
          exact ⟨rfl, rfl⟩
        · rw [List.mem_singleton.mp hlast]
          exact ⟨rfl, rfl⟩
    obtain ⟨hcarries, hsame, hnew⟩ := append_carries hs outcome hmessage fun receipt hmem => by
      obtain ⟨projection, view, haccepted, hview, _, rfl, _⟩ := hreceipts receipt hmem
      exact ⟨view.envelope, hview, (report_consumes haccepted).1⟩
    have hperform : WorkOps.acknowledge hashing s caller request now = s.perform hashing writes outcome none := by
      rw [WorkOps.acknowledge, hack]
    rw [← hperform] at hcarries hsame hnew
    refine ⟨hcarries, hsame, fun line hline => (hnew line hline).imp_right ?_⟩
    rintro ⟨receipt, hwrite, rfl⟩
    obtain ⟨projection, view, haccepted, hview, hkey, rfl, _⟩ := hreceipts receipt hwrite
    obtain ⟨t, _, ht⟩ := acknowledge_recorded hs haccepted
    exact ⟨projection, view, haccepted, hview, hkey, rfl, by rw [ht]⟩

theorem step_same (w : World) (op : Op) (h : (op.apply hashing w.store).envelopes = w.store.envelopes) :
    w.step hashing op = ⟨op.apply hashing w.store, w.admittedUnder⟩ := by
  rw [World.step, h, List.getElem?_eq_none (Nat.le_refl _)]

theorem Steady.of_carries (hw : Steady hashing declared w) {t : Store} (ht : Carries hashing w.store t)
    (hsame : t.envelopes = w.store.envelopes) : Steady hashing declared ⟨t, w.admittedUnder⟩ := by
  refine ⟨ht.readable, ?_, ?_, ?_⟩
  · dsimp only
    rw [ht.scopes]
    exact hw.scopes
  · dsimp only
    rw [ht.scope, ht.scopes]
    exact hw.scope
  · dsimp only
    rw [ht.scopes, hsame]
    exact hw.admitted

theorem Steady.send (hw : Steady hashing declared w) (caller : AdmittedWorkCaller) (request : SendRequest)
    (payload : List UInt8) (admittedAt : Instant) :
    Steady hashing declared (w.step hashing (.send caller request payload admittedAt)) := by
  obtain ⟨hcarries, _⟩ := send_carries hw.readable caller request payload admittedAt
  obtain hsame | ⟨scope, current, earlier, envelope, hdecided, hnew, hpublished⟩ :=
    submit_envelopes hw.readable.keys (request.submission hashing caller payload) payload admittedAt none
  · rw [step_same w (.send caller request payload admittedAt) hsame]
    exact hw.of_carries hcarries hsame
  · have hstep : w.step hashing (.send caller request payload admittedAt) =
        ⟨(WorkOps.send hashing w.store caller request payload admittedAt).1,
          Function.update w.admittedUnder envelope.key w.store.scope⟩ := by
      rw [World.step]
      dsimp only [Op.apply, WorkOps.send]
      rw [hpublished, List.getElem?_concat_length]
    have hkey : envelope.key = (request.submission hashing caller payload).messageKey hashing := by
      obtain ⟨expiresAt, _, rfl⟩ := hnew.envelope
      rfl
    rw [hstep]
    refine ⟨hcarries.readable, ?_, ?_, fun known hknown => ?_⟩
    · dsimp only
      rw [hcarries.scopes]
      exact hw.scopes
    · dsimp only
      rw [hcarries.scope, hcarries.scopes]
      exact hw.scope
    · dsimp only at hknown ⊢
      rw [hcarries.scopes]
      rw [WorkOps.send, hpublished] at hknown
      obtain hold | hlast := List.mem_append.mp hknown
      · obtain ⟨past, molecule, hunder, hpast, hholder⟩ := hw.admitted known hold
        refine ⟨past, molecule, ?_, hpast, hholder⟩
        refine (Function.update_of_ne (fun heq => hnew.key ?_) _ _).trans hunder
        rw [← hkey, ← heq]
        exact List.mem_map_of_mem hold
      · rw [List.mem_singleton.mp hlast]
        obtain ⟨molecule, hholder⟩ := require_recipient hdecided.required
        obtain ⟨revision, hmem⟩ := hw.scope scope hdecided.declared
        obtain ⟨hrevision, _⟩ := require_ok hdecided.required
        have hsame : revision = current := by
          have hentry := (hw.scopes _ hmem).2
          rw [hrevision] at hentry
          cases hentry
          rfl
        obtain ⟨expiresAt, _, rfl⟩ := hnew.envelope
        exact ⟨scope, molecule, (Function.update_self _ _ _).trans hdecided.declared, hsame ▸ hmem, hholder⟩

theorem Steady.declare (hw : Steady hashing declared w) (hdistinct : DistinctRevisions hashing declared)
    {scope : WorkScope} (hscope : scope ∈ declared) :
    Steady hashing declared (w.step hashing (.declare scope)) := by
  obtain hsame | ⟨revision, scopes, hrevision, hstore, hscopes⟩ := declare_cases hashing w.store scope
  · rw [step_same w (.declare scope) (congrArg Store.envelopes hsame), Op.apply, hsame]
    exact hw
  · have hold (entry : ScopeRevision × WorkScope) (hmem : entry ∈ w.store.scopes) : entry ∈ scopes := by
      obtain ⟨rfl, _⟩ | rfl := hscopes
      · exact hmem
      · exact List.mem_append_left _ hmem
    have hnew : ∀ entry ∈ scopes, entry.2 ∈ declared ∧ entry.2.revision hashing = .ok entry.1 := by
      obtain ⟨rfl, _⟩ | rfl := hscopes
      · exact hw.scopes
      · intro entry hmem
        obtain hmem | hlast := List.mem_append.mp hmem
        · exact hw.scopes entry hmem
        · rw [List.mem_singleton.mp hlast]
          exact ⟨hscope, hrevision⟩
    have hrecord : (revision, scope) ∈ scopes := by
      obtain ⟨rfl, hknown⟩ | rfl := hscopes
      · obtain ⟨entry, hmem, rfl⟩ := List.mem_map.mp hknown
        have heq := hdistinct entry.2 (hw.scopes entry hmem).1 scope hscope _ (hw.scopes entry hmem).2 hrevision
        rw [← heq]
        exact hmem
      · exact List.mem_append_right _ (List.mem_singleton_self _)
    have hsame : ((Op.declare scope).apply hashing w.store).envelopes = w.store.envelopes := by
      rw [Op.apply, hstore]
    rw [step_same w (.declare scope) hsame, Op.apply, hstore]
    refine ⟨⟨hw.readable.keys, hw.readable.lines, hw.readable.terminated, hw.readable.files, hw.readable.notes⟩,
      hnew, fun current hcurrent => ?_, fun envelope hmem => ?_⟩
    · cases hcurrent
      exact ⟨revision, hrecord⟩
    · obtain ⟨past, molecule, hunder, hpast, hholder⟩ := hw.admitted envelope hmem
      exact ⟨past, molecule, hunder, hold _ hpast, hholder⟩

theorem Steady.step (hw : Steady hashing declared w) (hdistinct : DistinctRevisions hashing declared) {op : Op}
    (hop : ∀ scope, op.scope? = some scope → scope ∈ declared) : Steady hashing declared (w.step hashing op) := by
  cases op with
  | declare scope => exact hw.declare hdistinct (hop scope rfl)
  | send caller request payload admittedAt => exact hw.send caller request payload admittedAt
  | pull caller request now maxMessages maxPayloadBytes decide =>
    obtain ⟨hcarries, hsame, _⟩ :=
      pull_carries hw.readable caller request now maxMessages maxPayloadBytes decide
    rw [step_same w (.pull caller request now maxMessages maxPayloadBytes decide) hsame]
    exact hw.of_carries hcarries hsame
  | acknowledge caller request now =>
    obtain ⟨hcarries, hsame, _⟩ := acknowledge_carries hw.readable caller request now
    rw [step_same w (.acknowledge caller request now) hsame]
    exact hw.of_carries hcarries hsame

theorem Steady.empty : Steady hashing declared World.empty := by
  refine ⟨⟨List.nodup_nil, fun _ h => absurd h List.not_mem_nil, fun _ h => absurd h List.not_mem_nil,
    List.nodup_nil, fun _ _ h => ?_⟩, fun _ h => absurd h List.not_mem_nil, fun _ h => ?_,
    fun _ h => absurd h List.not_mem_nil⟩
  · cases h
  · cases h

def scopesOf (ops : List Op) : List WorkScope := ops.filterMap Op.scope?

variable {ops : List Op}

theorem steady_worldAt (hdistinct : DistinctRevisions hashing (scopesOf ops)) (n : Nat) :
    Steady hashing (scopesOf ops) (worldAt hashing ops n) := by
  refine stateAt_preserves (P := Steady hashing (scopesOf ops)) World.empty (fun k op hop hw => ?_) (Nat.zero_le n)
    Steady.empty
  exact hw.step hdistinct fun scope hscope => List.mem_filterMap.mpr ⟨op, List.mem_of_getElem? hop, hscope⟩

theorem step_consumed (hw : Readable hashing w.store) (op : Op) {envelope : Envelope}
    (h : Consumed w.store envelope) : Consumed (w.step hashing op).store envelope := by
  obtain ⟨receipt, hline, hconsumes⟩ := h
  refine ⟨receipt, ?_, hconsumes⟩
  rw [World.step]
  cases op with
  | declare scope =>
    obtain hsame | ⟨revision, scopes, _, hstore, _⟩ := declare_cases hashing w.store scope
    · rw [Op.apply, hsame]
      exact hline
    · rw [Op.apply, hstore]
      exact hline
  | send caller request payload admittedAt =>
    exact (send_carries hw caller request payload admittedAt).1.lines _ hline
  | pull caller request now maxMessages maxPayloadBytes decide =>
    exact (pull_carries hw caller request now maxMessages maxPayloadBytes decide).1.lines _ hline
  | acknowledge caller request now => exact (acknowledge_carries hw caller request now).1.lines _ hline

variable (hashing) in
/-- Messages go to the holder of the seat that they were written for, and are read by no
other. -/
structure Respected (ops : List Op) : Prop where
  pulled : ∀ n caller request now maxMessages maxPayloadBytes decide page,
    ops[n]? = some (.pull caller request now maxMessages maxPayloadBytes decide) →
      (pullBounded hashing (worldAt hashing ops n).store caller request now maxMessages maxPayloadBytes
        decide).2 = .ok page →
        ∀ envelope ∈ page.envelopes, envelope.recipient = caller.seat ∧
          Bound (worldAt hashing ops n) envelope ∧ envelope.isExpiredAt now = false ∧
            ∀ m ≤ n, ¬Consumed (worldAt hashing ops m).store envelope
  consumed : ∀ n op envelope, ops[n]? = some op → envelope ∈ (worldAt hashing ops (n + 1)).store.envelopes →
    ¬Consumed (worldAt hashing ops n).store envelope →
      Consumed (worldAt hashing ops (n + 1)).store envelope →
        ∃ caller request now receipt, op = .acknowledge caller request now ∧ request.key = envelope.key ∧
          (acknowledge hashing (worldAt hashing ops n).store caller request now).2 =
              .ok (.recorded receipt) ∧
            Bound (worldAt hashing ops n) envelope

/-- An acknowledgment that passes every check, on an envelope whose recipient seat another
molecule holds by now. -/
def MovedAcknowledgment (hashing : Hashing) (s : Store) (caller : AdmittedWorkCaller)
    (request : AcknowledgeRequest) (now : Instant) : Prop :=
  ∃ projection view, Accepted hashing s caller request now projection view ∧ view.recipientBound = false

theorem Steady.pulled (hw : Steady hashing declared w) (hdistinct : DistinctRevisions hashing declared)
    {caller : AdmittedWorkCaller} {request : PullRequest} {now : Instant} {maxMessages : Nat}
    {maxPayloadBytes : UInt64} {decide : List PulledMessage → PulledMessage → Except StoreError PageDecision}
    {page : BoundedPull}
    (h : (pullBounded hashing w.store caller request now maxMessages maxPayloadBytes decide).2 = .ok page) :
    ∀ envelope ∈ page.envelopes, envelope.recipient = caller.seat ∧ Bound w envelope ∧
      envelope.isExpiredAt now = false ∧ ¬Consumed w.store envelope := by
  intro envelope hmem
  rw [pullBounded] at h
  cases hpage : pullPage hashing w.store caller request now maxMessages maxPayloadBytes decide with
  | error e =>
    simp only [hpage] at h
    cases h
  | ok pulled =>
    obtain ⟨selected, writes⟩ := pulled
    simp only [hpage] at h
    obtain ⟨_, _, rfl⟩ := map_ok h
    obtain ⟨projection, hprojection, hdeliverable, _⟩ := pullPage_ok hpage
    obtain ⟨view, hview, rfl, hseat, hopen, hbound, hexpired⟩ := deliverable_mem (hdeliverable envelope hmem)
    obtain ⟨receipts, _, _, hlines, _, _, _, hfolded⟩ := projection_ok hw.readable hprojection
    refine ⟨hseat, (hw.recipientBound_iff hdistinct hprojection hview).mp hbound, hexpired, fun hconsumed => ?_⟩
    have hsome := (hfolded.consumed view hview).mpr ((consumed_iff hlines view.envelope).mp hconsumed)
    rw [hopen] at hsome
    cases hsome

theorem Steady.consumed (hw : Steady hashing declared w) {op : Op} {envelope : Envelope}
    (hmem : envelope ∈ (w.step hashing op).store.envelopes) (hbefore : ¬Consumed w.store envelope)
    (hafter : Consumed (w.step hashing op).store envelope) :
    ∃ caller request now projection view, op = .acknowledge caller request now ∧
      Accepted hashing w.store caller request now projection view ∧ view.envelope = envelope ∧
        request.key = envelope.key := by
  obtain ⟨receipt, hline, hconsumes⟩ := hafter
  have hno : .record receipt ∉ w.store.lines := fun hline => hbefore ⟨receipt, hline, hconsumes⟩
  have hquiet (hnew : .record receipt ∈ w.store.lines ∨
      ∃ other, ReceiptLine.record receipt = .record other ∧ other.stage.isConsumed = false) : False := by
    obtain hline | ⟨other, hsame, hstage⟩ := hnew
    · exact hno hline
    · cases hsame
      rw [hconsumes.2] at hstage
      cases hstage
  rw [World.step] at hline hmem
  dsimp only at hline hmem
  cases op with
  | declare scope =>
    obtain hsame | ⟨revision, scopes, _, hstore, _⟩ := declare_cases hashing w.store scope
    · rw [Op.apply, hsame] at hline
      exact absurd hline hno
    · rw [Op.apply, hstore] at hline
      exact absurd hline hno
  | send caller request payload admittedAt =>
    exact (hquiet ((send_carries hw.readable caller request payload admittedAt).2 _ hline)).elim
  | pull caller request now maxMessages maxPayloadBytes decide =>
    exact (hquiet
      ((pull_carries hw.readable caller request now maxMessages maxPayloadBytes decide).2.2 _ hline)).elim
  | acknowledge caller request now =>
    obtain ⟨_, hsame, hnew⟩ := acknowledge_carries hw.readable caller request now
    obtain hline | ⟨projection, view, haccepted, hview, hkey, hreport, _⟩ := hnew _ hline
    · exact absurd hline hno
    · cases hreport
      have henvelope : view.envelope = envelope := by
        rw [Op.apply, hsame] at hmem
        exact List.inj_on_of_nodup_map hw.readable.keys hview hmem hconsumes.1.key.symm
      exact ⟨caller, request, now, projection, view, rfl, haccepted, henvelope, henvelope ▸ hkey.symm⟩

theorem Accepted.consumed (hw : Steady hashing declared w) {caller : AdmittedWorkCaller}
    {request : AcknowledgeRequest} {now : Instant} {projection : WorkProjection} {view : EnvelopeView}
    (h : Accepted hashing w.store caller request now projection view) :
    view.envelope ∈ (w.step hashing (.acknowledge caller request now)).store.envelopes ∧
      ¬Consumed w.store view.envelope ∧
        Consumed (w.step hashing (.acknowledge caller request now)).store view.envelope := by
  obtain ⟨receipts, _, _, hlines, _, _, _, hfolded⟩ := projection_ok hw.readable h.current
  obtain ⟨hview, hmem, _⟩ := hfolded.get_some h.found
  obtain ⟨t, ht, hack⟩ := acknowledge_recorded hw.readable h
  refine ⟨?_, fun hconsumed => ?_, ?_⟩
  · rw [World.step]
    dsimp only [Op.apply]
    rw [(acknowledge_carries hw.readable caller request now).2.1]
    exact hmem
  · have hsome := (hfolded.consumed view hview).mpr ((consumed_iff hlines view.envelope).mp hconsumed)
    rw [h.first] at hsome
    cases hsome
  · refine ⟨_, ?_, report_consumes h⟩
    rw [World.step]
    dsimp only [Op.apply]
    rw [hack]
    exact (ht.mem_append _ _).mpr (Or.inr rfl)

theorem Respected.not_moved (hdistinct : DistinctRevisions hashing (scopesOf ops)) (h : Respected hashing ops)
    {n : Nat} {caller : AdmittedWorkCaller} {request : AcknowledgeRequest} {now : Instant}
    (hop : ops[n]? = some (.acknowledge caller request now)) :
    ¬MovedAcknowledgment hashing (worldAt hashing ops n).store caller request now := by
  rintro ⟨projection, view, haccepted, hmoved⟩
  have hw := steady_worldAt hdistinct n
  have hnext : worldAt hashing ops (n + 1) = (worldAt hashing ops n).step hashing (.acknowledge caller request now) :=
    stateAt_succ _ hop _
  obtain ⟨hmem, hbefore, hafter⟩ := Accepted.consumed hw haccepted
  rw [← hnext] at hmem hafter
  obtain ⟨_, _, _, _, _, _, _, hbound⟩ := h.consumed n _ view.envelope hop hmem hbefore hafter
  obtain ⟨_, _, _, _, _, _, _, hfolded⟩ := projection_ok hw.readable haccepted.current
  rw [← hw.recipientBound_iff hdistinct haccepted.current (hfolded.get_some haccepted.found).1, hmoved] at hbound
  cases hbound

/-- The binding of every message is respected, except where the new holder of a seat
acknowledges what was written for the old one. -/
theorem respected_iff (hashing : Hashing) (ops : List Op)
    (hdistinct : DistinctRevisions hashing (scopesOf ops)) :
    Respected hashing ops ↔ ∀ n caller request now, ops[n]? = some (.acknowledge caller request now) →
      ¬MovedAcknowledgment hashing (worldAt hashing ops n).store caller request now := by
  have hsteady := steady_worldAt hdistinct
  have hnext {n : Nat} {op : Op} (hop : ops[n]? = some op) :
      worldAt hashing ops (n + 1) = (worldAt hashing ops n).step hashing op := stateAt_succ _ hop _
  constructor
  · exact fun h n caller request now hop => h.not_moved hdistinct hop
  · intro hacks
    refine ⟨fun n caller request now maxMessages maxPayloadBytes decide page hop hpage envelope hmem => ?_,
      fun n op envelope hop hmem hbefore hafter => ?_⟩
    · obtain ⟨hseat, hbound, hexpired, hopen⟩ := (hsteady n).pulled hdistinct hpage envelope hmem
      refine ⟨hseat, hbound, hexpired, fun m hm hconsumed => hopen ?_⟩
      exact stateAt_preserves (P := fun w : World => Consumed w.store envelope) World.empty
        (fun k op _ hk => step_consumed (hsteady k).readable op hk) hm hconsumed
    · rw [hnext hop] at hmem hafter
      obtain ⟨caller, request, now, projection, view, rfl, haccepted, rfl, hkey⟩ :=
        (hsteady n).consumed hmem hbefore hafter
      obtain ⟨t, _, hack⟩ := acknowledge_recorded (hsteady n).readable haccepted
      obtain ⟨_, _, _, _, _, _, _, hfolded⟩ := projection_ok (hsteady n).readable haccepted.current
      refine ⟨caller, request, now, _, rfl, hkey, by rw [hack], ?_⟩
      rw [← (hsteady n).recipientBound_iff hdistinct haccepted.current (hfolded.get_some haccepted.found).1]
      refine (Bool.not_eq_false _).mp fun hmoved => ?_
      exact hacks n caller request now hop ⟨projection, view, haccepted, hmoved⟩

def movedScope : WorkScope where
  schemaVersion := workMessageSchemaVersion
  owner := "task-20260928-0000"
  seats :=
    { entries := [("a", ⟨"task-20260928-aaaa", true, none⟩), ("b", ⟨"task-20260928-cccc", true, none⟩)]
      sorted := by decide }
  budget := ⟨100, 2, 500, 3600, 60, 2⟩
  declaredAt := 1000000000000

def rosterHashing : Hashing where
  ofBytes bytes := String.ofList (bytes.map fun b => Char.ofNat b.toNat)
  canonicalSerialize scope := .ok (scope.seats.entries.map fun entry =>
    if entry.2.molecule = "task-20260928-cccc" then 99 else 98)

def senderA : AdmittedWorkCaller := ⟨"task-20260928-0000", "a", .callerEnvSameUid⟩

def holderB : AdmittedWorkCaller := ⟨"task-20260928-0000", "b", .callerEnvSameUid⟩

def sendFinding : SendRequest := ⟨"bb", "b", some "m1", 1000000000000, none, none, .internal, none⟩

def consideredUnder (revision : ScopeRevision) : AcknowledgeRequest :=
  ⟨revision, "m1", "fi", .considered, none, none⟩

def pullUnder (revision : ScopeRevision) : PullRequest := ⟨revision, .pull, "inbox", false, none⟩

def heldRun : List Op :=
  [.declare WorkRuns.pairScope, .send senderA sendFinding WorkRuns.findingBytes 1000000000000,
    .pull holderB (pullUnder "bb") 1000000000001 10 100 fun _ _ => .ok .include_,
    .acknowledge holderB (consideredUnder "bb") 1000000000002]

theorem heldRun_respected : Respected rosterHashing heldRun := by
  refine (respected_iff rosterHashing heldRun ?_).mpr ?_
  · intro scope hscope other hother _ _ _
    rw [show scopesOf heldRun = [WorkRuns.pairScope] from rfl, List.mem_singleton] at hscope hother
    rw [hscope, hother]
  · intro n caller request now hop
    match n with
    | 0 | 1 | 2 => cases hop
    | 3 =>
      cases hop
      rintro ⟨projection, view, haccepted, hmoved⟩
      have hcurrent := haccepted.current
      have hfound := haccepted.found
      cases hcurrent
      cases hfound
      cases hmoved
    | n + 4 => cases hop

def movedRun : List Op :=
  [.declare WorkRuns.pairScope, .send senderA sendFinding WorkRuns.findingBytes 1000000000000,
    .declare movedScope, .acknowledge holderB (consideredUnder "bc") 1000000000002]

theorem movedRun_not_respected : ¬Respected rosterHashing movedRun := by
  intro h
  refine h.not_moved ?_ (rfl : movedRun[3]? = some (.acknowledge holderB (consideredUnder "bc") 1000000000002)) ?_
  · intro scope hscope other hother revision hrevision hother'
    rw [show scopesOf movedRun = [WorkRuns.pairScope, movedScope] from rfl, List.mem_cons,
      List.mem_singleton] at hscope hother
    obtain rfl | rfl := hscope <;> obtain rfl | rfl := hother <;> first | rfl | (cases hrevision; cases hother')
  · exact ⟨_, _, ⟨rfl, rfl, by decide, rfl, rfl, rfl, rfl, rfl⟩, rfl⟩

end Runs

end Cosmon.State.WorkBinding
