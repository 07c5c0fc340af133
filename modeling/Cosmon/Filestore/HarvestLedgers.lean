import Cosmon.Core.HarvestAuthorization
import Cosmon.Lib.Runs
import Mathlib.Logic.Function.Basic

namespace Cosmon.Filestore.HarvestLedgers

open Cosmon.Core.HarvestAuthorization Cosmon.Lib.Checks Cosmon.Lib.Runs

inductive Line (α : Type) where
  | blank
  | malformed (error : String)
  | record (value : α)
deriving DecidableEq

section Consumption

def noteReceipt (permit : PermitId) (found : Option ConsumptionRecord) :
    Line ConsumptionRecord → Except String (Option ConsumptionRecord)
  | .blank => .ok found
  | .malformed e => .error ("malformed harvest receipt: " ++ e)
  | .record record =>
    if record.permit ≠ permit then .ok found
    else if found.any (· ≠ record) then .error ("conflicting harvest receipts for permit " ++ permit)
    else .ok (some record)

/-- The receipt of a permit. Every line is read, since one that cannot be read may be
the receipt. -/
def recorded (ledger : List (Line ConsumptionRecord)) (permit : PermitId) :
    Except String (Option ConsumptionRecord) :=
  ledger.foldlM (noteReceipt permit) none

theorem recorded_ok {ledger : List (Line ConsumptionRecord)} {permit : PermitId}
    {found : Option ConsumptionRecord} (h : recorded ledger permit = .ok found) :
    ∀ record, found = some record ↔ .record record ∈ ledger ∧ record.permit = permit := by
  refine foldlM_ok (P := fun ledger found => ∀ record,
    found = some record ↔ .record record ∈ ledger ∧ record.permit = permit) ?_ ?_ h
  · intro record
    exact ⟨fun h => (nomatch h), fun h => absurd h.1 List.not_mem_nil⟩
  · intro lines found line found' ih hline record
    rw [List.mem_append, List.mem_singleton]
    cases line with
    | blank =>
      cases hline
      rw [ih record]
      exact and_congr_left fun _ => ⟨Or.inl, fun h => h.resolve_right fun h => nomatch h⟩
    | malformed e => cases hline
    | record last =>
      rw [noteReceipt] at hline
      split at hline
      · rename_i hother
        cases hline
        rw [ih record]
        refine and_congr_left fun hpermit => ⟨Or.inl, fun h => h.resolve_right fun h => ?_⟩
        cases h
        exact hother hpermit
      · rename_i hpermit
        obtain ⟨hsame, hline⟩ := guard_ok.mp hline
        cases hline
        constructor
        · intro h
          cases h
          exact ⟨Or.inr rfl, of_not_not hpermit⟩
        · rintro ⟨hmem | hlast, hp⟩
          · have hfound := (ih record).mpr ⟨hmem, hp⟩
            rw [hfound] at hsame
            have heq : record = last := by simpa using hsame
            rw [heq]
          · cases hlast
            rfl

/-- How an append ends: as it should, before it wrote, in the middle of its line, or
with the whole line but without the sync. -/
inductive Written where
  | synced
  | nothing (error : String)
  | torn (error decodeError : String)
  | unsynced (error : String)

def consume (ledger : List (Line ConsumptionRecord)) (record : ConsumptionRecord) :
    Written → List (Line ConsumptionRecord) × Except String Unit
  | .synced => (ledger ++ [.record record], .ok ())
  | .nothing e => (ledger, .error e)
  | .torn e decodeError => (ledger ++ [.malformed decodeError], .error e)
  | .unsynced e => (ledger ++ [.record record], .error e)

end Consumption

section Journal

structure Progress where
  latest : PermitId → Option HarvestJournalRecord
  operations : String → Option PermitId
  lineNumber : Nat

def Progress.empty : Progress := ⟨fun _ => none, fun _ => none, 0⟩

def validateIdentity (entry : HarvestJournalRecord) : Except String Unit :=
  if entry.version ≠ 1 ∨ entry.receipt.invocationId = "" ∨ entry.preMergeBase = "" ∨
      entry.optionsDigest = "" ∨ entry.hookDigest = "" then
    .error "invalid harvest journal identity"
  else .ok ()

def validateMergeOid (entry : HarvestJournalRecord) : Except String Unit :=
  match entry.stage with
  | .prepared =>
    if entry.mergeOid.isSome then .error "prepared harvest names a merge" else .ok ()
  | .integrated =>
    if entry.mergeOid.isNone then .error "integrated harvest lacks a merge oid" else .ok ()
  | .finalized =>
    if entry.mergeOid.isNone ∧ entry.branchHead.isSome then
      .error "finalized branch harvest lacks a merge oid"
    else .ok ()

def follows (old entry : HarvestJournalRecord) : Prop :=
  (old.stage = .prepared ∧ entry.stage = .integrated) ∨
    (old.stage = .integrated ∧ entry.stage = .finalized) ∨
      (old.stage = .prepared ∧ entry.stage = .finalized ∧ entry.branchHead = none)

def SameAttempt (old entry : HarvestJournalRecord) : Prop :=
  old.receipt = entry.receipt ∧ old.branchHead = entry.branchHead ∧
    old.preMergeBase = entry.preMergeBase ∧ old.optionsDigest = entry.optionsDigest ∧
      old.hookDigest = entry.hookDigest

instance (old entry : HarvestJournalRecord) : Decidable (follows old entry) :=
  inferInstanceAs (Decidable (_ ∨ _))

instance (old entry : HarvestJournalRecord) : Decidable (SameAttempt old entry) :=
  inferInstanceAs (Decidable (_ ∧ _))

def validateTransition (prior : Option HarvestJournalRecord) (entry : HarvestJournalRecord) :
    Except String Unit := do
  validateIdentity entry
  validateMergeOid entry
  let refusal : Except String Unit :=
    .error "conflicting or out-of-order harvest journal transition"
  match prior with
  | none => if entry.stage = .prepared then .ok () else refusal
  | some old =>
    if SameAttempt old entry ∧ follows old entry ∧
        (old.mergeOid = none ∨ old.mergeOid = entry.mergeOid) then .ok ()
    else refusal

def Progress.note (progress : Progress) (entry : HarvestJournalRecord) : Progress where
  latest := Function.update progress.latest entry.receipt.permit (some entry)
  operations := Function.update progress.operations entry.receipt.invocationId (some entry.receipt.permit)
  lineNumber := progress.lineNumber + 1

def readLine (progress : Progress) : Line HarvestJournalRecord → Except String Progress
  | .blank => .error ("empty harvest journal line " ++ (progress.lineNumber + 1).repr)
  | .malformed e =>
    .error ("malformed harvest journal line " ++ (progress.lineNumber + 1).repr ++ ": " ++ e)
  | .record entry =>
    if entry.version ≠ 1 then
      .error ("unsupported harvest journal version " ++ entry.version.val.repr)
    else if (progress.operations entry.receipt.invocationId).any (· ≠ entry.receipt.permit) then
      .error "harvest operation id belongs to multiple permits"
    else do
      validateTransition (progress.latest entry.receipt.permit) entry
      .ok (progress.note entry)

def readProgress (journal : List (Line HarvestJournalRecord)) : Except String Progress :=
  journal.foldlM readLine .empty

/-- `FileHarvestJournal::latest`. -/
def latest (journal : List (Line HarvestJournalRecord)) (permit : PermitId) :
    Except String (Option HarvestJournalRecord) :=
  (readProgress journal).map fun progress => progress.latest permit

/-- `FileHarvestJournal::append`: the line is checked against the last record of its
own permit. -/
def append (journal : List (Line HarvestJournalRecord)) (entry : HarvestJournalRecord) :
    Except String (List (Line HarvestJournalRecord)) := do
  let prior ← latest journal entry.receipt.permit
  validateTransition prior entry
  .ok (journal ++ [.record entry])

theorem validateTransition_ok {prior : Option HarvestJournalRecord} {entry : HarvestJournalRecord}
    (h : validateTransition prior entry = .ok ()) :
    entry.version = 1 ∧ (prior = none → entry.stage = .prepared) ∧
      ∀ old, prior = some old → SameAttempt old entry ∧ follows old entry := by
  obtain ⟨_, hidentity, h⟩ := bind_ok h
  obtain ⟨_, _, h⟩ := bind_ok h
  have hversion := (guard_ok.mp hidentity).1
  refine ⟨of_not_not fun hno => hversion (Or.inl hno), ?_, ?_⟩
  · rintro rfl
    dsimp only at h
    split at h
    · assumption
    · cases h
  · rintro old rfl
    dsimp only at h
    split at h
    · rename_i hok
      exact ⟨hok.1, hok.2.1⟩
    · cases h

def recordsOf (permit : PermitId) (entries : List HarvestJournalRecord) : List HarvestJournalRecord :=
  entries.filter fun entry => entry.receipt.permit = permit

/-- Prepared, integrated, finalized, one after the other; without a branch the second
may be left out. All of one attempt. -/
structure LegalChain (entries : List HarvestJournalRecord) : Prop where
  order : entries.map (·.stage) <+: [.prepared, .integrated, .finalized] ∨
    entries.map (·.stage) = [.prepared, .finalized] ∧ ∀ entry ∈ entries, entry.branchHead = none
  same : ∀ entry ∈ entries, ∀ other ∈ entries, SameAttempt entry other

theorem LegalChain.nil : LegalChain [] where
  order := Or.inl (List.nil_prefix)
  same _ h := absurd h List.not_mem_nil

theorem SameAttempt.refl (entry : HarvestJournalRecord) : SameAttempt entry entry :=
  ⟨rfl, rfl, rfl, rfl, rfl⟩

theorem SameAttempt.symm {old entry : HarvestJournalRecord} (h : SameAttempt old entry) :
    SameAttempt entry old :=
  ⟨h.1.symm, h.2.1.symm, h.2.2.1.symm, h.2.2.2.1.symm, h.2.2.2.2.symm⟩

theorem SameAttempt.trans {first old entry : HarvestJournalRecord} (h : SameAttempt first old)
    (h' : SameAttempt old entry) : SameAttempt first entry :=
  ⟨h.1.trans h'.1, h.2.1.trans h'.2.1, h.2.2.1.trans h'.2.2.1, h.2.2.2.1.trans h'.2.2.2.1,
    h.2.2.2.2.trans h'.2.2.2.2⟩

theorem stages_concat {stages : List HarvestJournalStage} {stage : HarvestJournalStage}
    (h : stages ++ [stage] <+: [.prepared, .integrated, .finalized]) :
    (stages = [] ∧ stage = .prepared) ∨ (stages = [.prepared] ∧ stage = .integrated) ∨
      (stages = [.prepared, .integrated] ∧ stage = .finalized) := by
  match stages, h with
  | [], h => exact Or.inl ⟨rfl, (List.cons_prefix_cons.mp h).1⟩
  | [s], h =>
    obtain ⟨hs, hrest⟩ := List.cons_prefix_cons.mp h
    rw [hs]
    exact Or.inr (Or.inl ⟨rfl, (List.cons_prefix_cons.mp hrest).1⟩)
  | [s, s'], h =>
    obtain ⟨hs, hrest⟩ := List.cons_prefix_cons.mp h
    obtain ⟨hs', hlast⟩ := List.cons_prefix_cons.mp hrest
    rw [hs, hs']
    exact Or.inr (Or.inr ⟨rfl, (List.cons_prefix_cons.mp hlast).1⟩)
  | s :: s' :: s'' :: rest, h =>
    have hlength := h.length_le
    simp only [List.cons_append, List.length_cons, List.length_append, List.length_nil] at hlength
    omega

theorem LegalChain.concat {entries : List HarvestJournalRecord} {entry : HarvestJournalRecord}
    (h : LegalChain entries) (hentry : validateTransition entries.getLast? entry = .ok ()) :
    LegalChain (entries ++ [entry]) := by
  obtain ⟨-, hfirst, hnext⟩ := validateTransition_ok hentry
  cases hlast : entries.getLast? with
  | none =>
    rw [List.getLast?_eq_none_iff.mp hlast, List.nil_append]
    refine ⟨Or.inl ?_, ?_⟩
    · rw [List.map_singleton, hfirst hlast]
      exact List.prefix_append [_] _
    · intro e he e' he'
      rw [List.mem_singleton.mp he, List.mem_singleton.mp he']
      exact SameAttempt.refl entry
  | some old =>
    obtain ⟨hsame, hfollows⟩ := hnext old hlast
    obtain ⟨front, rfl⟩ := List.getLast?_eq_some_iff.mp hlast
    have hold : ∀ e ∈ front ++ [old], SameAttempt e entry := fun e he =>
      (h.same e he old (List.mem_append_right _ List.mem_cons_self)).trans hsame
    refine ⟨?_, ?_⟩
    · have horder := h.order
      rw [List.map_append, List.map_singleton] at horder
      rw [List.map_append, List.map_append, List.map_singleton, List.map_singleton]
      obtain horder | ⟨horder, -⟩ := horder
      · obtain ⟨hfront, hold'⟩ | ⟨hfront, hold'⟩ | ⟨-, hold'⟩ := stages_concat horder
        · rw [hfront, hold']
          obtain ⟨-, hstage⟩ | ⟨hno, -⟩ | ⟨-, hstage, hbranch⟩ := hfollows
          · rw [hstage]
            exact Or.inl (List.prefix_append [_, _] _)
          · cases hno.symm.trans hold'
          · rw [hstage]
            refine Or.inr ⟨rfl, ?_⟩
            intro e he
            obtain he | he := List.mem_append.mp he
            · exact (hold e he).2.1.trans hbranch
            · rw [List.mem_singleton.mp he]
              exact hbranch
        · rw [hfront, hold']
          obtain ⟨hno, -⟩ | ⟨-, hstage⟩ | ⟨hno, -⟩ := hfollows
          · cases hno.symm.trans hold'
          · rw [hstage]
            exact Or.inl (List.prefix_refl _)
          · cases hno.symm.trans hold'
        · obtain ⟨hno, -⟩ | ⟨hno, -⟩ | ⟨hno, -⟩ := hfollows <;> cases hno.symm.trans hold'
      · have hfinal : old.stage = .finalized := by
          have hlast' := congrArg List.getLast? horder
          rw [List.getLast?_concat] at hlast'
          exact Option.some.inj hlast'
        obtain ⟨hno, -⟩ | ⟨hno, -⟩ | ⟨hno, -⟩ := hfollows <;> cases hno.symm.trans hfinal
    · intro e he e' he'
      obtain he | he := List.mem_append.mp he
      · obtain he' | he' := List.mem_append.mp he'
        · exact h.same e he e' he'
        · rw [List.mem_singleton.mp he']
          exact hold e he
      · rw [List.mem_singleton.mp he]
        obtain he' | he' := List.mem_append.mp he'
        · exact (hold e' he').symm
        · rw [List.mem_singleton.mp he']
          exact SameAttempt.refl entry

theorem recordsOf_concat (permit : PermitId) (entries : List HarvestJournalRecord)
    (entry : HarvestJournalRecord) :
    recordsOf permit (entries ++ [entry]) =
      if entry.receipt.permit = permit then recordsOf permit entries ++ [entry]
      else recordsOf permit entries := by
  rw [recordsOf, List.filter_append, List.filter_singleton]
  by_cases h : entry.receipt.permit = permit
  · rw [if_pos h, decide_eq_true h, recordsOf]
    rfl
  · rw [if_neg h, decide_eq_false h, recordsOf]
    exact List.append_nil _

/-- What the reader has found out about these records. -/
structure Read (entries : List HarvestJournalRecord) (progress : Progress) : Prop where
  latest : ∀ permit, progress.latest permit = (recordsOf permit entries).getLast?
  operations : ∀ id permit, progress.operations id = some permit ↔
    ∃ entry ∈ entries, entry.receipt.invocationId = id ∧ entry.receipt.permit = permit
  chains : ∀ permit, LegalChain (recordsOf permit entries)

def OperationFree (entries : List HarvestJournalRecord) (entry : HarvestJournalRecord) : Prop :=
  ∀ old ∈ entries, old.receipt.invocationId = entry.receipt.invocationId →
    old.receipt.permit = entry.receipt.permit

section

variable {entries : List HarvestJournalRecord} {entry : HarvestJournalRecord} {progress : Progress}

theorem Read.operationFree_iff (h : Read entries progress) :
    (progress.operations entry.receipt.invocationId).any (· ≠ entry.receipt.permit) = false ↔
      OperationFree entries entry := by
  rw [← Bool.not_eq_true, Option.any_eq_true]
  constructor
  · intro hno old hold hid
    by_contra hpermit
    exact hno ⟨old.receipt.permit, (h.operations _ _).mpr ⟨old, hold, hid, rfl⟩, decide_eq_true hpermit⟩
  · rintro hfree ⟨permit, hpermit, hne⟩
    obtain ⟨old, hold, hid, rfl⟩ := (h.operations _ _).mp hpermit
    exact of_decide_eq_true hne (hfree old hold hid)

theorem Read.note (h : Read entries progress) (hfree : OperationFree entries entry)
    (hentry : validateTransition (progress.latest entry.receipt.permit) entry = .ok ()) :
    Read (entries ++ [entry]) (progress.note entry) where
  latest permit := by
    rw [recordsOf_concat]
    dsimp only [Progress.note]
    by_cases hpermit : entry.receipt.permit = permit
    · rw [if_pos hpermit, List.getLast?_concat, ← hpermit, Function.update_self]
    · rw [if_neg hpermit, Function.update_of_ne (Ne.symm hpermit), h.latest]
  operations id permit := by
    dsimp only [Progress.note]
    by_cases hid : id = entry.receipt.invocationId
    · rw [hid, Function.update_self]
      constructor
      · intro hpermit
        exact ⟨entry, List.mem_append_right _ List.mem_cons_self, rfl, Option.some.inj hpermit⟩
      · rintro ⟨old, hold, hid', rfl⟩
        obtain hold | hold := List.mem_append.mp hold
        · rw [hfree old hold hid']
        · rw [List.mem_singleton.mp hold]
    · rw [Function.update_of_ne hid, h.operations]
      constructor
      · rintro ⟨old, hold, hold'⟩
        exact ⟨old, List.mem_append_left _ hold, hold'⟩
      · rintro ⟨old, hold, hid', hpermit⟩
        obtain hold | hold := List.mem_append.mp hold
        · exact ⟨old, hold, hid', hpermit⟩
        · rw [List.mem_singleton.mp hold] at hid'
          exact absurd hid'.symm hid
  chains permit := by
    rw [recordsOf_concat]
    split
    · rename_i hpermit
      rw [hpermit, h.latest] at hentry
      exact (h.chains permit).concat hentry
    · exact h.chains permit

theorem readLine_record_ok {progress' : Progress} :
    readLine progress (.record entry) = .ok progress' ↔
      (progress.operations entry.receipt.invocationId).any (· ≠ entry.receipt.permit) = false ∧
        validateTransition (progress.latest entry.receipt.permit) entry = .ok () ∧
          progress' = progress.note entry := by
  rw [readLine, guard_ok, guard_ok, not_not, Bool.not_eq_true]
  constructor
  · rintro ⟨-, hfree, h⟩
    obtain ⟨_, hentry, h⟩ := bind_ok h
    cases h
    exact ⟨hfree, hentry, rfl⟩
  · rintro ⟨hfree, hentry, rfl⟩
    refine ⟨(validateTransition_ok hentry).1, hfree, ?_⟩
    rw [hentry]
    rfl

theorem readProgress_read (h : readProgress (entries.map .record) = .ok progress) :
    Read entries progress := by
  rw [readProgress, List.foldlM_map] at h
  refine foldlM_ok (P := Read) ⟨fun _ => rfl, ?_, fun _ => LegalChain.nil⟩ ?_ h
  · intro id permit
    exact ⟨fun h => (nomatch h), fun ⟨_, hmem, _⟩ => absurd hmem List.not_mem_nil⟩
  · intro front progress entry progress' hread hline
    obtain ⟨hfree, hentry, rfl⟩ := readLine_record_ok.mp hline
    exact hread.note (hread.operationFree_iff.mp hfree) hentry

theorem readProgress_concat (h : readProgress (entries.map .record) = .ok progress) :
    readProgress ((entries ++ [entry]).map .record) = readLine progress (.record entry) := by
  rw [List.map_append, readProgress, List.foldlM_append, ← readProgress, h]
  simp only [List.map_cons, List.map_nil, List.foldlM_cons, List.foldlM_nil, bind_pure]
  rfl

structure World where
  journal : List (Line HarvestJournalRecord)
  accepted : List HarvestJournalRecord

def World.step (w : World) (entry : HarvestJournalRecord) : World :=
  match append w.journal entry with
  | .ok journal => ⟨journal, w.accepted ++ [entry]⟩
  | .error _ => w

/-- The run before its `n`-th call, from an empty journal. -/
def worldAt (offered : List HarvestJournalRecord) (n : Nat) : World := stateAt World.step ⟨[], []⟩ offered n

/-- The journal can be read, its last record of the permit is the reader's, and the
line passes. -/
def Admissible (journal : List (Line HarvestJournalRecord)) (entry : HarvestJournalRecord) : Prop :=
  ∃ prior, latest journal entry.receipt.permit = .ok prior ∧ validateTransition prior entry = .ok ()

/-- For every permit the journal is readable and shows the record accepted last, and
what was accepted is a legal chain. -/
def Kept (w : World) : Prop :=
  ∀ permit, latest w.journal permit = .ok (recordsOf permit w.accepted).getLast? ∧
    LegalChain (recordsOf permit w.accepted)

def JournalKept (offered : List HarvestJournalRecord) : Prop :=
  ∀ n entry, offered[n]? = some entry →
    (∃ journal, append (worldAt offered n).journal entry = .ok journal) → Kept (worldAt offered (n + 1))

/-- No record that passes brings an invocation id of another permit. -/
def OperationsDistinct (offered : List HarvestJournalRecord) : Prop :=
  ∀ n entry, offered[n]? = some entry → Admissible (worldAt offered n).journal entry →
    OperationFree (worldAt offered n).accepted entry

theorem append_ok_iff {journal journal' : List (Line HarvestJournalRecord)} :
    append journal entry = .ok journal' ↔
      Admissible journal entry ∧ journal' = journal ++ [.record entry] := by
  constructor
  · intro h
    obtain ⟨prior, hprior, h⟩ := bind_ok h
    obtain ⟨_, hentry, h⟩ := bind_ok h
    cases h
    exact ⟨⟨prior, hprior, hentry⟩, rfl⟩
  · rintro ⟨⟨prior, hprior, hentry⟩, rfl⟩
    rw [append, hprior]
    change (validateTransition prior entry >>= _) = _
    rw [hentry]
    rfl

theorem latest_ok {journal : List (Line HarvestJournalRecord)} {permit : PermitId}
    {found : Option HarvestJournalRecord} (h : latest journal permit = .ok found) :
    ∃ progress, readProgress journal = .ok progress ∧ progress.latest permit = found := by
  rw [latest] at h
  cases hread : readProgress journal with
  | error e =>
    rw [hread] at h
    cases h
  | ok progress =>
    rw [hread] at h
    cases h
    exact ⟨progress, rfl, rfl⟩

theorem step_of_admissible {w : World} (h : Admissible w.journal entry) :
    w.step entry = ⟨w.journal ++ [.record entry], w.accepted ++ [entry]⟩ := by
  rw [World.step, append_ok_iff.mpr ⟨h, rfl⟩]

theorem step_of_not_admissible {w : World} (h : ¬Admissible w.journal entry) : w.step entry = w := by
  unfold World.step
  split
  · rename_i hok
    exact absurd (append_ok_iff.mp hok).1 h
  · rfl

theorem worldAt_journal (offered : List HarvestJournalRecord) (n : Nat) :
    (worldAt offered n).journal = (worldAt offered n).accepted.map .record := by
  refine stateAt_preserves (P := fun w : World => w.journal = w.accepted.map .record) _ ?_ (Nat.zero_le n) rfl
  intro n entry _ h
  rw [← worldAt] at h ⊢
  by_cases hadmissible : Admissible (worldAt offered n).journal entry
  · rw [step_of_admissible hadmissible, List.map_append, ← h]
    rfl
  · rw [step_of_not_admissible hadmissible]
    exact h

/-- In a readable journal a record that passes leaves the journal readable exactly when
its invocation id is free. -/
theorem readable_concat_iff (h : readProgress (entries.map .record) = .ok progress)
    (hentry : validateTransition (progress.latest entry.receipt.permit) entry = .ok ()) :
    (∃ progress', readProgress ((entries ++ [entry]).map .record) = .ok progress') ↔
      OperationFree entries entry := by
  rw [readProgress_concat h, ← (readProgress_read h).operationFree_iff]
  constructor
  · rintro ⟨progress', hline⟩
    exact (readLine_record_ok.mp hline).1
  · intro hfree
    exact ⟨_, readLine_record_ok.mpr ⟨hfree, hentry, rfl⟩⟩

theorem kept_of_readable {w : World} (hjournal : w.journal = w.accepted.map .record)
    (h : readProgress w.journal = .ok progress) : Kept w := by
  intro permit
  have hread := readProgress_read (hjournal ▸ h)
  rw [latest, h, ← hread.latest]
  exact ⟨rfl, hread.chains permit⟩

end

/-- Every accepted append leaves a journal that can be read exactly when no accepted
record takes the invocation id of another permit. -/
theorem journalKept_iff (offered : List HarvestJournalRecord) :
    JournalKept offered ↔ OperationsDistinct offered := by
  constructor
  · intro h n entry hoffered hadmissible
    have hkept := h n entry hoffered ⟨_, append_ok_iff.mpr ⟨hadmissible, rfl⟩⟩
    have hnext : worldAt offered (n + 1) = _ := stateAt_succ World.step hoffered _
    rw [← worldAt, step_of_admissible hadmissible] at hnext
    obtain ⟨prior, hprior, hentry⟩ := hadmissible
    obtain ⟨progress, hread, rfl⟩ := latest_ok hprior
    rw [worldAt_journal] at hread
    rw [← readable_concat_iff hread hentry]
    obtain ⟨progress', hread', -⟩ := latest_ok (hkept entry.receipt.permit).1
    rw [worldAt_journal, hnext] at hread'
    exact ⟨progress', hread'⟩
  · intro h
    have hreadable : ∀ n, ∃ progress, readProgress (worldAt offered n).journal = .ok progress := by
      intro n
      refine stateAt_preserves (P := fun w : World => ∃ progress, readProgress w.journal = .ok progress) _ ?_
        (Nat.zero_le n) ⟨_, rfl⟩
      intro n entry hoffered ⟨progress, hread⟩
      rw [← worldAt] at hread ⊢
      by_cases hadmissible : Admissible (worldAt offered n).journal entry
      · have hfree := h n entry hoffered hadmissible
        rw [step_of_admissible hadmissible, worldAt_journal]
        obtain ⟨prior, hprior, hentry⟩ := hadmissible
        obtain ⟨progress', hread', rfl⟩ := latest_ok hprior
        rw [worldAt_journal] at hread'
        have hnext := (readable_concat_iff hread' hentry).mpr hfree
        rw [List.map_append] at hnext
        exact hnext
      · rw [step_of_not_admissible hadmissible]
        exact ⟨progress, hread⟩
    intro n entry _ _
    obtain ⟨progress, hread⟩ := hreadable (n + 1)
    exact kept_of_readable (worldAt_journal offered (n + 1)) hread

def exampleRecord (permit : PermitId) : HarvestJournalRecord where
  version := 1
  stage := .prepared
  receipt := { permit := permit, grant := "grant", effect := ⟨"cosmon", "task-1", "main"⟩, keyId := "key",
               invocationId := "done-1" }
  branchHead := none
  preMergeBase := "0a1b"
  optionsDigest := "options"
  hookDigest := "hooks"
  mergeOid := none

/-- Two permits prepared under one invocation id: the second append is accepted, and
nothing can be read after it. -/
theorem journalKept_not : ¬JournalKept [exampleRecord "permit-1", exampleRecord "permit-2"] := by
  intro h
  obtain ⟨hlatest, -⟩ := h 1 (exampleRecord "permit-2") rfl ⟨_, rfl⟩ "permit-1"
  exact absurd hlatest (by decide)

end Journal

end Cosmon.Filestore.HarvestLedgers
