import Cosmon.Harness.Resume
import Cosmon.Lib.Checks

namespace Cosmon.Harness

open Cosmon.Lib Cosmon.Core.HarnessTurn

variable (molId : String)

def ownRow (line : Envelope) : Option (Int × HarnessTurnEvidence) :=
  match line.event with
  | .harnessTurnRecorded rowMol evidence => if rowMol = molId then some (line.timestamp, evidence) else none
  | .other => none

def ownRows (ledger : List Envelope) : List (Int × HarnessTurnEvidence) := ledger.filterMap (ownRow molId)

def gatherRow (attempts : List GatheredAttempt) (row : Int × HarnessTurnEvidence) :
    Except LoadRefusal (List GatheredAttempt) :=
  if harnessTurnSchemaVersion < row.2.schemaVersion then
    .error (.corrupt ("turn evidence schema " ++ toString row.2.schemaVersion ++ " is newer than this reader"))
  else .ok (gather row.1 row.2 attempts)

theorem gather_ownRows (ledger : List Envelope) (attempts : List GatheredAttempt) :
    ledger.foldlM (gatherLine molId) attempts = (ownRows molId ledger).foldlM gatherRow attempts := by
  induction ledger generalizing attempts with
  | nil => rfl
  | cons line rest ih =>
    rw [List.foldlM_cons, funext ih]
    obtain ⟨timestamp, event⟩ := line
    cases event with
    | other => rfl
    | harnessTurnRecorded rowMol evidence =>
      by_cases hmol : rowMol = molId
      · have hrows : ownRows molId (⟨timestamp, .harnessTurnRecorded rowMol evidence⟩ :: rest) =
            (timestamp, evidence) :: ownRows molId rest := List.filterMap_cons_some (if_pos hmol)
        rw [hrows, List.foldlM_cons, gatherLine]
        dsimp only
        rw [if_neg (not_not.mpr hmol)]
        rfl
      · have hrows : ownRows molId (⟨timestamp, .harnessTurnRecorded rowMol evidence⟩ :: rest) = ownRows molId rest :=
          List.filterMap_cons_none (if_neg hmol)
        rw [hrows, gatherLine]
        dsimp only
        rw [if_pos hmol]
        rfl

variable {molId}

theorem gather_fresh {attempts : List GatheredAttempt} {timestamp : Int} {evidence : HarnessTurnEvidence}
    (h : ∀ a ∈ attempts, a.historyId ≠ evidence.historyId) :
    gather timestamp evidence attempts =
      attempts ++ [⟨evidence.historyId, [evidence.record], timestamp, timestamp⟩] := by
  induction attempts with
  | nil => rfl
  | cons a rest ih =>
    rw [List.forall_mem_cons] at h
    rw [gather, if_neg h.1, ih h.2, List.cons_append]

theorem gather_last {attempts : List GatheredAttempt} {timestamp : Int} {evidence : HarnessTurnEvidence}
    {latest : GatheredAttempt} (h : ∀ a ∈ attempts, a.historyId ≠ evidence.historyId)
    (hlatest : latest.historyId = evidence.historyId) :
    gather timestamp evidence (attempts ++ [latest]) =
      attempts ++ [{ latest with records := latest.records ++ [evidence.record], last := timestamp }] := by
  induction attempts with
  | nil => exact if_pos hlatest
  | cons a rest ih =>
    rw [List.forall_mem_cons] at h
    rw [List.cons_append, gather, if_neg h.1, ih h.2, List.cons_append]

theorem gather_ids {attempts : List GatheredAttempt} {timestamp : Int} {evidence : HarnessTurnEvidence}
    {a : GatheredAttempt} (h : a ∈ gather timestamp evidence attempts) :
    a.historyId = evidence.historyId ∨ ∃ b ∈ attempts, b.historyId = a.historyId := by
  induction attempts with
  | nil => exact .inl (by rw [List.mem_singleton.mp h])
  | cons b rest ih =>
    rw [gather] at h
    split at h
    · obtain rfl | h := List.mem_cons.mp h
      · exact .inr ⟨b, List.mem_cons_self, rfl⟩
      · exact .inr ⟨a, List.mem_cons_of_mem _ h, rfl⟩
    · obtain rfl | h := List.mem_cons.mp h
      · exact .inr ⟨a, List.mem_cons_self, rfl⟩
      · obtain h | ⟨c, hc, hid⟩ := ih h
        · exact .inl h
        · exact .inr ⟨c, List.mem_cons_of_mem _ hc, hid⟩

def rowsOf (historyId : String) (records : List TurnRecord) : List HarnessTurnEvidence :=
  records.map fun record => ⟨harnessTurnSchemaVersion, historyId, record⟩

theorem gather_attempt {attempts : List GatheredAttempt} {historyId : String}
    (h : ∀ a ∈ attempts, a.historyId ≠ historyId) {rows : List (Int × HarnessTurnEvidence)}
    {records : List TurnRecord} (hrows : rows.map Prod.snd = rowsOf historyId records) (hne : records ≠ []) :
    ∃ first last, rows.foldlM gatherRow attempts = .ok (attempts ++ [⟨historyId, records, first, last⟩]) := by
  induction records using List.reverseRecOn generalizing rows with
  | nil => exact absurd rfl hne
  | append_singleton records record ih =>
    rw [rowsOf, List.map_append, List.map_eq_append_iff] at hrows
    obtain ⟨rows, lastRow, rfl, hrows, hlast⟩ := hrows
    obtain ⟨row, rfl⟩ : ∃ row, lastRow = [row] := by
      have hlength := congrArg List.length hlast
      simp only [List.length_map, List.length_singleton] at hlength
      exact List.length_eq_one_iff.mp hlength
    obtain ⟨timestamp, evidence⟩ := row
    obtain rfl : evidence = ⟨harnessTurnSchemaVersion, historyId, record⟩ := List.head_eq_of_cons_eq hlast
    have hrow (attempts : List GatheredAttempt) :
        [(timestamp, (⟨harnessTurnSchemaVersion, historyId, record⟩ : HarnessTurnEvidence))].foldlM gatherRow attempts =
          .ok (gather timestamp ⟨harnessTurnSchemaVersion, historyId, record⟩ attempts) := rfl
    rw [List.foldlM_append]
    by_cases hnil : records = []
    · subst hnil
      obtain rfl : rows = [] := List.map_eq_nil_iff.mp hrows
      refine ⟨timestamp, timestamp, ?_⟩
      exact (hrow attempts).trans (congrArg Except.ok (gather_fresh h))
    · obtain ⟨first, last, hgathered⟩ := ih hrows hnil
      refine ⟨first, timestamp, ?_⟩
      rw [hgathered]
      exact (hrow _).trans (congrArg Except.ok (gather_last h rfl))

theorem gather_rows_ids {rows : List (Int × HarnessTurnEvidence)} {attempts attempts' : List GatheredAttempt}
    (h : rows.foldlM gatherRow attempts = .ok attempts') {a : GatheredAttempt} (ha : a ∈ attempts') :
    (∃ b ∈ attempts, b.historyId = a.historyId) ∨ ∃ row ∈ rows, row.2.historyId = a.historyId := by
  induction rows generalizing attempts with
  | nil =>
    cases h
    exact .inl ⟨a, ha, rfl⟩
  | cons row rows ih =>
    rw [List.foldlM_cons] at h
    obtain ⟨gathered, hrow, h⟩ := Checks.bind_ok h
    rw [gatherRow] at hrow
    obtain ⟨-, hrow⟩ := Checks.guard_ok.mp hrow
    cases hrow
    obtain ⟨b, hb, hid⟩ | ⟨later, hlater, hid⟩ := ih h
    · rw [← hid]
      obtain hid | ⟨c, hc, hid⟩ := gather_ids hb
      · exact .inr ⟨row, List.mem_cons_self, hid.symm⟩
      · exact .inl ⟨c, hc, hid⟩
    · exact .inr ⟨later, List.mem_cons_of_mem _ hlater, hid⟩

/-- An attempt has added its records to the ledger. Lines of others may have come in between. -/
def Appends (molId historyId : String) (records : List TurnRecord) (ledger ledger' : List Envelope) : Prop :=
  ∃ lines, ledger' = ledger ++ lines ∧ (ownRows molId lines).map Prod.snd = rowsOf historyId records

def Unused (molId historyId : String) (ledger : List Envelope) : Prop :=
  ∀ row ∈ ownRows molId ledger, row.2.historyId ≠ historyId

section Load

variable {digestOf : List UInt8 → BlobDigest} {blobs : Blobs} {ledger ledger' : List Envelope}
  {candidate : ResumeState} {historyId : String} {records : List TurnRecord}

/-- The ledger, read up to the plan of its last attempt. -/
structure Planning (molId : String) (ledger : List Envelope) (last : GatheredAttempt)
    (attempt : AttemptReconstruction) (plan : ResumePlan) : Prop where
  latest : ∃ attempts, (ownRows molId ledger).foldlM gatherRow [] = .ok attempts ∧ attempts.getLast? = some last
  records : reconstruct last.records = .ok attempt
  plan : planResume last.historyId attempt last.ownSpanSecs = .ok plan

theorem loadResumable_ok (h : loadResumable digestOf blobs molId (.ok ledger) = .ok candidate) :
    ∃ latest attempt, Planning molId ledger latest attempt candidate.plan ∧
      blobProblem digestOf blobs (blobRefs attempt) = none ∧
      readBlob digestOf blobs candidate.plan.log = .ok candidate.log := by
  rw [loadResumable] at h
  obtain ⟨lines, hlines, h⟩ := Checks.bind_ok h
  cases hlines
  obtain ⟨attempts, hattempts, h⟩ := Checks.bind_ok h
  rw [gather_ownRows] at hattempts
  cases hlatest : attempts.getLast? with
  | none =>
    rw [hlatest] at h
    cases h
  | some latest =>
    rw [hlatest] at h
    obtain ⟨attempt, hattempt, h⟩ := Checks.bind_ok h
    obtain ⟨plan, hplan, h⟩ := Checks.bind_ok h
    cases hproblem : blobProblem digestOf blobs (blobRefs attempt) with
    | some problem =>
      rw [hproblem] at h
      cases h
    | none =>
      rw [hproblem] at h
      obtain ⟨log, hlog, h⟩ := Checks.bind_ok h
      cases h
      exact ⟨latest, attempt, ⟨⟨attempts, hattempts, hlatest⟩, Checks.mapError_ok hattempt, hplan⟩, hproblem,
        Checks.mapError_ok hlog⟩

theorem loadResumable_of {latest : GatheredAttempt} {attempt : AttemptReconstruction} {plan : ResumePlan}
    {log : List UInt8} (h : Planning molId ledger latest attempt plan)
    (hblobs : blobProblem digestOf blobs (blobRefs attempt) = none)
    (hlog : readBlob digestOf blobs plan.log = .ok log) :
    loadResumable digestOf blobs molId (.ok ledger) = .ok ⟨plan, log⟩ := by
  obtain ⟨attempts, hattempts, hlatest⟩ := h.latest
  rw [← gather_ownRows] at hattempts
  rw [loadResumable]
  simp only [bind, Except.bind, Except.mapError, hattempts, hlatest, h.records, h.plan, hblobs, hlog]
  rfl

theorem ownRows_append (lines : List Envelope) :
    ownRows molId (ledger ++ lines) = ownRows molId ledger ++ ownRows molId lines := List.filterMap_append

theorem Appends.idle (h : Appends molId historyId [] ledger ledger') :
    ownRows molId ledger' = ownRows molId ledger := by
  obtain ⟨lines, rfl, hlines⟩ := h
  rw [ownRows_append, List.map_eq_nil_iff.mp hlines, List.append_nil]

theorem Appends.latest (h : Appends molId historyId records ledger ledger') (hunused : Unused molId historyId ledger)
    (hrecords : records ≠ []) {attempts : List GatheredAttempt}
    (hattempts : (ownRows molId ledger).foldlM gatherRow [] = .ok attempts) :
    ∃ first last, (ownRows molId ledger').foldlM gatherRow [] =
      .ok (attempts ++ [⟨historyId, records, first, last⟩]) := by
  obtain ⟨lines, rfl, hlines⟩ := h
  have hfresh : ∀ a ∈ attempts, a.historyId ≠ historyId := by
    intro a ha
    obtain ⟨b, hb, -⟩ | ⟨row, hrow, hid⟩ := gather_rows_ids hattempts ha
    · cases hb
    · rw [← hid]
      exact hunused row hrow
  obtain ⟨first, last, hgathered⟩ := gather_attempt hfresh hlines hrecords
  refine ⟨first, last, ?_⟩
  rw [ownRows_append, List.foldlM_append, hattempts]
  exact hgathered

theorem Planning.appends {latest : GatheredAttempt} {attempt : AttemptReconstruction} {plan : ResumePlan}
    (h : Planning molId ledger' latest attempt plan) (happends : Appends molId historyId records ledger ledger')
    (hunused : Unused molId historyId ledger) (hrecords : records ≠ []) :
    latest.historyId = historyId ∧ latest.records = records := by
  obtain ⟨attempts', hattempts', hlatest⟩ := h.latest
  obtain ⟨attempts, hattempts⟩ : ∃ attempts, (ownRows molId ledger).foldlM gatherRow [] = .ok attempts := by
    obtain ⟨lines, rfl, -⟩ := happends
    rw [ownRows_append, List.foldlM_append] at hattempts'
    obtain ⟨attempts, hattempts, -⟩ := Checks.bind_ok hattempts'
    exact ⟨attempts, hattempts⟩
  obtain ⟨first, last, hgathered⟩ := happends.latest hunused hrecords hattempts
  rw [hgathered] at hattempts'
  cases hattempts'
  rw [List.getLast?_concat] at hlatest
  cases hlatest
  exact ⟨rfl, rfl⟩

end Load

end Cosmon.Harness
