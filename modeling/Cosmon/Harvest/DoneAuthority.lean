import Cosmon.Filestore.HarvestLedgers

namespace Cosmon.Harvest.DoneAuthority

open Cosmon.State.Molecule Cosmon.Core.PilotLeases Cosmon.Core.HarvestAuthorization
open Cosmon.Filestore.HarvestLedgers Cosmon.Lib.Checks Cosmon.Lib.Runs

/-- One candidate grant offered for one harvest, under the trunk lock: the facts
derived for it, the key pinned then, the reads of the ledger that fail, and how an append
ends. -/
structure Attempt where
  authorization : DoneAuthorization
  facts : HarvestFacts
  verifier : HarvestSealVerifier
  invocationId : String
  unreadable : PermitId → Option String
  written : Written

inductive Outcome where
  | fault (reason : String)
  | refused (refusal : HarvestRefusal)
  | alreadyLanded (record : ConsumptionRecord)
  | authorized (record : ConsumptionRecord)

def Outcome.receipt : Outcome → Option ConsumptionRecord
  | .alreadyLanded record | .authorized record => some record
  | .fault _ | .refused _ => none

variable (enc : Encoding)

def mergeReceipt (fingerprint : GrantFingerprint) (permit : PermitId) (prior : Option ConsumptionRecord) :
    Option ConsumptionRecord → Except String (Option ConsumptionRecord)
  | none => .ok prior
  | some record =>
    if record.grant ≠ fingerprint then
      .error ("harvest receipt for " ++ permit ++ " names a different grant")
    else
      match prior with
      | some previous =>
        if previous.grant ≠ record.grant ∨ previous.effect ≠ record.effect ∨
            previous.keyId ≠ record.keyId ∨ previous.invocationId ≠ record.invocationId then
          .error ("conflicting harvest receipt aliases for " ++ fingerprint)
        else .ok (some previous)
      | none => .ok (some record)

/-- The receipt that the ledger has for the grant on the molecule, under any key. -/
def priorReceipt (ledger : List (Line ConsumptionRecord)) (x : Attempt) :
    Except String (Option ConsumptionRecord) :=
  (x.authorization.receiptIds enc x.facts.molecule).foldlM (fun prior permit =>
    match x.unreadable permit with
    | some reason => .error reason
    | none => do
      let found ← recorded ledger permit
      mergeReceipt (x.authorization.grant.fingerprint enc) permit prior found) none

/-- One turn of the loop of `authorize_candidates`: look up, decide, and record a permit
that is fresh. -/
def Attempt.run (ledger : List (Line ConsumptionRecord)) (x : Attempt) :
    List (Line ConsumptionRecord) × Outcome :=
  match priorReceipt enc ledger x with
  | .error reason => (ledger, .fault reason)
  | .ok prior =>
    match authorize enc x.authorization x.facts prior x.verifier with
    | .error refusal => (ledger, .refused refusal)
    | .ok (.alreadyLanded record) => (ledger, .alreadyLanded record)
    | .ok (.fresh granted) =>
      let record : ConsumptionRecord :=
        { permit := granted.permit, grant := granted.grant, effect := granted.effect,
          keyId := granted.keyId, invocationId := x.invocationId }
      match consume ledger record x.written with
      | (ledger, .error reason) => (ledger, .fault reason)
      | (ledger, .ok ()) => (ledger, .authorized record)

def Attempt.step (ledger : List (Line ConsumptionRecord)) (x : Attempt) :
    List (Line ConsumptionRecord) := (x.run enc ledger).1

section Attempt

variable {enc} {ledger : List (Line ConsumptionRecord)} {x : Attempt}

theorem priorReceipt_ok {prior : Option ConsumptionRecord} (h : priorReceipt enc ledger x = .ok prior) :
    (∀ record, prior = some record → .record record ∈ ledger ∧
      record.permit ∈ x.authorization.receiptIds enc x.facts.molecule ∧
        record.grant = x.authorization.grant.fingerprint enc) ∧
      (prior = none → ∀ record, .record record ∈ ledger →
        record.permit ∉ x.authorization.receiptIds enc x.facts.molecule) := by
  refine foldlM_ok (P := fun permits prior =>
    (∀ record, prior = some record → .record record ∈ ledger ∧ record.permit ∈ permits ∧
      record.grant = x.authorization.grant.fingerprint enc) ∧
      (prior = none → ∀ record, .record record ∈ ledger → record.permit ∉ permits)) ?_ ?_ h
  · exact ⟨fun _ h => (nomatch h), fun _ _ _ => List.not_mem_nil⟩
  · intro permits prior permit next ⟨hsome, hnone⟩ hstep
    split at hstep
    · cases hstep
    · obtain ⟨found, hfound, hstep⟩ := bind_ok hstep
      have hkeep : ∀ record, prior = some record → .record record ∈ ledger ∧
          record.permit ∈ permits ++ [permit] ∧
            record.grant = x.authorization.grant.fingerprint enc := fun record h =>
        ⟨(hsome record h).1, List.mem_append_left _ (hsome record h).2.1, (hsome record h).2.2⟩
      cases found with
      | none =>
        cases hstep
        refine ⟨hkeep, fun hprior record hmem hids => ?_⟩
        obtain hids | hids := List.mem_append.mp hids
        · exact hnone hprior record hmem hids
        · cases (recorded_ok hfound record).mpr ⟨hmem, List.mem_singleton.mp hids⟩
      | some record =>
        obtain ⟨hmem, hpermit⟩ := (recorded_ok hfound record).mp rfl
        obtain ⟨hgrant, hstep⟩ := guard_ok.mp hstep
        cases prior with
        | none =>
          cases hstep
          refine ⟨?_, fun h => nomatch h⟩
          intro _ hsame
          cases hsame
          exact ⟨hmem, List.mem_append_right _ (List.mem_singleton.mpr hpermit), of_not_not hgrant⟩
        | some previous =>
          obtain ⟨-, hstep⟩ := guard_ok.mp hstep
          cases hstep
          exact ⟨hkeep, fun h => nomatch h⟩

/-- What stands behind an attempt that goes on: the seal verifies, and the grant is for
this harvest. -/
structure Sealed (enc : Encoding) (x : Attempt) (record : ConsumptionRecord) : Prop where
  verified : x.verifier.verify x.authorization.grant x.authorization.attestation = .ok ()
  wellFormed : x.authorization.validate = .ok ()
  matchesFacts : x.authorization.grant.Matches x.facts
  effect : record.effect = .of x.facts
  grant : record.grant = x.authorization.grant.fingerprint enc

theorem run_cases (enc : Encoding) (ledger : List (Line ConsumptionRecord)) (x : Attempt) :
    ((x.run enc ledger).2.receipt = none ∧ ledger <+: (x.run enc ledger).1) ∨
      (∃ record, x.run enc ledger = (ledger, .alreadyLanded record) ∧ Sealed enc x record ∧
        .record record ∈ ledger) ∨
      ∃ record, x.run enc ledger = (ledger ++ [.record record], .authorized record) ∧
        Sealed enc x record ∧ record.permit = x.authorization.permitId enc x.facts.molecule ∧
          ∀ old, .record old ∈ ledger → old.permit ∉ x.authorization.receiptIds enc x.facts.molecule := by
  unfold Attempt.run
  cases hprior : priorReceipt enc ledger x with
  | error reason => exact Or.inl ⟨rfl, List.prefix_refl _⟩
  | ok prior =>
    obtain ⟨hfound, hunspent⟩ := priorReceipt_ok hprior
    dsimp only
    cases hanswer : authorize enc x.authorization x.facts prior x.verifier with
    | error refusal => exact Or.inl ⟨rfl, List.prefix_refl _⟩
    | ok answer =>
      obtain ⟨hverified, hvalid, hmatches, hold, hnew⟩ := authorize_ok hanswer
      cases prior with
      | some record =>
        obtain ⟨heffect, rfl⟩ := hold record rfl
        obtain ⟨hmem, -, hgrant⟩ := hfound record rfl
        exact Or.inr (Or.inl ⟨record, rfl, ⟨hverified, hvalid, hmatches, heffect, hgrant⟩, hmem⟩)
      | none =>
        rw [hnew rfl]
        cases x.written with
        | synced =>
          exact Or.inr (Or.inr ⟨_, rfl, ⟨hverified, hvalid, hmatches, rfl, rfl⟩, rfl, hunspent rfl⟩)
        | nothing e => exact Or.inl ⟨rfl, List.prefix_refl _⟩
        | torn e decodeError => exact Or.inl ⟨rfl, List.prefix_append _ _⟩
        | unsynced e => exact Or.inl ⟨rfl, List.prefix_append _ _⟩

theorem run_extends (enc : Encoding) (ledger : List (Line ConsumptionRecord)) (x : Attempt) :
    ledger <+: (x.run enc ledger).1 := by
  obtain ⟨-, h⟩ | ⟨record, h, -⟩ | ⟨record, h, -⟩ := run_cases enc ledger x
  · exact h
  · rw [h]
  · rw [h]
    exact List.prefix_append _ _

theorem run_authorized {record : ConsumptionRecord} (h : (x.run enc ledger).2 = .authorized record) :
    Sealed enc x record ∧ record.permit = x.authorization.permitId enc x.facts.molecule ∧
      (∀ old, .record old ∈ ledger → old.permit ∉ x.authorization.receiptIds enc x.facts.molecule) ∧
        (x.run enc ledger).1 = ledger ++ [.record record] := by
  obtain ⟨hnone, -⟩ | ⟨record', hrun, -⟩ | ⟨record', hrun, hsealed, hpermit, hunspent⟩ :=
    run_cases enc ledger x
  · rw [h] at hnone
    cases hnone
  · rw [hrun] at h
    cases h
  · rw [hrun] at h ⊢
    cases h
    exact ⟨hsealed, hpermit, hunspent, rfl⟩

theorem run_sealed {record : ConsumptionRecord} (h : (x.run enc ledger).2.receipt = some record) :
    Sealed enc x record := by
  obtain ⟨hnone, -⟩ | ⟨record', hrun, hsealed, -⟩ | ⟨record', hrun, hsealed, -⟩ := run_cases enc ledger x
  · rw [h] at hnone
    cases hnone
  · rw [hrun] at h
    cases h
    exact hsealed
  · rw [hrun] at h
    cases h
    exact hsealed

theorem Sealed.effect_eq {record : ConsumptionRecord} (h : Sealed enc x record) :
    record.effect = ⟨x.authorization.grant.galaxy, x.facts.molecule, x.authorization.grant.base⟩ := by
  rw [h.effect, h.matchesFacts.galaxy, h.matchesFacts.base]
  rfl

theorem Sealed.molecule_eq {record : ConsumptionRecord} (h : Sealed enc x record) {target : MoleculeId}
    (hscope : x.authorization.grant.scope = .molecule target) : x.facts.molecule = target := by
  have hcovers := h.matchesFacts.scope
  rw [HarvestGrant.covers, hscope] at hcovers
  exact (of_decide_eq_true hcovers).symm

end Attempt

variable (ledger : List (Line ConsumptionRecord)) (attempts : List Attempt)

def ledgerAt (n : Nat) : List (Line ConsumptionRecord) := stateAt (Attempt.step enc) ledger attempts n

/-- The `n`-th attempt of the run is this one, and ends so. -/
def Ends (n : Nat) (x : Attempt) (outcome : Outcome) : Prop :=
  attempts[n]? = some x ∧ (x.run enc (ledgerAt enc ledger attempts n)).2 = outcome

/-- Two attempts draw on one unit of authority: the signed texts have one digest, and
both are for a molecule, or the molecule is the same. -/
structure OneUnit (x y : Attempt) : Prop where
  fingerprint : x.authorization.grant.fingerprint enc = y.authorization.grant.fingerprint enc
  scope : x.facts.molecule = y.facts.molecule ∨
    ∃ target target', x.authorization.grant.scope = .molecule target ∧
      y.authorization.grant.scope = .molecule target'

/-- A grant is spent once, on the effect it names, and not at all where an older receipt
shows it spent. -/
structure SpentOnce : Prop where
  once : ∀ n m x y record record', Ends enc ledger attempts n x (.authorized record) →
    Ends enc ledger attempts m y (.authorized record') → OneUnit enc x y → n = m
  oneEffect : ∀ n m x y outcome outcome' record record', Ends enc ledger attempts n x outcome →
    Ends enc ledger attempts m y outcome' → outcome.receipt = some record →
    outcome'.receipt = some record' → x.authorization.grant = y.authorization.grant →
    OneUnit enc x y → record.effect = record'.effect
  unspent : ∀ n x record, Ends enc ledger attempts n x (.authorized record) →
    ∀ old, .record old ∈ ledgerAt enc ledger attempts n →
      old.permit ∉ x.authorization.receiptIds enc x.facts.molecule
  receipt : ∀ n x outcome record, Ends enc ledger attempts n x outcome → outcome.receipt = some record →
    .record record ∈ ledgerAt enc ledger attempts (n + 1) ∧ Sealed enc x record

section Runs

variable {enc ledger attempts}

theorem ledgerAt_succ {n : Nat} {x : Attempt} (h : attempts[n]? = some x) :
    ledgerAt enc ledger attempts (n + 1) = (x.run enc (ledgerAt enc ledger attempts n)).1 :=
  stateAt_succ _ h _

theorem ledgerAt_mem {n m : Nat} (hnm : n ≤ m) {line : Line ConsumptionRecord}
    (h : line ∈ ledgerAt enc ledger attempts n) : line ∈ ledgerAt enc ledger attempts m :=
  stateAt_preserves (P := fun ledger => line ∈ ledger) ledger
    (fun _ x _ hmem => (run_extends enc _ x).subset hmem) hnm h

theorem Ends.receipt_mem {n : Nat} {x : Attempt} {outcome : Outcome} {record : ConsumptionRecord}
    (h : Ends enc ledger attempts n x outcome) (hrecord : outcome.receipt = some record) :
    .record record ∈ ledgerAt enc ledger attempts (n + 1) := by
  obtain ⟨hx, rfl⟩ := h
  rw [ledgerAt_succ hx]
  obtain ⟨hnone, -⟩ | ⟨record', hrun, -, hmem⟩ | ⟨record', hrun, -⟩ := run_cases enc _ x
  · rw [hnone] at hrecord
    cases hrecord
  · rw [hrun] at hrecord ⊢
    cases hrecord
    exact hmem
  · rw [hrun] at hrecord ⊢
    cases hrecord
    exact List.mem_append_right _ List.mem_cons_self

theorem permitId_mem_of_oneUnit {x y : Attempt} (h : OneUnit enc x y) :
    x.authorization.permitId enc x.facts.molecule ∈ y.authorization.receiptIds enc y.facts.molecule := by
  rw [mem_receiptIds, ← h.fingerprint]
  obtain hsame | ⟨target, _, hscope, -⟩ := h.scope
  · rw [← hsame, ← mem_receiptIds]
    exact permitId_mem _
  · unfold DoneAuthorization.permitId
    rw [hscope]
    exact Or.inl rfl

theorem OneUnit.symm {x y : Attempt} (h : OneUnit enc x y) : OneUnit enc y x where
  fingerprint := h.fingerprint.symm
  scope := by
    obtain hsame | ⟨target, target', hx, hy⟩ := h.scope
    · exact Or.inl hsame.symm
    · exact Or.inr ⟨target', target, hy, hx⟩

theorem not_authorized_later {n m : Nat} (hnm : n < m) {x y : Attempt} {record record' : ConsumptionRecord}
    (hx : Ends enc ledger attempts n x (.authorized record))
    (hy : Ends enc ledger attempts m y (.authorized record')) : ¬OneUnit enc x y := by
  intro hone
  have hmem := ledgerAt_mem hnm (hx.receipt_mem rfl)
  obtain ⟨-, hpermit, -⟩ := run_authorized hx.2
  obtain ⟨-, -, hunspent, -⟩ := run_authorized hy.2
  apply hunspent record hmem
  rw [hpermit]
  exact permitId_mem_of_oneUnit hone

theorem spentOnce (enc : Encoding) (ledger : List (Line ConsumptionRecord)) (attempts : List Attempt) :
    SpentOnce enc ledger attempts where
  once n m x y record record' hx hy hone := by
    obtain hlt | heq | hgt := Nat.lt_trichotomy n m
    · exact absurd hone (not_authorized_later hlt hx hy)
    · exact heq
    · exact absurd hone.symm (not_authorized_later hgt hy hx)
  oneEffect n m x y outcome outcome' record record' hx hy hrecord hrecord' hgrant hone := by
    obtain ⟨-, rfl⟩ := hx
    obtain ⟨-, rfl⟩ := hy
    have hsealed := run_sealed hrecord
    have hsealed' := run_sealed hrecord'
    have hmolecule : x.facts.molecule = y.facts.molecule := by
      obtain hsame | ⟨target, _, hscope, -⟩ := hone.scope
      · exact hsame
      · rw [hsealed.molecule_eq hscope, hsealed'.molecule_eq (hgrant ▸ hscope)]
    rw [hsealed.effect_eq, hsealed'.effect_eq, hgrant, hmolecule]
  unspent n x record hx := (run_authorized hx.2).2.2.1
  receipt n x outcome record hx hrecord := by
    refine ⟨hx.receipt_mem hrecord, ?_⟩
    obtain ⟨-, rfl⟩ := hx
    exact run_sealed hrecord

end Runs

/-- Harvest authority is spent once in every run, and the decision is never more than
the grant says. -/
theorem harvest_authority (enc : Encoding) :
    (∀ ledger attempts, SpentOnce enc ledger attempts) ∧
      ∀ authorization facts prior verifier answer,
        authorize enc authorization facts prior verifier = .ok answer →
          verifier.verify authorization.grant authorization.attestation = .ok () ∧
            authorization.grant.Matches facts := by
  refine ⟨spentOnce enc, ?_⟩
  intro authorization facts prior verifier answer h
  obtain ⟨hverified, -, hmatches, -⟩ := authorize_ok h
  exact ⟨hverified, hmatches⟩

end Cosmon.Harvest.DoneAuthority
