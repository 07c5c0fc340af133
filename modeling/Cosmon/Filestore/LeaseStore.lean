import Cosmon.Core.PilotLeases
import Cosmon.Lib.LastMax
import Mathlib.Data.List.MinMax

namespace Cosmon.Filestore.LeaseStore

open Cosmon.State.Molecule Cosmon.Core.Formulas Cosmon.Core.PilotLeases Cosmon.Lib.LastMax

/-- The ledger of grants: the JSON of a line both ways, and the operator key that is
pinned, if any. -/
structure PilotLeaseStore (Line : Type) where
  decode : Line → Option PilotLease
  encode : PilotLease → Line
  isBlank : Line → Bool
  verifier : Option (GrantChallenge → OperatorAttestation → Except AttestationError Unit)

abbrev Files (Line : Type) := MoleculeId → List Line

variable {Line : Type}

def PilotLeaseStore.attested (s : PilotLeaseStore Line) (lease : PilotLease) :
    Except AttestationError Unit :=
  match s.verifier with
  | none => .error .noTrustRoot
  | some verify =>
    match lease.attestation with
    | none => .error .missing
    | some attestation =>
      match lease.challenge with
      | .error e => .error (.malformed e.toString)
      | .ok challenge => verify challenge attestation

structure AuditedGrant where
  lease : PilotLease
  verdict : Except AttestationError Unit

def PilotLeaseStore.audit (s : PilotLeaseStore Line) (lines : List Line) : List AuditedGrant :=
  (lines.filterMap s.decode).map fun lease => ⟨lease, s.attested lease⟩

def PilotLeaseStore.grants (s : PilotLeaseStore Line) (lines : List Line) : List PilotLease :=
  ((s.audit lines).filter fun g => g.verdict.toBool).map AuditedGrant.lease

/-- The lease in force: of the attested grants at the highest epoch, the last. -/
def PilotLeaseStore.current (s : PilotLeaseStore Line) (lines : List Line) : Option PilotLease :=
  lastMax PilotLease.epoch (s.grants lines)

def PilotLeaseStore.hasUnverifiableGrantLedger (s : PilotLeaseStore Line) (lines : List Line) : Bool :=
  lines.any (fun line => !s.isBlank line) && (s.current lines).isNone

def PilotLeaseStore.highest (s : PilotLeaseStore Line) (lines : List Line) : Option LeaseEpoch :=
  ((s.grants lines).map PilotLease.epoch).max?

def PilotLeaseStore.nextEpoch (s : PilotLeaseStore Line) (lines : List Line) : LeaseEpoch :=
  match s.highest lines with
  | none => LeaseEpoch.first
  | some epoch => epoch.next

def PilotLeaseStore.checkEpoch (s : PilotLeaseStore Line) (lines : List Line) (lease : PilotLease) :
    Except CosmonError Unit :=
  match s.highest lines with
  | none => .ok ()
  | some highest =>
    if lease.epoch ≤ highest then
      .error (.stateStore ("refusing a grant at epoch " ++ lease.epoch.val.repr ++ " — mission " ++
        lease.missionId ++ " is already at epoch " ++ highest.val.repr ++ "; an epoch is used once"))
    else .ok ()

def PilotLeaseStore.authorize (s : PilotLeaseStore Line) (lines : List Line) (now : Instant)
    (session : SessionId) (presentedEpoch : Option LeaseEpoch) : LeaseDecision :=
  let current := s.current lines
  if current.isNone ∧ s.hasUnverifiableGrantLedger lines then .refused .unverifiableGrantLedger
  else Core.PilotLeases.authorize current now session presentedEpoch

section Ledger

variable (s : PilotLeaseStore Line)

theorem grants_eq (lines : List Line) :
    s.grants lines = (lines.filterMap s.decode).filter fun lease => (s.attested lease).toBool := by
  rw [PilotLeaseStore.grants, PilotLeaseStore.audit, List.filter_map, List.map_map]
  exact List.map_id _

theorem grants_append (before appended : List Line) :
    s.grants (before ++ appended) = s.grants before ++ s.grants appended := by
  rw [grants_eq, List.filterMap_append, List.filter_append, ← grants_eq, ← grants_eq]

theorem current_append (before appended : List Line) :
    s.current (before ++ appended) = match s.current appended with
      | none => s.current before
      | some lease => later PilotLease.epoch (s.current before) lease := by
  simp only [PilotLeaseStore.current, grants_append, lastMax_append]
  cases lastMax PilotLease.epoch (s.grants appended) <;> rfl

theorem authorize_granted {lines : List Line} {now : Instant} {session : SessionId}
    {presented : Option LeaseEpoch} {epoch : LeaseEpoch} :
    s.authorize lines now session presented = .granted epoch ↔
      ∃ l, s.current lines = some l ∧ l.isValidAt now = true ∧ l.holderSessionId = session ∧
        presented = some epoch ∧ l.epoch = epoch := by
  rw [← authorize_granted_iff]
  unfold PilotLeaseStore.authorize
  cases hcurrent : s.current lines with
  | none =>
    dsimp only
    split
    · simp [Core.PilotLeases.authorize]
    · rfl
  | some l => rfl

theorem checkEpoch_ok {lines : List Line} {lease : PilotLease} (h : s.checkEpoch lines lease = .ok ()) :
    ∀ g ∈ s.grants lines, g.epoch < lease.epoch := by
  intro g hg
  unfold PilotLeaseStore.checkEpoch at h
  cases hhighest : s.highest lines with
  | none =>
    rw [PilotLeaseStore.highest, List.max?_eq_none_iff, List.map_eq_nil_iff] at hhighest
    rw [hhighest] at hg
    cases hg
  | some highest =>
    rw [hhighest] at h
    dsimp only at h
    split at h
    · cases h
    · rename_i hlt
      rw [PilotLeaseStore.highest, List.max?_eq_some_iff] at hhighest
      exact lt_of_le_of_lt (hhighest.2 _ (List.mem_map_of_mem hg)) (not_le.mp hlt)

def ExpiresBy : Option Instant → Option Instant → Prop
  | _, none => True
  | none, some _ => False
  | some deadline, some deadline' => deadline ≤ deadline'

theorem expiresBy_iff (l c : PilotLease) :
    ExpiresBy l.expiresAt c.expiresAt ↔ ∀ now, l.isValidAt now = true → c.isValidAt now = true := by
  unfold PilotLease.isValidAt
  cases c.expiresAt with
  | none => simp [ExpiresBy]
  | some deadline' =>
    cases l.expiresAt with
    | none =>
      simp only [ExpiresBy, false_iff, not_forall]
      exact ⟨deadline', trivial, by simp⟩
    | some deadline =>
      simp only [ExpiresBy, decide_eq_true_eq]
      constructor
      · exact fun hle now hnow => lt_of_lt_of_le hnow hle
      · intro h
        exact Int.le_of_sub_one_lt (h (deadline - 1) (Int.sub_lt_self deadline Int.one_pos))

theorem exists_valid (l : PilotLease) : ∃ now, l.isValidAt now = true := by
  unfold PilotLease.isValidAt
  cases l.expiresAt with
  | none => exact ⟨0, rfl⟩
  | some deadline => exact ⟨deadline - 1, decide_eq_true (Int.sub_lt_self deadline Int.one_pos)⟩

/-- Of the appended lines, the attested one that would win is below the epoch in force, or
at it for the same session with no later deadline. -/
def AddsNoAuthority (before appended : List Line) : Prop :=
  ∀ l, s.current appended = some l → ∃ c, s.current before = some c ∧
    (l.epoch < c.epoch ∨
      l.epoch = c.epoch ∧ l.holderSessionId = c.holderSessionId ∧ ExpiresBy l.expiresAt c.expiresAt)

/-- The guard grants nothing after the appends that it did not grant before. -/
def GrantsNothingNew (files appended : Files Line) : Prop :=
  ∀ mission session presented now epoch,
    s.authorize (files mission ++ appended mission) now session presented = .granted epoch →
    s.authorize (files mission) now session presented = .granted epoch

/-- Appends give no authority exactly when, in the file of each mission, they leave the
lease in force. -/
theorem grantsNothingNew_iff (files appended : Files Line) :
    GrantsNothingNew s files appended ↔
      ∀ mission, AddsNoAuthority s (files mission) (appended mission) := by
  constructor
  · intro h mission l hl
    have hafter := current_append s (files mission) (appended mission)
    rw [hl] at hafter
    dsimp only at hafter
    have hgrants : ∀ now, s.current (files mission ++ appended mission) = some l →
        l.isValidAt now = true → ∃ c, s.current (files mission) = some c ∧ c.isValidAt now = true ∧
          c.holderSessionId = l.holderSessionId ∧ c.epoch = l.epoch := by
      intro now hcurrent hvalid
      obtain ⟨c, hc, hcvalid, hholder, -, hepoch⟩ := (authorize_granted s).mp
        (h mission l.holderSessionId (some l.epoch) now l.epoch
          ((authorize_granted s).mpr ⟨l, hcurrent, hvalid, rfl, rfl, rfl⟩))
      exact ⟨c, hc, hcvalid, hholder, hepoch⟩
    obtain ⟨now, hnow⟩ := exists_valid l
    cases hbefore : s.current (files mission) with
    | none =>
      rw [hbefore] at hafter
      obtain ⟨c, hc, -⟩ := hgrants now hafter hnow
      rw [hbefore] at hc
      cases hc
    | some c =>
      refine ⟨c, rfl, ?_⟩
      by_cases hlt : l.epoch < c.epoch
      · exact Or.inl hlt
      · rw [hbefore, later, if_neg hlt] at hafter
        have hsame : ∀ now, l.isValidAt now = true → c.isValidAt now = true ∧
            c.holderSessionId = l.holderSessionId ∧ c.epoch = l.epoch := by
          intro now hvalid
          obtain ⟨c', hc', hrest⟩ := hgrants now hafter hvalid
          rw [hbefore] at hc'
          cases hc'
          exact hrest
        obtain ⟨-, hholder, hepoch⟩ := hsame now hnow
        exact Or.inr ⟨hepoch.symm, hholder.symm, (expiresBy_iff l c).mpr fun n hn => (hsame n hn).1⟩
  · intro h mission session presented now epoch hgranted
    obtain ⟨l, hl, hvalid, hholder, hpresented, hepoch⟩ := (authorize_granted s).mp hgranted
    rw [authorize_granted]
    rw [current_append] at hl
    cases happended : s.current (appended mission) with
    | none =>
      rw [happended] at hl
      exact ⟨l, hl, hvalid, hholder, hpresented, hepoch⟩
    | some a =>
      rw [happended] at hl
      obtain ⟨c, hc, hlt | ⟨hsame, hsession, hexpires⟩⟩ := h mission a happended
      · rw [hc] at hl
        dsimp only at hl
        rw [later, if_pos hlt] at hl
        exact ⟨l, hc.trans hl, hvalid, hholder, hpresented, hepoch⟩
      · rw [hc] at hl
        dsimp only at hl
        rw [later, if_neg (by rw [hsame]; exact lt_irrefl _)] at hl
        cases hl
        exact ⟨c, hc, (expiresBy_iff _ _).mp hexpires now hvalid, hsession.symm.trans hholder, hpresented,
          hsame.symm.trans hepoch⟩

def ExactVerifier : Prop :=
  ∀ verify, s.verifier = some verify → ∀ c c' a, verify c a = .ok () → verify c' a = .ok () → c = c'

/-- Every attestation of an appended line is the copy of one that some file holds. -/
def CopiesOnly (files appended : Files Line) : Prop :=
  ∀ mission, ∀ line ∈ appended mission, ∀ l a, s.decode line = some l → l.attestation = some a →
    ∃ mission', ∃ line' ∈ files mission', ∃ l', s.decode line' = some l' ∧ l'.attestation = some a

end Ledger

def ReplayHarmless (s : PilotLeaseStore Line) (files appended : Files Line) : Prop :=
  ExactVerifier s → CopiesOnly s files appended → GrantsNothingNew s files appended

def exampleAttestation : OperatorAttestation :=
  { keyId := "D9E8177654011BB4", signature := "RUQ", globalSignature := "q83" }

def exampleLease : PilotLease :=
  { missionId := "task-1", holderSessionId := "claude", epoch := .first, grantedBy := "operator", grantedAt := 0
    expiresAt := some (10 * nanosPerSecond), attestation := some exampleAttestation }

def exampleChallenge : GrantChallenge := ⟨"task-1", "claude", .first, "operator", some 10⟩

def exampleStore : PilotLeaseStore PilotLease where
  decode := some
  encode := id
  isBlank _ := false
  verifier := some fun c a =>
    if c = exampleChallenge ∧ a = exampleAttestation then .ok () else .error .doesNotCoverTransfer

theorem exampleStore_exact : ExactVerifier exampleStore := by
  intro verify hverify c c' a hc hc'
  cases hverify
  dsimp only at hc hc'
  split at hc
  · rename_i h
    split at hc'
    · rename_i h'
      exact h.1.trans h'.1.symm
    · cases hc'
  · cases hc

def exampleFiles : Files PilotLease := fun mission => if mission = "task-1" then [exampleLease] else []

def redated : Files PilotLease := fun mission =>
  if mission = "task-1" then
    [{ exampleLease with
      grantedAt := 60 * nanosPerSecond, expiresAt := some (70 * nanosPerSecond) }]
  else []

def transplanted : Files PilotLease := fun mission => if mission = "task-2" then [exampleLease] else []

theorem copiesOnly_of_same {appended : Files PilotLease}
    (h : ∀ mission, ∀ l ∈ appended mission, l.attestation = some exampleAttestation) :
    CopiesOnly exampleStore exampleFiles appended := by
  intro mission line hline l a hdecode ha
  cases hdecode
  rw [h mission line hline] at ha
  cases ha
  exact ⟨"task-1", exampleLease, by decide, exampleLease, rfl, rfl⟩

/-- A re-dated copy revives an expired lease, and a copied line gives a mission to a
session that was never granted it. -/
theorem replay_harmful :
    ¬ ReplayHarmless exampleStore exampleFiles redated ∧
      ¬ ReplayHarmless exampleStore exampleFiles transplanted := by
  refine ⟨fun h => ?_, fun h => ?_⟩
  · have hcopies : CopiesOnly exampleStore exampleFiles redated := by
      apply copiesOnly_of_same
      intro mission l hl
      unfold redated at hl
      split at hl
      · rw [List.mem_singleton.mp hl]
        rfl
      · cases hl
    have hgranted := h exampleStore_exact hcopies "task-1" "claude" (some 1) (65 * nanosPerSecond) 1
      (by decide)
    exact absurd hgranted (by decide)
  · have hcopies : CopiesOnly exampleStore exampleFiles transplanted := by
      apply copiesOnly_of_same
      intro mission l hl
      unfold transplanted at hl
      split at hl
      · rw [List.mem_singleton.mp hl]
        rfl
      · cases hl
    have hgranted := h exampleStore_exact hcopies "task-2" "claude" (some 1) 0 1 (by decide)
    exact absurd hgranted (by decide)

end Cosmon.Filestore.LeaseStore
