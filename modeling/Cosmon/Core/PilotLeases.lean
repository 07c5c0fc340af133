import Cosmon.Core.Formulas
import Mathlib.Order.Fin.Basic

namespace Cosmon.Core.PilotLeases

open Cosmon.State.Molecule Cosmon.Core.Formulas

abbrev SessionId := String
abbrev RequestId := String
abbrev OperatorKeyId := String

abbrev LeaseEpoch := Fin (2 ^ 64)

def LeaseEpoch.first : LeaseEpoch := 1

def LeaseEpoch.next (e : LeaseEpoch) : LeaseEpoch :=
  if h : e.val + 1 < 2 ^ 64 then ⟨e.val + 1, h⟩ else e

inductive ChallengeError where
  | operatorNameEmpty
  | operatorNameNotOneLine (found : String)
  | ttlNegative (seconds : Int)
deriving DecidableEq

def ChallengeError.toString : ChallengeError → String
  | .operatorNameEmpty => "granted_by is empty — a grant must name the operator it claims"
  | .operatorNameNotOneLine found =>
    "granted_by " ++ found.quote ++ " holds a control character — it would forge a line of the challenge"
  | .ttlNegative seconds =>
    "ttl " ++ seconds.repr ++ "s is negative — a lease cannot expire before it is granted"

def isControl (c : Char) : Bool := c.toNat < 0x20 || (0x7F ≤ c.toNat && c.toNat < 0xA0)

structure GrantChallenge where
  missionId : MoleculeId
  holderSessionId : SessionId
  epoch : LeaseEpoch
  grantedBy : String
  ttlSeconds : Option Int
deriving DecidableEq

def GrantChallenge.new (missionId : MoleculeId) (holderSessionId : SessionId) (epoch : LeaseEpoch)
    (grantedBy : String) (ttlSeconds : Option Int) : Except ChallengeError GrantChallenge :=
  if isBlank grantedBy then .error .operatorNameEmpty
  else if grantedBy.toList.any isControl then .error (.operatorNameNotOneLine grantedBy)
  else
    match ttlSeconds with
    | some secs =>
      if secs < 0 then .error (.ttlNegative secs)
      else .ok ⟨missionId, holderSessionId, epoch, grantedBy, some secs⟩
    | none => .ok ⟨missionId, holderSessionId, epoch, grantedBy, none⟩

def GrantChallenge.toString (challenge : GrantChallenge) : String :=
  "cosmon-takeover-grant-v1\n" ++
    "mission=" ++ challenge.missionId ++ "\n" ++
    "holder=" ++ challenge.holderSessionId ++ "\n" ++
    "epoch=" ++ challenge.epoch.val.repr ++ "\n" ++
    "granted_by=" ++ challenge.grantedBy ++ "\n" ++
    "ttl=" ++ (challenge.ttlSeconds.map Int.repr).getD "none" ++ "\n"

def GrantChallenge.canonicalBytes (challenge : GrantChallenge) : ByteArray := challenge.toString.toUTF8

structure OperatorAttestation where
  keyId : OperatorKeyId
  signature : String
  globalSignature : String
  trustedComment : String := ""
  untrustedComment : String := ""
deriving DecidableEq

inductive AttestationError where
  | noTrustRoot
  | missing
  | unknownKey (presented trusted : OperatorKeyId)
  | malformed (reason : String)
  | doesNotCoverTransfer
  | trustedCommentUnsigned
deriving DecidableEq

structure PilotLease where
  missionId : MoleculeId
  holderSessionId : SessionId
  epoch : LeaseEpoch
  grantedBy : String
  grantedAt : Instant
  expiresAt : Option Instant := none
  requestId : Option RequestId := none
  attestation : Option OperatorAttestation := none
deriving DecidableEq

def nanosPerSecond : Int := 1000000000

def numSeconds (duration : Int) : Int := duration.tdiv nanosPerSecond

/-- What the operator had to sign for this grant. The dates enter only as their
difference. -/
def PilotLease.challenge (lease : PilotLease) : Except ChallengeError GrantChallenge :=
  GrantChallenge.new lease.missionId lease.holderSessionId lease.epoch lease.grantedBy
    (lease.expiresAt.map fun deadline => numSeconds (deadline - lease.grantedAt))

def PilotLease.isValidAt (lease : PilotLease) (now : Instant) : Bool :=
  match lease.expiresAt with
  | some deadline => now < deadline
  | none => true

inductive RefusalReason where
  | noLease
  | unverifiableGrantLedger
  | epochNotPresented
  | notHolder (holder : SessionId)
  | epochMismatch (presented current : LeaseEpoch)
  | expired (expiredAt : Instant)
deriving DecidableEq

inductive LeaseDecision where
  | granted (epoch : LeaseEpoch)
  | refused (reason : RefusalReason)
deriving DecidableEq

def authorize (lease : Option PilotLease) (now : Instant) (session : SessionId)
    (presentedEpoch : Option LeaseEpoch) : LeaseDecision :=
  match lease with
  | none => .refused .noLease
  | some lease =>
    if ¬lease.isValidAt now then .refused (.expired (lease.expiresAt.getD now))
    else if lease.holderSessionId ≠ session then .refused (.notHolder lease.holderSessionId)
    else
      match presentedEpoch with
      | none => .refused .epochNotPresented
      | some presented =>
        if presented ≠ lease.epoch then .refused (.epochMismatch presented lease.epoch)
        else .granted lease.epoch

theorem authorize_granted_iff {lease : Option PilotLease} {now : Instant} {session : SessionId}
    {presented : Option LeaseEpoch} {epoch : LeaseEpoch} :
    authorize lease now session presented = .granted epoch ↔
      ∃ l, lease = some l ∧ l.isValidAt now = true ∧ l.holderSessionId = session ∧
        presented = some epoch ∧ l.epoch = epoch := by
  constructor
  · intro h
    unfold authorize at h
    split at h
    · cases h
    · rename_i l
      split at h
      · cases h
      · rename_i hvalid
        split at h
        · cases h
        · rename_i hholder
          split at h
          · cases h
          · rename_i hpresented
            split at h
            · cases h
            · rename_i hepoch
              cases h
              exact ⟨l, rfl, not_not.mp hvalid, not_not.mp hholder,
                congrArg some (not_not.mp hepoch), rfl⟩
  · intro h
    obtain ⟨l, rfl, hvalid, rfl, rfl, rfl⟩ := h
    unfold authorize
    dsimp only
    rw [if_neg (not_not.mpr hvalid), if_neg (not_not.mpr rfl), if_neg (not_not.mpr rfl)]

end Cosmon.Core.PilotLeases
