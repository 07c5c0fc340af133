import Cosmon.Core.PilotLeases
import Cosmon.Lib.Checks

namespace Cosmon.Core.HarvestAuthorization

open Cosmon.State.Molecule Cosmon.Core.Formulas Cosmon.Core.PilotLeases Cosmon.Lib.Checks

abbrev PermitId := String
abbrev GrantFingerprint := String

abbrev GrantEpoch := Fin (2 ^ 64)

theorem GrantEpoch.one_lt : 1 < 2 ^ 64 := by decide

def GrantEpoch.first : GrantEpoch := ⟨1, GrantEpoch.one_lt⟩

/-- `from_u64` of a parsed counter. -/
def GrantEpoch.fromU64 (raw : Nat) : Option GrantEpoch := if h : raw < 2 ^ 64 then some ⟨raw, h⟩ else none

inductive HarvestAction where
  | done
deriving DecidableEq

def HarvestAction.toString : HarvestAction → String
  | .done => "done"

inductive HarvestScope where
  | molecule (molecule : MoleculeId)
  | mission (root : MoleculeId) (policyDigest : String)
deriving DecidableEq

def HarvestScope.toString : HarvestScope → String
  | .molecule target => "molecule:" ++ target
  | .mission root policyDigest => "mission:" ++ root ++ "+policy:" ++ policyDigest

inductive GrantError where
  | fieldEmpty (field : String)
  | fieldNotOneLine (field found : String)
  | reservationHoldsSeparator (found : String)
  | ratificationIsNotMissionScoped (found : HarvestScope)
  | delegationHasReservations
  | reservationsNotCanonical
deriving DecidableEq

structure HarvestGrant where
  galaxy : String
  scope : HarvestScope
  base : String
  action : HarvestAction
  reservations : List String
  epoch : GrantEpoch
  expires : Option Instant
deriving DecidableEq

structure Encoding where
  hexDigest : String → String
  rfc3339 : Instant → String

def oneLine (field value : String) : Except GrantError String :=
  if isBlank value then .error (.fieldEmpty field)
  else if value.toList.any isControl then .error (.fieldNotOneLine field value)
  else .ok value

/-- `BTreeSet::insert`. -/
def insertSorted (value : String) : List String → List String
  | [] => [value]
  | x :: rest =>
    if value < x then value :: x :: rest
    else if value = x then x :: rest
    else x :: insertSorted value rest

def canonicalReservations (reservations : List String) : Except GrantError (List String) :=
  reservations.foldlM (fun canonical raw => do
    let value ← oneLine "reservation" raw
    if ',' ∈ value.toList then .error (.reservationHoldsSeparator value)
    else .ok (insertSorted value canonical)) []

def HarvestGrant.validate (grant : HarvestGrant) : Except GrantError Unit := do
  let _ ← oneLine "galaxy" grant.galaxy
  let _ ← oneLine "base" grant.base
  match grant.scope with
  | .mission _ policyDigest => (oneLine "policy_digest" policyDigest).map fun _ => ()
  | .molecule _ => .ok ()
  let canonical ← canonicalReservations grant.reservations
  if grant.reservations ≠ canonical then .error .reservationsNotCanonical else .ok ()

def HarvestGrant.toString (enc : Encoding) (grant : HarvestGrant) : String :=
  "cosmon-harvest-grant-v1\n" ++
    "galaxy=" ++ grant.galaxy ++ "\n" ++
    "scope=" ++ grant.scope.toString ++ "\n" ++
    "base=" ++ grant.base ++ "\n" ++
    "action=" ++ grant.action.toString ++ "\n" ++
    "reservations=" ++
      (if grant.reservations = [] then "none" else ",".intercalate grant.reservations) ++ "\n" ++
    "epoch=" ++ grant.epoch.val.repr ++ "\n" ++
    "expires=" ++ (grant.expires.map enc.rfc3339).getD "none" ++ "\n"

def HarvestGrant.canonicalBytes (enc : Encoding) (grant : HarvestGrant) : ByteArray := (grant.toString enc).toUTF8

def HarvestGrant.fingerprint (enc : Encoding) (grant : HarvestGrant) : GrantFingerprint :=
  enc.hexDigest (grant.toString enc)

def HarvestGrant.covers (grant : HarvestGrant) (molecule : MoleculeId) (mission : Option MoleculeId)
    (policyDigest : Option String) : Bool :=
  match grant.scope with
  | .molecule target => target = molecule
  | .mission target sealed => mission = some target && policyDigest = some sealed

structure DelegatedHarvestCapability where
  grant : HarvestGrant
  attestation : OperatorAttestation
deriving DecidableEq

structure OperatorHarvestSeal where
  grant : HarvestGrant
  attestation : OperatorAttestation
deriving DecidableEq

inductive DoneAuthorization where
  | delegated (capability : DelegatedHarvestCapability)
  | ratified (operatorSeal : OperatorHarvestSeal)
deriving DecidableEq

namespace DoneAuthorization

def grant : DoneAuthorization → HarvestGrant
  | .delegated capability => capability.grant
  | .ratified operatorSeal => operatorSeal.grant

def attestation : DoneAuthorization → OperatorAttestation
  | .delegated capability => capability.attestation
  | .ratified operatorSeal => operatorSeal.attestation

def validate (authorization : DoneAuthorization) : Except GrantError Unit := do
  authorization.grant.validate
  match authorization, authorization.grant.scope with
  | .ratified _, .mission root policyDigest =>
    .error (.ratificationIsNotMissionScoped (.mission root policyDigest))
  | .delegated _, _ =>
    if authorization.grant.reservations ≠ [] then .error .delegationHasReservations else .ok ()
  | .ratified _, .molecule _ => .ok ()

def memberPermit (enc : Encoding) (fingerprint : GrantFingerprint) (molecule : MoleculeId) : PermitId :=
  enc.hexDigest (fingerprint ++ "\n" ++ molecule ++ "\n")

def permitId (enc : Encoding) (authorization : DoneAuthorization) (molecule : MoleculeId) : PermitId :=
  match authorization.grant.scope with
  | .molecule _ => authorization.grant.fingerprint enc
  | .mission _ _ => memberPermit enc (authorization.grant.fingerprint enc) molecule

def receiptIds (enc : Encoding) (authorization : DoneAuthorization) (molecule : MoleculeId) :
    List PermitId :=
  let legacy :=
    match authorization.grant.scope with
    | .molecule _ => memberPermit enc (authorization.grant.fingerprint enc) molecule
    | .mission _ _ => authorization.grant.fingerprint enc
  [authorization.permitId enc molecule, legacy]

end DoneAuthorization

structure HarvestFacts where
  galaxy : String
  molecule : MoleculeId
  mission : Option MoleculeId
  policyDigest : Option String
  base : String
  action : HarvestAction
  reservationsCrossed : List String
  epoch : GrantEpoch
  now : Instant

structure HarvestEffect where
  galaxy : String
  molecule : MoleculeId
  base : String
deriving DecidableEq

def HarvestEffect.of (facts : HarvestFacts) : HarvestEffect :=
  ⟨facts.galaxy, facts.molecule, facts.base⟩

structure ConsumptionRecord where
  permit : PermitId
  grant : GrantFingerprint
  effect : HarvestEffect
  keyId : OperatorKeyId
  invocationId : String
deriving DecidableEq

inductive HarvestJournalStage where
  | prepared
  | integrated
  | finalized
deriving DecidableEq

structure HarvestJournalRecord where
  version : Fin 256
  stage : HarvestJournalStage
  receipt : ConsumptionRecord
  branchHead : Option String
  preMergeBase : String
  optionsDigest : String
  hookDigest : String
  mergeOid : Option String
deriving DecidableEq

structure HarvestPermit where
  permit : PermitId
  grant : GrantFingerprint
  effect : HarvestEffect
  keyId : OperatorKeyId
deriving DecidableEq

inductive AuthorizedHarvest where
  | fresh (permit : HarvestPermit)
  | alreadyLanded (record : ConsumptionRecord)
deriving DecidableEq

inductive HarvestRefusal where
  | invalidGrant (error : GrantError)
  | notSealed (error : AttestationError)
  | wrongGalaxy (sealed actual : String)
  | outOfScope (molecule : MoleculeId) (scope : HarvestScope)
  | wrongBase (sealed actual : String)
  | wrongAction (sealed actual : HarvestAction)
  | reservationNotNamed (reservation : String)
  | reservationRemoved (reservation : String)
  | epochSuperseded (sealed actual : GrantEpoch)
  | expired (expiredAt : Instant)
  | alreadySpentElsewhere (spentOn requested : HarvestEffect)
deriving DecidableEq

structure HarvestSealVerifier where
  verify : HarvestGrant → OperatorAttestation → Except AttestationError Unit
  trustedKeyId : OperatorKeyId

/-- The grant is for exactly this harvest, and still in time. -/
structure HarvestGrant.Matches (grant : HarvestGrant) (facts : HarvestFacts) : Prop where
  galaxy : grant.galaxy = facts.galaxy
  scope : grant.covers facts.molecule facts.mission facts.policyDigest = true
  base : grant.base = facts.base
  action : grant.action = facts.action
  reservations : ∀ r, r ∈ grant.reservations ↔ r ∈ facts.reservationsCrossed
  epoch : grant.epoch = facts.epoch
  alive : ∀ expires, grant.expires = some expires → facts.now ≤ expires

def HarvestGrant.matchFacts (grant : HarvestGrant) (facts : HarvestFacts) : Except HarvestRefusal Unit :=
  if grant.galaxy ≠ facts.galaxy then .error (.wrongGalaxy grant.galaxy facts.galaxy)
  else if ¬grant.covers facts.molecule facts.mission facts.policyDigest then
    .error (.outOfScope facts.molecule grant.scope)
  else if grant.base ≠ facts.base then .error (.wrongBase grant.base facts.base)
  else if grant.action ≠ facts.action then .error (.wrongAction grant.action facts.action)
  else
    match facts.reservationsCrossed.find? (· ∉ grant.reservations) with
    | some crossed => .error (.reservationNotNamed crossed)
    | none =>
      match grant.reservations.find? (· ∉ facts.reservationsCrossed) with
      | some removed => .error (.reservationRemoved removed)
      | none =>
        if grant.epoch ≠ facts.epoch then .error (.epochSuperseded grant.epoch facts.epoch)
        else
          match grant.expires with
          | some expires => if expires < facts.now then .error (.expired expires) else .ok ()
          | none => .ok ()

def authorize (enc : Encoding) (authorization : DoneAuthorization) (facts : HarvestFacts)
    (prior : Option ConsumptionRecord) (verifier : HarvestSealVerifier) :
    Except HarvestRefusal AuthorizedHarvest := do
  (verifier.verify authorization.grant authorization.attestation).mapError .notSealed
  authorization.validate.mapError .invalidGrant
  authorization.grant.matchFacts facts
  match prior with
  | some record =>
    if record.effect = HarvestEffect.of facts then .ok (.alreadyLanded record)
    else .error (.alreadySpentElsewhere record.effect (HarvestEffect.of facts))
  | none =>
    .ok (.fresh {
      permit := authorization.permitId enc facts.molecule
      grant := authorization.grant.fingerprint enc
      effect := HarvestEffect.of facts
      keyId := verifier.trustedKeyId })

theorem find?_missing {xs ys : List String} : xs.find? (· ∉ ys) = none ↔ ∀ x ∈ xs, x ∈ ys := by
  rw [List.find?_eq_none]
  constructor
  · intro h x hx
    exact of_not_not fun hno => h x hx (decide_eq_true hno)
  · intro h x hx hno
    exact of_decide_eq_true hno (h x hx)

theorem matchFacts_ok_iff {grant : HarvestGrant} {facts : HarvestFacts} :
    grant.matchFacts facts = .ok () ↔ grant.Matches facts := by
  unfold HarvestGrant.matchFacts
  rw [guard_ok, guard_ok, guard_ok, guard_ok, not_not, not_not, not_not, not_not]
  constructor
  · intro ⟨hgalaxy, hscope, hbase, haction, h⟩
    split at h
    · cases h
    · rename_i hcrossed
      split at h
      · cases h
      · rename_i hremoved
        obtain ⟨hepoch, h⟩ := guard_ok.mp h
        refine ⟨hgalaxy, hscope, hbase, haction,
          fun r => ⟨find?_missing.mp hremoved r, find?_missing.mp hcrossed r⟩, of_not_not hepoch, ?_⟩
        intro expires hexpires
        rw [hexpires] at h
        exact Int.not_lt.mp (guard_ok.mp h).1
  · intro h
    refine ⟨h.galaxy, h.scope, h.base, h.action, ?_⟩
    rw [find?_missing.mpr fun r => (h.reservations r).mpr,
      find?_missing.mpr fun r => (h.reservations r).mp]
    refine guard_ok.mpr ⟨not_not.mpr h.epoch, ?_⟩
    cases hexpires : grant.expires with
    | none => rfl
    | some expires => exact if_neg (Int.not_lt.mpr (h.alive expires hexpires))

variable {enc : Encoding} {authorization : DoneAuthorization} {facts : HarvestFacts}
  {prior : Option ConsumptionRecord} {verifier : HarvestSealVerifier} {answer : AuthorizedHarvest}

theorem authorize_ok (h : authorize enc authorization facts prior verifier = .ok answer) :
    verifier.verify authorization.grant authorization.attestation = .ok () ∧
      authorization.validate = .ok () ∧ authorization.grant.Matches facts ∧
        (∀ record, prior = some record → record.effect = .of facts ∧ answer = .alreadyLanded record) ∧
          (prior = none → answer = .fresh {
            permit := authorization.permitId enc facts.molecule
            grant := authorization.grant.fingerprint enc
            effect := .of facts
            keyId := verifier.trustedKeyId }) := by
  obtain ⟨_, hverify, h⟩ := bind_ok h
  obtain ⟨_, hvalid, h⟩ := bind_ok h
  obtain ⟨_, hmatch, h⟩ := bind_ok h
  refine ⟨mapError_ok hverify, mapError_ok hvalid, matchFacts_ok_iff.mp hmatch, ?_, ?_⟩
  · rintro record rfl
    dsimp only at h
    split at h
    · rename_i heffect
      cases h
      exact ⟨heffect, rfl⟩
    · cases h
  · rintro rfl
    cases h
    rfl

theorem mem_receiptIds {permit : PermitId} {molecule : MoleculeId} :
    permit ∈ authorization.receiptIds enc molecule ↔
      permit = authorization.grant.fingerprint enc ∨
        permit = DoneAuthorization.memberPermit enc (authorization.grant.fingerprint enc) molecule := by
  unfold DoneAuthorization.receiptIds DoneAuthorization.permitId
  cases authorization.grant.scope with
  | molecule target => simp only [List.mem_cons, List.not_mem_nil, or_false]
  | mission root policyDigest =>
    simp only [List.mem_cons, List.not_mem_nil, or_false]
    exact or_comm

theorem permitId_mem (molecule : MoleculeId) :
    authorization.permitId enc molecule ∈ authorization.receiptIds enc molecule :=
  List.mem_cons_self

end Cosmon.Core.HarvestAuthorization
