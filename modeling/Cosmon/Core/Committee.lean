import Cosmon.Core.Formulas

namespace Cosmon.Core.Committee

open Cosmon.Core.Formulas

structure EndpointTuple where
  provider : String
  baseUrl : String
  family : String
deriving DecidableEq

structure FamilyWitness where
  endpoint : EndpointTuple
  model : Option String
deriving DecidableEq

def adversarialBriefingVersion : Nat := 1

structure AdversarialBriefing where
  version : Nat
  contractHash : String
  injected : Bool
deriving DecidableEq

def AdversarialBriefing.isValid (b : AdversarialBriefing) : Bool :=
  b.version = adversarialBriefingVersion && !isBlank b.contractHash && b.injected

structure PersonaWitness where
  roleId : String
  briefing : Option AdversarialBriefing
  falsificationArtifact : Option String
deriving DecidableEq

structure SeatCandidate where
  seatId : String
  family : FamilyWitness
  persona : PersonaWitness
deriving DecidableEq

inductive SeatRejection where
  | familyCollision (endpoint : EndpointTuple) (collidesWith : String)
  | personaCollision (roleId : String) (collidesWith : String)
  | briefingNotInjected
  | falsificationArtifactMissing
deriving DecidableEq

def SeatRejection.isDelivery : SeatRejection → Bool
  | .briefingNotInjected | .falsificationArtifactMissing => true
  | .familyCollision .. | .personaCollision .. => false

structure AdmittedSeat where
  seatId : String
  endpoint : EndpointTuple
  model : Option String
  roleId : String
deriving DecidableEq

structure RejectedSeat where
  seatId : String
  reason : SeatRejection
  endpoint : EndpointTuple
deriving DecidableEq

structure CommitteeRequirement where
  required : Bool
  minDistinctFamilies : Nat
deriving DecidableEq

structure RosterPlan where
  requirement : CommitteeRequirement
  generator : AdmittedSeat
  admitted : List AdmittedSeat
  rejected : List RejectedSeat
  floorMet : Bool
  floorReachable : Bool
deriving DecidableEq

def RosterPlan.distinctFamilies (plan : RosterPlan) : Nat :=
  (plan.generator.endpoint.family :: plan.admitted.map (·.endpoint.family)).toFinset.card

def RosterPlan.reachableFamilies (plan : RosterPlan) : Nat :=
  (plan.generator.endpoint.family :: plan.admitted.map (·.endpoint.family) ++
    (plan.rejected.filter (·.reason.isDelivery)).map (·.endpoint.family)).toFinset.card

def SeatCandidate.admitted (seat : SeatCandidate) : AdmittedSeat where
  seatId := seat.seatId
  endpoint := seat.family.endpoint
  model := seat.family.model
  roleId := seat.persona.roleId

/-- The loop state of `plan_committee`: who first claimed each endpoint and role. -/
structure Admission where
  admitted : List AdmittedSeat := []
  rejected : List RejectedSeat := []
  seenEndpoints : List (EndpointTuple × String)
  seenRoles : List (String × String)

def Admission.rejection (a : Admission) (seat : SeatCandidate) : Option SeatRejection :=
  match a.seenEndpoints.lookup seat.family.endpoint with
  | some other => some (.familyCollision seat.family.endpoint other)
  | none =>
    match a.seenRoles.lookup seat.persona.roleId with
    | some other => some (.personaCollision seat.persona.roleId other)
    | none =>
      if seat.persona.briefing.all (!·.isValid) then some .briefingNotInjected
      else if seat.persona.falsificationArtifact.all isBlank then some .falsificationArtifactMissing
      else none

def Admission.consider (a : Admission) (seat : SeatCandidate) : Admission :=
  match a.rejection seat with
  | some reason =>
    { a with rejected := a.rejected ++ [⟨seat.seatId, reason, seat.family.endpoint⟩] }
  | none =>
    { a with
      admitted := a.admitted ++ [seat.admitted]
      seenEndpoints := (seat.family.endpoint, seat.seatId) :: a.seenEndpoints
      seenRoles := (seat.persona.roleId, seat.seatId) :: a.seenRoles }

/-- Admit each refuter under both witnesses, against the generator and the seats
admitted before it, then check the floor of families. -/
def planCommittee (generator : SeatCandidate) (refuters : List SeatCandidate)
    (requirement : CommitteeRequirement) : RosterPlan :=
  let final := refuters.foldl Admission.consider
    { seenEndpoints := [(generator.family.endpoint, generator.seatId)]
      seenRoles := [(generator.persona.roleId, generator.seatId)] }
  let plan : RosterPlan :=
    { requirement, generator := generator.admitted, admitted := final.admitted, rejected := final.rejected
      floorMet := false, floorReachable := false }
  { plan with
    floorMet := !requirement.required || requirement.minDistinctFamilies ≤ plan.distinctFamilies
    floorReachable := !requirement.required || requirement.minDistinctFamilies ≤ plan.reachableFamilies }

inductive SeatVerdict where
  | confirmed
  | refuted
  | inconclusive
deriving DecidableEq

inductive SeatDelivery where
  | delivered
  | providerRefusal
  | stalled
  | notDispatched
deriving DecidableEq

def SeatDelivery.hasDelivered (d : SeatDelivery) : Bool := d = .delivered

structure SeatOutcome where
  seatId : String
  verdict : SeatVerdict
  falsifierRed : Bool
  delivery : SeatDelivery := .delivered
  realizedEndpoint : Option EndpointTuple := none
  realizedModel : Option String := none
  switchedAfterDispatch : Bool := false
deriving DecidableEq

inductive CommitteeVerdict where
  | confirmed
  | refuted
  | inconclusive
deriving DecidableEq

def SeatOutcome.isRed (o : SeatOutcome) : Bool := o.verdict = .refuted || o.falsifierRed

/-- The conjunctive door. -/
def committeeVerdict (outcomes : List SeatOutcome) : CommitteeVerdict :=
  if outcomes.any (·.isRed) then .refuted
  else if outcomes ≠ [] ∧ (outcomes.all fun o => o.verdict = .confirmed && !o.falsifierRed) = true then .confirmed
  else .inconclusive

structure SeatDrift where
  seatId : String
  specified : EndpointTuple
  realized : Option EndpointTuple
  specifiedModel : Option String
  realizedModel : Option String
  humanSwitch : Bool
deriving DecidableEq

structure SeatNonDelivery where
  seatId : String
  delivery : SeatDelivery
deriving DecidableEq

structure JuryIntegrity where
  requiredFamilies : Nat
  deliveredFamilies : Nat
  floorMet : Bool
  nonDelivering : List SeatNonDelivery
  drift : List SeatDrift
  unobserved : List String
deriving DecidableEq

def JuryIntegrity.isIntact (j : JuryIntegrity) : Bool :=
  j.floorMet && j.nonDelivering.isEmpty && j.unobserved.isEmpty && j.drift.isEmpty

/-- Where the seat that sat is not the seat that was planned: another endpoint,
another model, or a hand. -/
def seatDrift (seat : AdmittedSeat) (outcome : SeatOutcome) : Option SeatDrift :=
  let endpointMoved := outcome.realizedEndpoint.any (· ≠ seat.endpoint)
  let modelMoved := outcome.realizedModel.any (some · ≠ seat.model)
  if !endpointMoved && !modelMoved && !outcome.switchedAfterDispatch then none
  else
    some
      { seatId := seat.seatId
        specified := seat.endpoint
        realized := outcome.realizedEndpoint
        specifiedModel := seat.model
        realizedModel := outcome.realizedModel
        humanSwitch := outcome.switchedAfterDispatch }

/-- The outcome that the map by seat holds: a later one replaces an earlier one. -/
def bySeat (outcomes : List SeatOutcome) (seatId : String) : Option SeatOutcome :=
  (outcomes.filter (·.seatId = seatId)).getLast?

/-- The loop state of `jury_integrity`. -/
structure Tally where
  nonDelivering : List SeatNonDelivery := []
  drift : List SeatDrift := []
  unobserved : List String := []
  families : List String := []

def Tally.generator (outcomes : List SeatOutcome) (generator : AdmittedSeat) : Tally :=
  let outcome := bySeat outcomes generator.seatId
  let drift := (outcome.bind (seatDrift generator)).toList
  match outcome.bind (·.realizedEndpoint) with
  | some realized => { drift, families := [realized.family] }
  | none => { drift, unobserved := [generator.seatId] }

def Tally.seat (outcomes : List SeatOutcome) (t : Tally) (seat : AdmittedSeat) : Tally :=
  match bySeat outcomes seat.seatId with
  | none => { t with nonDelivering := t.nonDelivering ++ [⟨seat.seatId, .notDispatched⟩] }
  | some outcome =>
    if !outcome.delivery.hasDelivered then
      { t with nonDelivering := t.nonDelivering ++ [⟨seat.seatId, outcome.delivery⟩] }
    else
      let drift := t.drift ++ (seatDrift seat outcome).toList
      match outcome.realizedEndpoint with
      | none => { t with drift, unobserved := t.unobserved ++ [seat.seatId] }
      | some realized => { t with drift, families := t.families ++ [realized.family] }

/-- The floor counted again, over the seats that delivered and on the endpoints
that answered. -/
def juryIntegrity (plan : RosterPlan) (outcomes : List SeatOutcome) : JuryIntegrity :=
  let t := plan.admitted.foldl (Tally.seat outcomes) (Tally.generator outcomes plan.generator)
  let deliveredFamilies := t.families.toFinset.card
  { requiredFamilies := plan.requirement.minDistinctFamilies
    deliveredFamilies
    floorMet := !plan.requirement.required || plan.requirement.minDistinctFamilies ≤ deliveredFamilies
    nonDelivering := t.nonDelivering
    drift := t.drift
    unobserved := t.unobserved }

structure CommitteeFold where
  verdict : CommitteeVerdict
  integrity : JuryIntegrity
deriving DecidableEq

/-- A red decides; else the door over the delivered outcomes; and a jury that is not
intact confirms nothing. -/
def foldCommittee (plan : RosterPlan) (outcomes : List SeatOutcome) : CommitteeFold :=
  let integrity := juryIntegrity plan outcomes
  if outcomes.any (·.isRed) then { verdict := .refuted, integrity }
  else
    let door := committeeVerdict (outcomes.filter (·.delivery.hasDelivered))
    if door = .confirmed ∧ integrity.isIntact = false then { verdict := .inconclusive, integrity }
    else { verdict := door, integrity }

end Cosmon.Core.Committee
