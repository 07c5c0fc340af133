import Cosmon.Core.HarvestAuthorization
import Mathlib.Data.Finset.Sort

namespace Cosmon.Core.HarvestDoor

open Cosmon.Lib.Text Cosmon.State.Molecule

inductive DoorRefusal where
  | notCompleted
  | notAuthorized
  | reservationRequiresSeal
  | backlogFull
  | mergeConflict
  | baseNotFastForward
  | preDoneRefused
  | missingReason
  | protectedPathModified
deriving DecidableEq

inductive DoorOutcome where
  | landed
  | closedWithoutMerge
  | alreadyLanded (merged : Bool)
  | noOp
deriving DecidableEq

/-- Whether the branch of the molecule is on the trunk. -/
def DoorOutcome.merged : DoorOutcome → Bool
  | .landed => true
  | .closedWithoutMerge | .noOp => false
  | .alreadyLanded merged => merged

inductive HarvestAuthorizationCause where
  | scopeMissing
  | credentialExpired
  | credentialRevoked
  | bindingChanged
  | disabled
  | policyConflict
  | keyMissing
  | grantMissing
  | grantInvalid
  | signatureInvalid
  | grantMismatch
  | grantExpired
  | grantRevoked
  | factsChanged
  | factsUnavailable
  | recoveryRequired
  | effectUnsupported
  | overrideRequiresRatification
deriving DecidableEq

inductive EffectFailure where
  | unavailable
  | refused (refusal : DoorRefusal)
  | authorizationRefused (refusal : DoorRefusal) (cause : HarvestAuthorizationCause)
  | authorizationFault (cause : HarvestAuthorizationCause)
  | failed (message : String)
deriving DecidableEq

inductive MergeStrategy where
  | merge
  | ffOnly
deriving DecidableEq

def DEFAULT_MAX_RETRIES : Nat := 3

structure HarvestOptions where
  reason : String
  strategy : MergeStrategy := .merge
  force : Bool := false
  ifCompleted : Bool := false
  noMerge : Bool := false
  noWorktreeRemove : Bool := false
  noBranchDelete : Bool := false
  noKill : Bool := false
  noAutoPropel : Bool := false
  propelMessage : Option String := none
  maxRetries : Nat := DEFAULT_MAX_RETRIES
  skipPreDoneHook : Bool := false
  deployOffTrunk : Bool := false

def HarvestOptions.validate (options : HarvestOptions) : Except DoorRefusal Unit :=
  if trim options.reason.toList = [] then .error .missingReason else .ok ()

def tagList (tags : Finset Tag) : List Tag := tags.sort

theorem mem_tagList {tag : Tag} {tags : Finset Tag} : tag ∈ tagList tags ↔ tag ∈ tags := Finset.mem_sort _

def RESERVATION_TAGS : List String := ["hold:human", "needs-review", "security", "no-auto-harvest"]

def RESERVATION_TAG_PREFIXES : List String := ["security:", "harvest_to:"]

def reserves (tag : Tag) : Bool :=
  tag ∈ RESERVATION_TAGS || RESERVATION_TAG_PREFIXES.any fun p => p.toList.isPrefixOf tag.toList

def reservationRequiringSeal (tags : List Tag) : Option Tag := tags.find? reserves

theorem reservationRequiringSeal_isSome {tags : List Tag} :
    (reservationRequiringSeal tags).isSome ↔ ∃ tag ∈ tags, reserves tag := by
  rw [reservationRequiringSeal, List.find?_isSome]

theorem reservationRequiringSeal_none {tags : List Tag} :
    reservationRequiringSeal tags = none ↔ ∀ tag ∈ tags, ¬reserves tag := by
  rw [reservationRequiringSeal, List.find?_eq_none]

end Cosmon.Core.HarvestDoor
