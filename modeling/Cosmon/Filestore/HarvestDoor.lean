import Cosmon.Core.HarvestDoor
import Cosmon.Lib.Effects

namespace Cosmon.Filestore.HarvestDoor

open Cosmon.Lib.Effects Cosmon.Lib.Effects.Effect Cosmon.State.Molecule Cosmon.Core.HarvestDoor

inductive NonIntegrationReason where
  | conflict
  | mergeFailed
  | preDoneRefused
  | noBranch
  | mergeSkipped
deriving DecidableEq

def NonIntegrationReason.asStr : NonIntegrationReason → String
  | .conflict => "conflict"
  | .mergeFailed => "merge-failed"
  | .preDoneRefused => "pre-done-refused"
  | .noBranch => "no-branch"
  | .mergeSkipped => "merge-skipped"

structure NonIntegration where
  reason : NonIntegrationReason
  observed : Instant
  baseBranch : Option String := none
  detail : Option String := none
deriving DecidableEq

structure HarvestedMolecule extends MoleculeData where
  nonIntegration : Option NonIntegration := none
  archived : Bool := false
deriving DecidableEq

abbrev StateFile := Except String HarvestedMolecule

structure HarvestStore where
  files : List (MoleculeId × StateFile)
  nodup : (files.map Prod.fst).Nodup

def HarvestStore.file (s : HarvestStore) (id : MoleculeId) : Option (MoleculeId × StateFile) :=
  Lib.Keyed.get Prod.fst id s.files

def HarvestStore.load (s : HarvestStore) (id : MoleculeId) : Except CosmonError HarvestedMolecule :=
  match s.file id with
  | none => .error (.moleculeNotFound id)
  | some (_, .error reason) => .error (.other reason)
  | some (_, .ok mol) => .ok mol

def HarvestStore.list (s : HarvestStore) (status : MoleculeStatus) : List HarvestedMolecule :=
  (s.files.filterMap fun file => file.2.toOption).filter fun mol => mol.status = status

structure DoorRefused where
  refusal : DoorRefusal
  detail : Option String := none
  authorizationCause : Option HarvestAuthorizationCause := none
deriving DecidableEq

def DoorRefused.because (refusal : DoorRefusal) (detail : String) : DoorRefused where
  refusal := refusal
  detail := some detail

inductive LandError where
  | refused (refused : DoorRefused)
  | authorizationRefused (cause : HarvestAuthorizationCause)
  | fault (error : CosmonError)
  | effectFailed (message : String)
  | effectUnavailable
deriving DecidableEq

inductive DoorDecision where
  | alreadyLanded (merged : Bool)
  | noOp
  | proceed
deriving DecidableEq

def DEFAULT_BACKLOG_CEILING : Nat := 8

structure HarvestAuthorityConfig where
  required : Bool := false
  maxUnintegrated : Option Nat := none

def HarvestAuthorityConfig.backlogCeiling (cfg : HarvestAuthorityConfig) : Nat :=
  cfg.maxUnintegrated.getD DEFAULT_BACKLOG_CEILING

inductive EffectiveRemotePolicy where
  | disabled
  | scoped
  | withSeal
deriving DecidableEq

/-- How the door is opened: by `land`, or by `land_remote` with the policy of the remote
request and what reading the journal of attempts answers. -/
inductive Door where
  | land
  | landRemote (policy : EffectiveRemotePolicy) (journal : Except String Bool)

def Door.armed (cfg : HarvestAuthorityConfig) : Door → Bool
  | .land => cfg.required
  | .landRemote policy _ => policy ≠ .disabled

def Door.checkJournal : Door → Except LandError Unit
  | .land => .ok ()
  | .landRemote _ journal =>
    match journal with
    | .error _ => .error (.authorizationRefused .recoveryRequired)
    | .ok _ => .ok ()

def Door.missingReason : Door → Option String
  | .land => some "the request named no reason for closing this molecule"
  | .landRemote _ _ => none

/-- What a call finds outside the molecules: whether the store can be listed, and whether
the trunk lock can be taken. -/
structure DoorEnv where
  listing : Except CosmonError Unit := .ok ()
  lock : Except CosmonError Unit := .ok ()

def HarvestStore.unintegrated (s : HarvestStore) : List HarvestedMolecule :=
  (s.list .completed).filter fun mol => mol.mergedAt.isNone && mol.nonIntegration.isSome

def unintegratedCensus (env : DoorEnv) (s : HarvestStore) : Except CosmonError Nat :=
  env.listing.map fun _ => s.unintegrated.length

section Decide

variable (env : DoorEnv) (cfg : HarvestAuthorityConfig) (door : Door) (options : HarvestOptions)

def checkArmed : Except LandError Unit :=
  if door.armed cfg then .ok ()
  else .error (.refused (.because .notAuthorized "this galaxy has not armed `[harvest_authority] required`"))

def checkReservation (mol : HarvestedMolecule) : Except LandError Unit :=
  match reservationRequiringSeal (tagList mol.tags) with
  | some tag => .error (.refused (.because .reservationRequiresSeal ("reserved by `" ++ tag ++ "`")))
  | none => .ok ()

def checkBacklog (s : HarvestStore) : Except LandError Unit := do
  let backlog ← (unintegratedCensus env s).mapError .fault
  if cfg.backlogCeiling ≤ backlog then
    .error (.refused (.because .backlogFull (Nat.repr backlog ++
      " closed-but-unintegrated molecules, ceiling " ++ Nat.repr cfg.backlogCeiling)))
  else .ok ()

def decideWithAuthority (s : HarvestStore) (molecule : MoleculeId) : Except LandError DoorDecision := do
  checkArmed cfg door
  let mol ← (s.load molecule).mapError .fault
  door.checkJournal
  if mol.mergedAt.isSome || mol.archived then return .alreadyLanded mol.mergedAt.isSome
  else if options.ifCompleted && mol.status ≠ .completed then return .noOp
  else if !options.force && mol.status ≠ .completed then
    .error (.refused (.because .notCompleted ("status is " ++ mol.status.asStr)))
  else
    checkReservation mol
    checkBacklog env cfg s
    return .proceed

end Decide

structure SealedHarvestEffect where
  bindsTrunkLock : Bool
  harvest : HarvestStore → MoleculeId → HarvestOptions → HarvestStore × Except EffectFailure Unit

structure Kernel where
  store : HarvestStore
  harvests : List (MoleculeId × HarvestOptions) := []

/-- The effect, under the trunk lock unless it takes the lock itself. -/
def runEffect (env : DoorEnv) (effect : SealedHarvestEffect) (molecule : MoleculeId)
    (options : HarvestOptions) : Effect Kernel LandError (Except EffectFailure Unit) := do
  ofExcept (if effect.bindsTrunkLock then .ok () else env.lock.mapError .fault)
  fun k =>
    let (store, result) := effect.harvest k.store molecule options
    (.ok result, { store := store, harvests := k.harvests ++ [(molecule, options)] })

def closureWithoutMerge (options : HarvestOptions) (after : HarvestedMolecule) (record : NonIntegration) :
    Option DoorOutcome :=
  if !after.archived || after.mergedAt.isSome then none
  else
    match record.reason with
    | .mergeSkipped => if options.noMerge then some .closedWithoutMerge else none
    | .noBranch => some .closedWithoutMerge
    | .conflict | .mergeFailed | .preDoneRefused => none

def NonIntegrationReason.refusal : NonIntegrationReason → DoorRefusal
  | .conflict => .mergeConflict
  | .mergeFailed => .baseNotFastForward
  | .preDoneRefused | .noBranch | .mergeSkipped => .preDoneRefused

def refusalFromRecord (record : NonIntegration) : DoorRefused :=
  .because record.reason.refusal (record.reason.asStr ++
    (record.baseBranch.elim "" fun base => " against " ++ base) ++
    record.detail.elim "" fun detail => ": " ++ detail)

def HarvestStore.recorded (s : HarvestStore) (molecule : MoleculeId) : Option NonIntegration :=
  (s.load molecule).toOption.bind (·.nonIntegration)

/-- A refusal that the effect has named. A record of the same name lends it its detail. -/
def refusedEffect (s : HarvestStore) (molecule : MoleculeId) (refusal : DoorRefusal)
    (cause : Option HarvestAuthorizationCause) : LandError :=
  let detail := (((s.recorded molecule).map refusalFromRecord).filter
    (fun recorded => recorded.refusal = refusal)).bind (·.detail)
  .refused ⟨refusal, detail, cause⟩

def interpretDone (options : HarvestOptions) (after : HarvestedMolecule) : Except LandError DoorOutcome :=
  match after.nonIntegration with
  | none =>
    if after.mergedAt.isSome then .ok .landed
    else if after.archived then .ok .closedWithoutMerge
    else if options.ifCompleted then .ok .noOp
    else .error (.refused (.because .notCompleted "the harvest was a no-op and nothing was recorded"))
  | some record =>
    match closureWithoutMerge options after record with
    | some outcome => .ok outcome
    | none => .error (.refused (refusalFromRecord record))

def interpretEffect (s : HarvestStore) (molecule : MoleculeId) (options : HarvestOptions) :
    Except EffectFailure Unit → Except LandError DoorOutcome
  | .ok () => do
    let after ← (s.load molecule).mapError .fault
    interpretDone options after
  | .error (.refused refusal) => .error (refusedEffect s molecule refusal none)
  | .error (.authorizationRefused refusal cause) => .error (refusedEffect s molecule refusal (some cause))
  | .error .unavailable => .error .effectUnavailable
  | .error (.authorizationFault cause) => .error (.authorizationRefused cause)
  | .error (.failed message) =>
    match s.recorded molecule with
    | some record => .error (.refused (refusalFromRecord record))
    | none => .error (.effectFailed message)

structure LandCall where
  env : DoorEnv := {}
  cfg : HarvestAuthorityConfig
  door : Door := .land
  molecule : MoleculeId
  options : HarvestOptions
  effect : SealedHarvestEffect

def LandCall.checkOptions (call : LandCall) : Except LandError Unit :=
  call.options.validate.mapError fun refusal =>
    .refused { refusal := refusal, detail := call.door.missingReason }

def LandCall.decide (call : LandCall) : Effect Kernel LandError DoorDecision :=
  read fun k => decideWithAuthority call.env call.cfg call.door call.options k.store call.molecule

def LandCall.enact (call : LandCall) : DoorDecision → Effect Kernel LandError DoorOutcome
  | .alreadyLanded merged => return .alreadyLanded merged
  | .noOp => return .noOp
  | .proceed => do
    let result ← runEffect call.env call.effect call.molecule call.options
    read fun k => interpretEffect k.store call.molecule call.options result

def LandCall.run (call : LandCall) : Effect Kernel LandError DoorOutcome := do
  ofExcept call.checkOptions
  let decision ← call.decide
  call.enact decision

end Cosmon.Filestore.HarvestDoor
