import Cosmon.Core.Nucleation
import Cosmon.Core.Tags
import Cosmon.Lib.Effects

namespace Cosmon.State.Interactions

open Cosmon.Lib.Effects Cosmon.Lib.Effects.Effect Cosmon.State.Molecule Cosmon.Core.Formulas
  Cosmon.Core.Nucleation Cosmon.Core.Tags

structure StoredMolecule extends MoleculeData where
  vars : Variables := []
  createdAt : Instant := 0
deriving DecidableEq

abbrev StateFile := Except String StoredMolecule

abbrev Store := MoleculeId → Option StateFile

inductive Interaction where
  | decay (source : MoleculeId) (products : List MoleculeId) (reason : String) (timestamp : Instant)
  | merge (sources : List MoleculeId) (product : MoleculeId) (reason : String) (timestamp : Instant)
deriving DecidableEq

inductive Event where
  | moleculeNucleated (moleculeId : MoleculeId) (formulaId : FormulaId)
  | promptSealed (moleculeId : MoleculeId) (stamp : BriefingSeal)
  | moleculeDecayed (moleculeId : MoleculeId) (products : List MoleculeId) (reason : String)
  | moleculeMerged (sources : List MoleculeId) (product : MoleculeId) (reason : String)
  | decaySpliced (parent : MoleculeId) (children : List MoleculeId)
deriving DecidableEq

/-- The store, `interactions.jsonl` and `events.jsonl`. -/
structure World where
  store : Store
  interactions : List Interaction := []
  events : List Event := []

def World.put (w : World) (id : MoleculeId) (data : StoredMolecule) : World :=
  { w with store := Function.update w.store id (some (.ok data)) }

def World.log (w : World) (interaction : Interaction) : World :=
  { w with interactions := w.interactions ++ [interaction] }

def World.emit (w : World) (taken : Bool) (event : Event) : World :=
  if taken then { w with events := w.events ++ [event] } else w

inductive FormulaFailure where
  | missing
  | unreadable (message : String)
  | unusable (message : String)
deriving DecidableEq

/-- What a call finds outside the store: the day, the draws of the random generator,
the readings of the clock, the formulas, and which of its file writes fail. -/
structure Env where
  today : String
  draws : Nat → UInt16
  clock : Nat → Instant
  formulas : String → Except FormulaFailure Template
  /-- Appending to `interactions.jsonl`. -/
  interactionLog : Except String Unit := .ok ()
  /-- Writing the directory of the molecule with its three artefacts. -/
  artefacts : Except String Unit := .ok ()
  /-- Appending the event of a nucleation. -/
  nucleated : Except String Unit := .ok ()
  /-- The seal of the prompt, if it can be read back. -/
  prompt : Option BriefingSeal := none
  /-- Whether the best-effort events reach the log. -/
  legacyEvent : Bool := true
  typedEvent : Bool := true

def loadMolecule (w : World) (id : MoleculeId) : Except CosmonError StoredMolecule :=
  match w.store id with
  | none => .error (.moleculeNotFound id)
  | some (.error reason) => .error (.other reason)
  | some (.ok data) => .ok data

/-- `write_molecule_checked`: a record that cannot be read or that the guard keeps is not
replaced. -/
def saveMolecule (id : MoleculeId) (data : StoredMolecule) : Effect World CosmonError Unit := fun w =>
  match w.store id with
  | some (.error reason) => (.error (.other reason), w)
  | some (.ok current) =>
    if refusesSave current.toMoleculeData data.toMoleculeData then
      (.error (.stateStore
        ("molecule " ++ id ++ " is collapsed; cannot leave Collapsed or replace its receipt")), w)
    else (.ok (), w.put id data)
  | none => (.ok (), w.put id data)

def changeMolecule (id : MoleculeId) (change : StoredMolecule → StoredMolecule) :
    Effect World CosmonError Unit := do
  let data ← read fun w => loadMolecule w id
  saveMolecule id (change data)

def StoredMolecule.link (data : StoredMolecule) (links : List MoleculeLink) : StoredMolecule :=
  { data with typedLinks := data.typedLinks ++ links }

def StoredMolecule.touch (data : StoredMolecule) (now : Instant) : StoredMolecule :=
  { data with updatedAt := now }

def StoredMolecule.stampPrompt (data : StoredMolecule) (stamp : BriefingSeal) : StoredMolecule :=
  { data with promptSeal := some stamp }

def StoredMolecule.complete (data : StoredMolecule) : StoredMolecule := { data with status := .completed }

section Nucleate

inductive NucleateError where
  | formulaNotFound (name : String)
  | formulaParse (message : String)
  | invalidKind (error : ParseEnumError)
  | invalidTag (message : String)
  | missingVariable (name : String)
  | emptyVariable (name : String)
  | domain (message : String)
  | invalidBlockedBy (raw : String)
  | blockedByNotFound (id : MoleculeId)
  | storeUnavailable (message : String)
deriving DecidableEq

structure NucleateRequest where
  formula : String
  kind : Option String := none
  vars : Variables := []
  tags : List String := []
  fleet : FleetId := "default"
  blockedBy : List String := []
  adapter : Option String := none

def loadFormula (env : Env) (name : String) : Except NucleateError Template :=
  match env.formulas name with
  | .ok formula => .ok formula
  | .error .missing => .error (.formulaNotFound name)
  | .error (.unreadable message) => .error (.formulaParse ("read " ++ name ++ ": " ++ message))
  | .error (.unusable message) => .error (.formulaParse message)

def parseKindOption : Option String → Except NucleateError (Option MoleculeKind)
  | none => .ok none
  | some kind => ((parseKind kind).mapError .invalidKind).map some

def NucleateError.ofCore : Core.Nucleation.NucleateError → NucleateError
  | .missingVariable name => .missingVariable name
  | .emptyVariable name => .emptyVariable name
  | .idGeneration error => .domain error.toString

structure Nucleated where
  formula : Template
  kind : Option MoleculeKind
  tags : List Tag
  blockers : List MoleculeId
  result : NucleateResult

/-- The checks of `nucleate`, in their order. They end with the nucleation itself. -/
def checkNucleate (env : Env) (request : NucleateRequest) (w : World) :
    Except NucleateError Nucleated := do
  let formula ← loadFormula env request.formula
  let kind ← parseKindOption request.kind
  let tags ← request.tags.mapM fun raw =>
    (tagNew raw).mapError fun error => .invalidTag error.toString
  let blockers ← request.blockedBy.mapM fun raw =>
    (moleculeIdNew raw).mapError fun _ => .invalidBlockedBy raw
  blockers.forM fun blocker => ((loadMolecule w blocker).mapError fun _ => .blockedByNotFound blocker).map
    fun _ => ()
  let result ← (Core.Nucleation.nucleate ⟨formula, request.vars, none⟩ env.today (env.draws 0)
    (env.clock 0)).mapError .ofCore
  return ⟨formula, kind, tags, blockers, result⟩

def storeError (step : String) (error : CosmonError) : NucleateError :=
  .storeUnavailable (step ++ error.toString)

def nucleatedMolecule (request : NucleateRequest) (checked : Nucleated) : StoredMolecule where
  id := checked.result.id
  fleetId := request.fleet
  formulaId := checked.result.formulaId
  status := checked.result.status
  vars := checked.result.vars
  assignedWorker := checked.result.assignedWorker
  createdAt := checked.result.createdAt
  updatedAt := checked.result.createdAt
  totalSteps := checked.result.totalSteps
  kind := checked.kind
  typedLinks := checked.blockers.map .blockedBy
  tags := checked.tags.toFinset
  freezeOnLastStep := checked.formula.freezeOnLastStep
  adapter := request.adapter

def linkBlocker (env : Env) (new : MoleculeId) (blocker : MoleculeId × Nat) :
    Effect World NucleateError Unit := do
  let b ← read fun w => (loadMolecule w blocker.1).mapError (storeError "load blocker: ")
  if .blocks new ∈ b.typedLinks then return ()
  else
    mapError (storeError "save blocker: ")
      (saveMolecule blocker.1 ((b.link [.blocks new]).touch (env.clock (blocker.2 + 1))))

/-- Best effort: the seal of the prompt is saved in the record that was saved first. -/
def sealPrompt (env : Env) (checked : Nucleated) (data : StoredMolecule) :
    Effect World NucleateError Unit := fun w =>
  match env.prompt with
  | none => (.ok (), w)
  | some stamp =>
    let stamped := (data.stampPrompt stamp).touch (env.clock (checked.blockers.length + 1))
    match saveMolecule data.id stamped w with
    | (.ok _, w') => (.ok (), w'.emit env.typedEvent (.promptSealed data.id stamp))
    | (.error _, w') => (.ok (), w')

def persistAndRecord (env : Env) (request : NucleateRequest) (checked : Nucleated) :
    Effect World NucleateError Unit := do
  let data := nucleatedMolecule request checked
  mapError (storeError "save_molecule: ") (saveMolecule data.id data)
  each (linkBlocker env data.id) checked.blockers.zipIdx
  ofExcept (env.artefacts.mapError .storeUnavailable)
  ofExcept (env.nucleated.mapError fun message =>
    .storeUnavailable ("emit MoleculeNucleated: " ++ message))
  modify fun w => w.emit true (.moleculeNucleated data.id data.formulaId)
  sealPrompt env checked data

def nucleate (env : Env) (request : NucleateRequest) : Effect World NucleateError StoredMolecule := do
  let checked ← read (checkNucleate env request)
  persistAndRecord env request checked
  read fun w => (loadMolecule w checked.result.id).mapError (storeError "")

end Nucleate

inductive Failure (ε : Type) where
  | raised (error : ε)
  | panicked
deriving DecidableEq

def productMolecule (nuc : NucleateResult) (fleetId : FleetId) (kind : MoleculeKind)
    (origin : MoleculeLink) : StoredMolecule where
  id := nuc.id
  fleetId := fleetId
  formulaId := nuc.formulaId
  status := nuc.status
  vars := nuc.vars
  assignedWorker := nuc.assignedWorker
  createdAt := nuc.createdAt
  updatedAt := nuc.createdAt
  totalSteps := nuc.totalSteps
  kind := some kind
  typedLinks := [origin]

section Decay

inductive DecayError where
  | homogeneousCount (parent : MoleculeId) (count : Nat)
  | sourceNotFound (id : MoleculeId)
  | cannotDecay (kind : MoleculeKind)
  | invalidKind (error : ParseEnumError)
  | formulaNotFound (name : String)
  | formulaParse (message : String)
  | nucleateFailed (message : String)
  | blockTargetNotFound (id : MoleculeId)
  | storeUnavailable (message : String)
deriving DecidableEq

structure DecayRequest where
  source : MoleculeId
  formula : String
  count : Nat := 1
  productKind : String
  reason : String := ""
  chain : Bool := false
  blocks : List MoleculeId := []

structure DecayView where
  source : MoleculeId
  products : List MoleculeId
  productKind : MoleculeKind
  reason : String
deriving DecidableEq

/-- A decay gives at most one product: more would be copies of one another. -/
def ensureDecayCountIsHeterogeneous (parent : MoleculeId) (count : Nat) : Except DecayError Unit :=
  if 1 < count then .error (.homogeneousCount parent count) else .ok ()

/-- `load`, with the caller's error for a molecule that is not there. -/
def loadOr {ε : Type} (absent : MoleculeId → ε) (unreadable : String → ε) (w : World) (id : MoleculeId) :
    Except ε StoredMolecule :=
  (loadMolecule w id).mapError fun
    | .moleculeNotFound _ => absent id
    | other => unreadable other.toString

def DecayError.ofFormula (name : String) : FormulaFailure → DecayError
  | .missing => .formulaNotFound name
  | .unreadable message | .unusable message => .formulaParse message

structure Decaying where
  source : StoredMolecule
  productKind : MoleculeKind
  formula : Template

def checkDecay (env : Env) (request : DecayRequest) (w : World) : Except DecayError Decaying := do
  ensureDecayCountIsHeterogeneous request.source request.count
  let source ← loadOr .sourceNotFound .storeUnavailable w request.source
  let kind := source.kind.getD .task
  if canDecay kind = false then .error (.cannotDecay kind)
  else
    let productKind ← (parseKind request.productKind).mapError .invalidKind
    let formula ← (env.formulas request.formula).mapError (.ofFormula request.formula)
    request.blocks.forM fun target =>
      (loadOr .blockTargetNotFound .storeUnavailable w target).map fun _ => ()
    return ⟨source, productKind, formula⟩

def decayStoreErr (error : CosmonError) : Failure DecayError :=
  .raised (.storeUnavailable error.toString)

/-- Create the `i`-th product. -/
def createProduct (env : Env) (request : DecayRequest) (checked : Decaying) (i : Nat) :
    Effect World (Failure DecayError) MoleculeId := do
  let nuc ← ofExcept ((Core.Nucleation.nucleate
    ⟨checked.formula, checked.source.vars, checked.source.assignedWorker⟩ env.today (env.draws i)
    (env.clock i)).mapError fun error => .raised (.nucleateFailed error.toString))
  mapError decayStoreErr (saveMolecule nuc.id
    (productMolecule nuc checked.source.fleetId checked.productKind (.decayedFrom request.source)))
  return nuc.id

/-- One edge, written into both molecules one after the other. -/
def wire (upstream downstream : MoleculeId) : Effect World CosmonError Unit := do
  changeMolecule upstream fun u => u.link [.blocks downstream]
  changeMolecule downstream fun d => d.link [.blockedBy upstream]

def wireChain (productIds : List MoleculeId) : Effect World (Failure DecayError) Unit :=
  each (fun pair => mapError decayStoreErr (wire pair.1 pair.2)) (productIds.zip productIds.tail)

def wireIf (chain : Bool) (productIds : List MoleculeId) : Effect World (Failure DecayError) Unit :=
  if chain then wireChain productIds else return ()

/-- The product at the index of the target blocks it, the last product for the rest. With
no product at all the index is out of bounds. -/
def wireTarget (productIds : List MoleculeId) (target : MoleculeId × Nat) :
    Effect World (Failure DecayError) Unit :=
  match productIds[min target.2 (productIds.length - 1)]? with
  | none => fail .panicked
  | some product => mapError decayStoreErr (wire product target.1)

def wireBlocks (productIds targets : List MoleculeId) : Effect World (Failure DecayError) Unit :=
  each (wireTarget productIds) targets.zipIdx

def decayed (env : Env) (source : StoredMolecule) (productIds : List MoleculeId) : StoredMolecule :=
  (source.complete.touch (env.clock productIds.length)).link (productIds.map .decayProduct)

def logInteraction (env : Env) (interaction : Interaction) : Effect World String Unit := do
  ofExcept env.interactionLog
  modify fun w => w.log interaction

/-- The end of a decay: the source is saved from the copy that the checks have read, and
the decay is recorded. -/
def completeDecay (env : Env) (request : DecayRequest) (checked : Decaying) (products : List MoleculeId) :
    Effect World (Failure DecayError) DecayView := do
  mapError decayStoreErr (saveMolecule request.source (decayed env checked.source products))
  mapError (fun message => .raised (.storeUnavailable message)) (logInteraction env
    (.decay request.source products request.reason (env.clock (products.length + 1))))
  modify fun w => (w.emit env.legacyEvent (.moleculeDecayed request.source products request.reason)).emit
    env.typedEvent (.decaySpliced request.source products)
  return ⟨request.source, products, checked.productKind, request.reason⟩

def decay (env : Env) (request : DecayRequest) : Effect World (Failure DecayError) DecayView := do
  let checked ← read fun w => (checkDecay env request w).mapError .raised
  let products ← collect (createProduct env request checked) (List.range request.count)
  wireIf request.chain products
  wireBlocks products request.blocks
  completeDecay env request checked products

end Decay

section Merge

inductive MergeError where
  | tooFewSources
  | sourceNotFound (id : MoleculeId)
  | sourceNotMergeable (id : MoleculeId) (kind : MoleculeKind)
  | invalidKind (error : ParseEnumError)
  | formulaNotFound (name : String)
  | formulaParse (message : String)
  | nucleateFailed (message : String)
  | storeUnavailable (message : String)
deriving DecidableEq

structure MergeRequest where
  sources : List MoleculeId
  formula : String
  productKind : String
  reason : String := ""

structure MergeView where
  sources : List MoleculeId
  product : MoleculeId
  productKind : MoleculeKind
  reason : String
deriving DecidableEq

def MergeError.ofFormula (name : String) : FormulaFailure → MergeError
  | .missing => .formulaNotFound name
  | .unreadable message | .unusable message => .formulaParse message

def checkSource (w : World) (id : MoleculeId) : Except MergeError StoredMolecule := do
  let data ← loadOr .sourceNotFound .storeUnavailable w id
  let kind := data.kind.getD .task
  if canMerge kind = false then .error (.sourceNotMergeable id kind) else return data

structure Merging where
  sources : List StoredMolecule
  productKind : MoleculeKind
  result : NucleateResult
  fleetId : FleetId

/-- The first phase of `merge`, in its order. It ends with the nucleation. -/
def checkMerge (env : Env) (request : MergeRequest) (w : World) : Except (Failure MergeError) Merging := do
  if request.sources.length < 2 then .error (.raised .tooFewSources)
  else
    let sources ← (request.sources.mapM (checkSource w)).mapError .raised
    let productKind ← (parseKind request.productKind).mapError fun error => .raised (.invalidKind error)
    let formula ← (env.formulas request.formula).mapError fun failure =>
      .raised (.ofFormula request.formula failure)
    match sources with
    | [] => .error .panicked
    | first :: _ =>
      let merged := sources.foldl (fun vars source => extendVariables vars source.vars) []
      let result ← (Core.Nucleation.nucleate ⟨formula, merged, first.assignedWorker⟩ env.today
        (env.draws 0) (env.clock 0)).mapError fun error => .raised (.nucleateFailed error.toString)
      return ⟨sources, productKind, result, first.fleetId⟩

def mergeStoreErr (error : CosmonError) : Failure MergeError :=
  .raised (.storeUnavailable error.toString)

def mergeProduct (request : MergeRequest) (checked : Merging) : StoredMolecule :=
  productMolecule checked.result checked.fleetId checked.productKind (.mergedFrom request.sources)

def merged (source : StoredMolecule) (product : MoleculeId) (now : Instant) : StoredMolecule :=
  (source.complete.touch now).link [.mergedInto product]

/-- Complete one source from the copy that the checks have read. -/
def completeSource (env : Env) (product : MoleculeId) (source : (MoleculeId × StoredMolecule) × Nat) :
    Effect World (Failure MergeError) Unit :=
  mapError mergeStoreErr
    (saveMolecule source.1.1 (merged source.1.2 product (env.clock (source.2 + 1))))

def recordMerge (env : Env) (request : MergeRequest) (checked : Merging) :
    Effect World (Failure MergeError) MergeView := do
  let product := checked.result.id
  mapError (fun message => .raised (.storeUnavailable message)) (logInteraction env
    (.merge request.sources product request.reason (env.clock (request.sources.length + 1))))
  modify fun w => w.emit env.legacyEvent (.moleculeMerged request.sources product request.reason)
  return ⟨request.sources, product, checked.productKind, request.reason⟩

def merge (env : Env) (request : MergeRequest) : Effect World (Failure MergeError) MergeView := do
  let checked ← read (checkMerge env request)
  mapError mergeStoreErr (saveMolecule checked.result.id (mergeProduct request checked))
  each (completeSource env checked.result.id) (request.sources.zip checked.sources).zipIdx
  recordMerge env request checked

end Merge

inductive Op where
  | nucleate (request : NucleateRequest)
  | decay (request : DecayRequest)
  | merge (request : MergeRequest)

inductive OpError where
  | nucleate (error : NucleateError)
  | decay (error : DecayError)
  | merge (error : MergeError)
deriving DecidableEq

def Failure.map {ε ε' : Type} (f : ε → ε') : Failure ε → Failure ε'
  | .raised error => .raised (f error)
  | .panicked => .panicked

def Op.run (env : Env) : Op → Effect World (Failure OpError) (List MoleculeId)
  | .nucleate request => do
    let data ← mapError (fun error => .raised (.nucleate error)) (Interactions.nucleate env request)
    return [data.id]
  | .decay request => do
    let view ← mapError (Failure.map .decay) (Interactions.decay env request)
    return view.products
  | .merge request => do
    let view ← mapError (Failure.map .merge) (Interactions.merge env request)
    return [view.product]

def Op.named : Op → List MoleculeId
  | .nucleate request => request.blockedBy
  | .decay request => request.source :: request.blocks
  | .merge request => request.sources

def Op.formula : Op → String
  | .nucleate request => request.formula
  | .decay request => request.formula
  | .merge request => request.formula

def Op.count : Op → Nat
  | .decay request => request.count
  | _ => 1

def Op.minted (env : Env) (op : Op) : List MoleculeId :=
  match env.formulas op.formula with
  | .error _ => []
  | .ok formula => (List.range op.count).filterMap fun i => formula.mints env.today (env.draws i)

end Cosmon.State.Interactions
