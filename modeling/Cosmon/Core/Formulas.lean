import Cosmon.Graph.Toposort
import Cosmon.Lib.Text
import Cosmon.State.Molecule
import Mathlib.Data.List.Infix

namespace Cosmon.Core.Formulas

open Cosmon.Lib.Text Cosmon.State.Molecule Cosmon.Graph.Toposort

inductive IdError where
  | empty (kind : String)
  | invalid (kind reason : String)
deriving DecidableEq

def IdError.toString : IdError → String
  | .empty kind => kind ++ " cannot be empty"
  | .invalid kind reason => kind ++ ": " ++ reason

/-- `new` of the plain ids, which only refuse the empty text. -/
def simpleId (kind : String) (s : String) : Except IdError String :=
  if s = "" then .error (.empty kind) else .ok s

def isBlank (text : String) : Bool := trim text.toList = []

def isAsciiAlphanumeric (c : Char) : Bool :=
  c.isDigit || ('a' ≤ c && c ≤ 'z') || ('A' ≤ c && c ≤ 'Z')

def isValidMoleculePrefix (p : List Char) : Bool :=
  p ≠ [] && p.head? ≠ some '-' && p.getLast? ≠ some '-' &&
    p.all (fun c => isAsciiAlphanumeric c || c = '-')

def isValidDate (date : List Char) : Bool :=
  let year := Nat.ofDigitChars 10 (date.take 4) 0
  let month := Nat.ofDigitChars 10 ((date.drop 4).take 2) 0
  let day := Nat.ofDigitChars 10 (date.drop 6) 0
  2000 ≤ year && 1 ≤ month && month ≤ 12 && 1 ≤ day && day ≤ 31

/-- `MoleculeId::new`: PREFIX-YYYYMMDD-XXXX, cut from the right. -/
def moleculeIdNew (s : String) : Except IdError MoleculeId :=
  let refuse (reason : String) : Except IdError MoleculeId := .error (.invalid "MoleculeId" reason)
  if s = "" then .error (.empty "MoleculeId")
  else
    match splitOnce '-' s.toList.reverse with
    | none => refuse ("expected PREFIX-YYYYMMDD-XXXX, got \"" ++ s ++ "\"")
    | some (suffix, rest) =>
      match splitOnce '-' rest with
      | none => refuse ("expected PREFIX-YYYYMMDD-XXXX, got \"" ++ s ++ "\"")
      | some (date, front) =>
        if isValidMoleculePrefix front.reverse = false then
          refuse ("prefix must be non-empty ASCII alphanumeric with optional internal hyphens, got \"" ++
            String.ofList front.reverse ++ "\"")
        else if date.length ≠ 8 ∨ date.all Char.isDigit = false then
          refuse ("date must be YYYYMMDD (8 digits), got \"" ++ String.ofList date.reverse ++ "\"")
        else if isValidDate date.reverse = false then
          refuse ("invalid date: " ++ String.ofList date.reverse)
        else if suffix = [] ∨ suffix.all isAsciiAlphanumeric = false then
          refuse ("suffix must be non-empty alphanumeric, got \"" ++ String.ofList suffix.reverse ++ "\"")
        else .ok s

inductive TierError where
  | invalidLevel (level : Nat)
  | tier0Nucleates (step : String)
  | tier1MissingMeasure
  | tier1MeasureNotReferenced (measure : String)
  | tier2Unsupported
  | tier2SignatureInvalid (path : String)
deriving DecidableEq

inductive FormulaError where
  | toml (message : String)
  | noSteps
  | duplicateStepId (id : String)
  | unknownDependency (step dependency : String)
  | circularDependency (step : String)
  | invalidName (message : String)
  | commandAndNative (step : String)
  | invalidResponseArtifact (step path : String)
  | multipleStepKinds (step kinds : String)
  | queryMissingField (step field : String)
  | queryUnknownSource (step rawSource : String)
  | llmMissingField (step field : String)
  | llmPromptAmbiguous (step : String)
  | parallelLimitZero (step : String)
  | parallelLimitUnknownMode (step mode : String)
  | unknownValidationMode (step mode : String)
  | unknownCapability (token accepted : String)
  | tier (error : TierError)
deriving DecidableEq

structure RawQuerySpec where
  expr : String
  source : String
  outputVar : String
deriving DecidableEq

structure RawLlmSpec where
  provider : String
  model : String
  prompt : Option String := none
  promptFile : Option String := none
  outputPath : String
  checkpointEvery : Nat := 30
  timeoutPerCheckpoint : Nat := 120
  maxTotalMinutes : Nat := 30
  maxRetries : Nat := 3
deriving DecidableEq

structure RawParallelLimit where
  max : Nat
  mode : Option String := none
  policy : Option String := none
deriving DecidableEq

structure VerificationSpec where
  criteria : String
  maxRetries : Nat := 3
deriving DecidableEq

structure RawTier where
  level : Nat
  measure : Option String := none
  signature : Option String := none
deriving DecidableEq

structure RawStep where
  id : String
  title : String := ""
  description : String := ""
  acceptance : Option String := none
  acceptanceArtifacts : List String := []
  responseArtifact : Option String := none
  needs : List String := []
  verification : Option VerificationSpec := none
  /-- The mode of the `[steps.validation]` table. -/
  validation : Option String := none
  command : Option String := none
  native : Option String := none
  parallelLimit : Option RawParallelLimit := none
  query : Option RawQuerySpec := none
  llm : Option RawLlmSpec := none
deriving DecidableEq

structure RawFormula where
  formula : String
  description : String := ""
  freezeOnLastStep : Bool := false
  requiresCapabilities : List String := []
  steps : List RawStep := []
  tier : Option RawTier := none
deriving DecidableEq

inductive ParallelLimit where
  | static (max : Nat)
  | smart (policy : String)
deriving DecidableEq

inductive ValidationMode where
  | mTime
  | blake3
  | sha256
  | keyedBlake3
deriving DecidableEq

inductive QuerySource where
  | currentMoleculeState
  | moleculeState (id : MoleculeId)
  | prompt
  | briefing
  | events
deriving DecidableEq

structure QuerySpec where
  expr : String
  source : QuerySource
  outputVar : String
deriving DecidableEq

inductive Tier where
  | zero
  | one (measure : String)
  | two (signature : String)
deriving DecidableEq

inductive WorkerCapability where
  | shell
  | vcs
  | cosmonCli
deriving DecidableEq

structure Step where
  id : String
  title : String
  description : String
  exitCriteria : Option String
  expectedArtifacts : List String
  responseArtifact : Option String
  dependsOn : List String
  order : Nat
  validationMode : Option ValidationMode
  verification : Option VerificationSpec
  command : Option String
  native : Option String
  parallelLimit : Option ParallelLimit
  query : Option QuerySpec
  llm : Option RawLlmSpec
deriving DecidableEq

/-- A workflow template. The steps are in the order of `topologicalSort`. -/
structure Formula where
  name : FormulaId
  description : String
  steps : List Step
  freezeOnLastStep : Bool
  tier : Tier
  requiresCapabilities : List WorkerCapability
deriving DecidableEq

def collectIds (seen : List String) : List RawStep → Except FormulaError (List String)
  | [] => .ok seen
  | step :: rest =>
    if step.id ∈ seen then .error (.duplicateStepId step.id)
    else collectIds (step.id :: seen) rest

def stepKinds (step : RawStep) : List String :=
  (if step.command.isSome then ["command"] else []) ++
    (if step.native.isSome then ["native"] else []) ++
    (if step.query.isSome then ["query"] else []) ++
    (if step.llm.isSome then ["llm"] else [])

def checkKinds (step : RawStep) : Except FormulaError Unit :=
  let kinds := stepKinds step
  if kinds.length ≤ 1 then .ok ()
  else if kinds = ["command", "native"] then .error (.commandAndNative step.id)
  else .error (.multipleStepKinds step.id (", ".intercalate kinds))

def checkNeeds (seen : List String) (step : RawStep) : Except FormulaError Unit :=
  match step.needs.find? (fun dep => dep ∉ seen) with
  | some dep => .error (.unknownDependency step.id dep)
  | none => .ok ()

/-- An edge for every entry of a `needs` list. -/
def needEdges (steps : List RawStep) : List (String × String) :=
  steps.flatMap fun step => step.needs.map fun dep => (dep, step.id)

/-- Kahn's order of the steps with edges, then the others by name. -/
def topologicalSort (steps : List RawStep) : Except FormulaError (List String) :=
  match toposort (needEdges steps) with
  | .error e => .error (.circularDependency e.node)
  | .ok result =>
    let isolated := (steps.filter fun s => s.id ∉ result).map RawStep.id
    .ok (result ++ isolated.insertionSort (· ≤ ·))

def buildParallelLimit (stepId : String) :
    Option RawParallelLimit → Except FormulaError (Option ParallelLimit)
  | none => .ok none
  | some raw =>
    if raw.max = 0 then .error (.parallelLimitZero stepId)
    else
      let mode := raw.mode.getD "static"
      if mode = "static" then .ok (some (.static raw.max))
      else if mode = "smart" then .ok (some (.smart (raw.policy.getD "")))
      else .error (.parallelLimitUnknownMode stepId mode)

def buildValidationMode (stepId : String) : Option String → Except FormulaError (Option ValidationMode)
  | none => .ok none
  | some "mtime" => .ok (some .mTime)
  | some "blake3" => .ok (some .blake3)
  | some "sha256" => .ok (some .sha256)
  | some "keyed_blake3" => .ok (some .keyedBlake3)
  | some mode => .error (.unknownValidationMode stepId mode)

def parseQuerySource (stepId raw : String) : Except FormulaError QuerySource :=
  let trimmed := trim raw.toList
  if trimmed = "state".toList ∨ trimmed = "molecule:current".toList then .ok .currentMoleculeState
  else if trimmed = "prompt".toList then .ok .prompt
  else if trimmed = "briefing".toList then .ok .briefing
  else if trimmed = "events".toList then .ok .events
  else if "molecule:".toList.isPrefixOf trimmed then
    match moleculeIdNew (String.ofList (trimmed.drop 9)) with
    | .ok id => .ok (.moleculeState id)
    | .error _ => .error (.queryUnknownSource stepId raw)
  else .error (.queryUnknownSource stepId raw)

def buildQuerySpec (stepId : String) : Option RawQuerySpec → Except FormulaError (Option QuerySpec)
  | none => .ok none
  | some raw =>
    if isBlank raw.expr then .error (.queryMissingField stepId "expr")
    else if isBlank raw.source then .error (.queryMissingField stepId "source")
    else if isBlank raw.outputVar then .error (.queryMissingField stepId "output_var")
    else
      match parseQuerySource stepId raw.source with
      | .error e => .error e
      | .ok source => .ok (some ⟨raw.expr, source, raw.outputVar⟩)

def buildLlmSpec (stepId : String) : Option RawLlmSpec → Except FormulaError (Option RawLlmSpec)
  | none => .ok none
  | some raw =>
    if isBlank raw.provider then .error (.llmMissingField stepId "provider")
    else if isBlank raw.model then .error (.llmMissingField stepId "model")
    else if raw.prompt.isNone ∧ raw.promptFile.isNone then .error (.llmMissingField stepId "prompt")
    else if raw.prompt.isSome ∧ raw.promptFile.isSome then .error (.llmPromptAmbiguous stepId)
    else if raw.outputPath = "" then .error (.llmMissingField stepId "output_path")
    else .ok (some raw)

def pathParts : List Char → List (List Char)
  | [] => [[]]
  | c :: rest =>
    match pathParts rest with
    | [] => [[c]]
    | part :: parts => if c = '/' then [] :: part :: parts else (c :: part) :: parts

/-- A relative path without `..` and without a leading `.`. Further dots and
repeated slashes are no components. -/
def validateResponseArtifactPath (path : String) : Bool :=
  let parts := pathParts path.toList
  path ≠ "" && path.toList.head? ≠ some '/' && parts.head? ≠ some ['.'] &&
    parts.all (fun part => part ≠ ['.', '.'])

def checkResponseArtifact (stepId : String) : Option String → Except FormulaError Unit
  | none => .ok ()
  | some path =>
    if validateResponseArtifactPath path then .ok () else .error (.invalidResponseArtifact stepId path)

/-- The domain step of a raw one. Its order is its place in `ordered`. -/
def buildStep (ordered : List String) (s : RawStep) : Except FormulaError Step := do
  let parallelLimit ← buildParallelLimit s.id s.parallelLimit
  let validationMode ← buildValidationMode s.id s.validation
  let query ← buildQuerySpec s.id s.query
  let llm ← buildLlmSpec s.id s.llm
  checkResponseArtifact s.id s.responseArtifact
  return {
    id := s.id
    title := s.title
    description := s.description
    exitCriteria := s.acceptance
    expectedArtifacts := s.acceptanceArtifacts
    responseArtifact := s.responseArtifact
    dependsOn := s.needs
    order := ordered.idxOf s.id
    validationMode := validationMode
    verification := s.verification
    command := s.command
    native := s.native
    parallelLimit := parallelLimit
    query := query
    llm := llm }

def buildTier : Option RawTier → Except FormulaError Tier
  | none => .ok .zero
  | some raw =>
    match raw.level with
    | 0 => .ok .zero
    | 1 =>
      match raw.measure with
      | none => .error (.tier .tier1MissingMeasure)
      | some measure => .ok (.one measure)
    | 2 =>
      match raw.signature with
      | none => .error (.tier .tier2Unsupported)
      | some signature => .error (.tier (.tier2SignatureInvalid signature))
    | other => .error (.tier (.invalidLevel other))

def parseCapability : String → Except FormulaError WorkerCapability
  | "shell" => .ok .shell
  | "vcs" => .ok .vcs
  | "cs-cli" => .ok .cosmonCli
  | token => .error (.unknownCapability token "shell, vcs, cs-cli")

def contains (text sub : String) : Bool := sub.toList <:+: text.toList

def stepNucleates (step : Step) : Bool :=
  match step.command with
  | none => false
  | some s => contains s "cs nucleate " || contains s "cs nucleate\n" || contains s "cosmon_nucleate"

def stepMentions (step : Step) (measure : String) : Bool :=
  contains step.description measure || contains step.title measure ||
    step.exitCriteria.any (fun s => contains s measure)

def validateTier (formula : Formula) : Except FormulaError Unit :=
  match formula.tier with
  | .zero =>
    match formula.steps.find? stepNucleates with
    | some step => .error (.tier (.tier0Nucleates step.id))
    | none => .ok ()
  | .one measure =>
    if isBlank measure then .error (.tier .tier1MissingMeasure)
    else if formula.steps.any (fun s => stepMentions s measure) || contains formula.description measure then
      .ok ()
    else .error (.tier (.tier1MeasureNotReferenced measure))
  | .two _ => .error (.tier .tier2Unsupported)

def checkName (name : String) : Except FormulaError FormulaId :=
  match simpleId "FormulaId" name with
  | .error e => .error (.invalidName e.toString)
  | .ok name => .ok name

/-- `Formula::parse`, over what the TOML reader `toml` makes of the text. -/
def Formula.parse (toml : String → Except String RawFormula) (text : String) :
    Except FormulaError Formula := do
  let raw ← (toml text).mapError .toml
  let name ← checkName raw.formula
  if raw.steps = [] then throw .noSteps
  let seen ← collectIds [] raw.steps
  raw.steps.forM checkKinds
  raw.steps.forM (checkNeeds seen)
  let ordered ← topologicalSort raw.steps
  let steps ← raw.steps.mapM (buildStep ordered)
  let tier ← buildTier raw.tier
  let requiresCapabilities ← raw.requiresCapabilities.mapM parseCapability
  let formula : Formula := {
    name := name
    description := raw.description
    steps := steps.insertionSort (fun a b => a.order ≤ b.order)
    freezeOnLastStep := raw.freezeOnLastStep
    tier := tier
    requiresCapabilities := requiresCapabilities }
  validateTier formula
  return formula

end Cosmon.Core.Formulas
