import Cosmon.Core.Formulas
import Cosmon.Lib.Checks

namespace Cosmon.Core.Nucleation

open Cosmon.Lib.Checks Cosmon.State.Molecule Cosmon.Core.Formulas

structure ParseEnumError where
  typeName : String
  value : String
deriving DecidableEq

/-- `FromStr` of a kind, with its short names. -/
def parseKind : String → Except ParseEnumError MoleculeKind
  | "idea" => .ok .idea
  | "task" => .ok .task
  | "decision" | "adr" => .ok .decision
  | "issue" | "bug" => .ok .issue
  | "signal" => .ok .signal
  | "deliberation" | "delib" | "think" => .ok .deliberation
  | "constellation" | "const" | "fil-rouge" => .ok .constellation
  | s => .error ⟨"MoleculeKind", s⟩

def canDecay : MoleculeKind → Bool
  | .idea | .issue | .deliberation => true
  | _ => false

def canMerge : MoleculeKind → Bool
  | .task | .idea | .issue => true
  | _ => false

def hexSuffix (draw : UInt16) : String :=
  let digits := Nat.toDigits 16 draw.toNat
  String.ofList (List.replicate (4 - digits.length) '0' ++ digits)

/-- `MoleculeId::generate`: the date is the day of the clock, the suffix a random draw. -/
def generate (idPrefix today : String) (draw : UInt16) : Except IdError MoleculeId :=
  if isValidMoleculePrefix idPrefix.toList = false then
    .error (.invalid "MoleculeId"
      ("prefix must be non-empty ASCII alphanumeric with optional internal hyphens, got \"" ++ idPrefix ++
        "\""))
  else moleculeIdNew (idPrefix ++ "-" ++ today ++ "-" ++ hexSuffix draw)

structure Variable where
  description : Option String := none
  varType : Option String := none
  required : Bool := false
  default : Option String := none
deriving DecidableEq

structure Template extends Formula where
  idPrefix : String
  vars : List (String × Variable) := []
deriving DecidableEq

abbrev Variables := List (String × String)

def bindVariable (name value : String) (vars : Variables) : Variables :=
  (name, value) :: vars.filter fun binding => binding.1 ≠ name

/-- `extend`: the later bindings win. -/
def extendVariables (vars more : Variables) : Variables :=
  more.foldl (fun bound binding => bindVariable binding.1 binding.2 bound) vars

inductive NucleateError where
  | idGeneration (error : IdError)
  | missingVariable (name : String)
  | emptyVariable (name : String)
deriving DecidableEq

def NucleateError.toString : NucleateError → String
  | .idGeneration error => "id generation failed: " ++ error.toString
  | .missingVariable name => "missing required variable: " ++ name
  | .emptyVariable name => "required variable is empty: " ++ name ++ " (provide a non-blank value)"

structure NucleateRequest where
  formula : Template
  vars : Variables
  assign : Option WorkerId

structure NucleateResult where
  id : MoleculeId
  formulaId : FormulaId
  status : MoleculeStatus
  vars : Variables
  assignedWorker : Option WorkerId
  createdAt : Instant
  totalSteps : Nat
deriving DecidableEq

def resolveVariable (supplied resolved : Variables) (declared : String × Variable) :
    Except NucleateError Variables :=
  match supplied.lookup declared.1, declared.2.default with
  | some value, default =>
    if declared.2.required = true ∧ default.isNone = true ∧ isBlank value = true then
      .error (.emptyVariable declared.1)
    else .ok (bindVariable declared.1 value resolved)
  | none, some default => .ok (bindVariable declared.1 default resolved)
  | none, none =>
    if declared.2.required then .error (.missingVariable declared.1) else .ok resolved

def passThrough (resolved : Variables) (binding : String × String) : Variables :=
  if (resolved.lookup binding.1).isSome then resolved else bindVariable binding.1 binding.2 resolved

def Template.effectivePrefix (formula : Template) : String :=
  if formula.idPrefix = "" then "mol" else formula.idPrefix

def Template.mints (formula : Template) (today : String) (draw : UInt16) : Option MoleculeId :=
  (generate formula.effectivePrefix today draw).toOption

def nucleate (request : NucleateRequest) (today : String) (draw : UInt16) (now : Instant) :
    Except NucleateError NucleateResult := do
  let id ← (generate request.formula.effectivePrefix today draw).mapError .idGeneration
  let resolved ← request.formula.vars.foldlM (resolveVariable request.vars) []
  return {
    id := id
    formulaId := request.formula.name
    status := if request.assign.isSome then .queued else .pending
    vars := request.vars.foldl passThrough resolved
    assignedWorker := request.assign
    createdAt := now
    totalSteps := request.formula.steps.length }

theorem moleculeIdNew_ok {s : String} {id : MoleculeId} (h : moleculeIdNew s = .ok id) : id = s := by
  unfold moleculeIdNew at h
  split at h
  · cases h
  · split at h
    · cases h
    · split at h
      · cases h
      · split_ifs at h
        cases h
        rfl

theorem nucleate_ok {request : NucleateRequest} {today : String} {draw : UInt16} {now : Instant}
    {result : NucleateResult} (h : nucleate request today draw now = .ok result) :
    request.formula.mints today draw = some result.id ∧ result.status ≠ .collapsed := by
  obtain ⟨id, hid, h⟩ := bind_ok h
  obtain ⟨resolved, _, h⟩ := bind_ok h
  cases h
  refine ⟨?_, ?_⟩
  · rw [Template.mints, mapError_ok hid]
    rfl
  · dsimp only
    split <;> (intro hc; cases hc)

end Cosmon.Core.Nucleation
