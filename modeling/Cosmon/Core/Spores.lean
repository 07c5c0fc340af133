import Cosmon.Core.Formulas
import Cosmon.Lib.Checks

namespace Cosmon.Core.Spores

open Cosmon.Core.Formulas Cosmon.Graph.Toposort Cosmon.Lib.Checks Cosmon.Lib.Text

/-- A `toml::Value`. A float and a datetime are kept as the text they print. -/
inductive Value where
  | string (s : String)
  | integer (n : Int)
  | float (text : String)
  | boolean (b : Bool)
  | datetime (text : String)
  | array (items : List Value)
  | table

def Value.isStr : Value → Bool
  | .string _ => true
  | _ => false

def Value.asStr : Value → Option String
  | .string s => some s
  | _ => none

def Value.asArray : Value → Option (List Value)
  | .array items => some items
  | _ => none

def valueKind : Value → String
  | .string _ => "a string"
  | .integer _ => "an integer"
  | .float _ => "a float"
  | .boolean _ => "a boolean"
  | .datetime _ => "a datetime"
  | .array _ => "an array"
  | .table => "a table"

inductive ParamType where
  | string
  | int
  | bool
  | enum
  | listString
deriving DecidableEq

def ParamType.parse (raw : String) : Option ParamType :=
  match String.ofList (trim raw.toList) with
  | "string" => some .string
  | "int" => some .int
  | "integer" => some .int
  | "bool" => some .bool
  | "boolean" => some .bool
  | "enum" => some .enum
  | "list<string>" => some .listString
  | _ => none

structure ParamSpec where
  ty : ParamType
  required : Bool
  default : Option Value
  values : List String

/-- What of a `[spore.formulas.*]` entry a call carries. -/
structure FormulaRef where
  path : String
deriving DecidableEq

inductive NodeKind where
  | fixed
  | fanout
  | emergent
deriving DecidableEq

def NodeKind.parse (raw : Option String) : Option NodeKind :=
  match raw.map fun s => String.ofList (trim s.toList) with
  | none => some .fixed
  | some "fixed" => some .fixed
  | some "fanout" => some .fanout
  | some "emergent" => some .emergent
  | some _ => none

def NodeKind.label : NodeKind → String
  | .fixed => "fixed"
  | .fanout => "fanout"
  | .emergent => "emergent"

structure Bounds where
  outputType : String
  maxInstances : Nat
  stopCondition : String
  instancesVar : Option String := none
deriving DecidableEq

structure Node where
  id : String
  kind : NodeKind
  formula : String
  forEach : Option String
  mission : Option String
  vars : List (String × String)
  bounds : Option Bounds
deriving DecidableEq

inductive EdgeType where
  | feeds
  | produces
  | verifies
deriving DecidableEq

def EdgeType.parse (raw : String) : Option EdgeType :=
  match String.ofList (trim raw.toList) with
  | "feeds" => some .feeds
  | "produces" => some .produces
  | "verifies" => some .verifies
  | _ => none

structure Edge where
  source : String
  target : String
  ty : EdgeType
deriving DecidableEq

/-- What of a manifest its expansion reads. The tables stand in the order of their keys. -/
structure Spore where
  params : List (String × ParamSpec)
  formulas : List (String × FormulaRef)
  nodes : List Node
  edges : List Edge

inductive SporeError where
  | toml (message : String)
  | unknownParamType (param ty : String)
  | paramTypeMismatch (param detail : String)
  | enumWithoutValues (param : String)
  | duplicateNodeId (id : String)
  | unknownNodeKind (node kind : String)
  | unknownInstancesVar (node var : String)
  | emergentWithoutBounds (node : String)
  | missingForEach (node kind : String)
  | unknownFormula (node formula : String)
  | unknownEdgeType (source target ty : String)
  | edgeReferencesUnknownNode (source target node : String)
  | edgeCycle (node : String)
  | invalidNodeId (node reason : String)
deriving DecidableEq

def maxNodeIdLen : Nat := 64

def validateNodeId (id : String) : Except SporeError Unit :=
  let reject (reason : String) : Except SporeError Unit := .error (.invalidNodeId id reason)
  match id.toList with
  | [] => reject "it is empty"
  | c :: rest =>
    if maxNodeIdLen < id.utf8ByteSize then reject "it is too long"
    else if isAsciiAlphanumeric c = false then reject "it does not start with an ASCII letter or digit"
    else
      match (c :: rest).find? fun c => !(isAsciiAlphanumeric c || c = '_' || c = '-') with
      | none => .ok ()
      | some bad =>
        if bad = '/' ∨ bad = '\\' then reject "it contains a path separator"
        else if bad = '.' then reject "it contains a `.` (path traversal risk)"
        else reject "it contains a character outside the safe slug alphabet"

structure RawParam where
  ty : String
  required : Bool := false
  default : Option Value := none
  values : Option (List String) := none

structure RawNode where
  id : String
  kind : Option String := none
  formula : String
  forEach : Option String := none
  mission : Option String := none
  vars : List (String × String) := []
  bounds : Option Bounds := none

structure RawEdge where
  source : String
  target : String
  ty : String

structure RawSpore where
  params : List (String × RawParam) := []
  formulas : List (String × FormulaRef) := []
  nodes : List RawNode := []
  edges : List RawEdge := []

/-- A character as `Debug` writes it inside a string. All of Unicode beyond ASCII is taken as
printable. -/
def debugChar (c : Char) : List Char :=
  if c = '"' ∨ c = '\\' then ['\\', c]
  else if c = '\n' then ['\\', 'n']
  else if c = '\r' then ['\\', 'r']
  else if c = '\t' then ['\\', 't']
  else if c.toNat = 0 then ['\\', '0']
  else if c.toNat < 32 ∨ c.toNat = 127 then
    "\\u\x7b".toList ++ Nat.toDigits 16 c.toNat ++ "\x7d".toList
  else [c]

def debugStrings (values : List String) : String :=
  "[" ++ ", ".intercalate (values.map fun s => "\"" ++ String.ofList (s.toList.flatMap debugChar) ++ "\"") ++ "]"

/-- What is wrong with a value of a parameter, which is called `what` in the text. -/
def mismatch (what : String) (ty : ParamType) (values : List String) (value : Value) : Option String :=
  match ty, value with
  | .string, .string _ => none
  | .string, v => some ("type is string but " ++ what ++ " is " ++ valueKind v)
  | .int, .integer _ => none
  | .int, v => some ("type is int but " ++ what ++ " is " ++ valueKind v)
  | .bool, .boolean _ => none
  | .bool, v => some ("type is bool but " ++ what ++ " is " ++ valueKind v)
  | .listString, .array items =>
    if items.all Value.isStr then none
    else some ("type is list<string> but " ++ what ++ " contains a non-string element")
  | .listString, v => some ("type is list<string> but " ++ what ++ " is " ++ valueKind v)
  | .enum, .string s =>
    if s ∈ values then none
    else some (what ++ " \"" ++ s ++ "\" is not a member of the enum values " ++ debugStrings values)
  | .enum, v => some ("type is enum but " ++ what ++ " is " ++ valueKind v)

def validateDefault (param : String) (ty : ParamType) (default : Value) (values : List String) :
    Except SporeError Unit :=
  match mismatch "default" ty values default with
  | none => .ok ()
  | some detail => .error (.paramTypeMismatch param detail)

def buildParam (name : String) (p : RawParam) : Except SporeError ParamSpec :=
  match ParamType.parse p.ty with
  | none => .error (.unknownParamType name p.ty)
  | some ty =>
    let values := p.values.getD []
    if ty = .enum ∧ values = [] then .error (.enumWithoutValues name)
    else
      let spec : ParamSpec := { ty := ty, required := p.required, default := p.default, values := values }
      match p.default with
      | none => .ok spec
      | some default => (validateDefault name ty default values).map fun _ => spec

def buildParams (raw : List (String × RawParam)) : Except SporeError (List (String × ParamSpec)) :=
  raw.mapM fun p => (buildParam p.1 p.2).map fun spec => (p.1, spec)

def require (ok : Bool) (e : SporeError) : Except SporeError Unit := if ok then .ok () else .error e

def parseKind (n : RawNode) : Except SporeError NodeKind :=
  match NodeKind.parse n.kind with
  | some kind => .ok kind
  | none => .error (.unknownNodeKind n.id (n.kind.getD ""))

/-- A declared `instances_var` must be a variable of the node. -/
def checkInstancesVar (n : RawNode) : Except SporeError Unit :=
  match n.bounds.bind Bounds.instancesVar with
  | some var => require (var ∈ n.vars.map Prod.fst) (.unknownInstancesVar n.id var)
  | none => .ok ()

def buildNode (formulas : List (String × FormulaRef)) (seen : List String) (n : RawNode) :
    Except SporeError Node := do
  validateNodeId n.id
  require (n.id ∉ seen) (.duplicateNodeId n.id)
  let kind ← parseKind n
  checkInstancesVar n
  require (kind ≠ .emergent || n.bounds.isSome) (.emergentWithoutBounds n.id)
  require (kind ≠ .emergent || n.forEach.isSome) (.missingForEach n.id kind.label)
  require (kind ≠ .fanout || n.forEach.isSome) (.missingForEach n.id kind.label)
  require (n.formula ∈ formulas.map Prod.fst) (.unknownFormula n.id n.formula)
  .ok { id := n.id, kind := kind, formula := n.formula, forEach := n.forEach, mission := n.mission
        vars := n.vars, bounds := n.bounds }

def buildNodes (formulas : List (String × FormulaRef)) : List String → List RawNode → Except SporeError (List Node)
  | _, [] => .ok []
  | seen, n :: rest => do
    let node ← buildNode formulas seen n
    let more ← buildNodes formulas (n.id :: seen) rest
    .ok (node :: more)

def buildEdge (ids : List String) (e : RawEdge) : Except SporeError Edge :=
  match EdgeType.parse e.ty with
  | none => .error (.unknownEdgeType e.source e.target e.ty)
  | some ty =>
    match [e.source, e.target].find? (· ∉ ids) with
    | some endpoint => .error (.edgeReferencesUnknownNode e.source e.target endpoint)
    | none => .ok { source := e.source, target := e.target, ty := ty }

def buildEdges (raw : List RawEdge) (nodes : List Node) : Except SporeError (List Edge) :=
  raw.mapM (buildEdge (nodes.map Node.id))

def Edge.pair (e : Edge) : String × String := (e.source, e.target)

def checkAcyclic (edges : List Edge) : Except SporeError Unit :=
  match toposort (edges.map Edge.pair) with
  | .ok _ => .ok ()
  | .error cycle => .error (.edgeCycle cycle.node)

/-- `Spore::parse`, over what the TOML reader `toml` makes of the text. -/
def Spore.parse (toml : String → Except String RawSpore) (text : String) : Except SporeError Spore := do
  let raw ← (toml text).mapError .toml
  let params ← buildParams raw.params
  let nodes ← buildNodes raw.formulas [] raw.nodes
  let edges ← buildEdges raw.edges nodes
  checkAcyclic edges
  .ok { params := params, formulas := raw.formulas, nodes := nodes, edges := edges }

/-- What an accepted manifest has passed. -/
structure WellFormed (spore : Spore) : Prop where
  ids : (spore.nodes.map Node.id).Nodup
  formulas : ∀ node ∈ spore.nodes, node.formula ∈ spore.formulas.map Prod.fst
  endpoints : ∀ e ∈ spore.edges, e.source ∈ spore.nodes.map Node.id ∧ e.target ∈ spore.nodes.map Node.id
  acyclic : Acyclic (spore.edges.map Edge.pair)

theorem require_ok {ok : Bool} {e : SporeError} {a : Unit} (h : require ok e = .ok a) : ok = true := by
  cases ok with
  | false => cases h
  | true => rfl

theorem buildNode_ok {formulas : List (String × FormulaRef)} {seen : List String} {n : RawNode} {node : Node}
    (h : buildNode formulas seen n = .ok node) :
    node.id = n.id ∧ n.id ∉ seen ∧ node.formula ∈ formulas.map Prod.fst := by
  obtain ⟨⟨⟩, -, h⟩ := bind_ok h
  obtain ⟨⟨⟩, hfresh, h⟩ := bind_ok h
  obtain ⟨kind, -, h⟩ := bind_ok h
  obtain ⟨⟨⟩, -, h⟩ := bind_ok h
  obtain ⟨⟨⟩, -, h⟩ := bind_ok h
  obtain ⟨⟨⟩, -, h⟩ := bind_ok h
  obtain ⟨⟨⟩, -, h⟩ := bind_ok h
  obtain ⟨⟨⟩, hformula, h⟩ := bind_ok h
  cases h
  exact ⟨rfl, of_decide_eq_true (require_ok hfresh), of_decide_eq_true (require_ok hformula)⟩

theorem buildNodes_ok {formulas : List (String × FormulaRef)} {seen : List String} {raw : List RawNode}
    {nodes : List Node} (h : buildNodes formulas seen raw = .ok nodes) :
    (nodes.map Node.id).Nodup ∧ (∀ node ∈ nodes, node.id ∉ seen) ∧
      ∀ node ∈ nodes, node.formula ∈ formulas.map Prod.fst := by
  induction raw generalizing seen nodes with
  | nil =>
    cases h
    simp
  | cons n rest ih =>
    obtain ⟨node, hnode, h⟩ := bind_ok h
    obtain ⟨more, hmore, h⟩ := bind_ok h
    cases h
    obtain ⟨hid, hfresh, hformula⟩ := buildNode_ok hnode
    obtain ⟨hnodup, hseen, hformulas⟩ := ih hmore
    refine ⟨?_, ?_, ?_⟩
    · rw [List.map_cons, List.nodup_cons]
      refine ⟨?_, hnodup⟩
      rw [hid, List.mem_map]
      rintro ⟨node', hmem, heq⟩
      exact hseen node' hmem (heq ▸ List.mem_cons_self)
    · rw [List.forall_mem_cons, hid]
      exact ⟨hfresh, fun node' hmem hin => hseen node' hmem (List.mem_cons_of_mem _ hin)⟩
    · rw [List.forall_mem_cons]
      exact ⟨hformula, hformulas⟩

theorem buildEdge_ok {ids : List String} {e : RawEdge} {edge : Edge} (h : buildEdge ids e = .ok edge) :
    edge.source ∈ ids ∧ edge.target ∈ ids := by
  unfold buildEdge at h
  split at h
  · cases h
  · split at h
    · cases h
    · next hnone =>
      cases h
      rw [List.find?_eq_none] at hnone
      simpa using hnone

theorem checkAcyclic_ok {edges : List Edge} (h : checkAcyclic edges = .ok ()) : Acyclic (edges.map Edge.pair) := by
  rw [← toposort_ok_iff]
  unfold checkAcyclic at h
  split at h
  · next order horder => exact ⟨order, horder⟩
  · cases h

theorem parse_wellFormed {toml : String → Except String RawSpore} {text : String} {spore : Spore}
    (h : Spore.parse toml text = .ok spore) : WellFormed spore := by
  obtain ⟨raw, -, h⟩ := bind_ok h
  obtain ⟨params, -, h⟩ := bind_ok h
  obtain ⟨nodes, hnodes, h⟩ := bind_ok h
  obtain ⟨edges, hedges, h⟩ := bind_ok h
  obtain ⟨⟨⟩, hacyclic, h⟩ := bind_ok h
  cases h
  obtain ⟨hnodup, -, hformulas⟩ := buildNodes_ok hnodes
  refine ⟨hnodup, hformulas, ?_, checkAcyclic_ok hacyclic⟩
  intro e he
  obtain ⟨r, -, hr⟩ := mapM_mem hedges e he
  exact buildEdge_ok hr

end Cosmon.Core.Spores
