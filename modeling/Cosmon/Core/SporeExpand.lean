import Cosmon.Core.Spores

namespace Cosmon.Core.SporeExpand

open Cosmon.Core.Spores Cosmon.Graph.Toposort Cosmon.Lib.Text

inductive ExpandError where
  | missingRequiredParam (name : String)
  | unknownParam (name : String)
  | paramTypeMismatch (param detail : String)
  | unknownParamReference (node reference : String)
  | fanoutForEachNotParamList (node forEach : String)
  | unknownFormula (node formula : String)
  | edgeCycle (node : String)
  | emergentBoundExceeded (node var : String) (value maxInstances : Nat)
  | emergentBoundUnresolved (node var value : String)
deriving DecidableEq

structure NucleateCall where
  aliasName : String
  formula : String
  vars : List (String × String)
  blockedBy : List String
  kind : NodeKind
  forEach : Option String := none
  bounds : Option Bounds := none
  mission : Option String
deriving DecidableEq

abbrev Binding := List (String × Value)

def enforceCeiling (nodeId var : String) (count maxInstances : Nat) : Except ExpandError Unit :=
  if maxInstances < count then .error (.emergentBoundExceeded nodeId var count maxInstances) else .ok ()

def conventionalInstanceVars : List String := ["max_rounds", "max_iterations", "rounds", "iterations"]

def checkInstanceCeiling (nodeId : String) (bounds : Option Bounds) (vars : List (String × String)) :
    Except ExpandError Unit :=
  match bounds with
  | none => .ok ()
  | some bounds =>
    match bounds.instancesVar with
    | some var =>
      let raw := (vars.lookup var).getD ""
      match parseUnsigned 64 (trim raw.toList) with
      | none => .error (.emergentBoundUnresolved nodeId var raw)
      | some count => enforceCeiling nodeId var count bounds.maxInstances
    | none =>
      conventionalInstanceVars.forM fun var =>
        match (vars.lookup var).bind fun raw => parseUnsigned 64 (trim raw.toList) with
        | none => .ok ()
        | some count => enforceCeiling nodeId var count bounds.maxInstances

def validateValue (param : String) (spec : ParamSpec) (value : Value) : Except ExpandError Unit :=
  match mismatch "value" spec.ty spec.values value with
  | none => .ok ()
  | some detail => .error (.paramTypeMismatch param detail)

def resolveSpecs (params : Binding) : List (String × ParamSpec) → Except ExpandError Binding
  | [] => .ok []
  | (name, spec) :: rest =>
    match (params.lookup name).or spec.default with
    | some value => do
      validateValue name spec value
      let more ← resolveSpecs params rest
      .ok ((name, value) :: more)
    | none => if spec.required then .error (.missingRequiredParam name) else resolveSpecs params rest

def resolveParams (spore : Spore) (params : Binding) : Except ExpandError Binding :=
  match params.find? fun p => p.1 ∉ spore.params.map Prod.fst with
  | some p => .error (.unknownParam p.1)
  | none => resolveSpecs params spore.params

/-- The index of the node with an id; of the last one, if there were several. -/
def nodeIndex (nodes : List Node) (id : String) : Option Nat :=
  (nodes.zipIdx.reverse.find? fun p => p.1.id = id).map Prod.snd

def indexEdge (nodes : List Node) (e : Edge) : Option (Nat × Nat) :=
  match nodeIndex nodes e.source, nodeIndex nodes e.target with
  | some f, some t => some (f, t)
  | _, _ => none

def indexEdges (spore : Spore) : List (Nat × Nat) := spore.edges.filterMap (indexEdge spore.nodes)

def relax (indeg : Nat → Nat) (t : Nat) : Nat → Nat := Function.update indeg t (indeg t - 1)

/-- Emit the first node in declaration order that has no open edge, until there is none. -/
def topoLoop (edges : List (Nat × Nat)) (n : Nat) : Nat → (Nat → Nat) → List Nat → List Nat
  | 0, _, order => order
  | fuel + 1, indeg, order =>
    match (List.range n).find? fun i => i ∉ order ∧ indeg i = 0 with
    | none => order
    | some i => topoLoop edges n fuel ((dependents edges i).foldl relax indeg) (order ++ [i])

def topoOrder (spore : Spore) : Except ExpandError (List Nat) :=
  let n := spore.nodes.length
  let order := topoLoop (indexEdges spore) n n (inDegree (indexEdges spore)) []
  if order.length = n then .ok order
  else .error (.edgeCycle (((spore.nodes.zipIdx.find? fun p => p.2 ∉ order).map fun p => p.1.id).getD ""))

def predecessors (spore : Spore) (id : String) : List String :=
  ((spore.edges.filter fun e => e.target = id).map Edge.source).eraseDups

def collectBlockedBy (spore : Spore) (aliasesOf : String → Option (List String)) (id : String) : List String :=
  (predecessors spore id).flatMap fun pred => (aliasesOf pred).getD []

def stripFront (front text : List Char) : Option (List Char) :=
  if text.take front.length = front then some (text.drop front.length) else none

/-- The parameter of a directive `${params.<name>}`. -/
def forEachParam (forEach : String) : Option String := do
  let inner ← stripFront "$\x7b".toList forEach.toList
  let reference ← if inner.getLast? = some '\x7d' then some inner.dropLast else none
  let name ← stripFront "params.".toList reference
  return String.ofList name

def itemText (node : Node) (forEach : String) (v : Value) : Except ExpandError String :=
  match v.asStr with
  | some s => .ok s
  | none => .error (.fanoutForEachNotParamList node.id forEach)

def fanoutItems (node : Node) (resolved : Binding) : Except ExpandError (List String) :=
  match node.forEach with
  | none => .error (.fanoutForEachNotParamList node.id "")
  | some forEach =>
    match forEachParam forEach with
    | none => .error (.fanoutForEachNotParamList node.id forEach)
    | some name =>
      match resolved.lookup name with
      | none => .error (.unknownParamReference node.id ("params." ++ name))
      | some value =>
        match value.asArray with
        | some items => items.mapM (itemText node forEach)
        | none => .error (.fanoutForEachNotParamList node.id forEach)

mutual

def scalar : Value → String
  | .string s => s
  | .integer n => toString n
  | .float text => text
  | .boolean b => if b then "true" else "false"
  | .datetime text => text
  | .array items => ",".intercalate (scalars items)
  | .table => ""

def scalars : List Value → List String
  | [] => []
  | v :: rest => scalar v :: scalars rest

end

def resolveParam (nodeId token : String) (resolved : Binding) : Except ExpandError String :=
  match stripFront "params.".toList token.toList with
  | some param =>
    match resolved.lookup (String.ofList param) with
    | some value => .ok (scalar value)
    | none => .error (.unknownParamReference nodeId token)
  | none => .ok ("$\x7b" ++ token ++ "\x7d")

def resolveToken (nodeId token : String) (resolved : Binding) (loopCtx : Option (String × Nat)) :
    Except ExpandError String :=
  match loopCtx with
  | some (item, index) =>
    if token = "item" then .ok item
    else if token = "index" then .ok index.repr
    else resolveParam nodeId token resolved
  | none => resolveParam nodeId token resolved

def substituteFrom (nodeId : String) (resolved : Binding) (loopCtx : Option (String × Nat)) :
    Nat → List Char → Except ExpandError (List Char)
  | 0, _ => .ok []
  | _ + 1, [] => .ok []
  | fuel + 1, c :: rest =>
    match if c = '$' ∧ rest.head? = some '\x7b' then splitOnce '\x7d' rest.tail else none with
    | some (token, after) => do
      let text ← resolveToken nodeId (String.ofList token) resolved loopCtx
      let more ← substituteFrom nodeId resolved loopCtx fuel after
      .ok (text.toList ++ more)
    | none => do
      let more ← substituteFrom nodeId resolved loopCtx fuel rest
      .ok (c :: more)

def substitute (nodeId template : String) (resolved : Binding) (loopCtx : Option (String × Nat)) :
    Except ExpandError String :=
  (substituteFrom nodeId resolved loopCtx template.toList.length template.toList).map String.ofList

def substituteVars (node : Node) (resolved : Binding) (loopCtx : Option (String × Nat)) :
    Except ExpandError (List (String × String)) :=
  node.vars.mapM fun p => (substitute node.id p.2 resolved loopCtx).map fun text => (p.1, text)

def instanceAlias (id : String) (index : Nat) : String := id ++ "__" ++ index.repr

def instanceCall (node : Node) (resolved : Binding) (formula : String) (blockedBy : List String)
    (p : String × Nat) : Except ExpandError NucleateCall := do
  let vars ← substituteVars node resolved (some p)
  .ok { aliasName := instanceAlias node.id p.2, formula := formula, vars := vars, blockedBy := blockedBy
        kind := .fanout, mission := node.mission }

def nodeCalls (resolved : Binding) (formula : String) (blockedBy : List String) (node : Node) :
    Except ExpandError (List NucleateCall) :=
  match node.kind with
  | .fixed => do
    let vars ← substituteVars node resolved none
    .ok [{ aliasName := node.id, formula := formula, vars := vars, blockedBy := blockedBy, kind := .fixed
           mission := node.mission }]
  | .fanout => do
    let items ← fanoutItems node resolved
    items.zipIdx.mapM (instanceCall node resolved formula blockedBy)
  | .emergent => do
    let vars ← substituteVars node resolved none
    checkInstanceCeiling node.id node.bounds vars
    .ok [{ aliasName := node.id, formula := formula, vars := vars, blockedBy := blockedBy, kind := .emergent
           forEach := node.forEach, bounds := node.bounds, mission := node.mission }]

/-- Expand the nodes one after the other, each with the aliases that the former ones have
produced. The calls are kept by node. -/
def expandNodes (spore : Spore) (resolved : Binding) :
    List Node → (String → Option (List String)) → Except ExpandError (List (Node × List NucleateCall))
  | [], _ => .ok []
  | node :: rest, aliasesOf =>
    match spore.formulas.lookup node.formula with
    | none => .error (.unknownFormula node.id node.formula)
    | some f => do
      let calls ← nodeCalls resolved f.path (collectBlockedBy spore aliasesOf node.id) node
      let produced := calls.map NucleateCall.aliasName
      let more ← expandNodes spore resolved rest (Function.update aliasesOf node.id (some produced))
      .ok ((node, calls) :: more)

def expandGroups (spore : Spore) (params : Binding) : Except ExpandError (List (Node × List NucleateCall)) := do
  let resolved ← resolveParams spore params
  let order ← topoOrder spore
  expandNodes spore resolved (order.filterMap fun ni => spore.nodes[ni]?) fun _ => none

def expand (spore : Spore) (params : Binding) : Except ExpandError (List NucleateCall) :=
  (expandGroups spore params).map fun groups => groups.flatMap Prod.snd

end Cosmon.Core.SporeExpand

namespace Cosmon.Core.SporeOrder

open Cosmon.Core.Spores Cosmon.Core.SporeExpand Cosmon.Graph.Toposort

section InOrder

variable {α β : Type} {before : α → α → Prop}

/-- Whatever must come before an element of the list is done when its turn arrives. -/
def InOrder (before : α → α → Prop) : List α → List α → Prop
  | _, [] => True
  | done, b :: rest => (∀ a, before a b → a ∈ done) ∧ InOrder before (done ++ [b]) rest

theorem inOrder_concat {done xs : List α} {b : α} (h : InOrder before done xs)
    (hb : ∀ a, before a b → a ∈ done ++ xs) : InOrder before done (xs ++ [b]) := by
  induction xs generalizing done with
  | nil => exact ⟨fun a ha => List.append_nil done ▸ hb a ha, trivial⟩
  | cons x rest ih =>
    refine ⟨h.1, ih h.2 fun a ha => ?_⟩
    rw [List.append_assoc, List.singleton_append]
    exact hb a ha

theorem InOrder.map {before' : β → β → Prop} (f : α → β) {done xs : List α} (h : InOrder before done xs)
    (hf : ∀ b ∈ xs, ∀ a', before' a' (f b) → ∃ a, f a = a' ∧ before a b) :
    InOrder before' (done.map f) (xs.map f) := by
  induction xs generalizing done with
  | nil => trivial
  | cons x rest ih =>
    rw [List.forall_mem_cons] at hf
    constructor
    · intro a' ha'
      obtain ⟨a, rfl, ha⟩ := hf.1 a' ha'
      exact List.mem_map_of_mem (h.1 a ha)
    · have hrest := ih h.2 hf.2
      rw [List.map_append] at hrest
      exact hrest

end InOrder

section Loop

variable {edges : List (Nat × Nat)} {n : Nat}

theorem foldl_decrement (ds : List Nat) (indeg : Nat → Nat) (newly : List Nat) :
    (ds.foldl decrement (indeg, newly)).1 = ds.foldl relax indeg := by
  induction ds generalizing indeg newly with
  | nil => rfl
  | cons d rest ih =>
    rw [List.foldl_cons, List.foldl_cons]
    exact ih (relax indeg d) _

/-- What holds before every round: the degrees count the edges from nodes not yet emitted, and
each emitted node has come after its predecessors. -/
structure Inv (edges : List (Nat × Nat)) (n : Nat) (indeg : Nat → Nat) (order : List Nat) : Prop where
  nodup : order.Nodup
  bounded : ∀ i ∈ order, i < n
  degree : ∀ i, indeg i = openEdges edges order i
  ordered : InOrder (fun a b => (a, b) ∈ edges) [] order

theorem emit_inv {indeg : Nat → Nat} {order : List Nat} (h : Inv edges n indeg order) {i : Nat} (hi : i < n)
    (hnew : i ∉ order) (hfree : indeg i = 0) :
    Inv edges n ((dependents edges i).foldl relax indeg) (order ++ [i]) := by
  have hsplit := fun k => openEdges_append edges order i k hnew
  constructor
  · exact List.nodup_append_comm.mp (List.nodup_cons.mpr ⟨hnew, h.nodup⟩)
  · intro k hk
    obtain hk | hk := List.mem_append.mp hk
    · exact h.bounded k hk
    · rw [List.mem_singleton.mp hk]
      exact hi
  · intro k
    have hle : ∀ k, (dependents edges i).count k ≤ indeg k := by
      intro k
      rw [h.degree, hsplit k]
      omega
    rw [← foldl_decrement _ _ [], (decrement_foldl _ indeg [] hle).1 k, h.degree, hsplit k]
    omega
  · apply inOrder_concat h.ordered
    intro a ha
    rw [h.degree, openEdges_eq_zero] at hfree
    exact hfree (a, i) ha rfl

theorem topoLoop_spec (fuel : Nat) {indeg : Nat → Nat} {order : List Nat} (h : Inv edges n indeg order)
    (hfuel : n ≤ order.length + fuel) :
    ∃ indeg', Inv edges n indeg' (topoLoop edges n fuel indeg order) ∧
      ∀ i < n, i ∉ topoLoop edges n fuel indeg order → indeg' i ≠ 0 := by
  induction fuel generalizing indeg order with
  | zero =>
    refine ⟨indeg, h, fun i hi hnew => absurd ?_ hnew⟩
    have hsub : order ⊆ List.range n := fun k hk => List.mem_range.mpr (h.bounded k hk)
    have hperm : order.Perm (List.range n) := by
      apply (List.subperm_of_subset h.nodup hsub).perm_of_length_le
      rw [List.length_range]
      exact hfuel
    exact hperm.mem_iff.mpr (List.mem_range.mpr hi)
  | succ fuel ih =>
    unfold topoLoop
    split
    · next hnone =>
      refine ⟨indeg, h, fun i hi hnew hzero => ?_⟩
      rw [List.find?_eq_none] at hnone
      exact hnone i (List.mem_range.mpr hi) (decide_eq_true ⟨hnew, hzero⟩)
    · next i hsome =>
      have hfound : i ∉ order ∧ indeg i = 0 := by simpa using List.find?_some hsome
      have hi := List.mem_range.mp (List.mem_of_find?_eq_some hsome)
      apply ih (emit_inv h hi hfound.1 hfound.2)
      rw [List.length_append, List.length_singleton]
      omega

theorem topoLoop_complete (hsource : ∀ e ∈ edges, e.1 < n) (hacyclic : Acyclic edges) :
    (topoLoop edges n n (inDegree edges) []).Perm (List.range n) ∧
      InOrder (fun a b => (a, b) ∈ edges) [] (topoLoop edges n n (inDegree edges) []) := by
  have hstart : Inv edges n (inDegree edges) [] :=
    ⟨List.nodup_nil, fun i hi => absurd hi List.not_mem_nil, inDegree_eq edges, trivial⟩
  obtain ⟨indeg, hinv, hstop⟩ := topoLoop_spec n hstart (Nat.le_add_left n _)
  obtain ⟨rank, hrank⟩ := hacyclic
  refine ⟨?_, hinv.ordered⟩
  rw [List.perm_ext_iff_of_nodup hinv.nodup List.nodup_range]
  intro i
  rw [List.mem_range]
  refine ⟨hinv.bounded i, fun hi => ?_⟩
  induction hr : rank i using Nat.strong_induction_on generalizing i with
  | _ r ih =>
    subst hr
    by_contra hnew
    have hopen := hstop i hi hnew
    rw [hinv.degree, Ne, openEdges_eq_zero] at hopen
    apply hopen
    rintro e he rfl
    exact ih (rank e.1) (hrank e he) e.1 (hsource e he) rfl

end Loop

theorem nodeIndex_some {nodes : List Node} {id : String} {i : Nat} (h : nodeIndex nodes id = some i) :
    ∃ node, nodes[i]? = some node ∧ node.id = id := by
  obtain ⟨⟨node, k⟩, hfind, rfl⟩ := Option.map_eq_some_iff.mp h
  have hmem := List.mem_reverse.mp (List.mem_of_find?_eq_some hfind)
  refine ⟨node, List.mem_zipIdx_iff_getElem?.mp hmem, ?_⟩
  simpa using List.find?_some hfind

theorem nodeIndex_of_mem {nodes : List Node} {id : String} (h : id ∈ nodes.map Node.id) :
    ∃ i, nodeIndex nodes id = some i := by
  obtain ⟨node, hnode, rfl⟩ := List.mem_map.mp h
  obtain ⟨i, hi⟩ := List.getElem?_of_mem hnode
  cases hfind : nodes.zipIdx.reverse.find? fun p => p.1.id = node.id with
  | some p => exact ⟨p.2, Option.map_eq_some_iff.mpr ⟨p, hfind, rfl⟩⟩
  | none =>
    rw [List.find?_eq_none] at hfind
    have hmem : (node, i) ∈ nodes.zipIdx.reverse :=
      List.mem_reverse.mpr (List.mem_zipIdx_iff_getElem?.mpr hi)
    exact absurd (decide_eq_true rfl) (hfind (node, i) hmem)

def idAt (nodes : List Node) (i : Nat) : String := (nodes[i]?.map Node.id).getD ""

theorem idAt_of_nodeIndex {nodes : List Node} {id : String} {i : Nat} (h : nodeIndex nodes id = some i) :
    idAt nodes i = id := by
  obtain ⟨node, hnode, rfl⟩ := nodeIndex_some h
  rw [idAt, hnode]
  rfl

theorem nodeIndex_unique {nodes : List Node} (hids : (nodes.map Node.id).Nodup) {t t' : Nat}
    (ht : t < nodes.length) (h : nodeIndex nodes (idAt nodes t) = some t') : t = t' := by
  obtain ⟨node, hnode, hid⟩ := nodeIndex_some h
  apply (List.getElem?_inj (by rwa [List.length_map]) hids).mp
  rw [List.getElem?_map, List.getElem?_map, hnode, Option.map_some, hid, idAt, List.getElem?_eq_getElem ht]
  rfl

section Order

variable {spore : Spore}

theorem mem_indexEdges {f t : Nat} : (f, t) ∈ indexEdges spore ↔
    ∃ e ∈ spore.edges, nodeIndex spore.nodes e.source = some f ∧ nodeIndex spore.nodes e.target = some t := by
  rw [indexEdges, List.mem_filterMap]
  apply exists_congr
  intro e
  apply and_congr_right
  intro _
  unfold indexEdge
  split
  · next f' t' hf ht =>
    rw [hf, ht]
    simp only [Option.some.injEq, Prod.mk.injEq]
  · next hnone =>
    constructor
    · intro h
      cases h
    · rintro ⟨hf, ht⟩
      exact absurd ht (hnone f t hf)

theorem indexEdges_acyclic (h : WellFormed spore) : Acyclic (indexEdges spore) := by
  obtain ⟨rank, hrank⟩ := h.acyclic
  refine ⟨fun i => rank (idAt spore.nodes i), ?_⟩
  rintro ⟨f, t⟩ he
  obtain ⟨e, hmem, hf, ht⟩ := mem_indexEdges.mp he
  dsimp only
  rw [idAt_of_nodeIndex hf, idAt_of_nodeIndex ht]
  exact hrank e.pair (List.mem_map_of_mem hmem)

def Precedes (spore : Spore) (a b : String) : Prop := ∃ e ∈ spore.edges, e.source = a ∧ e.target = b

theorem topoOrder_ok (h : WellFormed spore) :
    ∃ order, topoOrder spore = .ok order ∧ order.Perm (List.range spore.nodes.length) ∧
      InOrder (Precedes spore) [] (order.map (idAt spore.nodes)) := by
  have hsource : ∀ e ∈ indexEdges spore, e.1 < spore.nodes.length := by
    rintro ⟨f, t⟩ he
    obtain ⟨e, -, hf, -⟩ := mem_indexEdges.mp he
    obtain ⟨node, hnode, -⟩ := nodeIndex_some hf
    exact (List.getElem?_eq_some_iff.mp hnode).1
  obtain ⟨hperm, hordered⟩ := topoLoop_complete hsource (indexEdges_acyclic h)
  refine ⟨_, ?_, hperm, ?_⟩
  · rw [topoOrder]
    exact if_pos (hperm.length_eq.trans List.length_range)
  · refine hordered.map (idAt spore.nodes) ?_
    rintro t ht a ⟨e, he, rfl, htarget⟩
    obtain ⟨f, hf⟩ := nodeIndex_of_mem (h.endpoints e he).1
    obtain ⟨t', ht'⟩ := nodeIndex_of_mem (h.endpoints e he).2
    refine ⟨f, idAt_of_nodeIndex hf, mem_indexEdges.mpr ⟨e, he, hf, ?_⟩⟩
    have hlt : t < spore.nodes.length := List.mem_range.mp (hperm.mem_iff.mp ht)
    rw [ht', nodeIndex_unique h.ids hlt (htarget ▸ ht')]

def orderedNodes (spore : Spore) (order : List Nat) : List Node := order.filterMap fun ni => spore.nodes[ni]?

theorem orderedNodes_ids (spore : Spore) {order : List Nat} (h : ∀ i ∈ order, i < spore.nodes.length) :
    (orderedNodes spore order).map Node.id = order.map (idAt spore.nodes) := by
  induction order with
  | nil => rfl
  | cons i rest ih =>
    rw [List.forall_mem_cons] at h
    have hi := List.getElem?_eq_getElem h.1
    rw [orderedNodes, List.filterMap_cons_some hi, List.map_cons, List.map_cons, idAt, hi]
    exact congrArg _ (ih h.2)

theorem filterMap_range {α : Type} (l : List α) : ((List.range l.length).filterMap fun i => l[i]?) = l := by
  induction l using List.reverseRecOn with
  | nil => rfl
  | append_singleton xs a ih =>
    have hfront : ∀ i ∈ List.range xs.length, (xs ++ [a])[i]? = xs[i]? :=
      fun i hi => List.getElem?_append_left (List.mem_range.mp hi)
    rw [List.length_append, List.length_singleton, List.range_succ, List.filterMap_append,
      List.filterMap_congr hfront, ih, List.filterMap_cons_some List.getElem?_concat_length, List.filterMap_nil]

theorem orderedNodes_spec (h : WellFormed spore) : ∃ order, topoOrder spore = .ok order ∧
    (orderedNodes spore order).Perm spore.nodes ∧
      InOrder (Precedes spore) [] ((orderedNodes spore order).map Node.id) := by
  obtain ⟨order, horder, hperm, hin⟩ := topoOrder_ok h
  have hlt : ∀ i ∈ order, i < spore.nodes.length := fun i hi => List.mem_range.mp (hperm.mem_iff.mp hi)
  refine ⟨order, horder, ?_, ?_⟩
  · have hall := hperm.filterMap fun ni => spore.nodes[ni]?
    rw [filterMap_range] at hall
    exact hall
  · rw [orderedNodes_ids spore hlt]
    exact hin

end Order

end Cosmon.Core.SporeOrder
