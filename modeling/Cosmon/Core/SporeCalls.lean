import Cosmon.Core.SporeExpand

namespace Cosmon.Core.SporeCalls

open Cosmon.Lib
open Cosmon.Core.Spores Cosmon.Core.SporeExpand Cosmon.Core.SporeOrder Cosmon.Lib.Checks

def boundValue (spore : Spore) (params : Binding) (name : String) : Option Value :=
  spore.params.findSome? fun p => if p.1 = name then (params.lookup name).or p.2.default else none

def width (spore : Spore) (params : Binding) (node : Node) : Nat :=
  match (node.forEach.bind forEachParam).bind (boundValue spore params) with
  | some (.array items) => items.length
  | _ => 0

def names (spore : Spore) (params : Binding) (node : Node) : List String :=
  if node.kind = .fanout then (List.range (width spore params node)).map (instanceAlias node.id) else [node.id]

def namesOf (spore : Spore) (params : Binding) (id : String) : List String :=
  ((spore.nodes.find? fun node => node.id = id).map (names spore params)).getD []

section Values

variable {spore : Spore} {params resolved : Binding}

theorem resolveSpecs_lookup {specs : List (String × ParamSpec)} (h : resolveSpecs params specs = .ok resolved)
    (name : String) : resolved.lookup name =
      specs.findSome? fun p => if p.1 = name then (params.lookup name).or p.2.default else none := by
  induction specs generalizing resolved with
  | nil =>
    cases h
    rfl
  | cons p rest ih =>
    obtain ⟨name', spec⟩ := p
    unfold resolveSpecs at h
    rw [List.findSome?_cons]
    split at h
    · next value hvalue =>
      obtain ⟨⟨⟩, -, h⟩ := bind_ok h
      obtain ⟨more, hmore, h⟩ := bind_ok h
      cases h
      by_cases hname : name' = name
      · subst hname
        rw [List.lookup_cons_self, if_pos rfl, hvalue]
      · have hne : (name == name') = false := beq_eq_false_iff_ne.mpr (Ne.symm hname)
        rw [List.lookup_cons, hne, if_neg hname]
        exact ih hmore
    · next hnone =>
      split at h
      · cases h
      · by_cases hname : name' = name
        · subst hname
          rw [if_pos rfl, hnone]
          exact ih h
        · rw [if_neg hname]
          exact ih h

theorem resolveParams_lookup (h : resolveParams spore params = .ok resolved) (name : String) :
    resolved.lookup name = boundValue spore params name := by
  unfold resolveParams at h
  split at h
  · cases h
  · exact resolveSpecs_lookup h name

theorem fanoutItems_length {node : Node} {items : List String}
    (hresolved : ∀ name, resolved.lookup name = boundValue spore params name)
    (h : fanoutItems node resolved = .ok items) : items.length = width spore params node := by
  unfold fanoutItems at h
  split at h
  · cases h
  · next forEach hforEach =>
    split at h
    · cases h
    · next name hname =>
      split at h
      · cases h
      · next value hvalue =>
        rw [hresolved] at hvalue
        cases value with
        | array values =>
          have hlength := (mapM_forall₂ h).length_eq
          simp only [width, hforEach, Option.bind_some, hname, hvalue]
          exact hlength.symm
        | _ => cases h

theorem nodeCalls_ok {formula : String} {blockedBy : List String} {node : Node} {calls : List NucleateCall}
    (hresolved : ∀ name, resolved.lookup name = boundValue spore params name)
    (h : nodeCalls resolved formula blockedBy node = .ok calls) :
    calls.map NucleateCall.aliasName = names spore params node ∧ ∀ c ∈ calls, c.blockedBy = blockedBy := by
  unfold nodeCalls at h
  split at h
  · next hkind =>
    obtain ⟨vars, -, h⟩ := bind_ok h
    cases h
    simp [names, hkind]
  · next hkind =>
    obtain ⟨items, hitems, h⟩ := bind_ok h
    have hcall : ∀ p c, instanceCall node resolved formula blockedBy p = .ok c →
        c.aliasName = instanceAlias node.id p.2 ∧ c.blockedBy = blockedBy := by
      intro p c hc
      obtain ⟨vars, -, hc⟩ := bind_ok hc
      cases hc
      exact ⟨rfl, rfl⟩
    constructor
    · rw [mapM_ok (fun p c hc => (hcall p c hc).1) h, names, if_pos hkind, ← fanoutItems_length hresolved hitems,
        List.range_eq_range', ← List.zipIdx_map_snd, List.map_map]
      rfl
    · intro c hc
      obtain ⟨p, -, hp⟩ := mapM_mem h c hc
      exact (hcall p c hp).2
  · next hkind =>
    obtain ⟨vars, -, h⟩ := bind_ok h
    obtain ⟨⟨⟩, -, h⟩ := bind_ok h
    cases h
    simp [names, hkind]

end Values

section Errors

variable {resolved : Binding}

def ofValues : ExpandError → Bool
  | .unknownFormula _ _ => false
  | .edgeCycle _ => false
  | _ => true

theorem resolveSpecs_error {params : Binding} {specs : List (String × ParamSpec)} {e : ExpandError}
    (h : resolveSpecs params specs = .error e) : ofValues e = true := by
  induction specs with
  | nil => cases h
  | cons p rest ih =>
    obtain ⟨name, spec⟩ := p
    unfold resolveSpecs at h
    split at h
    · obtain h | ⟨-, -, h⟩ := bind_error h
      · unfold validateValue at h
        split at h <;> cases h
        rfl
      · obtain h | ⟨more, -, h⟩ := bind_error h
        · exact ih h
        · cases h
    · split at h
      · cases h
        rfl
      · exact ih h

theorem resolveParams_error {spore : Spore} {params : Binding} {e : ExpandError}
    (h : resolveParams spore params = .error e) : ofValues e = true := by
  unfold resolveParams at h
  split at h
  · cases h
    rfl
  · exact resolveSpecs_error h

theorem resolveParam_error {nodeId token : String} {e : ExpandError}
    (h : resolveParam nodeId token resolved = .error e) : ofValues e = true := by
  unfold resolveParam at h
  split at h
  · split at h <;> cases h
    rfl
  · cases h

theorem resolveToken_error {nodeId token : String} {loopCtx : Option (String × Nat)} {e : ExpandError}
    (h : resolveToken nodeId token resolved loopCtx = .error e) : ofValues e = true := by
  unfold resolveToken at h
  split at h
  · split at h
    · cases h
    · split at h
      · cases h
      · exact resolveParam_error h
  · exact resolveParam_error h

theorem substituteFrom_error {nodeId : String} {loopCtx : Option (String × Nat)} {fuel : Nat} {text : List Char}
    {e : ExpandError} (h : substituteFrom nodeId resolved loopCtx fuel text = .error e) : ofValues e = true := by
  induction fuel generalizing text with
  | zero => cases h
  | succ fuel ih =>
    cases text with
    | nil => cases h
    | cons c rest =>
      unfold substituteFrom at h
      split at h
      · obtain h | ⟨token, -, h⟩ := bind_error h
        · exact resolveToken_error h
        · obtain h | ⟨more, -, h⟩ := bind_error h
          · exact ih h
          · cases h
      · obtain h | ⟨more, -, h⟩ := bind_error h
        · exact ih h
        · cases h

theorem substituteVars_error {node : Node} {loopCtx : Option (String × Nat)} {e : ExpandError}
    (h : substituteVars node resolved loopCtx = .error e) : ofValues e = true := by
  refine mapM_error (P := fun e => ofValues e = true) (fun p _ e' hp => ?_) h
  exact substituteFrom_error (map_error (map_error hp))

theorem fanoutItems_error {node : Node} {e : ExpandError} (h : fanoutItems node resolved = .error e) :
    ofValues e = true := by
  unfold fanoutItems at h
  split at h
  · cases h
    rfl
  · split at h
    · cases h
      rfl
    · split at h
      · cases h
        rfl
      · split at h
        · refine mapM_error (P := fun e => ofValues e = true) (fun v _ e' hv => ?_) h
          unfold itemText at hv
          split at hv <;> cases hv
          rfl
        · cases h
          rfl

theorem enforceCeiling_error {nodeId var : String} {count maxInstances : Nat} {e : ExpandError}
    (h : enforceCeiling nodeId var count maxInstances = .error e) : ofValues e = true := by
  unfold enforceCeiling at h
  split at h <;> cases h
  rfl

theorem checkInstanceCeiling_error {nodeId : String} {bounds : Option Bounds} {vars : List (String × String)}
    {e : ExpandError} (h : checkInstanceCeiling nodeId bounds vars = .error e) : ofValues e = true := by
  unfold checkInstanceCeiling at h
  split at h
  · cases h
  · split at h
    · dsimp only at h
      split at h
      · cases h
        rfl
      · exact enforceCeiling_error h
    · refine forM_error (P := fun e => ofValues e = true) (fun var _ e' hv => ?_) h
      split at hv
      · cases hv
      · exact enforceCeiling_error hv

theorem nodeCalls_error {formula : String} {blockedBy : List String} {node : Node} {e : ExpandError}
    (h : nodeCalls resolved formula blockedBy node = .error e) : ofValues e = true := by
  unfold nodeCalls at h
  split at h
  · obtain h | ⟨vars, -, h⟩ := bind_error h
    · exact substituteVars_error h
    · cases h
  · obtain h | ⟨items, -, h⟩ := bind_error h
    · exact fanoutItems_error h
    · refine mapM_error (P := fun e => ofValues e = true) (fun p _ e' hp => ?_) h
      obtain hp | ⟨vars, -, hp⟩ := bind_error hp
      · exact substituteVars_error hp
      · cases hp
  · obtain h | ⟨vars, -, h⟩ := bind_error h
    · exact substituteVars_error h
    · obtain h | ⟨⟨⟩, -, h⟩ := bind_error h
      · exact checkInstanceCeiling_error h
      · cases h

theorem expandNodes_error {spore : Spore} {nodes : List Node} {aliasesOf : String → Option (List String)}
    (hformulas : ∀ node ∈ nodes, node.formula ∈ spore.formulas.map Prod.fst) {e : ExpandError}
    (h : expandNodes spore resolved nodes aliasesOf = .error e) : ofValues e = true := by
  induction nodes generalizing aliasesOf with
  | nil => cases h
  | cons node rest ih =>
    rw [List.forall_mem_cons] at hformulas
    unfold expandNodes at h
    split at h
    · next hnone =>
      obtain ⟨p, hp, hkey⟩ := List.mem_map.mp hformulas.1
      rw [List.lookup_eq_none_iff] at hnone
      exact absurd hkey.symm (bne_iff_ne.mp (hnone p hp))
    · obtain h | ⟨calls, -, h⟩ := bind_error h
      · exact nodeCalls_error h
      · obtain h | ⟨more, -, h⟩ := bind_error h
        · exact ih hformulas.2 h
        · cases h

theorem expandGroups_error {spore : Spore} (hspore : WellFormed spore) {params : Binding} {e : ExpandError}
    (h : expandGroups spore params = .error e) : ofValues e = true := by
  obtain ⟨order, horder, hperm, -⟩ := orderedNodes_spec hspore
  obtain h | ⟨resolved, -, h⟩ := bind_error h
  · exact resolveParams_error h
  · obtain h | ⟨order', horder', h⟩ := bind_error h
    · rw [horder] at h
      cases h
    · rw [horder] at horder'
      cases horder'
      exact expandNodes_error (fun node hnode => hspore.formulas node (hperm.mem_iff.mp hnode)) h

end Errors

section Groups

variable {spore : Spore} {params resolved : Binding}

theorem find?_id {nodes : List Node} (hids : (nodes.map Node.id).Nodup) {node : Node} (h : node ∈ nodes) :
    nodes.find? (fun n => n.id = node.id) = some node := (Keyed.get_iff hids).mpr ⟨h, rfl⟩

theorem namesOf_node (hspore : WellFormed spore) {node : Node} (h : node ∈ spore.nodes) :
    namesOf spore params node.id = names spore params node := by
  rw [namesOf, find?_id hspore.ids h]
  rfl

theorem mem_predecessors {a b : String} : a ∈ predecessors spore b ↔ Precedes spore a b := by
  simp only [predecessors, List.mem_eraseDups, List.mem_map, List.mem_filter, decide_eq_true_eq]
  apply exists_congr
  intro e
  rw [and_assoc, and_comm (a := e.target = b)]

/-- The calls of every node, as the nodes come: their aliases, and what they wait for. -/
structure Expanded (spore : Spore) (params : Binding) (groups : List (Node × List NucleateCall)) : Prop where
  ordered : InOrder (Precedes spore) [] (groups.map fun g => g.1.id)
  aliases : ∀ g ∈ groups, g.2.map NucleateCall.aliasName = names spore params g.1
  waits : ∀ g ∈ groups, ∀ c ∈ g.2, c.blockedBy = (predecessors spore g.1.id).flatMap (namesOf spore params)

theorem expandNodes_spec {nodes : List Node} {done : List String} {aliasesOf : String → Option (List String)}
    {groups : List (Node × List NucleateCall)}
    (hresolved : ∀ name, resolved.lookup name = boundValue spore params name)
    (hin : InOrder (Precedes spore) done (nodes.map Node.id))
    (hdone : ∀ id ∈ done, aliasesOf id = some (namesOf spore params id))
    (hnames : ∀ node ∈ nodes, namesOf spore params node.id = names spore params node)
    (h : expandNodes spore resolved nodes aliasesOf = .ok groups) :
    groups.map Prod.fst = nodes ∧
      (∀ g ∈ groups, g.2.map NucleateCall.aliasName = names spore params g.1) ∧
      ∀ g ∈ groups, ∀ c ∈ g.2, c.blockedBy = (predecessors spore g.1.id).flatMap (namesOf spore params) := by
  induction nodes generalizing done aliasesOf groups with
  | nil =>
    cases h
    simp
  | cons node rest ih =>
    rw [List.forall_mem_cons] at hnames
    unfold expandNodes at h
    split at h
    · cases h
    · obtain ⟨calls, hcalls, h⟩ := bind_ok h
      obtain ⟨more, hmore, h⟩ := bind_ok h
      cases h
      obtain ⟨haliases, hblocked⟩ := nodeCalls_ok hresolved hcalls
      have hnext : ∀ id ∈ done ++ [node.id], Function.update aliasesOf node.id
          (some (calls.map NucleateCall.aliasName)) id = some (namesOf spore params id) := by
        intro id hid
        by_cases heq : id = node.id
        · rw [heq, Function.update_self, haliases, hnames.1]
        · rw [Function.update_of_ne heq]
          exact hdone id ((List.mem_append.mp hid).resolve_right fun hmem => heq (List.mem_singleton.mp hmem))
      obtain ⟨hnodes, hrest, hwaits⟩ := ih hin.2 hnext hnames.2 hmore
      refine ⟨by rw [List.map_cons, hnodes], List.forall_mem_cons.mpr ⟨haliases, hrest⟩,
        List.forall_mem_cons.mpr ⟨fun c hc => ?_, hwaits⟩⟩
      rw [hblocked c hc, collectBlockedBy]
      apply List.flatMap_congr
      intro pred hpred
      rw [hdone pred (hin.1 pred (mem_predecessors.mp hpred))]
      rfl

theorem expandGroups_ok (hspore : WellFormed spore) {groups : List (Node × List NucleateCall)}
    (h : expandGroups spore params = .ok groups) :
    (groups.map Prod.fst).Perm spore.nodes ∧ Expanded spore params groups := by
  obtain ⟨order, horder, hperm, hin⟩ := orderedNodes_spec hspore
  obtain ⟨resolved, hresolved, h⟩ := bind_ok h
  obtain ⟨order', horder', h⟩ := bind_ok h
  rw [horder] at horder'
  cases horder'
  obtain ⟨hnodes, haliases, hwaits⟩ := expandNodes_spec (resolveParams_lookup hresolved) hin
    (fun id hid => absurd hid List.not_mem_nil)
    (fun node hnode => namesOf_node hspore (hperm.mem_iff.mp hnode)) h
  refine ⟨hnodes ▸ hperm, ?_, haliases, hwaits⟩
  have hids : groups.map (fun g => g.1.id) = (groups.map Prod.fst).map Node.id := by rw [List.map_map]; rfl
  rw [hids, hnodes]
  exact hin

end Groups

end Cosmon.Core.SporeCalls
