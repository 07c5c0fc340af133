import Cosmon.Core.SporeCalls
import Mathlib.Data.List.Pairwise

namespace Cosmon.Core.SporeGates

open Cosmon.Core.Spores Cosmon.Core.SporeExpand Cosmon.Core.SporeOrder Cosmon.Core.SporeCalls
open Cosmon.Graph.Toposort Cosmon.Lib.Checks Cosmon.Lib.Enumerate Cosmon.Lib.Text

/-- No node that is one call has the id that an instance of a fan-out is called by. -/
def NoClash (spore : Spore) (params : Binding) : Prop :=
  ∀ f ∈ spore.nodes, f.kind = .fanout → ∀ m ∈ spore.nodes, m.kind ≠ .fanout →
    ∀ i < width spore params f, m.id ≠ instanceAlias f.id i

section Names

variable {spore : Spore} {params : Binding}

theorem instanceAlias_injective {id id' : String} {i j : Nat} (h : instanceAlias id i = instanceAlias id' j) :
    id = id' ∧ i = j := by
  have hdigit : ∀ n : Nat, '_' ∉ Nat.toDigits 10 n := by
    intro n hn
    have hd := isDigit_toDigits hn
    revert hd
    decide
  have hcut : ∀ (s : String) (digits : List Char),
      s.toList ++ "__".toList ++ digits = (s.toList ++ ['_']) ++ '_' :: digits := by
    intro s digits
    simp
  have hchars := congrArg String.toList h
  simp only [instanceAlias, String.toList_append, Nat.toList_repr, hcut] at hchars
  obtain ⟨hid, -⟩ := append_sep_inj_right (hdigit i) (hdigit j) hchars
  obtain rfl := String.toList_inj.mp (List.append_cancel_right hid)
  exact ⟨rfl, append_repr_injective h⟩

theorem mem_names_fanout {node : Node} (hkind : node.kind = .fanout) {a : String} :
    a ∈ names spore params node ↔ ∃ i < width spore params node, instanceAlias node.id i = a := by
  simp only [names, if_pos hkind, List.mem_map, List.mem_range]

theorem mem_names_single {node : Node} (hkind : node.kind ≠ .fanout) {a : String} :
    a ∈ names spore params node ↔ a = node.id := by
  rw [names, if_neg hkind, List.mem_singleton]

theorem names_nodup (node : Node) : (names spore params node).Nodup := by
  unfold names
  split
  · exact List.Nodup.map (fun i j h => (instanceAlias_injective h).2) List.nodup_range
  · exact List.nodup_singleton node.id

theorem namesOf_nodup (id : String) : (namesOf spore params id).Nodup := by
  unfold namesOf
  cases spore.nodes.find? fun node => node.id = id with
  | none => exact List.nodup_nil
  | some node => exact names_nodup node

theorem mem_namesOf (hids : (spore.nodes.map Node.id).Nodup) {id a : String} :
    a ∈ namesOf spore params id ↔ ∃ node ∈ spore.nodes, node.id = id ∧ a ∈ names spore params node := by
  constructor
  · intro h
    unfold namesOf at h
    cases hfind : spore.nodes.find? fun node => node.id = id with
    | none =>
      rw [hfind] at h
      cases h
    | some node =>
      rw [hfind] at h
      refine ⟨node, List.mem_of_find?_eq_some hfind, ?_, h⟩
      simpa using List.find?_some hfind
  · rintro ⟨node, hnode, rfl, h⟩
    rw [namesOf, find?_id hids hnode]
    exact h

theorem names_inj (hclash : NoClash spore params) {n m : Node} (hn : n ∈ spore.nodes) (hm : m ∈ spore.nodes)
    {a : String} (han : a ∈ names spore params n) (ham : a ∈ names spore params m) : n.id = m.id := by
  by_cases hnkind : n.kind = .fanout
  · obtain ⟨i, hi, rfl⟩ := (mem_names_fanout hnkind).mp han
    by_cases hmkind : m.kind = .fanout
    · obtain ⟨j, -, heq⟩ := (mem_names_fanout hmkind).mp ham
      exact (instanceAlias_injective heq).1.symm
    · exact absurd ((mem_names_single hmkind).mp ham).symm (hclash n hn hnkind m hm hmkind i hi)
  · rw [mem_names_single hnkind] at han
    by_cases hmkind : m.kind = .fanout
    · obtain ⟨j, hj, heq⟩ := (mem_names_fanout hmkind).mp ham
      exact absurd (han.symm.trans heq.symm) (hclash m hm hmkind n hn hnkind j hj)
    · exact han.symm.trans ((mem_names_single hmkind).mp ham)

theorem nodup_names_iff (hids : (spore.nodes.map Node.id).Nodup) :
    (spore.nodes.flatMap (names spore params)).Nodup ↔ NoClash spore params := by
  rw [List.nodup_flatMap]
  constructor
  · rintro ⟨-, hdisjoint⟩ f hf hfkind m hm hmkind i hi heq
    have hne : f ≠ m := fun h => hmkind (h ▸ hfkind)
    have hsymm : Std.Symm (Function.onFun List.Disjoint (names spore params)) := ⟨fun _ _ h => h.symm⟩
    refine hdisjoint.forall hf hm hne ((mem_names_fanout hfkind).mpr ⟨i, hi, rfl⟩) ?_
    exact (mem_names_single hmkind).mpr heq.symm
  · intro hclash
    refine ⟨fun node _ => names_nodup node, ?_⟩
    have hpair := List.pairwise_map.mp hids
    rw [List.pairwise_iff_forall_sublist] at hpair ⊢
    intro n m hsub a han ham
    have hmem := hsub.subset
    exact hpair hsub (names_inj hclash (hmem (by simp)) (hmem (by simp)) han ham)

end Names

section Chain

/-- A manifest with a fan-out `a` between the node `start` and a last one. -/
def chainText (last : String) : String :=
  "[spore]\nname = \"chain\"\n" ++
  "[spore.params.axes]\ntype = \"list<string>\"\n" ++
  "[spore.formulas.work]\npath = \"work.toml\"\n" ++
  "[[spore.node]]\nid = \"start\"\nformula = \"work\"\n" ++
  "[[spore.node]]\nid = \"a\"\nkind = \"fanout\"\nformula = \"work\"\nfor_each = \"$\x7bparams.axes\x7d\"\n" ++
  "[[spore.node]]\nid = \"" ++ last ++ "\"\nformula = \"work\"\n" ++
  "[[spore.edge]]\nfrom = \"start\"\nto = \"a\"\ntype = \"feeds\"\n" ++
  "[[spore.edge]]\nfrom = \"a\"\nto = \"" ++ last ++ "\"\ntype = \"feeds\"\n"

def chainRaw (last : String) : RawSpore where
  params := [("axes", { ty := "list<string>" })]
  formulas := [("work", { path := "work.toml" })]
  nodes :=
    [{ id := "start", formula := "work" },
      { id := "a", kind := some "fanout", formula := "work", forEach := some "$\x7bparams.axes\x7d" },
      { id := last, formula := "work" }]
  edges :=
    [{ source := "start", target := "a", ty := "feeds" }, { source := "a", target := last, ty := "feeds" }]

def chainNode (id : String) (forEach : Option String) : Node where
  id := id
  kind := if forEach.isSome then .fanout else .fixed
  formula := "work"
  forEach := forEach
  mission := none
  vars := []
  bounds := none

def chain (last : String) : Spore where
  params := [("axes", { ty := .listString, required := false, default := none, values := [] })]
  formulas := [("work", { path := "work.toml" })]
  nodes := [chainNode "start" none, chainNode "a" (some "$\x7bparams.axes\x7d"), chainNode last none]
  edges := [{ source := "start", target := "a", ty := .feeds }, { source := "a", target := last, ty := .feeds }]

def axes (items : List String) : Binding := [("axes", .array (items.map .string))]

def chainCall (aliasName : String) (kind : NodeKind) (blockedBy : List String) : NucleateCall where
  aliasName := aliasName
  formula := "work.toml"
  vars := []
  blockedBy := blockedBy
  kind := kind
  mission := none

def chainGroups (last : String) (length : Nat) : List (Node × List NucleateCall) :=
  let instances := (List.range length).map (instanceAlias "a")
  [(chainNode "start" none, [chainCall "start" .fixed []]),
    (chainNode "a" (some "$\x7bparams.axes\x7d"), instances.map fun id => chainCall id .fanout ["start"]),
    (chainNode last none, [chainCall last .fixed instances])]

theorem chain_noClash : NoClash (chain "last") (axes ["x", "y"]) := by
  unfold NoClash
  decide +kernel

end Chain

section Wiring

variable {spore : Spore} {params : Binding} {groups : List (Node × List NucleateCall)}

/-- What the list of the calls promises its reader: the aliases are distinct, a call waits on
earlier ones, and it waits once on each call of the direct predecessors of its node and on no other. -/
structure Wired (spore : Spore) (groups : List (Node × List NucleateCall)) : Prop where
  distinct : ((groups.flatMap Prod.snd).map NucleateCall.aliasName).Nodup
  earlier : ∀ front c back, groups.flatMap Prod.snd = front ++ c :: back →
    ∀ a ∈ c.blockedBy, a ∈ front.map NucleateCall.aliasName
  once : ∀ g ∈ groups, ∀ c ∈ g.2, c.blockedBy.Nodup
  direct : ∀ g ∈ groups, ∀ c ∈ g.2, ∀ g' ∈ groups, ∀ c' ∈ g'.2,
    c'.aliasName ∈ c.blockedBy ↔ Precedes spore g'.1.id g.1.id

theorem aliases_flatMap (h : Expanded spore params groups) :
    (groups.flatMap Prod.snd).map NucleateCall.aliasName = (groups.map Prod.fst).flatMap (names spore params) := by
  rw [List.map_flatMap, List.flatMap_map]
  exact List.flatMap_congr h.aliases

theorem alias_mem (h : Expanded spore params groups) {g : Node × List NucleateCall} (hg : g ∈ groups)
    {c : NucleateCall} (hc : c ∈ g.2) : c.aliasName ∈ names spore params g.1 :=
  h.aliases g hg ▸ List.mem_map_of_mem hc

theorem mem_blockers {node : Node} {a : String} :
    a ∈ (predecessors spore node.id).flatMap (namesOf spore params) ↔
      ∃ p, Precedes spore p node.id ∧ a ∈ namesOf spore params p := by
  simp only [List.mem_flatMap, mem_predecessors]

theorem earlier_of {done : List String} (hin : InOrder (Precedes spore) done (groups.map fun g => g.1.id))
    (haliases : ∀ g ∈ groups, g.2.map NucleateCall.aliasName = namesOf spore params g.1.id)
    (hwaits : ∀ g ∈ groups, ∀ c ∈ g.2, c.blockedBy = (predecessors spore g.1.id).flatMap (namesOf spore params))
    {before : List NucleateCall} (hdone : ∀ id ∈ done, namesOf spore params id ⊆ before.map NucleateCall.aliasName)
    {front back : List NucleateCall} {c : NucleateCall} (h : groups.flatMap Prod.snd = front ++ c :: back) :
    c.blockedBy ⊆ (before ++ front).map NucleateCall.aliasName := by
  induction groups generalizing done before front with
  | nil => simp at h
  | cons g rest ih =>
    rw [List.forall_mem_cons] at haliases hwaits
    rw [List.flatMap_cons] at h
    have hnext : ∀ id ∈ done ++ [g.1.id], namesOf spore params id ⊆ (before ++ g.2).map NucleateCall.aliasName := by
      intro id hid
      rw [List.map_append]
      obtain hid | hid := List.mem_append.mp hid
      · exact List.subset_append_of_subset_left _ (hdone id hid)
      · rw [List.mem_singleton.mp hid, ← haliases.1]
        exact List.subset_append_right _ _
    have hlater : ∀ {later : List NucleateCall}, rest.flatMap Prod.snd = later ++ c :: back →
        c.blockedBy ⊆ (before ++ (g.2 ++ later)).map NucleateCall.aliasName := by
      intro later hlater
      rw [← List.append_assoc]
      exact ih hin.2 haliases.2 hwaits.2 hnext hlater
    obtain ⟨later, rfl, hrest⟩ | ⟨shared, hshared, hrest⟩ := List.append_eq_append_iff.mp h
    · exact hlater hrest
    · cases shared with
      | nil =>
        rw [List.append_nil] at hshared
        have hfirst : c.blockedBy ⊆ (before ++ (g.2 ++ [])).map NucleateCall.aliasName := hlater hrest.symm
        rwa [List.append_nil, hshared] at hfirst
      | cons c' shared =>
        cases hrest
        have hc : c ∈ g.2 := hshared ▸ List.mem_append_right front List.mem_cons_self
        intro a ha
        rw [hwaits.1 c hc, mem_blockers] at ha
        obtain ⟨p, hp, hap⟩ := ha
        rw [List.map_append]
        exact List.mem_append_left _ (hdone p (hin.1 p hp) hap)

theorem wired_iff (hspore : WellFormed spore) (hnodes : (groups.map Prod.fst).Perm spore.nodes)
    (h : Expanded spore params groups) : Wired spore groups ↔ NoClash spore params := by
  have hdistinct : ((groups.flatMap Prod.snd).map NucleateCall.aliasName).Nodup ↔ NoClash spore params := by
    rw [aliases_flatMap h, (hnodes.flatMap_right (names spore params)).nodup_iff]
    exact nodup_names_iff hspore.ids
  have hmem : ∀ g ∈ groups, g.1 ∈ spore.nodes := fun g hg => hnodes.mem_iff.mp (List.mem_map_of_mem hg)
  have hnames : ∀ g ∈ groups, g.2.map NucleateCall.aliasName = namesOf spore params g.1.id :=
    fun g hg => (h.aliases g hg).trans (namesOf_node hspore (hmem g hg)).symm
  constructor
  · intro hwired
    exact hdistinct.mp hwired.distinct
  · intro hclash
    have hsame : ∀ {id id' a : String}, a ∈ namesOf spore params id → a ∈ namesOf spore params id' → id = id' := by
      intro id id' a hid hid'
      obtain ⟨n, hn, rfl, han⟩ := (mem_namesOf hspore.ids).mp hid
      obtain ⟨m, hm, rfl, ham⟩ := (mem_namesOf hspore.ids).mp hid'
      exact names_inj hclash hn hm han ham
    refine ⟨hdistinct.mpr hclash, fun front c back hsplit => ?_, fun g hg c hc => ?_, fun g hg c hc g' hg' c' hc' => ?_⟩
    · rw [← List.nil_append front]
      exact earlier_of h.ordered hnames h.waits (fun id hid => absurd hid List.not_mem_nil) hsplit
    · rw [h.waits g hg c hc, List.nodup_flatMap]
      have hpreds : (predecessors spore g.1.id).Nodup := nodup_eraseDups _
      exact ⟨fun id _ => namesOf_nodup id, hpreds.imp fun hne a ha hb => hne (hsame ha hb)⟩
    · rw [h.waits g hg c hc, mem_blockers]
      have hc'names : c'.aliasName ∈ namesOf spore params g'.1.id := hnames g' hg' ▸ List.mem_map_of_mem hc'
      constructor
      · rintro ⟨p, hp, hap⟩
        rwa [hsame hc'names hap]
      · intro hp
        exact ⟨g'.1.id, hp, hc'names⟩

theorem expand_ok (h : expandGroups spore params = .ok groups) :
    expand spore params = .ok (groups.flatMap Prod.snd) := by
  rw [expand, h]
  rfl

/-- The expansion of an accepted spore is never stuck in its graph, and its calls are wired as
promised exactly where no id of a node is the alias of an instance of a fan-out. -/
theorem expand_wired_iff {toml : String → Except String RawSpore} {text : String}
    (hspore : Spore.parse toml text = .ok spore) (params : Binding) :
    (∀ node, expand spore params ≠ .error (.edgeCycle node)) ∧
      (∀ node formula, expand spore params ≠ .error (.unknownFormula node formula)) ∧
      ∀ groups, expandGroups spore params = .ok groups →
        expand spore params = .ok (groups.flatMap Prod.snd) ∧ (groups.map Prod.fst).Perm spore.nodes ∧
          (Wired spore groups ↔ NoClash spore params) := by
  have hwell := parse_wellFormed hspore
  have herror : ∀ e, expand spore params = .error e → ofValues e = true :=
    fun e h => expandGroups_error hwell (map_error h)
  refine ⟨fun node h => ?_, fun node formula h => ?_, fun groups h => ?_⟩
  · cases herror _ h
  · cases herror _ h
  · obtain ⟨hnodes, hexpanded⟩ := expandGroups_ok hwell h
    exact ⟨expand_ok h, hnodes, wired_iff hwell hnodes hexpanded⟩

theorem expand_wired_chain : Spore.parse (fun _ => .ok (chainRaw "last")) (chainText "last") = .ok (chain "last") ∧
    expandGroups (chain "last") (axes ["x", "y"]) = .ok (chainGroups "last" 2) ∧
      Wired (chain "last") (chainGroups "last" 2) := by
  have hparse : Spore.parse (fun _ => .ok (chainRaw "last")) (chainText "last") = .ok (chain "last") := rfl
  have hgroups : expandGroups (chain "last") (axes ["x", "y"]) = .ok (chainGroups "last" 2) := rfl
  exact ⟨hparse, hgroups, ((expand_wired_iff hparse (axes ["x", "y"])).2.2 _ hgroups).2.2.mpr chain_noClash⟩

/-- The last node has the id of the first instance, and waits for itself. -/
theorem expand_clash : Spore.parse (fun _ => .ok (chainRaw "a__0")) (chainText "a__0") = .ok (chain "a__0") ∧
    expandGroups (chain "a__0") (axes ["x"]) = .ok (chainGroups "a__0" 1) ∧
      ¬ Wired (chain "a__0") (chainGroups "a__0" 1) := by
  refine ⟨rfl, rfl, fun hwired => ?_⟩
  exact absurd hwired.distinct (by decide)

end Wiring

section Gates

variable {spore : Spore} {params : Binding} {groups : List (Node × List NucleateCall)}

def Waits (calls : List NucleateCall) (c c' : NucleateCall) : Prop :=
  c ∈ calls ∧ c' ∈ calls ∧ c'.aliasName ∈ c.blockedBy

/-- Where one node reaches another, the calls of the latter wait for those of the former. -/
def GatesKept (spore : Spore) (groups : List (Node × List NucleateCall)) : Prop :=
  ∀ g ∈ groups, ∀ g' ∈ groups, Relation.TransGen (Precedes spore) g.1.id g'.1.id →
    ∀ c ∈ g.2, ∀ c' ∈ g'.2, Relation.TransGen (Waits (groups.flatMap Prod.snd)) c' c

def Blocks (spore : Spore) (params : Binding) (a : String) (node : Node) : Prop :=
  ∃ n ∈ spore.nodes, Precedes spore n.id node.id ∧ a ∈ names spore params n

/-- Some call of a node has an alias that a call of another node waits for. -/
def Gate (spore : Spore) (params : Binding) (n m : Node) : Prop :=
  n ∈ spore.nodes ∧ ∃ a ∈ names spore params n, Blocks spore params a m

/-- Back from a node with a call, every alias of an ancestor is met at some gate. -/
def Gated (spore : Spore) (params : Binding) : Prop :=
  ∀ u ∈ spore.nodes, ∀ v ∈ spore.nodes, Relation.TransGen (Precedes spore) u.id v.id →
    names spore params v ≠ [] → ∀ a ∈ names spore params u,
      ∃ m, Blocks spore params a m ∧ Relation.ReflTransGen (Gate spore params) m v

/-- Where a node reaches another and both have calls, it does so over nodes that all have calls. -/
def Bridged (spore : Spore) (params : Binding) : Prop :=
  ∀ u ∈ spore.nodes, ∀ v ∈ spore.nodes, Relation.TransGen (Precedes spore) u.id v.id →
    names spore params u ≠ [] → names spore params v ≠ [] →
      Relation.TransGen
        (fun n m => n ∈ spore.nodes ∧ names spore params n ≠ [] ∧ Precedes spore n.id m.id) u v

theorem mem_blockedBy_iff (hspore : WellFormed spore) (h : Expanded spore params groups)
    {g : Node × List NucleateCall} (hg : g ∈ groups) {c : NucleateCall} (hc : c ∈ g.2) {a : String} :
    a ∈ c.blockedBy ↔ Blocks spore params a g.1 := by
  rw [h.waits g hg c hc, mem_blockers]
  constructor
  · rintro ⟨p, hp, hap⟩
    obtain ⟨n, hn, rfl, han⟩ := (mem_namesOf hspore.ids).mp hap
    exact ⟨n, hn, hp, han⟩
  · rintro ⟨n, hn, hp, ha⟩
    exact ⟨n.id, hp, (mem_namesOf hspore.ids).mpr ⟨n, hn, rfl, ha⟩⟩

theorem waits_iff (hspore : WellFormed spore) (hnodes : (groups.map Prod.fst).Perm spore.nodes)
    (h : Expanded spore params groups) {g : Node × List NucleateCall} (hg : g ∈ groups) {c' : NucleateCall}
    (hc' : c' ∈ g.2) {c : NucleateCall} (hc : c ∈ groups.flatMap Prod.snd) :
    Relation.TransGen (Waits (groups.flatMap Prod.snd)) c' c ↔
      ∃ m, Blocks spore params c.aliasName m ∧ Relation.ReflTransGen (Gate spore params) m g.1 := by
  constructor
  · intro hwait
    induction hwait using Relation.TransGen.head_induction_on generalizing g with
    | single hstep => exact ⟨g.1, (mem_blockedBy_iff hspore h hg hc').mp hstep.2.2, .refl⟩
    | head hstep _ ih =>
      obtain ⟨-, hd, hblocked⟩ := hstep
      obtain ⟨g', hg', hd⟩ := List.mem_flatMap.mp hd
      obtain ⟨m, hm, hpath⟩ := ih hg' hd
      refine ⟨m, hm, hpath.tail ⟨hnodes.mem_iff.mp (List.mem_map_of_mem hg'), _, alias_mem h hg' hd, ?_⟩⟩
      exact (mem_blockedBy_iff hspore h hg hc').mp hblocked
  · rintro ⟨m, hm, hpath⟩
    have hin : ∀ {g d}, g ∈ groups → d ∈ g.2 → d ∈ groups.flatMap Prod.snd :=
      fun hg hd => List.mem_flatMap.mpr ⟨_, hg, hd⟩
    generalize hv : g.1 = v at hpath
    induction hpath generalizing g c' with
    | refl =>
      subst hv
      exact .single ⟨hin hg hc', hc, (mem_blockedBy_iff hspore h hg hc').mpr hm⟩
    | tail _ hgate ih =>
      obtain ⟨hn, a, ha, hblocks⟩ := hgate
      obtain ⟨g', hg', rfl⟩ := List.mem_map.mp (hnodes.mem_iff.mpr hn)
      rw [← h.aliases g' hg'] at ha
      obtain ⟨d, hd, rfl⟩ := List.mem_map.mp ha
      subst hv
      exact .head ⟨hin hg hc', hin hg' hd, (mem_blockedBy_iff hspore h hg hc').mpr hblocks⟩ (ih hg' hd rfl)

theorem gatesKept_iff (hspore : WellFormed spore) (hnodes : (groups.map Prod.fst).Perm spore.nodes)
    (h : Expanded spore params groups) : GatesKept spore groups ↔ Gated spore params := by
  constructor
  · intro hkept u hu v hv hpath hcalls a ha
    obtain ⟨g, hg, rfl⟩ := List.mem_map.mp (hnodes.mem_iff.mpr hu)
    obtain ⟨g', hg', rfl⟩ := List.mem_map.mp (hnodes.mem_iff.mpr hv)
    rw [← h.aliases g hg] at ha
    obtain ⟨c, hc, rfl⟩ := List.mem_map.mp ha
    rw [← h.aliases g' hg', Ne, List.map_eq_nil_iff] at hcalls
    obtain ⟨c', hc'⟩ := List.exists_mem_of_ne_nil _ hcalls
    have hwait := hkept g hg g' hg' hpath c hc c' hc'
    exact (waits_iff hspore hnodes h hg' hc' (List.mem_flatMap.mpr ⟨g, hg, hc⟩)).mp hwait
  · intro hgated g hg g' hg' hpath c hc c' hc'
    have hmem : ∀ g ∈ groups, g.1 ∈ spore.nodes := fun g hg => hnodes.mem_iff.mp (List.mem_map_of_mem hg)
    apply (waits_iff hspore hnodes h hg' hc' (List.mem_flatMap.mpr ⟨g, hg, hc⟩)).mpr
    exact hgated g.1 (hmem g hg) g'.1 (hmem g' hg') hpath (List.ne_nil_of_mem (alias_mem h hg' hc')) c.aliasName
      (alias_mem h hg hc)

theorem gated_iff (hclash : NoClash spore params) :
    Gated spore params ↔ Bridged spore params := by
  have hblocks : ∀ {n : Node} {a : String} {m : Node}, n ∈ spore.nodes → a ∈ names spore params n →
      (Blocks spore params a m ↔ Precedes spore n.id m.id) := by
    intro n a m hn ha
    constructor
    · rintro ⟨n', hn', hp, ha'⟩
      rwa [names_inj hclash hn hn' ha ha']
    · intro hp
      exact ⟨n, hn, hp, ha⟩
  have hgate : Gate spore params =
      fun n m => n ∈ spore.nodes ∧ names spore params n ≠ [] ∧ Precedes spore n.id m.id := by
    funext n m
    apply propext
    apply and_congr_right
    intro hn
    constructor
    · rintro ⟨a, ha, hblock⟩
      exact ⟨List.ne_nil_of_mem ha, (hblocks hn ha).mp hblock⟩
    · rintro ⟨hcalls, hp⟩
      obtain ⟨a, ha⟩ := List.exists_mem_of_ne_nil _ hcalls
      exact ⟨a, ha, (hblocks hn ha).mpr hp⟩
  unfold Gated Bridged
  rw [← hgate]
  constructor
  · intro hgated u hu v hv hpath hucalls hvcalls
    obtain ⟨a, ha⟩ := List.exists_mem_of_ne_nil _ hucalls
    obtain ⟨m, hm, hback⟩ := hgated u hu v hv hpath hvcalls a ha
    exact .head' ⟨hu, a, ha, hm⟩ hback
  · intro hbridged u hu v hv hpath hvcalls a ha
    obtain ⟨m, hstep, hback⟩ := Relation.TransGen.head'_iff.mp
      (hbridged u hu v hv hpath (List.ne_nil_of_mem ha) hvcalls)
    rw [hgate] at hstep
    exact ⟨m, (hblocks hu ha).mpr hstep.2.2, hback⟩

theorem bridged_of_calls (hspore : WellFormed spore) (hcalls : ∀ node ∈ spore.nodes, names spore params node ≠ []) :
    Bridged spore params := by
  rintro u hu v hv hpath - -
  generalize hid : v.id = id at hpath
  induction hpath generalizing v with
  | single hstep =>
    subst hid
    exact .single ⟨hu, hcalls u hu, hstep⟩
  | tail _ hstep ih =>
    obtain ⟨e, he, rfl, htarget⟩ := hstep
    obtain ⟨n, hn, hnid⟩ := List.mem_map.mp (hspore.endpoints e he).1
    subst hid
    exact (ih n hn hnid).tail ⟨hn, hcalls n hn, e, he, hnid.symm, htarget⟩

/-- The declared gates survive the expansion exactly where no fan-out over an empty list stands
between two nodes with calls without another way around it. -/
theorem expand_gates_iff {toml : String → Except String RawSpore} {text : String}
    (hspore : Spore.parse toml text = .ok spore) (hgroups : expandGroups spore params = .ok groups) :
    expand spore params = .ok (groups.flatMap Prod.snd) ∧ (groups.map Prod.fst).Perm spore.nodes ∧
      (GatesKept spore groups ↔ Gated spore params) ∧
      (NoClash spore params → (GatesKept spore groups ↔ Bridged spore params)) := by
  have hwell := parse_wellFormed hspore
  obtain ⟨hnodes, hexpanded⟩ := expandGroups_ok hwell hgroups
  have hkept := gatesKept_iff hwell hnodes hexpanded
  exact ⟨expand_ok hgroups, hnodes, hkept, fun hclash => hkept.trans (gated_iff hclash)⟩

theorem expand_gates_chain :
    Spore.parse (fun _ => .ok (chainRaw "last")) (chainText "last") = .ok (chain "last") ∧
      expandGroups (chain "last") (axes ["x", "y"]) = .ok (chainGroups "last" 2) ∧
        GatesKept (chain "last") (chainGroups "last" 2) := by
  have hparse : Spore.parse (fun _ => .ok (chainRaw "last")) (chainText "last") = .ok (chain "last") := rfl
  have hgroups : expandGroups (chain "last") (axes ["x", "y"]) = .ok (chainGroups "last" 2) := rfl
  refine ⟨hparse, hgroups, ((expand_gates_iff hparse hgroups).2.2.2 chain_noClash).mpr ?_⟩
  exact bridged_of_calls (parse_wellFormed hparse) (by decide +kernel)

/-- The fan-out has no call, and the last node waits for nothing. -/
theorem expand_gate_lost :
    Spore.parse (fun _ => .ok (chainRaw "last")) (chainText "last") = .ok (chain "last") ∧
      expandGroups (chain "last") (axes []) = .ok (chainGroups "last" 0) ∧
        ¬ GatesKept (chain "last") (chainGroups "last" 0) := by
  refine ⟨rfl, rfl, fun hkept => ?_⟩
  have hstart : Precedes (chain "last") "start" "a" := ⟨_, List.mem_cons_self, rfl, rfl⟩
  have hlast : Precedes (chain "last") "a" "last" := ⟨_, List.mem_cons_of_mem _ List.mem_cons_self, rfl, rfl⟩
  have hwait := hkept (chainNode "start" none, [chainCall "start" .fixed []]) (by decide)
    (chainNode "last" none, [chainCall "last" .fixed []]) (by decide) (.head hstart (.single hlast))
    _ List.mem_cons_self _ List.mem_cons_self
  obtain ⟨c, ⟨-, -, hblocked⟩, -⟩ := Relation.TransGen.head'_iff.mp hwait
  cases hblocked

end Gates

end Cosmon.Core.SporeGates
