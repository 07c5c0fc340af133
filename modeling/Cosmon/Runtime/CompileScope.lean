import Cosmon.Runtime.CompilePlan

namespace Cosmon.Runtime.CompileScope

open Relation
open Cosmon.Lib.BreadthFirst Cosmon.Lib.Enumerate Cosmon.Graph.Toposort Cosmon.Graph.PlanReducer
open Cosmon.State.Molecule Cosmon.Runtime.CompilePlan

variable (molecules : List MoleculeData)

def linksOf (id : MoleculeId) : List MoleculeLink := ((byId molecules id).map MoleculeData.typedLinks).getD []

def Stored (id : MoleculeId) : Prop := ∃ m, byId molecules id = some m

/-- One of the two molecules records that the first blocks the second. -/
def Blocking (a b : MoleculeId) : Prop :=
  .blocks b ∈ linksOf molecules a ∨ .blockedBy a ∈ linksOf molecules b

def Decays (a b : MoleculeId) : Prop := .decayProduct b ∈ linksOf molecules a

/-- The first molecule records a link through which the second is found. -/
def Follows (a b : MoleculeId) : Prop :=
  .blockedBy b ∈ linksOf molecules a ∨ .blocks b ∈ linksOf molecules a ∨ .decayProduct b ∈ linksOf molecules a

def scope (roots : List MoleculeId) : List MoleculeId :=
  match walk (storeOf molecules) (reach (storeOf molecules) roots).card (Walk.start roots) with
  | .ok w => w.loaded.map Prod.fst
  | .error _ => []

def found (id : MoleculeId) : List MoleculeId := ((byId molecules id).map neighbours).getD []

def record (id : MoleculeId) : Option (MoleculeId × List MoleculeLink) :=
  (byId molecules id).map fun m => (id, m.typedLinks)

theorem mem_neighbours {m : MoleculeData} {b : MoleculeId} : b ∈ neighbours m ↔
    .blockedBy b ∈ m.typedLinks ∨ .blocks b ∈ m.typedLinks ∨ .decayProduct b ∈ m.typedLinks := by
  simp only [neighbours, List.mem_append, MoleculeData.blockedBy, MoleculeData.blocks,
    MoleculeData.decayProducts, or_assoc]
  rw [mem_filterMap_links .blockedBy, mem_filterMap_links .blocks,
    mem_filterMap_links .decayProduct]
  all_goals
    intro l b
    cases l <;> simp [MoleculeLink.blockedBySource, MoleculeLink.blocksTarget, MoleculeLink.decayProductId]

theorem mem_found {a b : MoleculeId} : b ∈ found molecules a ↔ Follows molecules a b := by
  cases h : byId molecules a with
  | none => simp [found, Follows, linksOf, h]
  | some m => simp [found, Follows, linksOf, h, mem_neighbours]

/-- The walk of a list of molecules loads what a breadth-first search pops, as far as it is stored. -/
theorem walk_search (fuel : Nat) (w : Walk) : ∃ w', walk (storeOf molecules) fuel w = .ok w' ∧
    w'.loaded = w.loaded ++ (search (found molecules) fuel ⟨w.visited, w.queue⟩).filterMap (record molecules) := by
  induction fuel generalizing w with
  | zero => exact ⟨w, rfl, (List.append_nil _).symm⟩
  | succ fuel ih =>
    cases hq : w.queue with
    | nil => exact ⟨w, by simp only [walk, hq], by simp [search]⟩
    | cons id rest =>
      cases hm : byId molecules id with
      | none =>
        obtain ⟨w', hwalk, hloaded⟩ := ih { w with queue := rest }
        refine ⟨w', ?_, ?_⟩
        · simp only [walk, hq, storeOf, hm]
          exact hwalk
        · rw [hloaded]
          simp [search, found, record, hm, Search.discover]
      | some m =>
        obtain ⟨w', hwalk, hloaded⟩ := ih ((neighbours m).foldl Walk.visit
          { w with queue := rest, loaded := w.loaded ++ [(id, m.typedLinks)] })
        refine ⟨w', ?_, ?_⟩
        · simp only [walk, hq, storeOf, hm]
          exact hwalk
        · rw [hloaded, visits_discover]
          simp [search, found, record, hm]

theorem lookup_records (ids : List MoleculeId) (id : MoleculeId) :
    (ids.filterMap (record molecules)).lookup id =
      if id ∈ ids then (byId molecules id).map MoleculeData.typedLinks else none := by
  induction ids with
  | nil => rfl
  | cons a ids ih =>
    by_cases h : id = a
    · subst h
      cases hm : byId molecules id with
      | none => simp [record, hm, ih]
      | some m => simp [record, hm]
    · have hbeq : (id == a) = false := beq_false_of_ne h
      cases hm : byId molecules a with
      | none => simp [record, hm, ih, h]
      | some m => simp [record, hm, ih, h, List.lookup_cons, hbeq]

theorem compiled_walk (roots : List MoleculeId) : ∃ (w : Walk) (ids : List MoleculeId),
    walk (storeOf molecules) (reach (storeOf molecules) roots).card (Walk.start roots) = .ok w ∧
      w.loaded = ids.filterMap (record molecules) ∧
      ∀ id, id ∈ ids ↔ ∃ root ∈ roots, ReflTransGen (Follows molecules) root id := by
  obtain ⟨w, hwalk, hloaded⟩ :=
    walk_search molecules (reach (storeOf molecules) roots).card (Walk.start roots)
  have hstart : Walk.start roots = ⟨(Search.discover ⟨∅, []⟩ roots).visited,
      (Search.discover ⟨∅, []⟩ roots).queue, []⟩ := visits_discover roots ⟨∅, [], []⟩
  have hclosed : ∀ a ∈ reach (storeOf molecules) roots, ∀ b ∈ found molecules a,
      b ∈ reach (storeOf molecules) roots := by
    intro a _ b hb
    cases hm : byId molecules a with
    | none => simp [found, hm] at hb
    | some m =>
      have hload : (storeOf molecules).loadMolecule a = .ok m := by simp only [storeOf, hm]
      exact neighbours_reach roots hload b (by simpa [found, hm] using hb)
  have hroots : ∀ a ∈ roots, a ∈ reach (storeOf molecules) roots :=
    fun a ha => Finset.mem_union_left _ (List.mem_toFinset.mpr ha)
  have hstep : Follows molecules = fun a b => b ∈ found molecules a := by
    funext a b
    exact propext (mem_found molecules).symm
  rw [hstart, List.nil_append] at hloaded
  refine ⟨w, _, hwalk, hloaded, ?_⟩
  rw [hstep]
  exact (search_seeds hclosed hroots le_rfl).2

theorem mem_scope {roots : List MoleculeId} {id : MoleculeId} : id ∈ scope molecules roots ↔
    Stored molecules id ∧ ∃ root ∈ roots, ReflTransGen (Follows molecules) root id := by
  obtain ⟨w, ids, hwalk, hloaded, hids⟩ := compiled_walk molecules roots
  simp only [scope, hwalk, hloaded, ← hids, List.mem_map, List.mem_filterMap]
  constructor
  · rintro ⟨⟨_, links⟩, ⟨a, ha, hrecord⟩, rfl⟩
    obtain ⟨m, hm, heq⟩ := Option.map_eq_some_iff.mp hrecord
    cases heq
    exact ⟨⟨m, hm⟩, ha⟩
  · rintro ⟨⟨m, hm⟩, hid⟩
    exact ⟨(id, m.typedLinks), ⟨id, hid, by rw [record, hm, Option.map_some]⟩, rfl⟩

theorem lookup_loaded {roots : List MoleculeId} {w : Walk}
    (h : walk (storeOf molecules) (reach (storeOf molecules) roots).card (Walk.start roots) = .ok w)
    (id : MoleculeId) : w.loaded.lookup id =
      if id ∈ scope molecules roots then some (linksOf molecules id) else none := by
  obtain ⟨w', ids, hwalk, hloaded, hids⟩ := compiled_walk molecules roots
  cases h.symm.trans hwalk
  rw [hloaded, lookup_records]
  cases hm : byId molecules id with
  | none =>
    have hout : id ∉ scope molecules roots := by
      rw [mem_scope]
      rintro ⟨⟨m, hm'⟩, -⟩
      rw [hm] at hm'
      cases hm'
    simp [hout]
  | some m =>
    have hin : id ∈ scope molecules roots ↔ id ∈ ids := by
      rw [mem_scope, hids]
      exact and_iff_right ⟨m, hm⟩
    simp [hin, linksOf, hm]

section Edges

variable {molecules} {loaded : List (MoleculeId × List MoleculeLink)} {s : List MoleculeId}
  (hloaded : ∀ id, loaded.lookup id = if id ∈ s then some (linksOf molecules id) else none)

include hloaded

theorem linkEdge_eq {id a b : MoleculeId} {link : MoleculeLink} :
    linkEdge loaded id link = some (a, b) ↔
      (link = .blockedBy a ∧ id = b ∧ a ∈ s) ∨
      (link = .blocks b ∧ id = a ∧ b ∈ s ∧ .blockedBy a ∉ linksOf molecules b) ∨
      (link = .decayProduct b ∧ id = a ∧ b ∈ s) := by
  cases link with
  | blockedBy source =>
    by_cases hs : source ∈ s
    · simp only [linkEdge, hloaded, hs, if_true, Option.isSome_some, Option.some.injEq, Prod.mk.injEq,
        MoleculeLink.blockedBy.injEq, reduceCtorEq, false_and, or_false]
      constructor
      · rintro ⟨rfl, rfl⟩
        exact ⟨rfl, rfl, hs⟩
      · rintro ⟨rfl, rfl, -⟩
        exact ⟨rfl, rfl⟩
    · simp only [linkEdge, hloaded, hs, if_false, Option.isSome_none, Bool.false_eq_true, reduceCtorEq,
        MoleculeLink.blockedBy.injEq, false_and, or_false, false_iff]
      rintro ⟨rfl, -, h⟩
      exact hs h
  | blocks target =>
    by_cases hs : target ∈ s
    · by_cases hback : .blockedBy id ∈ linksOf molecules target
      · simp only [linkEdge, hloaded, hs, if_true, hback, reduceCtorEq, MoleculeLink.blocks.injEq, false_and,
          false_or, or_false, false_iff]
        rintro ⟨rfl, rfl, -, hno⟩
        exact hno hback
      · simp only [linkEdge, hloaded, hs, if_true, hback, if_false, Option.some.injEq, Prod.mk.injEq,
          MoleculeLink.blocks.injEq, reduceCtorEq, false_and, false_or, or_false]
        constructor
        · rintro ⟨rfl, rfl⟩
          exact ⟨rfl, rfl, hs, hback⟩
        · rintro ⟨rfl, rfl, -, -⟩
          exact ⟨rfl, rfl⟩
    · simp only [linkEdge, hloaded, hs, if_false, reduceCtorEq, MoleculeLink.blocks.injEq, false_and, false_or,
        or_false, false_iff]
      rintro ⟨rfl, -, h, -⟩
      exact hs h
  | decayProduct child =>
    by_cases hs : child ∈ s
    · simp only [linkEdge, hloaded, hs, if_true, Option.isSome_some, Option.some.injEq, Prod.mk.injEq,
        MoleculeLink.decayProduct.injEq, reduceCtorEq, false_and, false_or]
      constructor
      · rintro ⟨rfl, rfl⟩
        exact ⟨rfl, rfl, hs⟩
      · rintro ⟨rfl, rfl, -⟩
        exact ⟨rfl, rfl⟩
    · simp only [linkEdge, hloaded, hs, if_false, Option.isSome_none, Bool.false_eq_true, reduceCtorEq,
        MoleculeLink.decayProduct.injEq, false_and, false_or, false_iff]
      rintro ⟨rfl, -, h⟩
      exact hs h
  | _ => simp [linkEdge]

theorem mem_edgesOf (hkeys : ∀ id, id ∈ loaded.map Prod.fst ↔ id ∈ s) {a b : MoleculeId} :
    (a, b) ∈ edgesOf loaded ↔ a ∈ s ∧ b ∈ s ∧ (Blocking molecules a b ∨ Decays molecules a b) := by
  have hmem : (a, b) ∈ edgesOf loaded ↔
      ∃ id ∈ s, ∃ link ∈ linksOf molecules id, linkEdge loaded id link = some (a, b) := by
    simp only [edgesOf, List.mem_flatMap, mem_enumerate, List.mem_toFinset, hkeys, List.mem_filterMap]
    apply exists_congr
    intro id
    apply and_congr_right
    intro hid
    rw [hloaded, if_pos hid, Option.getD_some]
  rw [hmem]
  constructor
  · rintro ⟨id, hid, link, hlink, hedge⟩
    rcases (linkEdge_eq hloaded).mp hedge with ⟨rfl, rfl, ha⟩ | ⟨rfl, rfl, hb, -⟩ | ⟨rfl, rfl, hb⟩
    · exact ⟨ha, hid, .inl (.inr hlink)⟩
    · exact ⟨hid, hb, .inl (.inl hlink)⟩
    · exact ⟨hid, hb, .inr hlink⟩
  · rintro ⟨ha, hb, (hblocks | hblocked) | hdecays⟩
    · by_cases hback : .blockedBy a ∈ linksOf molecules b
      · exact ⟨b, hb, _, hback, (linkEdge_eq hloaded).mpr (.inl ⟨rfl, rfl, ha⟩)⟩
      · exact ⟨a, ha, _, hblocks, (linkEdge_eq hloaded).mpr (.inr (.inl ⟨rfl, rfl, hb, hback⟩))⟩
    · exact ⟨b, hb, _, hblocked, (linkEdge_eq hloaded).mpr (.inl ⟨rfl, rfl, ha⟩)⟩
    · exact ⟨a, ha, _, hdecays, (linkEdge_eq hloaded).mpr (.inr (.inr ⟨rfl, rfl, hb⟩))⟩

end Edges

theorem compilePlan_edges (roots : List MoleculeId) : ∃ edges : List MoleculeEdge,
    (∀ a b, (a, b) ∈ edges ↔ a ∈ scope molecules roots ∧ b ∈ scope molecules roots ∧
      (Blocking molecules a b ∨ Decays molecules a b)) ∧
    compilePlan (storeOf molecules) roots =
      match Plan.newWithRoots edges ∅ (roots.toFinset.filter fun root => root ∈ scope molecules roots) with
      | .ok plan => .ok (plan, edges)
      | .error e => .error (.stateStore ("dependency cycle in compiled DAG at molecule " ++ e.node)) := by
  obtain ⟨w, ids, hwalk, -, -⟩ := compiled_walk molecules roots
  have hloaded := lookup_loaded molecules hwalk
  have hkeys : ∀ id, id ∈ w.loaded.map Prod.fst ↔ id ∈ scope molecules roots := by
    intro id
    rw [scope, hwalk]
  refine ⟨edgesOf w.loaded, fun a b => mem_edgesOf hloaded hkeys, ?_⟩
  have hroots : (roots.toFinset.filter fun root => (w.loaded.lookup root).isSome) =
      roots.toFinset.filter fun root => root ∈ scope molecules roots := by
    apply Finset.filter_congr
    intro root _
    rw [hloaded]
    by_cases hr : root ∈ scope molecules roots <;> simp [hr]
  simp only [compilePlan, hwalk, hroots]
  all_goals rfl

theorem compilePlan_ok {roots : List MoleculeId} {plan : Plan MoleculeId} {edges : List MoleculeEdge}
    (h : compilePlan (storeOf molecules) roots = .ok (plan, edges)) :
    (∀ a b, (a, b) ∈ edges ↔ a ∈ scope molecules roots ∧ b ∈ scope molecules roots ∧
      (Blocking molecules a b ∨ Decays molecules a b)) ∧
    Plan.newWithRoots edges ∅ (roots.toFinset.filter fun root => root ∈ scope molecules roots) = .ok plan := by
  obtain ⟨es, hmem, heq⟩ := compilePlan_edges molecules roots
  rw [h] at heq
  split at heq
  · next hplan =>
    cases heq
    exact ⟨hmem, hplan⟩
  · cases heq

/-- The plan depends on the scope and on the relation among its molecules only: not on the
endpoint that a link is recorded on. -/
theorem compilePlan_congr {molecules' : List MoleculeData} {roots : List MoleculeId}
    (hscope : ∀ id, id ∈ scope molecules' roots ↔ id ∈ scope molecules roots)
    (hsame : ∀ a ∈ scope molecules roots, ∀ b ∈ scope molecules roots,
      (Blocking molecules' a b ∨ Decays molecules' a b ↔ Blocking molecules a b ∨ Decays molecules a b))
    {plan : Plan MoleculeId} {edges : List MoleculeEdge}
    (h : compilePlan (storeOf molecules) roots = .ok (plan, edges)) :
    ∃ plan' edges', compilePlan (storeOf molecules') roots = .ok (plan', edges') ∧
      plan'.ready = plan.ready ∧ ∀ e, e ∈ edges' ↔ e ∈ edges := by
  obtain ⟨hmem, hplan⟩ := compilePlan_ok molecules h
  obtain ⟨es', hmem', heq'⟩ := compilePlan_edges molecules' roots
  have hedges : ∀ e, e ∈ es' ↔ e ∈ edges := by
    rintro ⟨a, b⟩
    rw [hmem, hmem', hscope, hscope]
    constructor
    · rintro ⟨ha, hb, hr⟩
      exact ⟨ha, hb, (hsame a ha b hb).mp hr⟩
    · rintro ⟨ha, hb, hr⟩
      exact ⟨ha, hb, (hsame a ha b hb).mpr hr⟩
  have hroots : (roots.toFinset.filter fun root => root ∈ scope molecules' roots) =
      roots.toFinset.filter fun root => root ∈ scope molecules roots :=
    Finset.filter_congr fun root _ => hscope root
  rw [hroots] at heq'
  generalize (roots.toFinset.filter fun root => root ∈ scope molecules roots) = standalone at hplan heq'
  obtain ⟨hacyclic, -, -, -, -, hready⟩ := newWithRoots_eq hplan
  have hacyclic' : Acyclic es' := by
    obtain ⟨rank, hrank⟩ := hacyclic
    exact ⟨rank, fun e he => hrank e ((hedges e).mp he)⟩
  obtain ⟨plan', hplan'⟩ := newWithRoots_total hacyclic' ∅ standalone
  obtain ⟨-, -, -, -, -, hready'⟩ := newWithRoots_eq hplan'
  refine ⟨plan', es', by simp only [heq', hplan'], ?_, hedges⟩
  ext n
  rw [hready, hready']
  simp only [nodeUniverse, Finset.mem_union, mem_nodes, hedges]

theorem byId_perm {molecules' : List MoleculeData} (hperm : molecules.Perm molecules')
    (hnodup : (molecules.map MoleculeData.id).Nodup) (id : MoleculeId) :
    byId molecules' id = byId molecules id := by
  have hnodup' : (molecules'.map MoleculeData.id).Nodup := (hperm.map _).nodup_iff.mp hnodup
  cases h : byId molecules id with
  | some m =>
    obtain ⟨hm, rfl⟩ := byId_some h
    exact byId_of_nodup hnodup' (hperm.mem_iff.mp hm)
  | none =>
    cases h' : byId molecules' id with
    | none => rfl
    | some m =>
      obtain ⟨hm, rfl⟩ := byId_some h'
      obtain ⟨m', hm'⟩ := byId_mem (hperm.mem_iff.mpr hm)
      rw [h] at hm'
      cases hm'

theorem compilePlan_perm {molecules' : List MoleculeData} (hperm : molecules.Perm molecules')
    (hnodup : (molecules.map MoleculeData.id).Nodup) (roots : List MoleculeId) :
    compilePlan (storeOf molecules') roots = compilePlan (storeOf molecules) roots := by
  have hload : (storeOf molecules').loadMolecule = (storeOf molecules).loadMolecule := by
    funext id
    simp only [storeOf, byId_perm molecules hperm hnodup]
  have hstored : (storeOf molecules').stored = (storeOf molecules).stored := by
    ext id
    simp only [storeOf, List.mem_toFinset, List.mem_map, hperm.mem_iff]
  have hwalk : ∀ fuel w, walk (storeOf molecules') fuel w = walk (storeOf molecules) fuel w := by
    intro fuel
    induction fuel with
    | zero => exact fun w => rfl
    | succ fuel ih =>
      intro w
      simp only [walk, hload, ih]
  simp only [compilePlan, reach, hload, hstored, hwalk]

/-- What a compilation loads, what it takes for edges, and what makes no difference to it. The
molecules are found along recorded links: from a molecule to what it says it is blocked by,
blocks, or has decayed into. -/
theorem compilePlan_scope (roots : List MoleculeId) :
    (∀ id, id ∈ scope molecules roots ↔
      Stored molecules id ∧ ∃ root ∈ roots, ReflTransGen (Follows molecules) root id) ∧
    (∀ plan edges, compilePlan (storeOf molecules) roots = .ok (plan, edges) → ∀ a b,
      (a, b) ∈ edges ↔ a ∈ scope molecules roots ∧ b ∈ scope molecules roots ∧
        (Blocking molecules a b ∨ Decays molecules a b)) ∧
    (∀ molecules', molecules.Perm molecules' → (molecules.map MoleculeData.id).Nodup →
      compilePlan (storeOf molecules') roots = compilePlan (storeOf molecules) roots) ∧
    (∀ molecules', (∀ id, id ∈ scope molecules' roots ↔ id ∈ scope molecules roots) →
      (∀ a ∈ scope molecules roots, ∀ b ∈ scope molecules roots,
        (Blocking molecules' a b ∨ Decays molecules' a b ↔ Blocking molecules a b ∨ Decays molecules a b)) →
      ∀ plan edges, compilePlan (storeOf molecules) roots = .ok (plan, edges) →
        ∃ plan' edges', compilePlan (storeOf molecules') roots = .ok (plan', edges') ∧
          plan'.ready = plan.ready ∧ ∀ e, e ∈ edges' ↔ e ∈ edges) ∧
    ((∀ a b, Stored molecules a → Stored molecules b → Blocking molecules a b →
        .blocks b ∈ linksOf molecules a ∧ .blockedBy a ∈ linksOf molecules b) →
      ∀ a ∈ scope molecules roots, ∀ b, Stored molecules b →
        Blocking molecules a b ∨ Blocking molecules b a → b ∈ scope molecules roots) := by
  refine ⟨fun id => mem_scope molecules, fun _ _ h => (compilePlan_ok molecules h).1,
    fun _ hperm hnodup => compilePlan_perm molecules hperm hnodup roots,
    fun _ hscope hsame _ _ h => compilePlan_congr molecules hscope hsame h, ?_⟩
  · intro hboth a ha b hb hblocking
    obtain ⟨hstored, root, hroot, hreach⟩ := (mem_scope molecules).mp ha
    refine (mem_scope molecules).mpr ⟨hb, root, hroot, hreach.tail ?_⟩
    rcases hblocking with h | h
    · exact .inr (.inl (hboth a b hstored hb h).1)
    · exact .inl (hboth b a hb hstored h).2

def oneSided : List MoleculeData := [{ id := "a" }, { id := "b", typedLinks := [.blockedBy "a"] }]

def twoSided : List MoleculeData :=
  [{ id := "a", typedLinks := [.blocks "b"] }, { id := "b", typedLinks := [.blockedBy "a"] }]

def decayed : List MoleculeData :=
  [{ id := "a", typedLinks := [.decayProduct "b"] }, { id := "b", typedLinks := [.decayedFrom "a"] }]

/-- A dependent that only its own record names is not found from what it waits for, a parent
not from its decay product; and a decay is an edge like a blocking link. -/
theorem compilePlan_oneSided :
    (Blocking oneSided "a" "b" ∧ scope oneSided ["a"] = ["a"] ∧ scope twoSided ["a"] = ["a", "b"] ∧
      (compilePlan (storeOf oneSided) ["a"]).map Prod.snd = .ok [] ∧
      (compilePlan (storeOf twoSided) ["a"]).map Prod.snd = .ok [("a", "b")]) ∧
    Decays decayed "a" "b" ∧ scope decayed ["b"] = ["b"] ∧ ¬Blocking decayed "a" "b" ∧
      (compilePlan (storeOf decayed) ["a"]).map Prod.snd = .ok [("a", "b")] := by
  unfold Blocking Decays
  decide +kernel

end Cosmon.Runtime.CompileScope
