import Cosmon.Lib.Runs
import Cosmon.State.InteractionFrames

namespace Cosmon.State.InteractionLinks

open Cosmon.Lib.Effects.Effect Cosmon.Lib.Runs Cosmon.State.Molecule Cosmon.State.Interactions
  Cosmon.State.InteractionFrames

open Cosmon.Core.Nucleation (NucleateResult nucleate_ok)

abbrev LinkSet := Set (MoleculeId × MoleculeLink)

def Carried (store : Store) : LinkSet := {e | ∃ m, store e.1 = some (.ok m) ∧ e.2 ∈ m.typedLinks}

structure Symmetric (links : LinkSet) : Prop where
  blocks : ∀ a b, (a, .blocks b) ∈ links ↔ (b, .blockedBy a) ∈ links
  decay : ∀ a b, (a, .decayProduct b) ∈ links ↔ (b, .decayedFrom a) ∈ links
  merge : ∀ a b, (a, .mergedInto b) ∈ links ↔ ∃ ids, (b, .mergedFrom ids) ∈ links ∧ a ∈ ids

theorem Symmetric.union {links more : LinkSet} (h : Symmetric links) (h' : Symmetric more) :
    Symmetric (links ∪ more) where
  blocks a b := or_congr (h.blocks a b) (h'.blocks a b)
  decay a b := or_congr (h.decay a b) (h'.decay a b)
  merge a b := by
    rw [Set.mem_union, h.merge, h'.merge]
    simp only [Set.mem_union, or_and_right, exists_or]

section Edges

inductive RelationKind where
  | blocks
  | refines
  | refutes
  | decayProduct
  | mergedFrom
deriving DecidableEq

/-- The edges that a link states of the molecule that carries it, from the dependency to
the dependent. -/
def canonicalEdges (self : MoleculeId) : MoleculeLink → List (RelationKind × MoleculeId × MoleculeId)
  | .blocks target => [(.blocks, self, target)]
  | .blockedBy source => [(.blocks, source, self)]
  | .decayProduct id => [(.decayProduct, self, id)]
  | .decayedFrom id => [(.decayProduct, id, self)]
  | .mergedFrom ids => ids.map fun source => (.mergedFrom, source, self)
  | .mergedInto id => [(.mergedFrom, self, id)]
  | .refines target => [(.refines, self, target)]
  | .refinedBy source => [(.refines, source, self)]
  | .refutes target => [(.refutes, self, target)]
  | .refutedBy source => [(.refutes, source, self)]
  | .transformedFrom _ | .entangled _ | .crossGalaxyBlocks _ | .crossGalaxyBlockedBy _ => []

def States (links : LinkSet) (id : MoleculeId) (edge : RelationKind × MoleculeId × MoleculeId) : Prop :=
  ∃ link, (id, link) ∈ links ∧ edge ∈ canonicalEdges id link

theorem Symmetric.both_ends {links : LinkSet} (h : Symmetric links) {id : MoleculeId}
    {edge : RelationKind × MoleculeId × MoleculeId} (hstates : States links id edge)
    (hkind : edge.1 ≠ .refines ∧ edge.1 ≠ .refutes) :
    States links edge.2.1 edge ∧ States links edge.2.2 edge := by
  obtain ⟨link, hlink, hedge⟩ := hstates
  cases link with
  | blocks target =>
    cases List.mem_singleton.mp hedge
    exact ⟨⟨_, hlink, hedge⟩, ⟨_, (h.blocks _ _).mp hlink, List.mem_singleton_self _⟩⟩
  | blockedBy source =>
    cases List.mem_singleton.mp hedge
    exact ⟨⟨_, (h.blocks _ _).mpr hlink, List.mem_singleton_self _⟩, ⟨_, hlink, hedge⟩⟩
  | decayProduct product =>
    cases List.mem_singleton.mp hedge
    exact ⟨⟨_, hlink, hedge⟩, ⟨_, (h.decay _ _).mp hlink, List.mem_singleton_self _⟩⟩
  | decayedFrom source =>
    cases List.mem_singleton.mp hedge
    exact ⟨⟨_, (h.decay _ _).mpr hlink, List.mem_singleton_self _⟩, ⟨_, hlink, hedge⟩⟩
  | mergedFrom ids =>
    obtain ⟨source, hsource, rfl⟩ := List.mem_map.mp hedge
    exact ⟨⟨_, (h.merge _ _).mpr ⟨ids, hlink, hsource⟩, List.mem_singleton_self _⟩, ⟨_, hlink, hedge⟩⟩
  | mergedInto product =>
    cases List.mem_singleton.mp hedge
    obtain ⟨ids, hids, hmem⟩ := (h.merge _ _).mp hlink
    exact ⟨⟨_, hlink, hedge⟩, ⟨_, hids, List.mem_map.mpr ⟨_, hmem, rfl⟩⟩⟩
  | refines _ | refinedBy _ =>
    cases List.mem_singleton.mp hedge
    exact absurd rfl hkind.1
  | refutes _ | refutedBy _ =>
    cases List.mem_singleton.mp hedge
    exact absurd rfl hkind.2
  | transformedFrom _ | entangled _ | crossGalaxyBlocks _ | crossGalaxyBlockedBy _ => cases hedge

end Edges

section Writes

variable {w w' : World} {id : MoleculeId} {data : StoredMolecule}

theorem carried_put (w : World) (id : MoleculeId) (data : StoredMolecule) (more : LinkSet)
    (hself : ∀ e ∈ more, e.1 = id)
    (hlinks : ∀ l, l ∈ data.typedLinks ↔ (id, l) ∈ Carried w.store ∨ (id, l) ∈ more) :
    Carried (w.put id data).store = Carried w.store ∪ more := by
  ext ⟨other, l⟩
  by_cases hother : other = id
  · subst hother
    rw [Set.mem_union, ← hlinks]
    constructor
    · rintro ⟨m, hm, hl⟩
      cases (Function.update_self _ _ _).symm.trans hm
      exact hl
    · intro hl
      exact ⟨data, Function.update_self _ _ _, hl⟩
  · have hsame : (w.put id data).store other = w.store other := Function.update_of_ne hother _ _
    constructor
    · rintro ⟨m, hm, hl⟩
      exact Or.inl ⟨m, hsame.symm.trans hm, hl⟩
    · rintro (⟨m, hm, hl⟩ | hmore)
      · exact ⟨m, hsame.trans hm, hl⟩
      · exact absurd (hself _ hmore) hother

theorem mem_carried (h : w.store id = some (.ok data)) (l : MoleculeLink) :
    (id, l) ∈ Carried w.store ↔ l ∈ data.typedLinks := by
  constructor
  · rintro ⟨m, hm, hl⟩
    cases h.symm.trans hm
    exact hl
  · intro hl
    exact ⟨data, h, hl⟩

theorem not_mem_carried (h : w.store id = none) (l : MoleculeLink) : (id, l) ∉ Carried w.store := by
  rintro ⟨m, hm, _⟩
  cases h.symm.trans hm

theorem carried_links {links : List MoleculeLink} {next : StoredMolecule}
    (h : w.store id = some (.ok data)) (hnext : next.typedLinks = data.typedLinks ++ links) :
    Carried (w.put id next).store = Carried w.store ∪ {e | ∃ l ∈ links, e = (id, l)} := by
  apply carried_put
  · rintro e ⟨l, _, rfl⟩
    rfl
  · intro l
    rw [hnext, mem_carried h, List.mem_append]
    simp only [Set.mem_ofPred_eq, Prod.mk.injEq, true_and, exists_eq_right']

theorem carried_link {link : MoleculeLink} {next : StoredMolecule} (h : w.store id = some (.ok data))
    (hnext : next.typedLinks = data.typedLinks ++ [link]) :
    Carried (w.put id next).store = Carried w.store ∪ {(id, link)} := by
  rw [carried_links h hnext]
  simp only [List.mem_singleton, exists_eq_left, Set.ofPred_eq_eq_singleton]

theorem carried_same {next : StoredMolecule} (h : w.store id = some (.ok data))
    (hnext : next.typedLinks = data.typedLinks) : Carried (w.put id next).store = Carried w.store := by
  rw [carried_links h (hnext.trans (List.append_nil _).symm)]
  simp only [List.not_mem_nil, false_and, exists_false, Set.ofPred_false, Set.union_empty]

theorem wire_ok {upstream downstream : MoleculeId} (h : wire upstream downstream w = (.ok (), w')) :
    Carried w'.store = Carried w.store ∪
      {(upstream, .blocks downstream), (downstream, .blockedBy upstream)} := by
  obtain ⟨⟨⟩, w₁, hup, hdown⟩ := bind_ok.mp h
  obtain ⟨u, hu, rfl⟩ := change_ok hup
  obtain ⟨d, hd, rfl⟩ := change_ok hdown
  rw [carried_link hd rfl, carried_link hu rfl, Set.union_assoc]
  rfl

end Writes

def blocking (edges : Set (MoleculeId × MoleculeId)) : LinkSet :=
  {e | ∃ edge ∈ edges, e = (edge.1, .blocks edge.2) ∨ e = (edge.2, .blockedBy edge.1)}

theorem blocking_symmetric (edges : Set (MoleculeId × MoleculeId)) : Symmetric (blocking edges) where
  blocks a b := by
    constructor
    · rintro ⟨edge, hmem, h | h⟩
      · cases h
        exact ⟨edge, hmem, Or.inr rfl⟩
      · cases h
    · rintro ⟨edge, hmem, h | h⟩
      · cases h
      · cases h
        exact ⟨edge, hmem, Or.inl rfl⟩
  decay a b := by
    constructor <;> (rintro ⟨edge, _, h | h⟩ <;> cases h)
  merge a b := by
    constructor
    · rintro ⟨edge, _, h | h⟩ <;> cases h
    · rintro ⟨ids, ⟨edge, _, h | h⟩, _⟩ <;> cases h

def into (blockers : List MoleculeId) (target : MoleculeId) : Set (MoleculeId × MoleculeId) :=
  {edge | edge.1 ∈ blockers ∧ edge.2 = target}

def outOf (source : MoleculeId) (targets : List MoleculeId) : Set (MoleculeId × MoleculeId) :=
  {edge | edge.1 = source ∧ edge.2 ∈ targets}

theorem blocking_into (blockers : List MoleculeId) (target : MoleculeId) :
    blocking (into blockers target) =
      {e | ∃ b ∈ blockers, e = (target, .blockedBy b)} ∪ {e | ∃ b ∈ blockers, e = (b, .blocks target)} := by
  ext e
  constructor
  · rintro ⟨⟨b, _⟩, ⟨hb, rfl⟩, h | h⟩
    · exact Or.inr ⟨b, hb, h⟩
    · exact Or.inl ⟨b, hb, h⟩
  · rintro (⟨b, hb, h⟩ | ⟨b, hb, h⟩)
    · exact ⟨(b, target), ⟨hb, rfl⟩, Or.inr h⟩
    · exact ⟨(b, target), ⟨hb, rfl⟩, Or.inl h⟩

theorem blocking_outOf_nil (source : MoleculeId) : blocking (outOf source []) = ∅ := by
  ext e
  constructor
  · rintro ⟨_, ⟨_, hmem⟩, _⟩
    exact absurd hmem List.not_mem_nil
  · intro h
    exact absurd h (Set.notMem_empty e)

theorem blocking_outOf_concat (source : MoleculeId) (targets : List MoleculeId) (target : MoleculeId) :
    blocking (outOf source (targets ++ [target])) =
      blocking (outOf source targets) ∪ {(source, .blocks target), (target, .blockedBy source)} := by
  ext e
  constructor
  · rintro ⟨⟨_, t⟩, ⟨rfl, ht⟩, h⟩
    obtain ht | ht := List.mem_append.mp ht
    · exact Or.inl ⟨_, ⟨rfl, ht⟩, h⟩
    · cases List.mem_singleton.mp ht
      exact Or.inr h
  · rintro (⟨edge, ⟨hsource, ht⟩, h⟩ | h)
    · exact ⟨edge, ⟨hsource, List.mem_append_left _ ht⟩, h⟩
    · exact ⟨(source, target), ⟨rfl, List.mem_append_right _ (List.mem_singleton_self _)⟩, h⟩

theorem links_concat {α : Type} (link : α → MoleculeId × MoleculeLink) (l : List α) (a : α) :
    {e | ∃ b ∈ l ++ [a], e = link b} = {e | ∃ b ∈ l, e = link b} ∪ {link a} := by
  ext e
  simp only [List.mem_append, List.mem_singleton, or_and_right, exists_or, exists_eq_left, Set.mem_ofPred_eq,
    Set.mem_union, Set.mem_singleton_iff]

section Nucleate

variable {env : Env} {request : NucleateRequest} {checked : Nucleated} {w w' : World}

theorem linkBlockers_ok {new : MoleculeId} {data : StoredMolecule} {blockers : List MoleculeId}
    (hdata : w.store new = some (.ok data)) (hnew : new ∉ blockers)
    (h : each (linkBlocker env new) blockers.zipIdx w = (.ok (), w')) :
    Carried w'.store = Carried w.store ∪ {e | ∃ b ∈ blockers, e = (b, .blocks new)} ∧
      w'.store new = some (.ok data) := by
  have hend := each_ok (I := fun done s => Carried s.store =
      Carried w.store ∪ {e | ∃ b ∈ done.map Prod.fst, e = (b, .blocks new)} ∧
        s.store new = some (.ok data)) h ?_ ?_
  · rw [List.zipIdx_map_fst] at hend
    exact hend
  · refine ⟨?_, hdata⟩
    ext e
    simp only [List.map_nil, List.not_mem_nil, false_and, exists_false, Set.ofPred_false, Set.union_empty]
  · rintro done blocker rest s s' hl ⟨hcarried, hs⟩ hlink
    have hne : new ≠ blocker.1 := fun heq => hnew (heq ▸ fst_mem_of_zipIdx_eq hl)
    rw [List.map_append, List.map_singleton, links_concat]
    obtain ⟨b, hb, ⟨hlinked, rfl⟩ | rfl⟩ := linkBlocker_ok hlink
    · refine ⟨?_, hs⟩
      rw [← Set.union_assoc, ← hcarried]
      exact (Set.union_eq_self_of_subset_right (by
        rintro _ rfl
        exact (mem_carried hb _).mpr hlinked)).symm
    · refine ⟨?_, (Function.update_of_ne hne _ _).trans hs⟩
      rw [carried_link hb rfl, hcarried, Set.union_assoc]

theorem nucleate_links {data : StoredMolecule} (h : Interactions.nucleate env request w = (.ok data, w'))
    (hfresh : ∀ id ∈ (Op.nucleate request).minted env, w.store id = none) :
    ∃ edges, Carried w'.store = Carried w.store ∪ blocking edges := by
  obtain ⟨checked, hchecked, h⟩ := bind_read_ok.mp h
  obtain ⟨hformula, _, hloads, hmints, _⟩ := checkNucleate_ok hchecked
  have hnone := hfresh checked.result.id (mem_minted hformula Nat.one_pos hmints)
  obtain ⟨⟨⟩, w₁, hpersist, h⟩ := bind_ok.mp h
  obtain ⟨_, rfl⟩ := read_ok.mp h
  obtain ⟨_, w₂, heach, hsealed⟩ := persist_ok hpersist
  refine ⟨into checked.blockers checked.result.id, ?_⟩
  have hnew : checked.result.id ∉ checked.blockers := by
    intro hmem
    obtain ⟨b, hb⟩ := hloads _ hmem
    cases hnone.symm.trans (load_ok.mp hb)
  obtain ⟨hcarried, hrecord⟩ := linkBlockers_ok (Function.update_self _ _ _) hnew heach
  have hput : Carried (w.put checked.result.id (nucleatedMolecule request checked)).store =
      Carried w.store ∪ {e | ∃ b ∈ checked.blockers, e = (checked.result.id, .blockedBy b)} := by
    apply carried_put
    · rintro e ⟨b, _, rfl⟩
      rfl
    · intro l
      rw [or_iff_right (not_mem_carried hnone l)]
      simp only [nucleatedMolecule, List.mem_map, Set.mem_ofPred_eq, Prod.mk.injEq, true_and, eq_comm]
  have hall : Carried w₂.store = Carried w.store ∪ blocking (into checked.blockers checked.result.id) := by
    rw [hcarried, hput, Set.union_assoc, blocking_into]
  obtain hsame | ⟨stamp, now, hsame⟩ := hsealed
  · rw [hsame, hall]
  · rw [hsame, ← hall]
    exact carried_same hrecord rfl

end Nucleate

section Decay

variable {env : Env} {request : DecayRequest} {w w' : World}

def decaying (source product : MoleculeId) : LinkSet :=
  {(product, .decayedFrom source), (source, .decayProduct product)}

theorem decaying_symmetric (source product : MoleculeId) : Symmetric (decaying source product) where
  blocks a b := by
    constructor <;> (rintro (h | h) <;> cases h)
  decay a b := by
    constructor
    · rintro (h | h) <;> cases h
      exact Or.inl rfl
    · rintro (h | h) <;> cases h
      exact Or.inr rfl
  merge a b := by
    constructor
    · rintro (h | h) <;> cases h
    · rintro ⟨ids, h | h, _⟩ <;> cases h

theorem wireBlocks_ok {product : MoleculeId} {targets : List MoleculeId}
    (h : wireBlocks [product] targets w = (.ok (), w')) :
    Carried w'.store = Carried w.store ∪ blocking (outOf product targets) := by
  have hend := each_ok (I := fun done s => Carried s.store =
    Carried w.store ∪ blocking (outOf product (done.map Prod.fst))) h ?_ ?_
  · rw [List.zipIdx_map_fst] at hend
    exact hend
  · rw [List.map_nil, blocking_outOf_nil, Set.union_empty]
  · intro done target rest s s' _ hcarried hwire
    rw [wireTarget_one] at hwire
    rw [wire_ok (mapError_ok.mp hwire), hcarried, List.map_append, List.map_singleton, blocking_outOf_concat,
      Set.union_assoc]

theorem wireBlocks_nil {targets : List MoleculeId} (h : wireBlocks [] targets w = (.ok (), w')) : w' = w := by
  cases targets with
  | nil =>
    cases h
    rfl
  | cons target rest =>
    obtain ⟨_, _, hfail, _⟩ := bind_ok.mp h
    cases hfail

theorem wireIf_ok {chain : Bool} {products : List MoleculeId} (hlength : products.length ≤ 1)
    (h : wireIf chain products w = (.ok (), w')) : w' = w := by
  have hzip : products.zip products.tail = [] := by
    rw [List.eq_nil_iff_length_eq_zero, List.length_zip, List.length_tail]
    omega
  unfold wireIf wireChain at h
  rw [hzip] at h
  split at h <;> (cases h; rfl)

theorem createProduct_ok {checked : Decaying} {i : Nat} {product : MoleculeId}
    (h : createProduct env request checked i w = (.ok product, w')) :
    ∃ nuc : NucleateResult, nuc.id = product ∧ w' = w.put product
      (productMolecule nuc checked.source.fleetId checked.productKind (.decayedFrom request.source)) := by
  obtain ⟨nuc, _, h⟩ := bind_read_ok.mp h
  obtain ⟨⟨⟩, w₁, hsave, h⟩ := bind_ok.mp h
  obtain ⟨rfl, _⟩ := save_ok.mp (mapError_ok.mp hsave)
  cases h
  exact ⟨nuc, rfl, rfl⟩

theorem decay_links {view : DecayView} (h : Interactions.decay env request w = (.ok view, w'))
    (hfresh : ∀ id ∈ (Op.decay request).minted env, w.store id = none)
    (hsource : request.source ∉ request.blocks) :
    Carried w'.store = Carried w.store ∨ ∃ product, Carried w'.store =
      Carried w.store ∪ (decaying request.source product ∪ blocking (outOf product request.blocks)) := by
  obtain ⟨checked, w₁, w₂, w₃, hchecked, hproducts, hchain, hblocks, hend⟩ := decay_ok h
  obtain ⟨hcount, hload, hformula, _⟩ := checkDecay_ok hchecked
  have hload := load_ok.mp hload
  have hminted := returns_products hformula _ _ _ hproducts
  rw [hend]
  generalize view.products = products at hproducts hminted hchain hblocks ⊢
  obtain hzero | hone : request.count = 0 ∨ request.count = 1 := by omega
  · rw [hzero] at hproducts
    cases hproducts
    obtain rfl := wireIf_ok (by exact Nat.zero_le 1) hchain
    obtain rfl := wireBlocks_nil hblocks
    exact Or.inl (carried_same hload (List.append_nil _))
  · rw [hone] at hproducts
    obtain ⟨product, w₀, hproduct, hrest⟩ := bind_ok.mp hproducts
    cases hrest
    obtain rfl := wireIf_ok (by exact le_refl 1) hchain
    have hnone := hfresh product (hminted ▸ List.mem_singleton_self _)
    have hne : request.source ≠ product := by
      rintro heq
      cases (heq ▸ hnone).symm.trans hload
    obtain ⟨nuc, _, rfl⟩ := createProduct_ok hproduct
    have hframe : Keeps (Frame {id | id = product ∨ id ∈ request.blocks})
        (wireBlocks [product] request.blocks) :=
      frame_wireBlocks (fun p hp => Or.inl (List.mem_singleton.mp hp)) fun t ht => Or.inr ht
    have hstays := unchanged_of_frame hframe hblocks (not_or.mpr ⟨hne, hsource⟩)
    have hrecord := hstays.trans ((Function.update_of_ne hne _ _).trans hload)
    have hcreated := carried_put w product (productMolecule nuc checked.source.fleetId checked.productKind
      (.decayedFrom request.source)) {(product, .decayedFrom request.source)} ?_ ?_
    · refine Or.inr ⟨product, ?_⟩
      rw [carried_link hrecord rfl, wireBlocks_ok hblocks, hcreated]
      ext e
      simp only [decaying, Set.mem_union, Set.mem_insert_iff, Set.mem_singleton_iff]
      tauto
    · rintro e rfl
      rfl
    · intro l
      rw [or_iff_right (not_mem_carried hnone l)]
      simp only [productMolecule, List.mem_singleton, Set.mem_singleton_iff, Prod.mk.injEq, true_and]

end Decay

section Merge

variable {env : Env} {request : MergeRequest} {w w' : World}

def merging (sources : List MoleculeId) (product : MoleculeId) : LinkSet :=
  {e | e = (product, .mergedFrom sources) ∨ ∃ s ∈ sources, e = (s, .mergedInto product)}

theorem merging_symmetric (sources : List MoleculeId) (product : MoleculeId) :
    Symmetric (merging sources product) where
  blocks a b := by
    constructor <;> (rintro (h | ⟨s, _, h⟩) <;> cases h)
  decay a b := by
    constructor <;> (rintro (h | ⟨s, _, h⟩) <;> cases h)
  merge a b := by
    constructor
    · rintro (h | ⟨s, hs, h⟩)
      · cases h
      · cases h
        exact ⟨sources, Or.inl rfl, hs⟩
    · rintro ⟨ids, h | ⟨s, _, h⟩, hmem⟩
      · cases h
        exact Or.inr ⟨a, hmem, rfl⟩
      · cases h

theorem completeSources_ok {product : MoleculeId} {pairs : List (MoleculeId × StoredMolecule)}
    (hcopies : ∀ pair ∈ pairs, ∀ l, l ∈ pair.2.typedLinks ∨ l = .mergedInto product ↔
      (pair.1, l) ∈ Carried w.store ∨ l = .mergedInto product)
    (h : each (completeSource env product) pairs.zipIdx w = (.ok (), w')) :
    Carried w'.store = Carried w.store ∪ {e | ∃ s ∈ pairs.map Prod.fst, e = (s, .mergedInto product)} := by
  have hend := each_ok (I := fun done s => Carried s.store = Carried w.store ∪
    {e | ∃ pair ∈ done.map Prod.fst, e = (pair.1, .mergedInto product)}) h ?_ ?_
  · rw [List.zipIdx_map_fst] at hend
    rw [hend]
    simp only [List.mem_map, exists_exists_and_eq_and]
  · ext e
    simp only [List.map_nil, List.not_mem_nil, false_and, exists_false, Set.ofPred_false, Set.union_empty]
  · intro done source rest s s' hl hcarried hcomplete
    obtain ⟨rfl, _⟩ := save_ok.mp (mapError_ok.mp hcomplete)
    have hput := carried_put s source.1.1 (merged source.1.2 product (env.clock (source.2 + 1)))
      {(source.1.1, .mergedInto product)} ?_ ?_
    · rw [hput, hcarried, Set.union_assoc, List.map_append, List.map_singleton, links_concat]
    · rintro e rfl
      rfl
    · intro l
      have hcopy := hcopies source.1 (fst_mem_of_zipIdx_eq hl) l
      have hlinks : l ∈ (merged source.1.2 product (env.clock (source.2 + 1))).typedLinks ↔
          l ∈ source.1.2.typedLinks ∨ l = .mergedInto product := by
        change l ∈ source.1.2.typedLinks ++ [.mergedInto product] ↔ _
        rw [List.mem_append, List.mem_singleton]
      rw [hlinks, hcopy, hcarried]
      simp only [Set.mem_union, Set.mem_ofPred_eq, Set.mem_singleton_iff, Prod.mk.injEq, true_and]
      constructor
      · rintro (hc | rfl)
        · exact Or.inl (Or.inl hc)
        · exact Or.inr rfl
      · rintro ((hc | ⟨pair, _, _, rfl⟩) | rfl)
        · exact Or.inl hc
        · exact Or.inr rfl
        · exact Or.inr rfl

theorem merge_links {view : MergeView} (h : Interactions.merge env request w = (.ok view, w'))
    (hfresh : ∀ id ∈ (Op.merge request).minted env, w.store id = none) :
    Carried w'.store = Carried w.store ∪ merging request.sources view.product := by
  obtain ⟨checked, w₁, hchecked, hproduct, heach, hend⟩ := merge_ok h
  obtain ⟨_, hloads, ⟨formula, hformula, hmints⟩, _⟩ := checkMerge_ok hchecked
  rw [← hproduct] at hmints
  have hnone := hfresh view.product (mem_minted hformula Nat.one_pos hmints)
  have hput := carried_put w view.product (mergeProduct request checked)
    {(view.product, .mergedFrom request.sources)} ?_ ?_
  · have hcopies : ∀ pair ∈ request.sources.zip checked.sources, ∀ l,
        l ∈ pair.2.typedLinks ∨ l = .mergedInto view.product ↔
          (pair.1, l) ∈ Carried (w.put view.product (mergeProduct request checked)).store ∨
            l = .mergedInto view.product := by
      rintro ⟨source, copy⟩ hpair l
      have hload := load_ok.mp ((List.forall₂_iff_zip.mp hloads).2 hpair)
      have hne : source ≠ view.product := by
        rintro rfl
        cases hnone.symm.trans hload
      have hload : (w.put view.product (mergeProduct request checked)).store source = some (.ok copy) :=
        (Function.update_of_ne hne _ _).trans hload
      rw [mem_carried hload]
    rw [hend, completeSources_ok hcopies heach, hput, Set.union_assoc]
    congr 1
    ext e
    rw [List.map_fst_zip (le_of_eq hloads.length_eq)]
    rfl
  · rintro e rfl
    rfl
  · intro l
    rw [or_iff_right (not_mem_carried hnone l)]
    simp only [mergeProduct, productMolecule, List.mem_singleton, Set.mem_singleton_iff, Prod.mk.injEq,
      true_and]

end Merge

structure Step where
  env : Env
  op : Op

def perform (w : World) (step : Step) : World := (step.op.run step.env w).2

def Succeeds (w : World) (step : Step) : Prop :=
  ∃ created, (step.op.run step.env w).1 = .ok created

/-- The draws mint free ids, and a decay names its source as no target of its products. -/
structure Apart (w : World) (step : Step) : Prop where
  fresh : ∀ id ∈ step.op.minted step.env, w.store id = none
  roles : ∀ request, step.op = .decay request → request.source ∉ request.blocks

theorem symmetric_step {w : World} {step : Step} (hs : Symmetric (Carried w.store))
    (hok : Succeeds w step) (hapart : Apart w step) : Symmetric (Carried (perform w step).store) := by
  obtain ⟨env, op⟩ := step
  obtain ⟨created, hok⟩ := hok
  have hok : op.run env w = (.ok created, perform w ⟨env, op⟩) := Prod.ext hok rfl
  generalize perform w ⟨env, op⟩ = w' at hok
  cases op with
  | nucleate request =>
    obtain ⟨data, _, hdata, h⟩ := bind_ok.mp hok
    cases h
    obtain ⟨edges, hlinks⟩ := nucleate_links (mapError_ok.mp hdata) hapart.fresh
    rw [hlinks]
    exact hs.union (blocking_symmetric edges)
  | decay request =>
    obtain ⟨view, _, hview, h⟩ := bind_ok.mp hok
    cases h
    obtain hlinks | ⟨product, hlinks⟩ :=
      decay_links (mapError_ok.mp hview) hapart.fresh (hapart.roles request rfl)
    · rw [hlinks]
      exact hs
    · rw [hlinks]
      exact hs.union ((decaying_symmetric _ product).union (blocking_symmetric _))
  | merge request =>
    obtain ⟨view, _, hview, h⟩ := bind_ok.mp hok
    cases h
    rw [merge_links (mapError_ok.mp hview) hapart.fresh]
    exact hs.union (merging_symmetric _ _)

/-- From a store with symmetric links every successful run whose operations keep their
roles apart only passes through stores with symmetric links. -/
theorem symmetric_run {w : World} {steps : List Step} (hs : Symmetric (Carried w.store))
    (hok : ∀ n step, steps[n]? = some step → Succeeds (stateAt perform w steps n) step)
    (hapart : ∀ n step, steps[n]? = some step → Apart (stateAt perform w steps n) step) (n : Nat) :
    Symmetric (Carried (stateAt perform w steps n).store) :=
  stateAt_preserves (P := fun w : World => Symmetric (Carried w.store)) w
    (fun n step hstep hn => symmetric_step hn (hok n step hstep) (hapart n step hstep)) (Nat.zero_le n) hs

section Runs

def linksOf (store : Store) (id : MoleculeId) : List MoleculeLink :=
  match store id with
  | some (.ok m) => m.typedLinks
  | _ => []

theorem carried_iff {store : Store} {id : MoleculeId} {l : MoleculeLink} :
    (id, l) ∈ Carried store ↔ l ∈ linksOf store id := by
  unfold linksOf
  split
  · rename_i m hm
    constructor
    · rintro ⟨found, hfound, hl⟩
      cases hm.symm.trans hfound
      exact hl
    · intro hl
      exact ⟨m, hm, hl⟩
  · rename_i hno
    constructor
    · rintro ⟨m, hm, _⟩
      exact absurd hm (hno m)
    · intro hl
      cases hl

theorem symmetric_of_none {w : World} (h : ∀ id, linksOf w.store id = []) : Symmetric (Carried w.store) := by
  have hnone (id : MoleculeId) (l : MoleculeLink) : (id, l) ∉ Carried w.store := by
    rw [carried_iff, h]
    exact List.not_mem_nil
  refine ⟨fun a b => ?_, fun a b => ?_, fun a b => ?_⟩
  · exact iff_of_false (hnone _ _) (hnone _ _)
  · exact iff_of_false (hnone _ _) (hnone _ _)
  · exact iff_of_false (hnone _ _) fun ⟨_, hmem, _⟩ => hnone _ _ hmem

def twoSteps : List Step :=
  [⟨zeroDay, .nucleate { formula := "task-work" }⟩,
    ⟨{ zeroDay with draws := fun _ => 1 },
      .nucleate { formula := "task-work", blockedBy := ["task-20260801-0000"] }⟩]

theorem twoSteps_symmetric : Symmetric (Carried (stateAt perform emptyWorld twoSteps 2).store) := by
  apply symmetric_run (symmetric_of_none fun _ => rfl)
  · rintro (_ | _ | n) step hstep
    · cases hstep
      exact ⟨["task-20260801-0000"], by decide⟩
    · cases hstep
      exact ⟨["task-20260801-0001"], by decide⟩
    · cases hstep
  · rintro (_ | _ | n) step hstep
    · cases hstep
      refine ⟨by decide, ?_⟩
      rintro request ⟨⟩
    · cases hstep
      refine ⟨by decide, ?_⟩
      rintro request ⟨⟩
    · cases hstep

def idea : World where
  store := Function.update (fun _ => none) "idea-20260801-0001"
    (some (.ok { id := "idea-20260801-0001", kind := some .idea }))

def ownTarget : Step where
  env := zeroDay
  op := .decay {
    source := "idea-20260801-0001", formula := "task-work", productKind := "task"
    blocks := ["idea-20260801-0001"] }

/-- The source is saved from the copy of before the wiring, so it loses the link back. -/
theorem ownTarget_not_symmetric : Symmetric (Carried idea.store) ∧ Succeeds idea ownTarget ∧
    ¬Symmetric (Carried (perform idea ownTarget).store) := by
  refine ⟨symmetric_of_none fun id => ?_, ⟨["task-20260801-0000"], by decide⟩, fun h => ?_⟩
  · by_cases hid : id = "idea-20260801-0001"
    · subst hid
      rfl
    · have hnone : idea.store id = none := by
        dsimp only [idea]
        rw [Function.update_of_ne hid]
      rw [linksOf, hnone]
  · have hends := h.blocks "task-20260801-0000" "idea-20260801-0001"
    rw [carried_iff, carried_iff] at hends
    exact absurd (hends.mp (by decide)) (by decide)

end Runs

end Cosmon.State.InteractionLinks
