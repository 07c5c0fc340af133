import Cosmon.State.InteractionFrames

namespace Cosmon.State.InteractionFailures

open Cosmon.Lib.Effects Cosmon.Lib.Effects.Effect Cosmon.State.Molecule Cosmon.State.Interactions
  Cosmon.State.InteractionFrames

open Cosmon.Core.Nucleation (NucleateResult nucleate_ok)

/-- A call that does not panic, and that leaves everything as it was when it fails. -/
def AllOrNothing {ε α : Type} (x : Effect World (Failure ε) α) (w : World) : Prop :=
  (x w).1 ≠ .error .panicked ∧ ∀ e, (x w).1 = .error (.raised e) → (x w).2 = w

section Outcomes

variable {ε α : Type} {x : Effect World (Failure ε) α} {w w' : World}

theorem allOrNothing_of_ok {a : α} (h : x w = (.ok a, w')) : AllOrNothing x w := by
  unfold AllOrNothing
  rw [h]
  constructor
  · intro hc
    cases hc
  · intro e hc
    cases hc

theorem allOrNothing_of_error {e : ε} (h : x w = (.error (.raised e), w')) :
    AllOrNothing x w ↔ w' = w := by
  unfold AllOrNothing
  rw [h]
  constructor
  · rintro ⟨_, hsame⟩
    exact hsame e rfl
  · rintro rfl
    constructor
    · intro hc
      cases hc
    · intro _ _
      rfl

theorem not_allOrNothing_of_panic (h : x w = (.error .panicked, w')) : ¬AllOrNothing x w := by
  rintro ⟨hpanic, _⟩
  rw [h] at hpanic
  exact hpanic rfl

end Outcomes

def Takes (w : World) (id : MoleculeId) (data : StoredMolecule) : Prop :=
  ∀ file, w.store id = some file →
    ∃ current, file = .ok current ∧ refusesSave current.toMoleculeData data.toMoleculeData = false

section Saves

variable {w w' : World} {id : MoleculeId} {data current : StoredMolecule}

theorem save_taken (h : Takes w id data) : saveMolecule id data w = (.ok (), w.put id data) :=
  save_ok.mpr ⟨rfl, h⟩

theorem save_refused (h : ¬Takes w id data) : ∃ e, saveMolecule id data w = (.error e, w) := by
  obtain ⟨⟨⟩, w', hsave⟩ | ⟨e, w', hsave⟩ := outcome (saveMolecule id data) w
  · exact absurd (save_ok.mp hsave).2 h
  · obtain rfl := save_error hsave
    exact ⟨e, hsave⟩

theorem takes_completed (h : w.store id = some (.ok current)) (hdata : data.status = .completed) :
    Takes w id data ↔ current.status ≠ .collapsed := by
  have hrefuses : refusesSave current.toMoleculeData data.toMoleculeData =
      decide (current.status = .collapsed) := by
    have hne : data.status ≠ .collapsed := by
      rw [hdata]
      intro hc
      cases hc
    rw [refusesSave, decide_eq_true hne, Bool.true_or, Bool.and_true]
  constructor
  · intro htakes
    obtain ⟨found, hfound, hkept⟩ := htakes _ h
    cases hfound
    rw [hrefuses] at hkept
    exact of_decide_eq_false hkept
  · rintro hopen file hfile
    cases h.symm.trans hfile
    exact ⟨current, rfl, hrefuses.trans (decide_eq_false hopen)⟩

theorem takes_link (h : w.store id = some (.ok current)) (links : List MoleculeLink) :
    Takes w id (current.link links) := by
  rintro file hfile
  cases h.symm.trans hfile
  refine ⟨current, rfl, ?_⟩
  change (decide (current.status = .collapsed) && (decide (current.status ≠ .collapsed) ||
    decide (current.collapseReceipt ≠ current.collapseReceipt))) = false
  by_cases hstatus : current.status = .collapsed
  · rw [decide_eq_false (not_not.mpr hstatus), decide_eq_false (not_not.mpr rfl), Bool.or_false, Bool.and_false]
  · rw [decide_eq_false hstatus, Bool.false_and]

theorem change_link (h : w.store id = some (.ok current)) (links : List MoleculeLink) :
    changeMolecule id (fun m => m.link links) w = (.ok (), w.put id (current.link links)) :=
  bind_read_ok.mpr ⟨current, load_ok.mpr h, save_taken (takes_link h links)⟩

end Saves

theorem log_taken {env : Env} (h : env.interactionLog = .ok ()) (interaction : Interaction) (w : World) :
    logInteraction env interaction w = (.ok (), w.log interaction) :=
  bind_read_ok.mpr ⟨(), h, rfl⟩

theorem log_refused {env : Env} {message : String} (h : env.interactionLog = .error message)
    (interaction : Interaction) (w : World) : logInteraction env interaction w = (.error message, w) :=
  bind_of_error (read_error h)

/-- No record is lost or changes its status, and no list of links gets shorter. -/
def Grows (w w' : World) : Prop := ∀ id m, w.store id = some (.ok m) →
  ∃ m', w'.store id = some (.ok m') ∧ m'.status = m.status ∧ m.typedLinks.length ≤ m'.typedLinks.length

theorem Grows.refl (w : World) : Grows w w := fun _ m hm => ⟨m, hm, rfl, le_refl _⟩

theorem Grows.trans {w₁ w₂ w₃ : World} (h : Grows w₁ w₂) (h' : Grows w₂ w₃) : Grows w₁ w₃ := by
  intro id m hm
  obtain ⟨m₂, hm₂, hstatus₂, hlength₂⟩ := h id m hm
  obtain ⟨m₃, hm₃, hstatus₃, hlength₃⟩ := h' id m₂ hm₂
  exact ⟨m₃, hm₃, hstatus₃.trans hstatus₂, hlength₂.trans hlength₃⟩

theorem grows_link {w : World} {id : MoleculeId} {current : StoredMolecule}
    (h : w.store id = some (.ok current)) (links : List MoleculeLink) :
    Grows w (w.put id (current.link links)) := by
  intro other m hm
  by_cases hother : other = id
  · subst hother
    cases h.symm.trans hm
    refine ⟨_, Function.update_self _ _ _, rfl, ?_⟩
    change current.typedLinks.length ≤ (current.typedLinks ++ links).length
    rw [List.length_append]
    omega
  · exact ⟨m, (Function.update_of_ne hother _ _).trans hm, rfl, le_refl _⟩

def Longer (id : MoleculeId) (w w' : World) : Prop := ∀ m, w.store id = some (.ok m) →
  ∃ m', w'.store id = some (.ok m') ∧ m.typedLinks.length < m'.typedLinks.length

theorem wire_total {upstream downstream : MoleculeId} {w : World} {u d : StoredMolecule}
    (hu : w.store upstream = some (.ok u)) (hd : w.store downstream = some (.ok d)) :
    ∃ w', wire upstream downstream w = (.ok (), w') ∧ Grows w w' ∧ Longer downstream w w' := by
  have hup := grows_link hu [.blocks downstream]
  obtain ⟨d', hd', _, hlength⟩ := hup downstream d hd
  refine ⟨_, bind_ok.mpr ⟨(), _, change_link hu _, change_link hd' [.blockedBy upstream]⟩,
    hup.trans (grows_link hd' _), ?_⟩
  intro m hm
  cases hd.symm.trans hm
  refine ⟨_, Function.update_self _ _ _, ?_⟩
  change d.typedLinks.length < (d'.typedLinks ++ [_]).length
  rw [List.length_append, List.length_singleton]
  omega

section Wiring

variable {w : World} {product : MoleculeId} {targets : List MoleculeId}

theorem wireBlocks_total {p : StoredMolecule} (hproduct : w.store product = some (.ok p))
    (htargets : ∀ t ∈ targets, ∃ m, w.store t = some (.ok m)) :
    ∃ w', wireBlocks [product] targets w = (.ok (), w') ∧ Grows w w' ∧ ∀ t ∈ targets, Longer t w w' := by
  have hstep (target : MoleculeId × Nat) (htarget : target ∈ targets.zipIdx) (s : World) (hs : Grows w s) :
      ∃ s', wire product target.1 s = (.ok (), s') ∧ Grows s s' ∧ Longer target.1 s s' := by
    obtain ⟨m, hm⟩ := htargets target.1 (List.fst_mem_of_mem_zipIdx htarget)
    obtain ⟨p', hp', _⟩ := hs product p hproduct
    obtain ⟨m', hm', _⟩ := hs target.1 m hm
    exact wire_total hp' hm'
  have htotal : ∃ w', wireBlocks [product] targets w = (.ok (), w') ∧ Grows w w' := by
    refine each_total (fun target htarget s hs => ?_) (Grows.refl w)
    obtain ⟨s', hwire, hgrows, _⟩ := hstep target htarget s hs
    refine ⟨s', ?_, hs.trans hgrows⟩
    rw [wireTarget_one]
    exact mapError_ok.mpr hwire
  obtain ⟨w', hwired, hgrows⟩ := htotal
  refine ⟨w', hwired, hgrows, ?_⟩
  have hend := each_ok (I := fun done s => Grows w s ∧ ∀ t ∈ done.map Prod.fst, Longer t w s) hwired
    ⟨Grows.refl w, fun _ ht => absurd ht List.not_mem_nil⟩ ?_
  · rw [List.zipIdx_map_fst] at hend
    exact hend.2
  · rintro done target rest s s' hl ⟨hs, hdone⟩ hwire
    rw [wireTarget_one] at hwire
    have htarget : target ∈ targets.zipIdx := by
      rw [hl]
      exact List.mem_append_right _ List.mem_cons_self
    obtain ⟨s₁, hwire₁, hgrows₁, hlonger⟩ := hstep target htarget s hs
    cases hwire₁.symm.trans (mapError_ok.mp hwire)
    refine ⟨hs.trans hgrows₁, fun t ht m hm => ?_⟩
    rw [List.map_append, List.mem_append] at ht
    obtain ht | ht := ht
    · obtain ⟨m₁, hm₁, hlength⟩ := hdone t ht m hm
      obtain ⟨m', hm', _, hle⟩ := hgrows₁ t m₁ hm₁
      exact ⟨m', hm', by omega⟩
    · cases List.mem_singleton.mp ht
      obtain ⟨m₁, hm₁, _, hle⟩ := hs target.1 m hm
      obtain ⟨m', hm', hlength⟩ := hlonger m₁ hm₁
      exact ⟨m', hm', by omega⟩

def selfLinks (product : MoleculeId) : List MoleculeId → List MoleculeLink
  | [] => []
  | _ :: rest => .blocks product :: .blockedBy product :: selfLinks product rest

theorem put_put (w : World) (id : MoleculeId) (data next : StoredMolecule) :
    (w.put id data).put id next = w.put id next := by
  unfold World.put
  rw [Function.update_idem]

theorem link_link (data : StoredMolecule) (links more : List MoleculeLink) :
    (data.link links).link more = data.link (links ++ more) := by
  unfold StoredMolecule.link
  rw [List.append_assoc]

theorem wire_self (data : StoredMolecule) : wire product product (w.put product data) =
    (.ok (), w.put product (data.link [.blocks product, .blockedBy product])) := by
  refine bind_ok.mpr ⟨(), _, change_link (Function.update_self _ _ _) _, ?_⟩
  rw [put_put, change_link (Function.update_self _ _ _), put_put, link_link]
  rfl

theorem wireBlocks_self (hself : ∀ t ∈ targets, t = product) (data : StoredMolecule) :
    wireBlocks [product] targets (w.put product data) =
      (.ok (), w.put product (data.link (selfLinks product targets))) := by
  unfold wireBlocks
  generalize 0 = start
  induction targets generalizing data start with
  | nil =>
    rw [selfLinks, StoredMolecule.link, List.append_nil]
    rfl
  | cons t rest ih =>
    rw [List.forall_mem_cons] at hself
    obtain ⟨rfl, hrest⟩ := hself
    rw [List.zipIdx_cons]
    have hfirst : wireTarget [t] (t, start) (w.put t data) =
        (.ok (), w.put t (data.link [.blocks t, .blockedBy t])) := by
      rw [wireTarget_one]
      exact mapError_ok.mpr (wire_self data)
    refine (bind_of_ok hfirst).trans ?_
    rw [ih hrest, link_link]
    rfl

end Wiring

section Decay

variable {env : Env} {request : DecayRequest} {checked : Decaying} {w : World}

def decayNucleation (env : Env) (checked : Decaying) : Except Core.Nucleation.NucleateError NucleateResult :=
  Core.Nucleation.nucleate ⟨checked.formula, checked.source.vars, checked.source.assignedWorker⟩ env.today
    (env.draws 0) (env.clock 0)

def decayProduct (request : DecayRequest) (checked : Decaying) (nuc : NucleateResult) : StoredMolecule :=
  productMolecule nuc checked.source.fleetId checked.productKind (.decayedFrom request.source)

/-- The product is there already, wired to itself as the request asks. -/
def Standing (w : World) (product : StoredMolecule) (targets : List MoleculeId) : Prop :=
  (∀ t ∈ targets, t = product.id) ∧
    w.store product.id = some (.ok (product.link (selfLinks product.id targets)))

/-- A decay without products blocks nothing, and has nothing to record or does not
change its source. -/
def SafeWithout (env : Env) (request : DecayRequest) (checked : Decaying) : Prop :=
  request.blocks = [] ∧ (checked.source.status = .collapsed ∨ env.interactionLog = .ok () ∨
    decayed env checked.source [] = checked.source)

/-- A decay with a product that the store takes has a source that is not collapsed, and
can be recorded. -/
def SafeWith (env : Env) (request : DecayRequest) (w : World) (checked : Decaying)
    (nuc : NucleateResult) : Prop :=
  Takes w nuc.id (decayProduct request checked nuc) →
    (checked.source.status ≠ .collapsed ∧ env.interactionLog = .ok ()) ∨
      (checked.source.status = .collapsed ∧ Standing w (decayProduct request checked nuc) request.blocks)

def DecaySafe (env : Env) (request : DecayRequest) (w : World) : Prop :=
  ∀ checked, checkDecay env request w = .ok checked →
    (request.count = 0 → SafeWithout env request checked) ∧
      (request.count ≠ 0 → ∀ nuc, decayNucleation env checked = .ok nuc → SafeWith env request w checked nuc)

section Complete

variable (products : List MoleculeId) {current : StoredMolecule}

variable (env checked) in
theorem completeDecay_collapsed (h : w.store request.source = some (.ok current))
    (hstatus : current.status = .collapsed) :
    ∃ e, completeDecay env request checked products w = (.error (.raised e), w) := by
  obtain ⟨e, hsave⟩ := save_refused (fun htakes => (takes_completed h rfl).mp htakes hstatus :
    ¬Takes w request.source (decayed env checked.source products))
  exact ⟨_, bind_of_error (mapError_of_error hsave)⟩

variable (checked) in
theorem completeDecay_unlogged (h : w.store request.source = some (.ok current))
    (hstatus : current.status ≠ .collapsed) {message : String} (hlog : env.interactionLog = .error message) :
    ∃ e, completeDecay env request checked products w =
      (.error (.raised e), w.put request.source (decayed env checked.source products)) := by
  have htakes : Takes w request.source (decayed env checked.source products) :=
    (takes_completed h rfl).mpr hstatus
  exact ⟨_, (bind_of_ok (mapError_ok.mpr (save_taken htakes))).trans
    (bind_of_error (mapError_of_error (log_refused hlog _ _)))⟩

variable (checked) in
theorem completeDecay_done (h : w.store request.source = some (.ok current))
    (hstatus : current.status ≠ .collapsed) (hlog : env.interactionLog = .ok ()) :
    ∃ view w', completeDecay env request checked products w = (.ok view, w') := by
  have htakes : Takes w request.source (decayed env checked.source products) :=
    (takes_completed h rfl).mpr hstatus
  exact ⟨_, _, (bind_of_ok (mapError_ok.mpr (save_taken htakes))).trans
    (bind_of_ok (mapError_ok.mpr (log_taken hlog _ _)))⟩

end Complete

theorem decay_unchecked {e : DecayError} (h : checkDecay env request w = .error e) :
    Interactions.decay env request w = (.error (.raised e), w) := by
  refine bind_of_error (read_error ?_)
  rw [h]
  rfl

theorem checkDecay_read (h : checkDecay env request w = .ok checked) :
    read (fun w => (checkDecay env request w).mapError Failure.raised) w = (.ok checked, w) := by
  refine read_ok.mpr ⟨?_, rfl⟩
  rw [h]
  rfl

theorem decay_eq {products : List MoleculeId} {w₁ w₂ w₃ : World}
    (hchecked : checkDecay env request w = .ok checked)
    (hproducts : collect (createProduct env request checked) (List.range request.count) w = (.ok products, w₁))
    (hchain : wireIf request.chain products w₁ = (.ok (), w₂))
    (hblocks : wireBlocks products request.blocks w₂ = (.ok (), w₃)) :
    Interactions.decay env request w = completeDecay env request checked products w₃ := by
  calc Interactions.decay env request w = _ := bind_of_ok (checkDecay_read hchecked)
    _ = _ := bind_of_ok hproducts
    _ = _ := bind_of_ok hchain
    _ = _ := bind_of_ok hblocks

theorem wireIf_one {chain : Bool} {products : List MoleculeId} (hlength : products.length ≤ 1) :
    wireIf chain products w = (.ok (), w) := by
  have hzip : products.zip products.tail = [] := by
    rw [List.eq_nil_iff_length_eq_zero, List.length_zip, List.length_tail]
    omega
  unfold wireIf wireChain
  rw [hzip]
  split <;> rfl

theorem put_eq_self {id : MoleculeId} {data : StoredMolecule} :
    w.put id data = w ↔ w.store id = some (.ok data) := by
  constructor
  · intro h
    rw [← h]
    exact Function.update_self _ _ _
  · intro h
    unfold World.put
    rw [← h, Function.update_eq_self]

theorem Takes.was_open {id : MoleculeId} {data current : StoredMolecule} (htakes : Takes w id data)
    (hcurrent : w.store id = some (.ok current)) (hopen : data.status ≠ .collapsed) :
    current.status ≠ .collapsed := by
  intro hc
  obtain ⟨found, hfound, hkept⟩ := htakes _ hcurrent
  cases hfound
  rw [refusesSave, decide_eq_true hc, decide_eq_true hopen] at hkept
  cases hkept

theorem decay_without (hchecked : checkDecay env request w = .ok checked) (hcount : request.count = 0) :
    AllOrNothing (Interactions.decay env request) w ↔ SafeWithout env request checked := by
  obtain ⟨_, hload, _⟩ := checkDecay_ok hchecked
  have hload := load_ok.mp hload
  have hproducts : collect (createProduct env request checked) (List.range request.count) w = (.ok [], w) := by
    rw [hcount]
    rfl
  have hchain : wireIf request.chain [] w = (.ok (), w) := wireIf_one (Nat.zero_le 1)
  cases hblocks : request.blocks with
  | cons t rest =>
    have hpanic : Interactions.decay env request w = (.error .panicked, w) := by
      calc Interactions.decay env request w = _ := bind_of_ok (checkDecay_read hchecked)
        _ = _ := bind_of_ok hproducts
        _ = _ := bind_of_ok hchain
        _ = _ := by
          rw [hblocks]
          rfl
    refine iff_of_false (not_allOrNothing_of_panic hpanic) ?_
    rintro ⟨hnil, _⟩
    rw [hblocks] at hnil
    cases hnil
  | nil =>
    have hwired : wireBlocks [] request.blocks w = (.ok (), w) := by
      rw [hblocks]
      rfl
    have heq := decay_eq hchecked hproducts hchain hwired
    have hsafe : SafeWithout env request checked ↔ checked.source.status = .collapsed ∨
        env.interactionLog = .ok () ∨ decayed env checked.source [] = checked.source :=
      and_iff_right hblocks
    rw [hsafe]
    by_cases hstatus : checked.source.status = .collapsed
    · obtain ⟨e, hend⟩ := completeDecay_collapsed env checked [] hload hstatus
      rw [allOrNothing_of_error (heq.trans hend)]
      exact iff_of_true rfl (Or.inl hstatus)
    · cases hlog : env.interactionLog with
      | ok u =>
        obtain ⟨view, w', hend⟩ := completeDecay_done checked [] hload hstatus hlog
        exact iff_of_true (allOrNothing_of_ok (heq.trans hend)) (Or.inr (Or.inl rfl))
      | error message =>
        obtain ⟨e, hend⟩ := completeDecay_unlogged checked [] hload hstatus hlog
        rw [allOrNothing_of_error (heq.trans hend), put_eq_self, hload]
        constructor
        · intro hsame
          injection hsame with hsame
          injection hsame with hsame
          exact Or.inr (Or.inr hsame.symm)
        · rintro (hc | hc | hc)
          · exact absurd hc hstatus
          · cases hc
          · rw [hc]

section Product

variable {nuc : NucleateResult} (hchecked : checkDecay env request w = .ok checked)
  (htakes : Takes w nuc.id (decayProduct request checked nuc)) (hopen : nuc.status ≠ .collapsed)

include hchecked

variable (nuc) in
theorem decay_wired : ∃ w',
    wireBlocks [nuc.id] request.blocks (w.put nuc.id (decayProduct request checked nuc)) = (.ok (), w') ∧
      Grows (w.put nuc.id (decayProduct request checked nuc)) w' ∧
      ∀ t ∈ request.blocks, Longer t (w.put nuc.id (decayProduct request checked nuc)) w' := by
  obtain ⟨_, _, _, htargets⟩ := checkDecay_ok hchecked
  apply wireBlocks_total (Function.update_self _ _ _)
  intro t ht
  by_cases hself : t = nuc.id
  · subst hself
    exact ⟨_, Function.update_self _ _ _⟩
  · obtain ⟨m, hm⟩ := htargets t ht
    exact ⟨m, (Function.update_of_ne hself _ _).trans (load_ok.mp hm)⟩

theorem standing_iff {w' : World}
    (hwired : wireBlocks [nuc.id] request.blocks (w.put nuc.id (decayProduct request checked nuc)) =
      (.ok (), w')) :
    w' = w ↔ Standing w (decayProduct request checked nuc) request.blocks := by
  by_cases hself : ∀ t ∈ request.blocks, t = nuc.id
  · cases (wireBlocks_self hself _).symm.trans hwired
    rw [put_eq_self]
    exact (and_iff_right hself).symm
  · refine iff_of_false ?_ fun hstanding => hself hstanding.1
    rintro rfl
    obtain ⟨t, ht, hne⟩ : ∃ t ∈ request.blocks, t ≠ nuc.id := by
      simpa only [not_forall, exists_prop] using hself
    obtain ⟨_, _, _, htargets⟩ := checkDecay_ok hchecked
    obtain ⟨m, hm⟩ := htargets t ht
    obtain ⟨w₃, hwired₃, _, hlonger⟩ := decay_wired nuc hchecked
    cases hwired₃.symm.trans hwired
    obtain ⟨m', hm', hlength⟩ := hlonger t ht m ((Function.update_of_ne hne _ _).trans (load_ok.mp hm))
    cases (load_ok.mp hm).symm.trans hm'
    exact absurd hlength (lt_irrefl _)

include htakes hopen

theorem decay_source {w' : World} (hgrows : Grows (w.put nuc.id (decayProduct request checked nuc)) w') :
    ∃ current, w'.store request.source = some (.ok current) ∧
      (current.status = .collapsed ↔ checked.source.status = .collapsed) := by
  obtain ⟨_, hload, _⟩ := checkDecay_ok hchecked
  have hload := load_ok.mp hload
  by_cases hself : request.source = nuc.id
  · rw [hself] at hload ⊢
    obtain ⟨current, hcurrent, hstatus, _⟩ := hgrows nuc.id _ (Function.update_self _ _ _)
    exact ⟨current, hcurrent, iff_of_false (hstatus ▸ hopen) (htakes.was_open hload hopen)⟩
  · obtain ⟨current, hcurrent, hstatus, _⟩ :=
      hgrows request.source _ ((Function.update_of_ne hself _ _).trans hload)
    exact ⟨current, hcurrent, by rw [hstatus]⟩

end Product

section Wired

variable {nuc : NucleateResult} (hnuc : decayNucleation env checked = .ok nuc)

include hnuc

theorem decayNucleation_read : read (fun _ : World => (decayNucleation env checked).mapError
    fun error => Failure.raised (DecayError.nucleateFailed error.toString)) w = (.ok nuc, w) := by
  refine read_ok.mpr ⟨?_, rfl⟩
  rw [hnuc]
  rfl

variable (hchecked : checkDecay env request w = .ok checked) (hcount : request.count = 1)

include hchecked hcount

theorem decay_taken (htakes : Takes w nuc.id (decayProduct request checked nuc)) :
    ∃ w' current, Interactions.decay env request w = completeDecay env request checked [nuc.id] w' ∧
      (w' = w ↔ Standing w (decayProduct request checked nuc) request.blocks) ∧
      w'.store request.source = some (.ok current) ∧
      (current.status = .collapsed ↔ checked.source.status = .collapsed) := by
  obtain ⟨_, hopen⟩ := nucleate_ok hnuc
  have hsaved : createProduct env request checked 0 w =
      (.ok nuc.id, w.put nuc.id (decayProduct request checked nuc)) :=
    (bind_of_ok (decayNucleation_read hnuc)).trans (bind_of_ok (mapError_ok.mpr (save_taken htakes)))
  have hproducts : collect (createProduct env request checked) (List.range request.count) w =
      (.ok [nuc.id], w.put nuc.id (decayProduct request checked nuc)) := by
    rw [hcount]
    exact (bind_of_ok hsaved).trans rfl
  have hchain : wireIf request.chain [nuc.id] (w.put nuc.id (decayProduct request checked nuc)) = (.ok (), _) :=
    wireIf_one (le_refl 1)
  obtain ⟨w', hwired, hgrows, _⟩ := decay_wired nuc hchecked
  obtain ⟨current, hcurrent, hsame⟩ := decay_source hchecked htakes hopen hgrows
  exact ⟨w', current, decay_eq hchecked hproducts hchain hwired, standing_iff hchecked hwired, hcurrent, hsame⟩

theorem decay_refused (htakes : ¬Takes w nuc.id (decayProduct request checked nuc)) :
    ∃ e, Interactions.decay env request w = (.error (.raised e), w) := by
  obtain ⟨e, hsave⟩ := save_refused htakes
  have hproducts : collect (createProduct env request checked) (List.range request.count) w =
      (.error (decayStoreErr e), w) := by
    rw [hcount]
    exact bind_of_error ((bind_of_ok (decayNucleation_read hnuc)).trans
      (bind_of_error (mapError_of_error hsave)))
  exact ⟨_, (bind_of_ok (checkDecay_read hchecked)).trans (bind_of_error hproducts)⟩

end Wired

theorem decayed_ne (env : Env) (source : StoredMolecule) (product : MoleculeId) :
    decayed env source [product] ≠ source := by
  intro h
  have hlength := congrArg (fun m => m.typedLinks.length) h
  change (source.typedLinks ++ [_]).length = source.typedLinks.length at hlength
  rw [List.length_append, List.length_singleton] at hlength
  omega

/-- A decay with a product stops with a part of its writes done when its source is
collapsed: the store keeps that record, after it has taken the product. -/
theorem decay_with (hchecked : checkDecay env request w = .ok checked) (hcount : request.count = 1)
    {nuc : NucleateResult} (hnuc : decayNucleation env checked = .ok nuc) :
    AllOrNothing (Interactions.decay env request) w ↔ SafeWith env request w checked nuc := by
  obtain ⟨_, hload, _⟩ := checkDecay_ok hchecked
  have hload := load_ok.mp hload
  by_cases htakes : Takes w nuc.id (decayProduct request checked nuc)
  · obtain ⟨w', current, heq, hstanding, hcurrent, hsame⟩ := decay_taken hnuc hchecked hcount htakes
    have hsafe : SafeWith env request w checked nuc ↔
        (checked.source.status ≠ .collapsed ∧ env.interactionLog = .ok ()) ∨
          (checked.source.status = .collapsed ∧ Standing w (decayProduct request checked nuc) request.blocks) :=
      forall_prop_of_true htakes
    rw [hsafe]
    by_cases hstatus : checked.source.status = .collapsed
    · obtain ⟨e, hend⟩ := completeDecay_collapsed env checked [nuc.id] hcurrent (hsame.mpr hstatus)
      rw [allOrNothing_of_error (heq.trans hend), hstanding]
      constructor
      · intro hstands
        exact Or.inr ⟨hstatus, hstands⟩
      · rintro (⟨hc, _⟩ | ⟨_, hstands⟩)
        · exact absurd hstatus hc
        · exact hstands
    · cases hlog : env.interactionLog with
      | ok u =>
        obtain ⟨view, _, hend⟩ := completeDecay_done checked [nuc.id] hcurrent (mt hsame.mp hstatus) hlog
        exact iff_of_true (allOrNothing_of_ok (heq.trans hend)) (Or.inl ⟨hstatus, rfl⟩)
      | error message =>
        obtain ⟨e, hend⟩ := completeDecay_unlogged checked [nuc.id] hcurrent (mt hsame.mp hstatus) hlog
        rw [allOrNothing_of_error (heq.trans hend)]
        refine iff_of_false (fun hback => ?_) ?_
        · have hsource : (w'.put request.source (decayed env checked.source [nuc.id])).store request.source =
              some (.ok (decayed env checked.source [nuc.id])) := Function.update_self _ _ _
          rw [hback, hload] at hsource
          injection hsource with hsource
          injection hsource with hsource
          exact decayed_ne env _ _ hsource.symm
        · rintro (⟨_, hc⟩ | ⟨hc, _⟩)
          · cases hc
          · exact hstatus hc
  · obtain ⟨e, hend⟩ := decay_refused hnuc hchecked hcount htakes
    rw [allOrNothing_of_error hend]
    exact iff_of_true rfl fun hc => absurd hc htakes

theorem decay_allOrNothing (env : Env) (request : DecayRequest) (w : World) :
    AllOrNothing (Interactions.decay env request) w ↔ DecaySafe env request w := by
  cases hchecked : checkDecay env request w with
  | error e =>
    rw [allOrNothing_of_error (decay_unchecked hchecked)]
    refine iff_of_true rfl fun checked hc => ?_
    cases hchecked.symm.trans hc
  | ok checked =>
    have hsafe : DecaySafe env request w ↔ (request.count = 0 → SafeWithout env request checked) ∧
        (request.count ≠ 0 → ∀ nuc, decayNucleation env checked = .ok nuc →
          SafeWith env request w checked nuc) := by
      constructor
      · intro h
        exact h checked hchecked
      · rintro h other hother
        cases hchecked.symm.trans hother
        exact h
    rw [hsafe]
    obtain ⟨hcount, _⟩ := checkDecay_ok hchecked
    obtain hzero | hone : request.count = 0 ∨ request.count = 1 := by omega
    · rw [decay_without hchecked hzero]
      constructor
      · intro h
        exact ⟨fun _ => h, fun hne => absurd hzero hne⟩
      · rintro ⟨h, _⟩
        exact h hzero
    · have hne : request.count ≠ 0 := by omega
      cases hnuc : decayNucleation env checked with
      | error e =>
        have hend : Interactions.decay env request w = (.error (.raised (.nucleateFailed e.toString)), w) := by
          refine (bind_of_ok (checkDecay_read hchecked)).trans (bind_of_error ?_)
          rw [hone]
          refine bind_of_error (bind_of_error (read_error ?_))
          change (decayNucleation env checked).mapError _ = _
          rw [hnuc]
          rfl
        rw [allOrNothing_of_error hend]
        refine iff_of_true rfl ⟨fun hc => absurd hc hne, fun _ nuc hc => ?_⟩
        cases hc
      | ok nuc =>
        rw [decay_with hchecked hone hnuc]
        constructor
        · intro h
          refine ⟨fun hc => absurd hc hne, fun _ other hother => ?_⟩
          cases hother
          exact h
        · rintro ⟨_, h⟩
          exact h hne nuc rfl

end Decay

section Merge

variable {env : Env} {request : MergeRequest} {checked : Merging} {w : World}

/-- What makes a merge all or nothing. -/
def MergeSafe (env : Env) (request : MergeRequest) (w : World) : Prop :=
  ∀ checked, checkMerge env request w = .ok checked →
    Takes w checked.result.id (mergeProduct request checked) →
      ((∀ source ∈ checked.sources, source.status ≠ .collapsed) ∧ env.interactionLog = .ok ()) ∨
        ((∃ first ∈ checked.sources.head?, first.status = .collapsed) ∧
          w.store checked.result.id = some (.ok (mergeProduct request checked)))

def Copied (w : World) (pairs : List (MoleculeId × StoredMolecule)) : Prop :=
  ∀ pair ∈ pairs, w.store pair.1 = some (.ok pair.2)

def Tracked (pairs : List (MoleculeId × StoredMolecule)) (s : World) : Prop :=
  ∀ pair ∈ pairs, ∃ current, s.store pair.1 = some (.ok current) ∧
    (current.status = .collapsed ↔ pair.2.status = .collapsed)

def Begun (product : MoleculeId) (pairs : List (MoleculeId × StoredMolecule)) (s : World) : Prop :=
  ∃ pair ∈ pairs, ∃ current, s.store pair.1 = some (.ok current) ∧
    current.typedLinks = pair.2.typedLinks ++ [.mergedInto product]

section Sources

variable {product : MoleculeId} {pairs : List (MoleculeId × StoredMolecule)}
  {source : (MoleculeId × StoredMolecule) × Nat} {s s' : World}

theorem Begun.ne (hcopied : Copied w pairs) (h : Begun product pairs s) : s ≠ w := by
  obtain ⟨pair, hpair, current, hcurrent, hlinks⟩ := h
  rintro rfl
  cases (hcopied pair hpair).symm.trans hcurrent
  have hlength := congrArg List.length hlinks
  rw [List.length_append, List.length_singleton] at hlength
  omega

theorem completeSource_ok (h : completeSource env product source s = (.ok (), s')) :
    s' = s.put source.1.1 (merged source.1.2 product (env.clock (source.2 + 1))) ∧
      ∀ current, s.store source.1.1 = some (.ok current) → current.status ≠ .collapsed := by
  obtain ⟨rfl, htakes⟩ := save_ok.mp (mapError_ok.mp h)
  exact ⟨rfl, fun current hcurrent => (takes_completed hcurrent rfl).mp htakes⟩

variable (env product source) in
theorem completeSource_collapsed {current : StoredMolecule} (h : s.store source.1.1 = some (.ok current))
    (hstatus : current.status = .collapsed) :
    ∃ e, completeSource env product source s = (.error (.raised e), s) := by
  obtain ⟨e, hsave⟩ := save_refused (fun htakes => (takes_completed h rfl).mp htakes hstatus :
    ¬Takes s source.1.1 (merged source.1.2 product (env.clock (source.2 + 1))))
  exact ⟨_, mapError_of_error hsave⟩

theorem begun_completeSource (hmem : source.1 ∈ pairs)
    (h : completeSource env product source s = (.ok (), s')) :
    Begun product pairs s' := by
  obtain ⟨rfl, _⟩ := completeSource_ok h
  exact ⟨source.1, hmem, _, Function.update_self _ _ _, rfl⟩

variable (env) in
theorem begun_each {l : List ((MoleculeId × StoredMolecule) × Nat)} (hl : ∀ source ∈ l, source.1 ∈ pairs) :
    Keeps (fun s s' => Begun product pairs s → Begun product pairs s')
      (each (completeSource env product) l) := by
  have hrefl : Std.Refl fun s s' => Begun product pairs s → Begun product pairs s' := ⟨fun _ h => h⟩
  have htrans : IsTrans World fun s s' => Begun product pairs s → Begun product pairs s' :=
    ⟨fun _ _ _ h h' hs => h' (h hs)⟩
  refine keeps_each fun source hsource s hs => ?_
  obtain ⟨⟨⟩, s', hdone⟩ | ⟨e, s', hdone⟩ := outcome (completeSource env product source) s
  · rw [hdone]
    exact begun_completeSource (hl source hsource) hdone
  · obtain ⟨_, hsave, _⟩ := mapError_error.mp hdone
    obtain rfl := save_error hsave
    rw [hdone]
    exact hs

theorem tracked_put (hcopied : Copied w pairs) (hs : Tracked pairs s) (hmem : source.1 ∈ pairs)
    (hopen : source.1.2.status ≠ .collapsed) :
    Tracked pairs (s.put source.1.1 (merged source.1.2 product (env.clock (source.2 + 1)))) := by
  intro pair hpair
  by_cases hsame : pair.1 = source.1.1
  · have hcopy := (hcopied pair hpair).symm.trans (hsame ▸ hcopied source.1 hmem)
    injection hcopy with hcopy
    injection hcopy with hcopy
    refine ⟨merged source.1.2 product (env.clock (source.2 + 1)), ?_, ?_⟩
    · rw [hsame]
      exact Function.update_self _ _ _
    rw [hcopy]
    refine iff_of_false ?_ hopen
    intro hc
    cases hc
  · obtain ⟨current, hcurrent, hstatus⟩ := hs pair hpair
    exact ⟨current, (Function.update_of_ne hsame _ _).trans hcurrent, hstatus⟩

variable (env product) in
theorem completeSources_total (hcopied : Copied w pairs) (hs : Tracked pairs s)
    (hopen : ∀ pair ∈ pairs, pair.2.status ≠ .collapsed) :
    ∃ s', each (completeSource env product) pairs.zipIdx s = (.ok (), s') := by
  have htotal : ∃ s', each (completeSource env product) pairs.zipIdx s = (.ok (), s') ∧ Tracked pairs s' := by
    refine each_total (fun source hsource s hs => ?_) hs
    have hmem := List.fst_mem_of_mem_zipIdx hsource
    obtain ⟨current, hcurrent, hstatus⟩ := hs source.1 hmem
    have htakes : Takes s source.1.1 (merged source.1.2 product (env.clock (source.2 + 1))) :=
      (takes_completed hcurrent rfl).mpr (mt hstatus.mp (hopen _ hmem))
    exact ⟨_, mapError_ok.mpr (save_taken htakes), tracked_put hcopied hs hmem (hopen _ hmem)⟩
  obtain ⟨s', h, _⟩ := htotal
  exact ⟨s', h⟩

theorem completeSources_open (hcopied : Copied w pairs) (hs : Tracked pairs s)
    (h : each (completeSource env product) pairs.zipIdx s = (.ok (), s')) :
    ∀ pair ∈ pairs, pair.2.status ≠ .collapsed := by
  have hend := each_ok (I := fun done s => Tracked pairs s ∧ ∀ pair ∈ done.map Prod.fst,
    pair.2.status ≠ .collapsed) h ⟨hs, fun _ hpair => absurd hpair List.not_mem_nil⟩ ?_
  · rw [List.zipIdx_map_fst] at hend
    exact hend.2
  · rintro done source rest s s' hl ⟨hs, hdone⟩ hcomplete
    have hmem := fst_mem_of_zipIdx_eq hl
    obtain ⟨rfl, hkept⟩ := completeSource_ok hcomplete
    obtain ⟨current, hcurrent, hstatus⟩ := hs source.1 hmem
    have hopen := mt hstatus.mpr (hkept current hcurrent)
    refine ⟨tracked_put hcopied hs hmem hopen, fun pair hpair => ?_⟩
    rw [List.map_append, List.mem_append] at hpair
    obtain hpair | hpair := hpair
    · exact hdone pair hpair
    · cases List.mem_singleton.mp hpair
      exact hopen

theorem begun_first {first : MoleculeId × StoredMolecule} {rest : List (MoleculeId × StoredMolecule)}
    {r : Except (Failure MergeError) Unit}
    (hs : Tracked (first :: rest) s) (hopen : first.2.status ≠ .collapsed)
    (h : each (completeSource env product) (first :: rest).zipIdx s = (r, s')) :
    Begun product (first :: rest) s' := by
  obtain ⟨current, hcurrent, hstatus⟩ := hs first List.mem_cons_self
  have htakes : Takes s first.1 (merged first.2 product (env.clock 1)) :=
    (takes_completed hcurrent rfl).mpr (mt hstatus.mp hopen)
  have hfirst : completeSource env product (first, 0) s =
      (.ok (), s.put first.1 (merged first.2 product (env.clock 1))) := mapError_ok.mpr (save_taken htakes)
  have hafter : each (completeSource env product) (rest.zipIdx 1)
      (s.put first.1 (merged first.2 product (env.clock 1))) = (r, s') := (bind_of_ok hfirst).symm.trans h
  have hbegun : Begun product (first :: rest) (s.put first.1 (merged first.2 product (env.clock 1))) :=
    begun_completeSource List.mem_cons_self hfirst
  have hmem : ∀ source ∈ rest.zipIdx 1, source.1 ∈ first :: rest :=
    fun source hsource => List.mem_cons_of_mem first (List.fst_mem_of_mem_zipIdx hsource)
  have hkeeps : Begun product (first :: rest) _ := begun_each env hmem _ hbegun
  rw [hafter] at hkeeps
  exact hkeeps

end Sources

theorem checkMerge_raises {f : Failure MergeError} (h : checkMerge env request w = .error f) :
    ∃ e, f = .raised e := by
  unfold checkMerge at h
  split at h
  · cases h
    exact ⟨_, rfl⟩
  rename_i hlength
  obtain hsources | ⟨sources, hsources, h⟩ := Lib.Checks.bind_error h
  · obtain ⟨e, he⟩ := Lib.Checks.mapError_error hsources
    exact ⟨e, he⟩
  obtain hkind | ⟨productKind, _, h⟩ := Lib.Checks.bind_error h
  · obtain ⟨e, he⟩ := Lib.Checks.mapError_error hkind
    exact ⟨_, he⟩
  obtain hformula | ⟨formula, _, h⟩ := Lib.Checks.bind_error h
  · obtain ⟨e, he⟩ := Lib.Checks.mapError_error hformula
    exact ⟨_, he⟩
  cases sources with
  | nil =>
    have hempty := (Lib.Checks.mapM_forall₂ (Lib.Checks.mapError_ok hsources)).length_eq
    rw [List.length_nil] at hempty
    omega
  | cons first rest =>
    obtain hnuc | ⟨result, _, h⟩ := Lib.Checks.bind_error h
    · obtain ⟨e, he⟩ := Lib.Checks.mapError_error hnuc
      exact ⟨_, he⟩
    · cases h

variable (request checked) in
theorem recordMerge_done (hlog : env.interactionLog = .ok ()) (s : World) :
    ∃ view s', recordMerge env request checked s = (.ok view, s') :=
  ⟨_, _, bind_of_ok (mapError_ok.mpr (log_taken hlog _ _))⟩

variable (request checked) in
theorem recordMerge_unlogged {message : String} (hlog : env.interactionLog = .error message) (s : World) :
    ∃ e, recordMerge env request checked s = (.error (.raised e), s) :=
  ⟨_, bind_of_error (mapError_of_error (log_refused hlog _ _))⟩

theorem tracked_start {pairs : List (MoleculeId × StoredMolecule)} (hcopied : Copied w pairs)
    {product : MoleculeId} {data : StoredMolecule} (htakes : Takes w product data)
    (hopen : data.status ≠ .collapsed) : Tracked pairs (w.put product data) := by
  intro pair hpair
  by_cases hsame : pair.1 = product
  · have hcurrent : w.store product = some (.ok pair.2) := hsame ▸ hcopied pair hpair
    exact ⟨data, hsame ▸ Function.update_self _ _ _, iff_of_false hopen (htakes.was_open hcurrent hopen)⟩
  · exact ⟨pair.2, (Function.update_of_ne hsame _ _).trans (hcopied pair hpair), Iff.rfl⟩

theorem merge_start (hchecked : checkMerge env request w = .ok checked)
    (htakes : Takes w checked.result.id (mergeProduct request checked)) :
    Interactions.merge env request w = (do
      each (completeSource env checked.result.id) (request.sources.zip checked.sources).zipIdx
      recordMerge env request checked) (w.put checked.result.id (mergeProduct request checked)) :=
  (bind_of_ok (read_ok.mpr ⟨hchecked, rfl⟩)).trans (bind_of_ok (mapError_ok.mpr (save_taken htakes)))

section Started

variable {product : MoleculeId} {data : StoredMolecule} {first : MoleculeId × StoredMolecule}
  {rest : List (MoleculeId × StoredMolecule)}
  (hstart : Interactions.merge env request w = (do
    each (completeSource env product) (first :: rest).zipIdx
    recordMerge env request checked) (w.put product data))
  (hcopied : Copied w (first :: rest)) (htracked : Tracked (first :: rest) (w.put product data))

include hstart hcopied htracked

theorem merge_open (hopen : ∀ pair ∈ first :: rest, pair.2.status ≠ .collapsed) :
    AllOrNothing (Interactions.merge env request) w ↔ env.interactionLog = .ok () := by
  obtain ⟨s', hcompleted⟩ := completeSources_total env product hcopied htracked hopen
  cases hlog : env.interactionLog with
  | ok u =>
    obtain ⟨view, w', hend⟩ := recordMerge_done request checked hlog s'
    exact iff_of_true (allOrNothing_of_ok (hstart.trans ((bind_of_ok hcompleted).trans hend))) rfl
  | error message =>
    obtain ⟨e, hend⟩ := recordMerge_unlogged request checked hlog s'
    have hbegun := begun_first htracked (hopen first List.mem_cons_self) hcompleted
    rw [allOrNothing_of_error (hstart.trans ((bind_of_ok hcompleted).trans hend))]
    exact iff_of_false (hbegun.ne hcopied) fun hc => by cases hc

theorem merge_stopped (hstopped : ¬∀ pair ∈ first :: rest, pair.2.status ≠ .collapsed) :
    AllOrNothing (Interactions.merge env request) w ↔
      first.2.status = .collapsed ∧ w.store product = some (.ok data) := by
  obtain ⟨⟨⟩, s', hcompleted⟩ | ⟨f, s', hcompleted⟩ :=
    outcome (each (completeSource env product) (first :: rest).zipIdx) (w.put product data)
  · exact absurd (completeSources_open hcopied htracked hcompleted) hstopped
  obtain ⟨e, rfl⟩ := fails_each (fun _ _ => fails_mapError) _ f s' hcompleted
  have hend := hstart.trans (bind_of_error hcompleted)
  rw [mergeStoreErr] at hend
  rw [allOrNothing_of_error hend]
  by_cases hfirst : first.2.status = .collapsed
  · obtain ⟨current, hcurrent, hstatus⟩ := htracked first List.mem_cons_self
    obtain ⟨e', hrefused⟩ := completeSource_collapsed env product (first, 0) hcurrent (hstatus.mpr hfirst)
    have hsame := (bind_of_error hrefused).symm.trans hcompleted
    obtain rfl := congrArg Prod.snd hsame
    rw [put_eq_self]
    exact (and_iff_right hfirst).symm
  · exact iff_of_false ((begun_first htracked hfirst hcompleted).ne hcopied) fun hc => hfirst hc.1

end Started

theorem merge_taken (hchecked : checkMerge env request w = .ok checked)
    (htakes : Takes w checked.result.id (mergeProduct request checked)) :
    AllOrNothing (Interactions.merge env request) w ↔
      ((∀ source ∈ checked.sources, source.status ≠ .collapsed) ∧ env.interactionLog = .ok ()) ∨
        ((∃ first ∈ checked.sources.head?, first.status = .collapsed) ∧
          w.store checked.result.id = some (.ok (mergeProduct request checked))) := by
  obtain ⟨hlength, hloads, _, hopen⟩ := checkMerge_ok hchecked
  obtain ⟨hsame, hzip⟩ := List.forall₂_iff_zip.mp hloads
  have hcopied : Copied w (request.sources.zip checked.sources) := by
    rintro ⟨sid, copy⟩ hpair
    exact load_ok.mp (hzip hpair)
  have htracked := tracked_start hcopied htakes hopen
  have hstart := merge_start hchecked htakes
  have hsources : (request.sources.zip checked.sources).map Prod.snd = checked.sources :=
    List.map_snd_zip (le_of_eq hsame.symm)
  have hall : (∀ source ∈ checked.sources, source.status ≠ .collapsed) ↔
      ∀ pair ∈ request.sources.zip checked.sources, pair.2.status ≠ .collapsed := by
    have hmap := List.forall_mem_map (f := Prod.snd) (l := request.sources.zip checked.sources)
      (P := fun source : StoredMolecule => source.status ≠ .collapsed)
    rw [hsources] at hmap
    exact hmap
  obtain ⟨first, rest, hpairs⟩ : ∃ first rest, request.sources.zip checked.sources = first :: rest := by
    apply List.exists_cons_of_ne_nil
    intro hnil
    have hzero := congrArg List.length hnil
    rw [List.length_zip, List.length_nil] at hzero
    omega
  have hhead : checked.sources.head? = some first.2 := by
    rw [← hsources, hpairs]
    rfl
  rw [hhead, hall]
  rw [hpairs] at hcopied htracked hstart ⊢
  by_cases hopenAll : ∀ pair ∈ first :: rest, pair.2.status ≠ .collapsed
  · rw [merge_open hstart hcopied htracked hopenAll]
    constructor
    · intro hlog
      exact Or.inl ⟨hopenAll, hlog⟩
    · rintro (⟨_, hlog⟩ | ⟨⟨_, ⟨⟩, hc⟩, _⟩)
      · exact hlog
      · exact absurd hc (hopenAll first List.mem_cons_self)
  · rw [merge_stopped hstart hcopied htracked hopenAll]
    constructor
    · rintro ⟨hfirst, hstanding⟩
      exact Or.inr ⟨⟨first.2, rfl, hfirst⟩, hstanding⟩
    · rintro (⟨hc, _⟩ | ⟨⟨_, ⟨⟩, hfirst⟩, hstanding⟩)
      · exact absurd hc hopenAll
      · exact ⟨hfirst, hstanding⟩

theorem merge_allOrNothing (env : Env) (request : MergeRequest) (w : World) :
    AllOrNothing (Interactions.merge env request) w ↔ MergeSafe env request w := by
  cases hchecked : checkMerge env request w with
  | error f =>
    obtain ⟨e, rfl⟩ := checkMerge_raises hchecked
    have hend : Interactions.merge env request w = (.error (.raised e), w) :=
      bind_of_error (read_error hchecked)
    rw [allOrNothing_of_error hend]
    refine iff_of_true rfl fun checked hc => ?_
    cases hchecked.symm.trans hc
  | ok checked =>
    have hsafe : MergeSafe env request w ↔ (Takes w checked.result.id (mergeProduct request checked) →
        ((∀ source ∈ checked.sources, source.status ≠ .collapsed) ∧ env.interactionLog = .ok ()) ∨
          ((∃ first ∈ checked.sources.head?, first.status = .collapsed) ∧
            w.store checked.result.id = some (.ok (mergeProduct request checked)))) := by
      constructor
      · intro h
        exact h checked hchecked
      · rintro h other hother
        cases hchecked.symm.trans hother
        exact h
    rw [hsafe]
    by_cases htakes : Takes w checked.result.id (mergeProduct request checked)
    · rw [forall_prop_of_true htakes]
      exact merge_taken hchecked htakes
    · obtain ⟨e, hsave⟩ := save_refused htakes
      have hend : Interactions.merge env request w = (.error (.raised (.storeUnavailable e.toString)), w) :=
        (bind_of_ok (read_ok.mpr ⟨hchecked, rfl⟩)).trans (bind_of_error (mapError_of_error hsave))
      rw [allOrNothing_of_error hend]
      exact iff_of_true rfl fun hc => absurd hc htakes

end Merge

/-- A decay and a merge check their request before they write, but not all that can stop
them afterwards: these are the states in which nothing does. -/
theorem allOrNothing_iff (env : Env) (w : World) :
    (∀ request, AllOrNothing (Interactions.decay env request) w ↔ DecaySafe env request w) ∧
      ∀ request, AllOrNothing (Interactions.merge env request) w ↔ MergeSafe env request w :=
  ⟨fun request => decay_allOrNothing env request w, fun request => merge_allOrNothing env request w⟩

section Stopped

def collapsedIdea : World where
  store := Function.update (Function.update (fun _ => none)
    "idea-20260801-0001" (some (.ok { id := "idea-20260801-0001", kind := some .idea, status := .collapsed })))
    "idea-20260801-0002" (some (.ok { id := "idea-20260801-0002", kind := some .idea }))

def noProducts : DecayRequest where
  source := "idea-20260801-0002"
  formula := "task-work"
  count := 0
  productKind := "task"
  blocks := ["idea-20260801-0002"]

def oneProduct : DecayRequest where
  source := "idea-20260801-0001"
  formula := "task-work"
  productKind := "task"

/-- The first decay looks for the last of no products. The second one has saved its
product by the time that the store refuses to complete the source. -/
theorem collapsedIdea_not_allOrNothing :
    (Interactions.decay zeroDay noProducts collapsedIdea).1 = .error .panicked ∧
      (∃ e, (Interactions.decay zeroDay oneProduct collapsedIdea).1 = .error (.raised e)) ∧
      (Interactions.decay zeroDay oneProduct collapsedIdea).2 ≠ collapsedIdea := by
  refine ⟨by decide, ⟨_, rfl⟩, fun h => ?_⟩
  have hproduct := congrArg (fun w : World => (w.store "task-20260801-0000").isSome) h
  exact absurd hproduct (by decide)

end Stopped

end Cosmon.State.InteractionFailures
