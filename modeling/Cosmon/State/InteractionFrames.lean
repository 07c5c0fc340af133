import Cosmon.State.Interactions

namespace Cosmon.State.InteractionFrames

open Cosmon.Lib.Checks Cosmon.Lib.Effects Cosmon.Lib.Effects.Effect Cosmon.State.Molecule
  Cosmon.State.Interactions

open Cosmon.Core.Nucleation (NucleateResult Template nucleate_ok moleculeIdNew_ok)

section Checks

variable {env : Env} {w : World}

theorem checkNucleate_ok {request : NucleateRequest} {checked : Nucleated}
    (h : checkNucleate env request w = .ok checked) :
    env.formulas request.formula = .ok checked.formula ∧ checked.blockers = request.blockedBy ∧
      (∀ blocker ∈ checked.blockers, ∃ b, loadMolecule w blocker = .ok b) ∧
      checked.formula.mints env.today (env.draws 0) = some checked.result.id ∧
      checked.result.status ≠ .collapsed := by
  obtain ⟨formula, hformula, h⟩ := bind_ok h
  obtain ⟨kind, _, h⟩ := bind_ok h
  obtain ⟨tags, _, h⟩ := bind_ok h
  obtain ⟨blockers, hblockers, h⟩ := bind_ok h
  obtain ⟨_, hload, h⟩ := bind_ok h
  obtain ⟨result, hresult, h⟩ := bind_ok h
  cases h
  have hids := mapM_ok (g := id) (k := id) (fun _ _ hraw => moleculeIdNew_ok (mapError_ok hraw)) hblockers
  rw [List.map_id, List.map_id] at hids
  obtain ⟨hmints, hstatus⟩ := nucleate_ok (mapError_ok hresult)
  refine ⟨?_, hids, fun blocker hb => ?_, hmints, hstatus⟩
  · unfold loadFormula at hformula
    split at hformula <;> cases hformula
    assumption
  · obtain ⟨b, hb, _⟩ := map_ok (forM_ok hload blocker hb)
    exact ⟨b, mapError_ok hb⟩

theorem checkDecay_ok {request : DecayRequest} {checked : Decaying}
    (h : checkDecay env request w = .ok checked) :
    request.count ≤ 1 ∧ loadMolecule w request.source = .ok checked.source ∧
      env.formulas request.formula = .ok checked.formula ∧
      ∀ target ∈ request.blocks, ∃ t, loadMolecule w target = .ok t := by
  obtain ⟨_, hcount, h⟩ := bind_ok h
  obtain ⟨source, hsource, h⟩ := bind_ok h
  obtain ⟨_, h⟩ := guard_ok.mp h
  obtain ⟨productKind, _, h⟩ := bind_ok h
  obtain ⟨formula, hformula, h⟩ := bind_ok h
  obtain ⟨_, htargets, h⟩ := bind_ok h
  cases h
  refine ⟨?_, mapError_ok hsource, mapError_ok hformula, fun target ht => ?_⟩
  · obtain ⟨hcount, _⟩ := guard_ok.mp hcount
    omega
  · obtain ⟨t, ht, _⟩ := map_ok (forM_ok htargets target ht)
    exact ⟨t, mapError_ok ht⟩

theorem checkSource_ok {id : MoleculeId} {data : StoredMolecule} (h : checkSource w id = .ok data) :
    loadMolecule w id = .ok data := by
  obtain ⟨found, hload, h⟩ := bind_ok h
  obtain ⟨_, h⟩ := guard_ok.mp h
  cases h
  exact mapError_ok hload

theorem checkMerge_ok {request : MergeRequest} {checked : Merging}
    (h : checkMerge env request w = .ok checked) :
    2 ≤ request.sources.length ∧
      List.Forall₂ (fun id data => loadMolecule w id = .ok data) request.sources checked.sources ∧
      (∃ formula, env.formulas request.formula = .ok formula ∧
        formula.mints env.today (env.draws 0) = some checked.result.id) ∧
      checked.result.status ≠ .collapsed := by
  unfold checkMerge at h
  obtain ⟨hlength, h⟩ := guard_ok.mp h
  obtain ⟨sources, hsources, h⟩ := bind_ok h
  obtain ⟨productKind, _, h⟩ := bind_ok h
  obtain ⟨formula, hformula, h⟩ := bind_ok h
  have hloads := (mapM_forall₂ (mapError_ok hsources)).imp fun _ _ => checkSource_ok
  cases sources with
  | nil => cases h
  | cons first rest =>
    obtain ⟨result, hresult, h⟩ := bind_ok h
    cases h
    obtain ⟨hmints, hstatus⟩ := nucleate_ok (mapError_ok hresult)
    exact ⟨by omega, hloads, ⟨formula, mapError_ok hformula, hmints⟩, hstatus⟩

end Checks

section Saves

variable {w w' : World} {id : MoleculeId} {data : StoredMolecule}

theorem emit_store (w : World) (taken : Bool) (event : Event) : (w.emit taken event).store = w.store := by
  unfold World.emit
  split <;> rfl

theorem load_ok : loadMolecule w id = .ok data ↔ w.store id = some (.ok data) := by
  unfold loadMolecule
  split
  · rename_i hnone
    rw [hnone]
    constructor <;> (intro h; cases h)
  · rename_i hbad
    rw [hbad]
    constructor <;> (intro h; cases h)
  · rename_i hgood
    rw [hgood]
    constructor <;> (intro h; cases h; rfl)

theorem save_ok : saveMolecule id data w = (.ok (), w') ↔
    w' = w.put id data ∧ ∀ file, w.store id = some file →
      ∃ current, file = .ok current ∧ refusesSave current.toMoleculeData data.toMoleculeData = false := by
  unfold saveMolecule
  split
  · rename_i reason hbad
    rw [hbad]
    constructor
    · intro h
      cases h
    · rintro ⟨_, h⟩
      obtain ⟨_, h, _⟩ := h _ rfl
      cases h
  · rename_i current hgood
    rw [hgood]
    split
    · rename_i hrefused
      constructor
      · intro h
        cases h
      · rintro ⟨_, h⟩
        obtain ⟨_, hcurrent, h⟩ := h _ rfl
        cases hcurrent
        rw [hrefused] at h
        cases h
    · rename_i hkept
      rw [Bool.not_eq_true] at hkept
      constructor
      · intro h
        cases h
        refine ⟨rfl, ?_⟩
        rintro _ ⟨⟩
        exact ⟨current, rfl, hkept⟩
      · rintro ⟨rfl, _⟩
        rfl
  · rename_i hnone
    rw [hnone]
    constructor
    · intro h
      cases h
      refine ⟨rfl, ?_⟩
      rintro _ ⟨⟩
    · rintro ⟨rfl, _⟩
      rfl

theorem save_error {e : CosmonError} (h : saveMolecule id data w = (.error e, w')) : w' = w := by
  unfold saveMolecule at h
  split at h
  · cases h
    rfl
  · split at h
    · cases h
      rfl
    · cases h
  · cases h

theorem change_ok {change : StoredMolecule → StoredMolecule}
    (h : changeMolecule id change w = (.ok (), w')) :
    ∃ data, w.store id = some (.ok data) ∧ w' = w.put id (change data) := by
  obtain ⟨data, hload, h⟩ := bind_read_ok.mp h
  obtain ⟨rfl, _⟩ := save_ok.mp h
  exact ⟨data, load_ok.mp hload, rfl⟩

end Saves

def Frame (ids : Set MoleculeId) (w w' : World) : Prop := ∀ id, id ∉ ids → w'.store id = w.store id

section Frame

variable {ids : Set MoleculeId}

instance : Std.Refl (Frame ids) := ⟨fun _ _ _ => rfl⟩

instance : IsTrans World (Frame ids) := ⟨fun _ _ _ h h' id hid => (h' id hid).trans (h id hid)⟩

theorem unchanged_of_frame {ε α : Type} {x : Effect World ε α} {w w' : World} {r : Except ε α}
    (hx : Keeps (Frame ids) x) (h : x w = (r, w')) {id : MoleculeId} (hid : id ∉ ids) :
    w'.store id = w.store id := by
  have hframe := hx w id hid
  rw [h] at hframe
  exact hframe

theorem frame_log (w : World) (interaction : Interaction) : Frame ids w (w.log interaction) :=
  fun _ _ => rfl

theorem frame_emit (w : World) (taken : Bool) (event : Event) : Frame ids w (w.emit taken event) :=
  fun id _ => congrFun (emit_store w taken event) id

theorem frame_save {id : MoleculeId} (hid : id ∈ ids) (data : StoredMolecule) :
    Keeps (Frame ids) (saveMolecule id data) := by
  intro w other hother
  have hput : (w.put id data).store other = w.store other :=
    Function.update_of_ne (by rintro rfl; exact hother hid) _ _
  unfold saveMolecule
  split
  · rfl
  · split
    · rfl
    · exact hput
  · exact hput

theorem frame_change {id : MoleculeId} (hid : id ∈ ids) (change : StoredMolecule → StoredMolecule) :
    Keeps (Frame ids) (changeMolecule id change) :=
  (keeps_read _).bind fun data => frame_save hid (change data)

theorem frame_wire {upstream downstream : MoleculeId} (hup : upstream ∈ ids) (hdown : downstream ∈ ids) :
    Keeps (Frame ids) (wire upstream downstream) :=
  (frame_change hup _).bind fun _ => frame_change hdown _

theorem frame_wireChain {products : List MoleculeId} (h : ∀ p ∈ products, p ∈ ids) (chain : Bool) :
    Keeps (Frame ids) (wireIf chain products) := by
  unfold wireIf
  split
  swap
  · exact keeps_pure _
  apply keeps_each
  intro pair hpair
  obtain ⟨hup, hdown⟩ := List.of_mem_zip hpair
  exact (frame_wire (h _ hup) (h _ (List.mem_of_mem_tail hdown))).mapError _

theorem frame_wireBlocks {products targets : List MoleculeId} (hproducts : ∀ p ∈ products, p ∈ ids)
    (htargets : ∀ t ∈ targets, t ∈ ids) : Keeps (Frame ids) (wireBlocks products targets) := by
  apply keeps_each
  intro target htarget
  unfold wireTarget
  split
  · exact keeps_fail _
  · rename_i product hindex
    have htarget := htargets _ (List.fst_mem_of_mem_zipIdx htarget)
    exact (frame_wire (hproducts _ (List.mem_of_getElem? hindex)) htarget).mapError _

theorem frame_logInteraction (env : Env) (interaction : Interaction) :
    Keeps (Frame ids) (logInteraction env interaction) :=
  (keeps_read _).bind fun _ => keeps_modify fun w => frame_log w interaction

end Frame

def touched (env : Env) (op : Op) : Set MoleculeId := {id | id ∈ op.named ∨ id ∈ op.minted env}

section Minted

variable {env : Env} {w w' : World}

theorem mem_minted {op : Op} {formula : Template} (hformula : env.formulas op.formula = .ok formula)
    {i : Nat} (hi : i < op.count) {id : MoleculeId}
    (hmints : formula.mints env.today (env.draws i) = some id) : id ∈ op.minted env := by
  rw [Op.minted, hformula]
  exact List.mem_filterMap.mpr ⟨i, List.mem_range.mpr hi, hmints⟩

theorem returns_createProduct (request : DecayRequest) (checked : Decaying) (i : Nat) :
    Returns (fun id => checked.formula.mints env.today (env.draws i) = some id)
      (createProduct env request checked i) := by
  unfold createProduct
  refine Returns.bind
    (P := fun nuc : NucleateResult => checked.formula.mints env.today (env.draws i) = some nuc.id) ?_ ?_
  · apply returns_read
    intro _ nuc hnuc
    obtain ⟨hmints, _⟩ := nucleate_ok (Lib.Checks.mapError_ok hnuc)
    exact hmints
  · intro nuc hmints
    exact Returns.bind (P := fun _ => True) (fun _ _ _ _ => trivial) fun _ _ => returns_pure hmints

theorem filterMap_of_forall₂ {α β : Type} {f : α → Option β} {l : List α} {bs : List β}
    (h : List.Forall₂ (fun a b => f a = some b) l bs) : l.filterMap f = bs := by
  induction h with
  | nil => rfl
  | cons hb _ ih => rw [List.filterMap_cons_some hb, ih]

theorem returns_products {request : DecayRequest} {checked : Decaying}
    (hformula : env.formulas request.formula = .ok checked.formula) :
    Returns (fun products => products = (Op.decay request).minted env)
      (collect (createProduct env request checked) (List.range request.count)) := by
  intro s products s' h
  have hall := returns_collect (fun i _ => returns_createProduct request checked i) s products s' h
  have hminted : (Op.decay request).minted env = (List.range request.count).filterMap fun i =>
      checked.formula.mints env.today (env.draws i) := by
    dsimp only [Op.minted, Op.formula]
    rw [hformula]
    rfl
  rw [hminted, filterMap_of_forall₂ hall]

end Minted

section Nucleate

variable {env : Env} {request : NucleateRequest} {checked : Nucleated} {w w' : World}

theorem linkBlocker_ok {new : MoleculeId} {blocker : MoleculeId × Nat}
    (h : linkBlocker env new blocker w = (.ok (), w')) :
    ∃ b, w.store blocker.1 = some (.ok b) ∧ (.blocks new ∈ b.typedLinks ∧ w' = w ∨
      w' = w.put blocker.1 ((b.link [.blocks new]).touch (env.clock (blocker.2 + 1)))) := by
  obtain ⟨b, hload, h⟩ := bind_read_ok.mp h
  refine ⟨b, load_ok.mp (Lib.Checks.mapError_ok hload), ?_⟩
  split at h
  · rename_i hlinked
    cases h
    exact Or.inl ⟨hlinked, rfl⟩
  · obtain ⟨rfl, _⟩ := save_ok.mp (mapError_ok.mp h)
    exact Or.inr rfl

theorem sealPrompt_cases {data : StoredMolecule} (h : sealPrompt env checked data w = (.ok (), w')) :
    w'.store = w.store ∨ ∃ stamp now, w'.store =
      (w.put data.id ((data.stampPrompt stamp).touch now)).store := by
  unfold sealPrompt at h
  split at h
  · cases h
    exact Or.inl rfl
  · dsimp only at h
    split at h
    · rename_i hsave
      cases h
      obtain ⟨rfl, _⟩ := save_ok.mp hsave
      exact Or.inr ⟨_, _, emit_store _ _ _⟩
    · rename_i hsave
      cases h
      exact Or.inl (congrArg World.store (save_error hsave))

theorem persist_ok (h : persistAndRecord env request checked w = (.ok (), w')) :
    (∀ file, w.store checked.result.id = some file → ∃ current, file = .ok current ∧
      refusesSave current.toMoleculeData (nucleatedMolecule request checked).toMoleculeData = false) ∧
    ∃ w₁, each (linkBlocker env checked.result.id) checked.blockers.zipIdx
        (w.put checked.result.id (nucleatedMolecule request checked)) = (.ok (), w₁) ∧
      (w'.store = w₁.store ∨ ∃ stamp now, w'.store = (w₁.put checked.result.id
        (((nucleatedMolecule request checked).stampPrompt stamp).touch now)).store) := by
  obtain ⟨⟨⟩, w₁, hsave, h⟩ := bind_ok.mp h
  obtain ⟨rfl, hkept⟩ := save_ok.mp (mapError_ok.mp hsave)
  obtain ⟨⟨⟩, w₂, heach, h⟩ := bind_ok.mp h
  obtain ⟨_, _, h⟩ := bind_read_ok.mp h
  obtain ⟨_, _, h⟩ := bind_read_ok.mp h
  obtain ⟨⟨⟩, w₃, hmodify, h⟩ := bind_ok.mp h
  cases hmodify
  refine ⟨hkept, w₂, heach, ?_⟩
  obtain hsame | ⟨stamp, now, hsealed⟩ := sealPrompt_cases h
  · exact Or.inl (hsame.trans (emit_store _ _ _))
  · refine Or.inr ⟨stamp, now, hsealed.trans ?_⟩
    exact congrArg (fun store => Function.update store _ _) (emit_store _ _ _)

def HoldsOwn (id : MoleculeId) (store : Store) : Prop := ∃ m, store id = some (.ok m) ∧ m.id = id

theorem HoldsOwn.put {id other : MoleculeId} (h : HoldsOwn id w.store) {data : StoredMolecule}
    (hdata : ∀ m, w.store other = some (.ok m) → data.id = m.id) : HoldsOwn id (w.put other data).store := by
  obtain ⟨m, hm, hid⟩ := h
  by_cases hother : id = other
  · subst hother
    exact ⟨data, Function.update_self _ _ _, (hdata m hm).trans hid⟩
  · exact ⟨m, (Function.update_of_ne hother _ _).trans hm, hid⟩

theorem nucleate_created {data : StoredMolecule}
    (h : Interactions.nucleate env request w = (.ok data, w')) :
    ∃ checked, checkNucleate env request w = .ok checked ∧ data.id = checked.result.id := by
  obtain ⟨checked, hchecked, h⟩ := bind_read_ok.mp h
  obtain ⟨⟨⟩, w₁, hpersist, h⟩ := bind_ok.mp h
  obtain ⟨hload, _⟩ := read_ok.mp h
  have hload := load_ok.mp (Lib.Checks.mapError_ok hload)
  refine ⟨checked, hchecked, ?_⟩
  obtain ⟨_, w₂, heach, hsealed⟩ := persist_ok hpersist
  have hown : HoldsOwn checked.result.id w₂.store := by
    refine each_ok (I := fun _ w => HoldsOwn checked.result.id w.store) heach ?_ ?_
    · exact ⟨_, Function.update_self _ _ _, rfl⟩
    · intro _ blocker _ s s' _ hs hlink
      obtain ⟨b, hb, ⟨_, rfl⟩ | rfl⟩ := linkBlocker_ok hlink
      · exact hs
      · apply hs.put
        intro m hm
        rw [hb] at hm
        cases hm
        rfl
  have hown : HoldsOwn checked.result.id w₁.store := by
    obtain hsame | ⟨stamp, now, hsealed⟩ := hsealed
    · rw [hsame]
      exact hown
    · rw [hsealed]
      exact ⟨_, Function.update_self _ _ _, rfl⟩
  obtain ⟨m, hm, hid⟩ := hown
  rw [hload] at hm
  cases hm
  exact hid

theorem frame_linkBlocker {ids : Set MoleculeId} (new : MoleculeId) {blocker : MoleculeId × Nat}
    (h : blocker.1 ∈ ids) : Keeps (Frame ids) (linkBlocker env new blocker) := by
  refine (keeps_read _).bind fun b => ?_
  split
  · exact keeps_pure _
  · exact (frame_save h _).mapError _

theorem frame_sealPrompt {ids : Set MoleculeId} {data : StoredMolecule} (h : data.id ∈ ids) :
    Keeps (Frame ids) (sealPrompt env checked data) := by
  intro w
  unfold sealPrompt
  split
  · exact refl_of (Frame ids) w
  · rename_i stamp _
    have hsave := frame_save h
      ((data.stampPrompt stamp).touch (env.clock (checked.blockers.length + 1))) w
    dsimp only
    split
    · rename_i hresult
      rw [hresult] at hsave
      exact trans_of (Frame ids) hsave (frame_emit _ _ _)
    · rename_i hresult
      rw [hresult] at hsave
      exact hsave

theorem frame_persist {ids : Set MoleculeId} (hnew : checked.result.id ∈ ids)
    (hblockers : ∀ b ∈ checked.blockers, b ∈ ids) :
    Keeps (Frame ids) (persistAndRecord env request checked) := by
  refine ((frame_save hnew _).mapError _).bind fun _ => ?_
  refine (keeps_each fun blocker hb => ?_).bind fun _ => ?_
  · exact frame_linkBlocker _ (hblockers _ (List.fst_mem_of_mem_zipIdx hb))
  · refine (keeps_read _).bind fun _ => (keeps_read _).bind fun _ => ?_
    exact (keeps_modify fun w => frame_emit w _ _).bind fun _ => frame_sealPrompt hnew

end Nucleate

section Operations

variable (env : Env)

theorem frame_nucleate (request : NucleateRequest) :
    Keeps (Frame (touched env (.nucleate request))) (Interactions.nucleate env request) := by
  refine Keeps.bindWith (P := fun checked : Nucleated => checked.blockers = request.blockedBy ∧
    checked.result.id ∈ (Op.nucleate request).minted env) (keeps_read _) ?_ ?_
  · apply returns_read
    intro w checked h
    obtain ⟨hformula, hblockers, _, hmints, _⟩ := checkNucleate_ok h
    exact ⟨hblockers, mem_minted hformula Nat.one_pos hmints⟩
  · rintro checked ⟨hblockers, hnew⟩
    refine (frame_persist (Or.inr hnew) fun b hb => ?_).bind fun _ => keeps_read _
    rw [hblockers] at hb
    exact Or.inl hb

theorem frame_createProduct {request : DecayRequest} {checked : Decaying}
    (hformula : env.formulas request.formula = .ok checked.formula) {i : Nat} (hi : i < request.count) :
    Keeps (Frame (touched env (.decay request))) (createProduct env request checked i) := by
  refine Keeps.bindWith (P := fun nuc : NucleateResult => nuc.id ∈ (Op.decay request).minted env)
    (keeps_read _) ?_ ?_
  · apply returns_read
    intro _ nuc hnuc
    obtain ⟨hmints, _⟩ := nucleate_ok (Lib.Checks.mapError_ok hnuc)
    exact mem_minted hformula hi hmints
  · intro nuc hnew
    exact ((frame_save (Or.inr hnew) _).mapError _).bind fun _ => keeps_pure _

theorem frame_decay (request : DecayRequest) :
    Keeps (Frame (touched env (.decay request))) (Interactions.decay env request) := by
  refine Keeps.bindWith
    (P := fun checked : Decaying => env.formulas request.formula = .ok checked.formula)
    (keeps_read _) ?_ ?_
  · apply returns_read
    intro w checked h
    exact (checkDecay_ok (Lib.Checks.mapError_ok h)).2.2.1
  · intro checked hformula
    refine Keeps.bindWith (keeps_collect fun i hi => ?_) (returns_products hformula) ?_
    · exact frame_createProduct env hformula (List.mem_range.mp hi)
    · rintro _ rfl
      have hproducts : ∀ p ∈ (Op.decay request).minted env, p ∈ touched env (.decay request) :=
        fun p hp => Or.inr hp
      have htargets : ∀ t ∈ request.blocks, t ∈ touched env (.decay request) :=
        fun t ht => Or.inl (List.mem_cons_of_mem _ ht)
      refine (frame_wireChain hproducts _).bind fun _ => (frame_wireBlocks hproducts htargets).bind fun _ => ?_
      refine ((frame_save (Or.inl List.mem_cons_self) _).mapError _).bind fun _ => ?_
      refine ((frame_logInteraction env _).mapError _).bind fun _ => ?_
      refine (keeps_modify fun w => ?_).bind fun _ => keeps_pure _
      exact trans_of (Frame _) (frame_emit _ _ _) (frame_emit _ _ _)

theorem frame_merge (request : MergeRequest) :
    Keeps (Frame (touched env (.merge request))) (Interactions.merge env request) := by
  refine Keeps.bindWith (P := fun checked : Merging => checked.result.id ∈ (Op.merge request).minted env)
    (keeps_read _) ?_ ?_
  · apply returns_read
    intro w checked h
    obtain ⟨_, _, ⟨formula, hformula, hmints⟩, _⟩ := checkMerge_ok h
    exact mem_minted hformula Nat.one_pos hmints
  · intro checked hnew
    refine ((frame_save (Or.inr hnew) _).mapError _).bind fun _ => ?_
    refine (keeps_each fun source hsource => ?_).bind fun _ => ?_
    · have hzip := List.fst_mem_of_mem_zipIdx hsource
      exact (frame_save (Or.inl (List.of_mem_zip hzip).1) _).mapError _
    · refine ((frame_logInteraction env _).mapError _).bind fun _ => ?_
      exact (keeps_modify fun w => frame_emit _ _ _).bind fun _ => keeps_pure _

theorem frame_run (op : Op) : Keeps (Frame (touched env op)) (op.run env) := by
  cases op with
  | nucleate request => exact ((frame_nucleate env request).mapError _).bind fun _ => keeps_pure _
  | decay request => exact ((frame_decay env request).mapError _).bind fun _ => keeps_pure _
  | merge request => exact ((frame_merge env request).mapError _).bind fun _ => keeps_pure _

theorem minted_one (op : Op) {formula : Template} (hformula : env.formulas op.formula = .ok formula)
    (hcount : op.count = 1) {id : MoleculeId} (hmints : formula.mints env.today (env.draws 0) = some id) :
    op.minted env = [id] := by
  rw [Op.minted, hformula, hcount]
  change [0].filterMap _ = [id]
  rw [List.filterMap_cons_some (by exact hmints), List.filterMap_nil]

variable {env}

theorem wireTarget_one (product : MoleculeId) (target : MoleculeId × Nat) :
    wireTarget [product] target = mapError decayStoreErr (wire product target.1) := by
  unfold wireTarget
  rw [List.length_singleton, Nat.sub_self, Nat.min_zero, List.getElem?_cons_zero]

theorem logInteraction_ok {w w' : World} {interaction : Interaction}
    (h : logInteraction env interaction w = (.ok (), w')) :
    w' = w.log interaction ∧ env.interactionLog = .ok () := by
  obtain ⟨⟨⟩, hlog, h⟩ := bind_read_ok.mp h
  cases h
  exact ⟨rfl, hlog⟩

theorem decay_ok {request : DecayRequest} {w w' : World} {view : DecayView}
    (h : Interactions.decay env request w = (.ok view, w')) :
    ∃ checked w₁ w₂ w₃, checkDecay env request w = .ok checked ∧
      collect (createProduct env request checked) (List.range request.count) w = (.ok view.products, w₁) ∧
      wireIf request.chain view.products w₁ = (.ok (), w₂) ∧
      wireBlocks view.products request.blocks w₂ = (.ok (), w₃) ∧
      w'.store = (w₃.put request.source (decayed env checked.source view.products)).store := by
  obtain ⟨checked, hchecked, h⟩ := bind_read_ok.mp h
  obtain ⟨products, w₁, hproducts, h⟩ := bind_ok.mp h
  obtain ⟨⟨⟩, w₂, hchain, h⟩ := bind_ok.mp h
  obtain ⟨⟨⟩, w₃, hblocks, h⟩ := bind_ok.mp h
  obtain ⟨⟨⟩, w₄, hsave, h⟩ := bind_ok.mp h
  obtain ⟨rfl, _⟩ := save_ok.mp (mapError_ok.mp hsave)
  obtain ⟨⟨⟩, w₅, hlog, h⟩ := bind_ok.mp h
  obtain ⟨rfl, _⟩ := logInteraction_ok (mapError_ok.mp hlog)
  cases h
  exact ⟨checked, w₁, w₂, w₃, Lib.Checks.mapError_ok hchecked, hproducts, hchain, hblocks,
    (emit_store _ _ _).trans (emit_store _ _ _)⟩

theorem merge_ok {request : MergeRequest} {w w' : World} {view : MergeView}
    (h : Interactions.merge env request w = (.ok view, w')) :
    ∃ checked w₁, checkMerge env request w = .ok checked ∧ view.product = checked.result.id ∧
      each (completeSource env view.product) (request.sources.zip checked.sources).zipIdx
        (w.put view.product (mergeProduct request checked)) = (.ok (), w₁) ∧ w'.store = w₁.store := by
  obtain ⟨checked, hchecked, h⟩ := bind_read_ok.mp h
  obtain ⟨⟨⟩, w₁, hsave, h⟩ := bind_ok.mp h
  obtain ⟨rfl, _⟩ := save_ok.mp (mapError_ok.mp hsave)
  obtain ⟨⟨⟩, w₂, heach, h⟩ := bind_ok.mp h
  obtain ⟨⟨⟩, w₃, hlog, h⟩ := bind_ok.mp h
  obtain ⟨rfl, _⟩ := logInteraction_ok (mapError_ok.mp hlog)
  cases h
  exact ⟨checked, w₂, hchecked, rfl, heach, emit_store _ _ _⟩

variable (env)

theorem run_created (op : Op) : Returns (fun created => created = op.minted env) (op.run env) := by
  intro w created w' h
  cases op with
  | nucleate request =>
    obtain ⟨data, w₁, hdata, h⟩ := bind_ok.mp h
    cases h
    obtain ⟨checked, hchecked, hid⟩ := nucleate_created (mapError_ok.mp hdata)
    obtain ⟨hformula, _, _, hmints, _⟩ := checkNucleate_ok hchecked
    rw [hid, minted_one env (.nucleate request) hformula rfl hmints]
  | decay request =>
    obtain ⟨view, w₁, hview, h⟩ := bind_ok.mp h
    cases h
    obtain ⟨checked, _, _, _, hchecked, hproducts, _⟩ := decay_ok (mapError_ok.mp hview)
    obtain ⟨_, _, hformula, _⟩ := checkDecay_ok hchecked
    exact returns_products hformula _ _ _ hproducts
  | merge request =>
    obtain ⟨view, w₁, hview, h⟩ := bind_ok.mp h
    cases h
    obtain ⟨checked, _, hchecked, hproduct, _⟩ := merge_ok (mapError_ok.mp hview)
    obtain ⟨_, _, ⟨formula, hformula, hmints⟩, _⟩ := checkMerge_ok hchecked
    rw [hproduct, minted_one env (.merge request) hformula rfl hmints]

end Operations

/-- What was created was not there before, and what was there and is not named by the
request is as it was. -/
def CreatesOnly (op : Op) (w w' : World) (created : List MoleculeId) : Prop :=
  (∀ id ∈ created, w.store id = none) ∧
    ∀ id, id ∉ op.named → w.store id ≠ none → w'.store id = w.store id

/-- The save of a new molecule does not look for an older one, so an operation creates
only as long as its draws mint ids that are free. -/
theorem createsOnly_iff {env : Env} {op : Op} {w w' : World} {created : List MoleculeId}
    (h : op.run env w = (.ok created, w')) :
    CreatesOnly op w w' created ↔ ∀ id ∈ op.minted env, w.store id = none := by
  have hcreated := run_created env op w created w' h
  have hframe := frame_run env op w
  rw [h] at hframe
  subst hcreated
  constructor
  · intro hcreates
    exact hcreates.1
  · intro hfresh
    refine ⟨hfresh, fun id hnamed hthere => hframe id ?_⟩
    rintro (hmem | hmem)
    · exact hnamed hmem
    · exact hthere (hfresh id hmem)

section Collision

def taskWork : Template where
  name := "task-work"
  description := ""
  steps := []
  freezeOnLastStep := false
  tier := .zero
  requiresCapabilities := []
  idPrefix := "task"

def zeroDay : Env where
  today := "20260801"
  draws := fun _ => 0
  clock := fun _ => 0
  formulas := fun _ => .ok taskWork

def emptyWorld : World where
  store := fun _ => none

def runningWorld : World where
  store := Function.update (fun _ => none) "task-20260801-0000"
    (some (.ok { id := "task-20260801-0000", status := .running }))

theorem emptyWorld_createsOnly :
    CreatesOnly (.nucleate { formula := "task-work" }) emptyWorld
      ((Op.nucleate { formula := "task-work" }).run zeroDay emptyWorld).2 ["task-20260801-0000"] :=
  (createsOnly_iff (Prod.ext (by decide) rfl)).mpr fun _ _ => rfl

/-- The draw mints the id of a running molecule, and its record is replaced. -/
theorem runningWorld_not_createsOnly :
    ((Op.nucleate { formula := "task-work" }).run zeroDay runningWorld).1 = .ok ["task-20260801-0000"] ∧
      ¬CreatesOnly (.nucleate { formula := "task-work" }) runningWorld
        ((Op.nucleate { formula := "task-work" }).run zeroDay runningWorld).2 ["task-20260801-0000"] := by
  refine ⟨by decide, fun h => ?_⟩
  have hfree := h.1 "task-20260801-0000" (List.mem_singleton_self _)
  exact absurd hfree (by decide)

end Collision

end Cosmon.State.InteractionFrames
