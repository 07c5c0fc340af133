import Cosmon.Core.HarvestDoor
import Cosmon.Lib.Runs
import Cosmon.Runtime.Resident
import Cosmon.State.InteractionFrames

namespace Cosmon.State.Tagging

open Cosmon.Core.Tags (tagNew validateKey)

open Cosmon.Lib.Text (splitOnce splitOnce_of_none)

open Cosmon.Lib.Effects Cosmon.Lib.Effects.Effect Cosmon.Lib.Runs Cosmon.State.Molecule
  Cosmon.State.Interactions Cosmon.State.InteractionFrames Cosmon.Runtime.Resident Cosmon.Core.HarvestDoor

inductive TagError where
  | moleculeNotFound (id : MoleculeId)
  | emptyRequest
  | protectedReservation (tag : Tag)
  | protectedDecisionOptIn (tag : Tag)
  | storeUnavailable (message : String)
deriving DecidableEq

def TagError.fromCosmon (id : MoleculeId) : CosmonError → TagError
  | .moleculeNotFound _ => .moleculeNotFound id
  | other => .storeUnavailable other.toString

structure TagDelta where
  id : MoleculeId
  beforeCount : Nat
  afterCount : Nat
  requestedAdd : List Tag
  requestedRemove : List Tag
  finalTags : Finset Tag

def isRuntimeReservation (tag : Tag) : Bool :=
  tag = "hold:human" || tag = "needs-review" || tag = "needs-review-cross-provider" ||
    tag = "security" || startsWith tag "security:"

structure TagCall where
  id : MoleculeId
  add : List Tag
  remove : List Tag
  now : Instant := 0

def TagCall.retagged (call : TagCall) (tags : Finset Tag) : Finset Tag :=
  (tags ∪ call.add.toFinset) \ call.remove.toFinset

def TagCall.applied (call : TagCall) (mol : StoredMolecule) : StoredMolecule :=
  { mol with tags := call.retagged mol.tags, updatedAt := call.now }

def TagCall.delta (call : TagCall) (mol : StoredMolecule) : TagDelta where
  id := call.id
  beforeCount := mol.tags.card
  afterCount := (call.retagged mol.tags).card
  requestedAdd := call.add
  requestedRemove := call.remove
  finalTags := call.retagged mol.tags

def checkRequest (call : TagCall) : Except TagError Unit :=
  if call.add = [] ∧ call.remove = [] then .error .emptyRequest
  else
    match call.remove.find? isRuntimeReservation with
    | some tag => .error (.protectedReservation tag)
    | none => .ok ()

/-- A decision is reserved until it is opted in, so the opt-in is not a tag to add. -/
def checkOptIn (call : TagCall) (mol : StoredMolecule) : Except TagError Unit :=
  if mol.kind = some .decision then
    match call.add.find? fun tag => tag = "auto:ok" with
    | some tag => .error (.protectedDecisionOptIn tag)
    | none => .ok ()
  else .ok ()

def tag (call : TagCall) : Effect World TagError TagDelta := do
  ofExcept (checkRequest call)
  let mol ← mapError (TagError.fromCosmon call.id) (read fun w => loadMolecule w call.id)
  ofExcept (checkOptIn call mol)
  mapError (TagError.fromCosmon call.id) (saveMolecule call.id (call.applied mol))
  return call.delta mol

def Accepted (call : TagCall) (mol : StoredMolecule) : Prop :=
  checkRequest call = .ok () ∧ checkOptIn call mol = .ok ()

section Calls

variable {call : TagCall} {mol : StoredMolecule} {w : World}

theorem checkRequest_ok (h : checkRequest call = .ok ()) :
    ∀ tag ∈ call.remove, isRuntimeReservation tag = false := by
  unfold checkRequest at h
  split at h
  · cases h
  · split at h
    · cases h
    · rename_i hnone
      intro tag htag
      exact eq_false_of_ne_true (List.find?_eq_none.mp hnone tag htag)

theorem checkOptIn_ok (h : checkOptIn call mol = .ok ()) (hkind : mol.kind = some .decision) :
    "auto:ok" ∉ call.add := by
  rw [checkOptIn, if_pos hkind] at h
  split at h
  · cases h
  · rename_i hnone
    intro hadd
    exact List.find?_eq_none.mp hnone _ hadd (decide_eq_true rfl)

theorem tag_accepted (hmol : w.store call.id = some (.ok mol)) (h : Accepted call mol) :
    (tag call w).2 = w.put call.id (call.applied mol) := by
  have hsave : saveMolecule call.id (call.applied mol) w = (.ok (), w.put call.id (call.applied mol)) := by
    refine save_ok.mpr ⟨rfl, fun file hfile => ?_⟩
    cases hmol.symm.trans hfile
    refine ⟨mol, rfl, ?_⟩
    change (decide (mol.status = .collapsed) && (decide (mol.status ≠ .collapsed) ||
      decide (mol.collapseReceipt ≠ mol.collapseReceipt))) = false
    by_cases hstatus : mol.status = .collapsed
    · rw [decide_eq_false (not_not.mpr hstatus), decide_eq_false (not_not.mpr rfl), Bool.or_false,
        Bool.and_false]
    · rw [decide_eq_false hstatus, Bool.false_and]
  have hrun : tag call w = (.ok (call.delta mol), w.put call.id (call.applied mol)) := by
    refine bind_ok.mpr ⟨(), w, read_ok.mpr ⟨h.1, rfl⟩, ?_⟩
    refine bind_ok.mpr ⟨mol, w, mapError_ok.mpr (read_ok.mpr ⟨load_ok.mpr hmol, rfl⟩), ?_⟩
    refine bind_ok.mpr ⟨(), w, read_ok.mpr ⟨h.2, rfl⟩, ?_⟩
    exact bind_ok.mpr ⟨(), _, mapError_ok.mpr hsave, rfl⟩
  rw [hrun]

theorem tag_refused (h : ∀ mol, w.store call.id = some (.ok mol) → ¬Accepted call mol) :
    (tag call w).2 = w := by
  obtain ⟨delta, w', hrun⟩ | ⟨e, w', hrun⟩ := outcome (tag call) w
  · obtain ⟨⟨⟩, hrequest, hloaded⟩ := bind_read_ok.mp hrun
    obtain ⟨mol, w₁, hload, hchecked⟩ := bind_ok.mp hloaded
    obtain ⟨hload, rfl⟩ := read_ok.mp (mapError_ok.mp hload)
    obtain ⟨⟨⟩, hoptIn, _⟩ := bind_read_ok.mp hchecked
    exact absurd ⟨hrequest, hoptIn⟩ (h mol (load_ok.mp hload))
  · rw [hrun]
    obtain hrequest | ⟨⟨⟩, w₁, hrequest, hloaded⟩ := bind_error.mp hrun
    · exact (congrArg Prod.snd hrequest).symm
    obtain ⟨hpassed, rfl⟩ := read_ok.mp hrequest
    obtain hload | ⟨mol, w₂, hload, hchecked⟩ := bind_error.mp hloaded
    · obtain ⟨_, hload, _⟩ := mapError_error.mp hload
      exact (congrArg Prod.snd hload).symm
    obtain ⟨hload, rfl⟩ := read_ok.mp (mapError_ok.mp hload)
    obtain hoptIn | ⟨⟨⟩, w₃, hoptIn, _⟩ := bind_error.mp hchecked
    · exact (congrArg Prod.snd hoptIn).symm
    exact absurd ⟨hpassed, (read_ok.mp hoptIn).1⟩ (h mol (load_ok.mp hload))

end Calls

section Marks

variable (rfc3339 : Instant → String)

/-- The projection of a record that the resident scheduler reads, with its times as text. -/
def ensembleMolecule (m : StoredMolecule) : EnsembleMolecule where
  id := m.id
  status := m.status.asStr
  kind := m.kind.map MoleculeKind.asStr
  tags := tagList m.tags
  blockedBy := m.blockedBy.mergeSort
  mergedAt := m.mergedAt.map rfc3339
  stuckAt := m.stuckAt.map rfc3339
  freezeOnLastStep := m.freezeOnLastStep
  adapter := m.adapter <|> m.process.bind (·.adapterName)
  dispatchedAdapter := m.process.bind (·.adapterName)
  baseBranch := (m.baseBranch.map fun base => String.ofList (Lib.Text.trim base.toList)).filter (· ≠ "")

/-- Who may find a molecule reserved: the harvest door, or the scheduler for one of its
three reasons. -/
inductive Mark where
  | door
  | human
  | harvest
  | review

def Mark.found (m : StoredMolecule) : Mark → Bool
  | .door => (reservationRequiringSeal (tagList m.tags)).isSome
  | .human => reservedForHuman (ensembleMolecule rfc3339 m)
  | .harvest => harvestReserved (ensembleMolecule rfc3339 m)
  | .review => requiresReview (ensembleMolecule rfc3339 m)

def harvestTag (tag : Tag) : Bool := tag = "no-auto-harvest" || startsWith tag "harvest_to:"

/-- Not all harvest tags that the molecule has and gets are taken away. -/
def Careful (call : TagCall) (mol : StoredMolecule) : Prop :=
  ∀ tag ∈ mol.tags, harvestTag tag → ∃ kept, (kept ∈ mol.tags ∨ kept ∈ call.add) ∧ harvestTag kept ∧
    kept ∉ call.remove

variable {call : TagCall} {mol : StoredMolecule} {tag : Tag}

theorem mem_applied : tag ∈ (call.applied mol).tags ↔
    (tag ∈ mol.tags ∨ tag ∈ call.add) ∧ tag ∉ call.remove := by
  change tag ∈ call.retagged mol.tags ↔ _
  rw [TagCall.retagged, Finset.mem_sdiff, Finset.mem_union, List.mem_toFinset, List.mem_toFinset]

theorem mem_applied_of_protected (h : Accepted call mol) (hprotected : isRuntimeReservation tag)
    (htag : tag ∈ mol.tags) : tag ∈ (call.applied mol).tags := by
  refine mem_applied.mpr ⟨Or.inl htag, fun hremove => ?_⟩
  rw [checkRequest_ok h.1 tag hremove] at hprotected
  cases hprotected

theorem any_tagList {tags : Finset Tag} {p : Tag → Bool} : (tagList tags).any p ↔ ∃ tag ∈ tags, p tag := by
  simp only [List.any_eq_true, mem_tagList]

theorem found_door : Mark.found rfc3339 mol .door ↔ ∃ tag ∈ mol.tags, reserves tag := by
  simp only [Mark.found, reservationRequiringSeal_isSome, mem_tagList]

theorem found_harvest : Mark.found rfc3339 mol .harvest ↔ ∃ tag ∈ mol.tags, harvestTag tag := any_tagList

theorem found_review : Mark.found rfc3339 mol .review ↔ ∃ tag ∈ mol.tags, (tag = "needs-review" ||
    tag = "needs-review-cross-provider" || tag = "security" || startsWith tag "security:") := any_tagList

theorem found_human : Mark.found rfc3339 mol .human ↔
    "hold:human" ∈ mol.tags ∨ (mol.kind = some .decision ∧ "auto:ok" ∉ mol.tags) := by
  have hkind : mol.kind.map MoleculeKind.asStr = some "decision" ↔ mol.kind = some .decision := by
    rcases mol.kind with _ | kind
    · refine iff_of_false ?_ ?_ <;> (intro hc; cases hc)
    · cases kind <;> decide
  have hany (name : String) : (tagList mol.tags).any (fun tag => tag = name) ↔ name ∈ mol.tags := by
    simp only [any_tagList, decide_eq_true_eq, exists_eq_right]
  rw [Mark.found, reservedForHuman, Bool.or_eq_true, Bool.and_eq_true, Bool.not_eq_true',
    decide_eq_true_eq, ← Bool.not_eq_true]
  exact or_congr (hany _) (and_congr hkind (not_congr (hany _)))

theorem reserves_cases (h : reserves tag) : isRuntimeReservation tag ∨ harvestTag tag := by
  simp only [reserves, RESERVATION_TAGS, RESERVATION_TAG_PREFIXES, isRuntimeReservation, harvestTag, startsWith,
    List.any_cons, List.any_nil, Bool.or_eq_true, decide_eq_true_eq, List.mem_cons, List.not_mem_nil,
    or_false, Bool.or_false] at h ⊢
  tauto

theorem reserves_of_harvestTag (h : harvestTag tag) : reserves tag := by
  simp only [reserves, RESERVATION_TAGS, RESERVATION_TAG_PREFIXES, harvestTag, startsWith,
    List.any_cons, List.any_nil, Bool.or_eq_true, decide_eq_true_eq, List.mem_cons, List.not_mem_nil,
    or_false, Bool.or_false] at h ⊢
  tauto

end Marks

section Runs

variable (rfc3339 : Instant → String)

def perform (w : World) (call : TagCall) : World := (tag call w).2

def Kept (w w' : World) : Prop :=
  ∀ id mol, w.store id = some (.ok mol) → ∃ mol', w'.store id = some (.ok mol') ∧
    ∀ mark, Mark.found rfc3339 mol mark → Mark.found rfc3339 mol' mark

def CarefulCall (w : World) (call : TagCall) : Prop :=
  ∀ mol, w.store call.id = some (.ok mol) → Accepted call mol → Careful call mol

variable {call : TagCall} {mol : StoredMolecule} {w w₂ w₃ : World}

theorem Kept.refl : Kept rfc3339 w w := fun _ mol hmol => ⟨mol, hmol, fun _ hfound => hfound⟩

variable {rfc3339} in
theorem Kept.trans (h : Kept rfc3339 w w₂) (h' : Kept rfc3339 w₂ w₃) : Kept rfc3339 w w₃ := by
  intro id mol hmol
  obtain ⟨mol₂, hmol₂, hfound₂⟩ := h id mol hmol
  obtain ⟨mol₃, hmol₃, hfound₃⟩ := h' id mol₂ hmol₂
  exact ⟨mol₃, hmol₃, fun mark hfound => hfound₃ mark (hfound₂ mark hfound)⟩

/-- Two of the marks rest on protected tags and on an opt-in that cannot be added. The
other two also rest on the harvest tags. -/
theorem found_applied (haccepted : Accepted call mol) (hcareful : Careful call mol) (mark : Mark)
    (h : Mark.found rfc3339 mol mark) : Mark.found rfc3339 (call.applied mol) mark := by
  have hharvest {tag : Tag} (htag : tag ∈ mol.tags) (hmark : harvestTag tag) :
      ∃ kept ∈ (call.applied mol).tags, harvestTag kept := by
    obtain ⟨kept, hkept, hmark, hremove⟩ := hcareful tag htag hmark
    exact ⟨kept, mem_applied.mpr ⟨hkept, hremove⟩, hmark⟩
  cases mark with
  | door =>
    obtain ⟨tag, htag, hreserves⟩ := (found_door rfc3339).mp h
    apply (found_door rfc3339).mpr
    obtain hprotected | hmark := reserves_cases hreserves
    · exact ⟨tag, mem_applied_of_protected haccepted hprotected htag, hreserves⟩
    · obtain ⟨kept, hkept, hmark⟩ := hharvest htag hmark
      exact ⟨kept, hkept, reserves_of_harvestTag hmark⟩
  | human =>
    apply (found_human rfc3339).mpr
    obtain hhold | ⟨hkind, hoptIn⟩ := (found_human rfc3339).mp h
    · exact Or.inl (mem_applied_of_protected haccepted (by decide) hhold)
    · refine Or.inr ⟨hkind, fun hadded => ?_⟩
      obtain ⟨hhad | hadd, _⟩ := mem_applied.mp hadded
      · exact hoptIn hhad
      · exact checkOptIn_ok haccepted.2 hkind hadd
  | harvest =>
    obtain ⟨tag, htag, hmark⟩ := (found_harvest rfc3339).mp h
    exact (found_harvest rfc3339).mpr (hharvest htag hmark)
  | review =>
    obtain ⟨tag, htag, hreview⟩ := (found_review rfc3339).mp h
    refine (found_review rfc3339).mpr ⟨tag, mem_applied_of_protected haccepted ?_ htag, hreview⟩
    simp only [isRuntimeReservation, Bool.or_eq_true] at hreview ⊢
    tauto

theorem kept_perform (h : CarefulCall w call) : Kept rfc3339 w (perform w call) := by
  by_cases hrun : ∃ mol, w.store call.id = some (.ok mol) ∧ Accepted call mol
  · obtain ⟨mol, hmol, haccepted⟩ := hrun
    rw [perform, tag_accepted hmol haccepted]
    intro id other hother
    by_cases hid : id = call.id
    · subst hid
      cases hmol.symm.trans hother
      exact ⟨_, Function.update_self _ _ _, found_applied rfc3339 haccepted (h mol hmol haccepted)⟩
    · exact ⟨other, (Function.update_of_ne hid _ _).trans hother, fun _ hfound => hfound⟩
  · rw [perform, tag_refused fun mol hmol haccepted => hrun ⟨mol, hmol, haccepted⟩]
    exact Kept.refl rfc3339

theorem carefulCall_of_kept (h : Kept rfc3339 w (perform w call)) : CarefulCall w call := by
  intro mol hmol haccepted tag htag hmark
  obtain ⟨mol', hmol', hfound⟩ := h call.id mol hmol
  rw [perform, tag_accepted hmol haccepted] at hmol'
  cases (Function.update_self _ _ _).symm.trans hmol'
  obtain ⟨kept, hkept, hmark⟩ :=
    (found_harvest rfc3339).mp (hfound .harvest ((found_harvest rfc3339).mpr ⟨tag, htag, hmark⟩))
  obtain ⟨hkept, hremove⟩ := mem_applied.mp hkept
  exact ⟨kept, hkept, hmark, hremove⟩

/-- The marks last through a run of calls as long as no call takes away the last harvest
tag of a molecule. -/
theorem kept_run_iff (w : World) (calls : List TagCall) :
    (∀ i j, i ≤ j → Kept rfc3339 (stateAt perform w calls i) (stateAt perform w calls j)) ↔
      ∀ n call, calls[n]? = some call → CarefulCall (stateAt perform w calls n) call := by
  constructor
  · intro h n call hcall
    have hkept := h n (n + 1) (Nat.le_succ n)
    rw [stateAt_succ perform hcall] at hkept
    exact carefulCall_of_kept rfc3339 hkept
  · intro h i j hij
    refine stateAt_preserves (P := Kept rfc3339 (stateAt perform w calls i)) w (fun n call hcall hkept => ?_)
      hij (Kept.refl rfc3339)
    exact hkept.trans (kept_perform rfc3339 (h n call hcall))

def parked : StoredMolecule where
  id := "task-20260720-820a"
  status := .completed
  tags := {"no-auto-harvest"}

def parkedWorld : World where
  store := Function.update (fun _ => none) "task-20260720-820a" (some (.ok parked))

def unpark : TagCall where
  id := "task-20260720-820a"
  add := []
  remove := ["no-auto-harvest"]

theorem parked_not_kept : Mark.found (fun _ => "") parked .door ∧
    ¬Kept (fun _ => "") parkedWorld (perform parkedWorld unpark) := by
  refine ⟨(found_door _).mpr ⟨"no-auto-harvest", by decide, by decide⟩, fun h => ?_⟩
  have hparked : parkedWorld.store unpark.id = some (.ok parked) := by
    dsimp only [parkedWorld, unpark]
    rw [Function.update_self]
  obtain ⟨kept, hkept, _, hremove⟩ := carefulCall_of_kept _ h parked hparked ⟨by decide, by decide⟩
    "no-auto-harvest" (by decide) (by decide)
  obtain rfl : kept = "no-auto-harvest" := by
    obtain hmem | hadd := hkept
    · exact Finset.mem_singleton.mp hmem
    · exact absurd hadd List.not_mem_nil
  exact hremove (List.mem_singleton_self _)

end Runs

end Cosmon.State.Tagging
