import Cosmon.State.Molecule

namespace Cosmon.State.Frontier

open Cosmon.State.Molecule

/-- A blocker is cleared when it completed and its branch has landed. A
missing record is not evidence of completion. -/
def predecessorCleared (molecules : List MoleculeData) (id : MoleculeId) : Bool :=
  match byId molecules id with
  | none => false
  | some m => m.status.satisfiesBlockedBy && m.mergedAt.isSome

/-- The lineage gate of a decay product. An absent parent does not hold its
products back, unless the store reported it as unreadable. -/
def decayedParentCleared (molecules : List MoleculeData) (unreadable : List String)
    (id : MoleculeId) : Bool :=
  if id ∈ unreadable then false
  else
    match byId molecules id with
    | none => true
    | some parent =>
      match parent.status with
      | .collapsed => true
      | .frozen => parent.stuckAt.isNone
      | .completed => parent.mergedAt.isSome
      | _ => false

def dispatchable (molecules : List MoleculeData) (unreadable : List String) (m : MoleculeData) : Bool :=
  m.status = .pending && m.assignedWorker.isNone &&
    m.blockedBy.all (predecessorCleared molecules) &&
    m.typedLinks.all fun link =>
      match link with
      | .decayedFrom id => decayedParentCleared molecules unreadable id
      | _ => true

def computeFromMoleculesWithUnreadable (molecules : List MoleculeData) (unreadable : List String) :
    List MoleculeId :=
  ((molecules.filter (dispatchable molecules unreadable)).map MoleculeData.id).insertionSort (· ≤ ·)

def computeFromMolecules (molecules : List MoleculeData) : List MoleculeId :=
  computeFromMoleculesWithUnreadable molecules []

/-- Every source of a `BlockedBy` link of `m` has a record that completed
and merged. -/
def BlockersLanded (molecules : List MoleculeData) (m : MoleculeData) : Prop :=
  ∀ source, .blockedBy source ∈ m.typedLinks →
    ∃ b, byId molecules source = some b ∧ b.status = .completed ∧ b.mergedAt.isSome

theorem mem_blockedBy {m : MoleculeData} {source : MoleculeId} :
    source ∈ m.blockedBy ↔ .blockedBy source ∈ m.typedLinks := by
  simp only [MoleculeData.blockedBy, List.mem_filterMap]
  constructor
  · rintro ⟨link, hl, h⟩
    cases link <;> simp only [MoleculeLink.blockedBySource, Option.some.injEq, reduceCtorEq] at h
    subst h
    exact hl
  · exact fun h => ⟨_, h, rfl⟩

theorem predecessorCleared_iff {molecules : List MoleculeData} {id : MoleculeId} :
    predecessorCleared molecules id ↔
      ∃ b, byId molecules id = some b ∧ b.status = .completed ∧ b.mergedAt.isSome := by
  unfold predecessorCleared
  cases h : byId molecules id with
  | none => simp
  | some b => simp [MoleculeStatus.satisfiesBlockedBy]

theorem dispatchable_iff {molecules : List MoleculeData} {unreadable : List String} {m : MoleculeData} :
    dispatchable molecules unreadable m ↔
      m.status = .pending ∧ m.assignedWorker = none ∧ BlockersLanded molecules m ∧
        ∀ parent, .decayedFrom parent ∈ m.typedLinks → decayedParentCleared molecules unreadable parent := by
  have hblockers : (∀ source ∈ m.blockedBy, predecessorCleared molecules source) ↔
      BlockersLanded molecules m := by
    simp only [BlockersLanded, predecessorCleared_iff, mem_blockedBy]
  have hlinks : (∀ link ∈ m.typedLinks, (match link with
      | .decayedFrom id => decayedParentCleared molecules unreadable id
      | _ => true) = true) ↔
      ∀ parent, .decayedFrom parent ∈ m.typedLinks → decayedParentCleared molecules unreadable parent := by
    constructor
    · exact fun h parent hmem => h _ hmem
    · intro h link hmem
      cases link with
      | decayedFrom id => exact h id hmem
      | _ => rfl
  simp only [dispatchable, Bool.and_eq_true, decide_eq_true_eq, Option.isNone_iff_eq_none,
    List.all_eq_true, hblockers, hlinks, and_assoc]

theorem dispatchable_unreadable {molecules : List MoleculeData} {unreadable : List String}
    {m : MoleculeData} : dispatchable molecules unreadable m ↔
      dispatchable molecules [] m ∧ ∀ parent, .decayedFrom parent ∈ m.typedLinks → parent ∉ unreadable := by
  have hparent : ∀ parent, decayedParentCleared molecules unreadable parent ↔
      decayedParentCleared molecules [] parent ∧ parent ∉ unreadable := by
    intro parent
    simp only [decayedParentCleared]
    by_cases h : parent ∈ unreadable <;> simp [h]
  simp only [dispatchable_iff, hparent, and_assoc, ← forall_and]

theorem mem_computeFromMoleculesWithUnreadable {molecules : List MoleculeData}
    {unreadable : List String} {id : MoleculeId} :
    id ∈ computeFromMoleculesWithUnreadable molecules unreadable ↔
      ∃ m ∈ molecules, m.id = id ∧ dispatchable molecules unreadable m := by
  simp only [computeFromMoleculesWithUnreadable, List.mem_insertionSort, List.mem_map, List.mem_filter]
  constructor
  · rintro ⟨m, ⟨hm, hd⟩, rfl⟩
    exact ⟨m, hm, rfl, hd⟩
  · rintro ⟨m, hm, rfl, hd⟩
    exact ⟨m, ⟨hm, hd⟩, rfl⟩

theorem mem_computeFromMolecules {molecules : List MoleculeData} {id : MoleculeId}
    (h : id ∈ computeFromMolecules molecules) :
    ∃ m ∈ molecules, m.id = id ∧ m.status = .pending ∧ m.assignedWorker = none ∧
      BlockersLanded molecules m := by
  obtain ⟨m, hm, hid, hd⟩ := mem_computeFromMoleculesWithUnreadable.mp h
  obtain ⟨hpending, hfree, hlanded, -⟩ := dispatchable_iff.mp hd
  exact ⟨m, hm, hid, hpending, hfree, hlanded⟩

end Cosmon.State.Frontier
