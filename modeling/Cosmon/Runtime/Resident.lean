import Cosmon.State.Molecule

namespace Cosmon.Runtime.Resident

open Cosmon.State.Molecule

/-- One entry of `molecule_states`, as the scheduler reads it. Statuses and
time stamps are the strings of the JSON. -/
structure EnsembleMolecule where
  id : String
  status : String
  kind : Option String := none
  tags : List String := []
  blockedBy : List String := []
  mergedAt : Option String := none
  stuckAt : Option String := none
  freezeOnLastStep : Bool := false
  adapter : Option String := none
  dispatchedAdapter : Option String := none
  baseBranch : Option String := none

structure EnsembleSnapshot where
  molecules : List EnsembleMolecule := []

def startsWith (tag start : String) : Bool := start.toList.isPrefixOf tag.toList

def reservedForHuman (molecule : EnsembleMolecule) : Bool :=
  molecule.tags.any (fun tag => tag = "hold:human") ||
    (molecule.kind = some "decision" && !molecule.tags.any (fun tag => tag = "auto:ok"))

def harvestReserved (molecule : EnsembleMolecule) : Bool :=
  molecule.tags.any (fun tag => tag = "no-auto-harvest" || startsWith tag "harvest_to:")

def requiresReview (molecule : EnsembleMolecule) : Bool :=
  molecule.tags.any (fun tag => tag = "needs-review" || tag = "needs-review-cross-provider" ||
    tag = "security" || startsWith tag "security:")

/-- There is no confirmation on disk yet: review is always a person's. -/
def reviewConfirmedOnDisk (_molecule : EnsembleMolecule) : Bool := false

abbrev HarnessMap := List (String × String)

inductive Decision where
  | tackle (moleculeId : String) (adapter base : Option String) (harness : HarnessMap)
  | done (moleculeId : String)
deriving DecidableEq

def Decision.verb : Decision → String
  | .tackle _ _ _ _ => "tackle"
  | .done _ => "done"

def Decision.moleculeId : Decision → String
  | .tackle moleculeId _ _ _ => moleculeId
  | .done moleculeId => moleculeId

structure ReadyFrontierScheduler where
  tackled : Finset String := ∅
  merged : Finset String := ∅
  runAdapter : Option String := none
  runBase : Option String := none
  runHarness : HarnessMap := []

/-- A blocker that no longer gates its dependents: completed and merged. -/
def clears (m : EnsembleMolecule) : Bool :=
  (MoleculeStatus.fromStr m.status).any MoleculeStatus.satisfiesBlockedBy && m.mergedAt.isSome

def EnsembleSnapshot.cleared (snapshot : EnsembleSnapshot) : List String :=
  (snapshot.molecules.filter clears).map EnsembleMolecule.id

/-- Whatever has left `pending` on disk counts as tackled. -/
def markMoved (tackled : Finset String) (molecules : List EnsembleMolecule) : Finset String :=
  molecules.foldl (fun tackled m => if m.status ≠ "pending" then insert m.id tackled else tackled) tackled

def doneSweep (merged : Finset String) : List EnsembleMolecule → Finset String × List Decision
  | [] => (merged, [])
  | m :: rest =>
    if m.status = "completed" ∧ m.id ∉ merged then
      if reservedForHuman m then doneSweep merged rest
      else if harvestReserved m then doneSweep merged rest
      else if requiresReview m && !reviewConfirmedOnDisk m then doneSweep merged rest
      else
        let (merged, out) := doneSweep (insert m.id merged) rest
        (merged, .done m.id :: out)
    else doneSweep merged rest

/-- The dispatch of a molecule: its own pins, else the directives of the run. -/
def ReadyFrontierScheduler.tackleOf (s : ReadyFrontierScheduler) (m : EnsembleMolecule) : Decision :=
  .tackle m.id (m.adapter <|> s.runAdapter) (m.baseBranch <|> s.runBase) s.runHarness

def tackleSweep (s : ReadyFrontierScheduler) (cleared : List String) (tackled : Finset String) :
    List EnsembleMolecule → Finset String × List Decision
  | [] => (tackled, [])
  | m :: rest =>
    if m.status ≠ "pending" ∨ m.id ∈ tackled then tackleSweep s cleared tackled rest
    else if reservedForHuman m then tackleSweep s cleared tackled rest
    -- A missing record does not provide a completion verdict.
    else if m.blockedBy.all (fun b => b ∈ cleared) then
      let (tackled, out) := tackleSweep s cleared (insert m.id tackled) rest
      (tackled, s.tackleOf m :: out)
    else tackleSweep s cleared tackled rest

def ReadyFrontierScheduler.nextDecisions (s : ReadyFrontierScheduler) (snapshot : EnsembleSnapshot) :
    ReadyFrontierScheduler × List Decision :=
  let tackled := markMoved s.tackled snapshot.molecules
  let (merged, dones) := doneSweep s.merged snapshot.molecules
  let (tackled, tackles) := tackleSweep s snapshot.cleared tackled snapshot.molecules
  ({ s with tackled := tackled, merged := merged }, dones ++ tackles)

def ReadyFrontierScheduler.forgetDispatch (s : ReadyFrontierScheduler) (id : String) :
    ReadyFrontierScheduler :=
  { s with tackled := s.tackled.erase id, merged := s.merged.erase id }

/-- The blockers of an entry are all completed and merged in the snapshot. -/
def BlockersMet (snapshot : EnsembleSnapshot) (m : EnsembleMolecule) : Prop :=
  ∀ b ∈ m.blockedBy, ∃ blocker ∈ snapshot.molecules, blocker.id = b ∧ blocker.status = "completed" ∧
    blocker.mergedAt.isSome

section Sweeps

variable {s : ReadyFrontierScheduler} {cleared : List String} {tackled : Finset String}

def Eligible (cleared : List String) (m : EnsembleMolecule) : Prop :=
  m.status = "pending" ∧ reservedForHuman m = false ∧ ∀ b ∈ m.blockedBy, b ∈ cleared

theorem tackleSweep_cons (s : ReadyFrontierScheduler) (cleared : List String) (tackled : Finset String)
    (m : EnsembleMolecule) (rest : List EnsembleMolecule) :
    (Eligible cleared m ∧ m.id ∉ tackled ∧ tackleSweep s cleared tackled (m :: rest) =
      ((tackleSweep s cleared (insert m.id tackled) rest).1,
        s.tackleOf m :: (tackleSweep s cleared (insert m.id tackled) rest).2)) ∨
    (¬(Eligible cleared m ∧ m.id ∉ tackled) ∧
      tackleSweep s cleared tackled (m :: rest) = tackleSweep s cleared tackled rest) := by
  rw [tackleSweep]
  split
  · rename_i h
    refine .inr ⟨fun ⟨he, hid⟩ => ?_, rfl⟩
    exact h.elim (fun hs => hs he.1) hid
  · rename_i h
    rw [not_or, not_not] at h
    split
    · rename_i hres
      exact .inr ⟨fun he => by simp [he.1.2.1] at hres, rfl⟩
    · rename_i hres
      split
      · rename_i hall
        refine .inl ⟨⟨h.1, by simpa using hres, by simpa using hall⟩, h.2, rfl⟩
      · rename_i hall
        exact .inr ⟨fun he => hall (by simpa using he.1.2.2), rfl⟩

theorem subset_tackleSweep (molecules : List EnsembleMolecule) :
    tackled ⊆ (tackleSweep s cleared tackled molecules).1 := by
  induction molecules generalizing tackled with
  | nil => exact Finset.Subset.refl _
  | cons m rest ih =>
    rcases tackleSweep_cons s cleared tackled m rest with ⟨-, -, heq⟩ | ⟨-, heq⟩ <;> rw [heq]
    · exact (Finset.subset_insert _ _).trans ih
    · exact ih

theorem mem_tackleSweep {molecules : List EnsembleMolecule} {d : Decision}
    (h : d ∈ (tackleSweep s cleared tackled molecules).2) :
    ∃ m ∈ molecules, d = s.tackleOf m ∧ Eligible cleared m ∧ m.id ∉ tackled ∧
      m.id ∈ (tackleSweep s cleared tackled molecules).1 := by
  induction molecules generalizing tackled with
  | nil => cases h
  | cons m rest ih =>
    rcases tackleSweep_cons s cleared tackled m rest with ⟨he, hid, heq⟩ | ⟨-, heq⟩ <;> rw [heq] at h ⊢
    · rcases List.mem_cons.mp h with rfl | hrest
      · exact ⟨m, List.mem_cons_self, rfl, he, hid, subset_tackleSweep rest (Finset.mem_insert_self _ _)⟩
      · obtain ⟨m', hm', hd, he', hid', hmark⟩ := ih hrest
        exact ⟨m', List.mem_cons_of_mem _ hm', hd, he', fun h => hid' (Finset.mem_insert_of_mem h), hmark⟩
    · obtain ⟨m', hm', hrest⟩ := ih h
      exact ⟨m', List.mem_cons_of_mem _ hm', hrest⟩

def Decision.tackles (id : String) : Decision → Bool
  | .tackle moleculeId _ _ _ => moleculeId = id
  | .done _ => false

theorem tackles_tackleOf (m : EnsembleMolecule) (id : String) :
    (s.tackleOf m).tackles id = decide (m.id = id) := rfl

theorem tackleSweep_of_eligible {molecules : List EnsembleMolecule} {m : EnsembleMolecule}
    (hm : m ∈ molecules) (he : Eligible cleared m) (hid : m.id ∉ tackled) :
    ∃ d ∈ (tackleSweep s cleared tackled molecules).2, d.tackles m.id := by
  induction molecules generalizing tackled with
  | nil => cases hm
  | cons m' rest ih =>
    rcases tackleSweep_cons s cleared tackled m' rest with ⟨-, -, heq⟩ | ⟨hnot, heq⟩ <;> rw [heq]
    · by_cases hsame : m'.id = m.id
      · exact ⟨s.tackleOf m', List.mem_cons_self, by simp [tackles_tackleOf, hsame]⟩
      · have hrest : m ∈ rest := (List.mem_cons.mp hm).resolve_left (fun h => hsame (h ▸ rfl))
        obtain ⟨d, hd, htackles⟩ := ih hrest (show m.id ∉ insert m'.id tackled by simp [Ne.symm hsame, hid])
        exact ⟨d, List.mem_cons_of_mem _ hd, htackles⟩
    · rcases List.mem_cons.mp hm with rfl | hrest
      · exact absurd ⟨he, hid⟩ hnot
      · exact ih hrest hid

theorem countP_tackleSweep_marked {id : String} (molecules : List EnsembleMolecule)
    (hid : id ∈ tackled) :
    (tackleSweep s cleared tackled molecules).2.countP (Decision.tackles id) = 0 := by
  rw [List.countP_eq_zero]
  intro d hd htackles
  obtain ⟨m, -, rfl, -, hm, -⟩ := mem_tackleSweep hd
  rw [tackles_tackleOf, decide_eq_true_eq] at htackles
  exact hm (htackles ▸ hid)

theorem countP_tackleSweep_le (id : String) (molecules : List EnsembleMolecule) :
    (tackleSweep s cleared tackled molecules).2.countP (Decision.tackles id) ≤ 1 := by
  induction molecules generalizing tackled with
  | nil => exact Nat.zero_le 1
  | cons m rest ih =>
    rcases tackleSweep_cons s cleared tackled m rest with ⟨-, -, heq⟩ | ⟨-, heq⟩ <;> rw [heq]
    · rw [List.countP_cons, tackles_tackleOf]
      by_cases hid : m.id = id
      · rw [countP_tackleSweep_marked rest (hid ▸ Finset.mem_insert_self _ _)]
        simp [hid]
      · simpa [hid] using ih
    · exact ih

theorem mem_doneSweep {merged : Finset String} {molecules : List EnsembleMolecule} {d : Decision}
    (h : d ∈ (doneSweep merged molecules).2) :
    ∃ m ∈ molecules, d = .done m.id ∧ m.status = "completed" ∧ reservedForHuman m = false ∧
      harvestReserved m = false ∧ requiresReview m = false := by
  induction molecules generalizing merged with
  | nil => cases h
  | cons m rest ih =>
    have hrest : ∀ {merged}, d ∈ (doneSweep merged rest).2 →
        ∃ m' ∈ m :: rest, d = .done m'.id ∧ m'.status = "completed" ∧ reservedForHuman m' = false ∧
          harvestReserved m' = false ∧ requiresReview m' = false := by
      intro merged hd
      obtain ⟨m', hm', hprops⟩ := ih hd
      exact ⟨m', List.mem_cons_of_mem _ hm', hprops⟩
    rw [doneSweep] at h
    split at h
    · rename_i hcompleted
      split at h
      · exact hrest h
      · rename_i hreserved
        split at h
        · exact hrest h
        · rename_i hharvest
          split at h
          · exact hrest h
          · rename_i hreview
            rcases List.mem_cons.mp h with rfl | hd
            · refine ⟨m, List.mem_cons_self, rfl, hcompleted.1, by simpa using hreserved,
                by simpa using hharvest, ?_⟩
              simpa [reviewConfirmedOnDisk] using hreview
            · exact hrest hd
    · exact hrest h

theorem countP_doneSweep (id : String) (merged : Finset String) (molecules : List EnsembleMolecule) :
    (doneSweep merged molecules).2.countP (Decision.tackles id) = 0 := by
  rw [List.countP_eq_zero]
  intro d hd
  obtain ⟨m, -, rfl, -⟩ := mem_doneSweep hd
  simp [Decision.tackles]

theorem mem_markMoved {id : String} {molecules : List EnsembleMolecule} :
    id ∈ markMoved tackled molecules ↔
      id ∈ tackled ∨ ∃ m ∈ molecules, m.id = id ∧ m.status ≠ "pending" := by
  induction molecules generalizing tackled with
  | nil => simp [markMoved]
  | cons m rest ih =>
    have hstep : markMoved tackled (m :: rest) =
        markMoved (if m.status ≠ "pending" then insert m.id tackled else tackled) rest := rfl
    rw [hstep, ih]
    split
    · rename_i hm
      simp only [Finset.mem_insert, List.mem_cons, exists_eq_or_imp, eq_comm (a := id)]
      tauto
    · rename_i hm
      simp only [List.mem_cons, exists_eq_or_imp]
      tauto

end Sweeps

section Runs

variable {s : ReadyFrontierScheduler} {snapshot : EnsembleSnapshot}

theorem fromStr_eq_completed {status : String} :
    MoleculeStatus.fromStr status = some .completed ↔ status = "completed" := by
  unfold MoleculeStatus.fromStr
  split <;> simp_all

theorem clears_iff {m : EnsembleMolecule} :
    clears m ↔ m.status = "completed" ∧ m.mergedAt.isSome := by
  rw [← fromStr_eq_completed, clears]
  cases MoleculeStatus.fromStr m.status <;> simp [MoleculeStatus.satisfiesBlockedBy]

theorem mem_cleared {id : String} : id ∈ snapshot.cleared ↔
    ∃ m ∈ snapshot.molecules, m.id = id ∧ m.status = "completed" ∧ m.mergedAt.isSome := by
  simp only [EnsembleSnapshot.cleared, List.mem_map, List.mem_filter, clears_iff]
  constructor
  · rintro ⟨m, ⟨hm, hclears⟩, rfl⟩
    exact ⟨m, hm, rfl, hclears⟩
  · rintro ⟨m, hm, rfl, hclears⟩
    exact ⟨m, ⟨hm, hclears⟩, rfl⟩

theorem mem_nextDecisions {d : Decision} (h : d ∈ (s.nextDecisions snapshot).2) :
    d ∈ (doneSweep s.merged snapshot.molecules).2 ∨
      d ∈ (tackleSweep s snapshot.cleared (markMoved s.tackled snapshot.molecules)
        snapshot.molecules).2 :=
  List.mem_append.mp h

/-- A dispatch is of a pending, unreserved entry without an unmet blocker, and
every other entry of the same id is pending too. -/
theorem tackle_sound {id : String} {adapter base : Option String} {harness : HarnessMap}
    (h : .tackle id adapter base harness ∈ (s.nextDecisions snapshot).2) :
    (∃ m ∈ snapshot.molecules, m.id = id ∧ m.status = "pending" ∧ reservedForHuman m = false ∧
      "hold:human" ∉ m.tags ∧ BlockersMet snapshot m) ∧
    ∀ m ∈ snapshot.molecules, m.id = id → m.status = "pending" := by
  rcases mem_nextDecisions h with hdone | htackle
  · obtain ⟨m, -, hd, -⟩ := mem_doneSweep hdone
    cases hd
  · obtain ⟨m, hm, hd, ⟨hpending, hreserved, hblockers⟩, hid, -⟩ := mem_tackleSweep htackle
    have hid' : id = m.id := (Decision.tackle.inj hd).1
    subst hid'
    rw [mem_markMoved, not_or] at hid
    refine ⟨⟨m, hm, rfl, hpending, hreserved, fun hold => ?_, fun b hb => ?_⟩, fun m' hm' hid' => ?_⟩
    · simp only [reservedForHuman, Bool.or_eq_false_iff, List.any_eq_false] at hreserved
      exact hreserved.1 _ hold (by simp)
    · exact mem_cleared.mp (hblockers b hb)
    · by_contra hmoved
      exact hid.2 ⟨m', hm', hid', hmoved⟩

theorem done_sound {id : String} (h : .done id ∈ (s.nextDecisions snapshot).2) :
    ∃ m ∈ snapshot.molecules, m.id = id ∧ m.status = "completed" ∧ reservedForHuman m = false ∧
      "no-auto-harvest" ∉ m.tags ∧ (∀ tag ∈ m.tags, startsWith tag "harvest_to:" = false) ∧
      requiresReview m = false := by
  rcases mem_nextDecisions h with hdone | htackle
  · obtain ⟨m, hm, hd, hcompleted, hreserved, hharvest, hreview⟩ := mem_doneSweep hdone
    cases hd
    simp only [harvestReserved, List.any_eq_false, Bool.or_eq_true, decide_eq_true_eq, not_or,
      Bool.not_eq_true] at hharvest
    exact ⟨m, hm, rfl, hcompleted, hreserved, fun htag => (hharvest _ htag).1 rfl,
      fun tag htag => (hharvest tag htag).2, hreview⟩
  · obtain ⟨m, -, hd, -⟩ := mem_tackleSweep htackle
    cases hd

theorem tackles_iff {d : Decision} {id : String} :
    d.tackles id ↔ ∃ adapter base harness, d = .tackle id adapter base harness := by
  cases d with
  | tackle i adapter base harness => simp [Decision.tackles]
  | done i => simp [Decision.tackles]

/-- A fresh scheduler dispatches exactly the molecules with a pending,
unreserved entry without an unmet blocker, and with no entry that is not
pending. -/
theorem fresh_tackles_iff (hs : s.tackled = ∅) {id : String} :
    (∃ d ∈ (s.nextDecisions snapshot).2, d.tackles id) ↔
      (∃ m ∈ snapshot.molecules, m.id = id ∧ m.status = "pending" ∧ reservedForHuman m = false ∧
        BlockersMet snapshot m) ∧ ∀ m ∈ snapshot.molecules, m.id = id → m.status = "pending" := by
  constructor
  · rintro ⟨d, hd, htackles⟩
    obtain ⟨adapter, base, harness, rfl⟩ := tackles_iff.mp htackles
    obtain ⟨⟨m, hm, hid, hpending, hreserved, -, hmet⟩, hall⟩ := tackle_sound hd
    exact ⟨⟨m, hm, hid, hpending, hreserved, hmet⟩, hall⟩
  · rintro ⟨⟨m, hm, rfl, hpending, hreserved, hmet⟩, hall⟩
    have hunmarked : m.id ∉ markMoved s.tackled snapshot.molecules := by
      rw [mem_markMoved, hs, not_or]
      refine ⟨Finset.notMem_empty _, ?_⟩
      rintro ⟨m', hm', hid, hmoved⟩
      exact hmoved (hall m' hm' hid)
    obtain ⟨d, hd, htackles⟩ := tackleSweep_of_eligible (s := s) hm
      ⟨hpending, hreserved, fun b hb => mem_cleared.mpr (hmet b hb)⟩ hunmarked
    exact ⟨d, List.mem_append_right _ hd, htackles⟩

/-- One tick dispatches an id at most once, not at all if it is marked, and
leaves it marked if it did or if it was. -/
theorem countP_nextDecisions (s : ReadyFrontierScheduler) (snapshot : EnsembleSnapshot) (id : String) :
    ((s.nextDecisions snapshot).2.countP (Decision.tackles id) ≤ 1) ∧
    (id ∈ s.tackled → (s.nextDecisions snapshot).2.countP (Decision.tackles id) = 0) ∧
    (id ∈ s.tackled ∨ 0 < (s.nextDecisions snapshot).2.countP (Decision.tackles id) →
      id ∈ (s.nextDecisions snapshot).1.tackled) := by
  have hcount : (s.nextDecisions snapshot).2.countP (Decision.tackles id) =
      (tackleSweep s snapshot.cleared (markMoved s.tackled snapshot.molecules)
        snapshot.molecules).2.countP (Decision.tackles id) := by
    rw [ReadyFrontierScheduler.nextDecisions]
    simp only [List.countP_append, countP_doneSweep, Nat.zero_add]
  rw [hcount]
  refine ⟨countP_tackleSweep_le id _, fun hid => ?_, fun h => ?_⟩
  · exact countP_tackleSweep_marked _ (mem_markMoved.mpr (.inl hid))
  · rcases h with hid | hpos
    · exact subset_tackleSweep _ (mem_markMoved.mpr (.inl hid))
    · obtain ⟨d, hd, htackles⟩ := List.countP_pos_iff.mp hpos
      obtain ⟨m, -, rfl, -, -, hmark⟩ := mem_tackleSweep hd
      rw [tackles_tackleOf, decide_eq_true_eq] at htackles
      exact htackles ▸ hmark

inductive Op where
  | tick (snapshot : EnsembleSnapshot)
  | forget (id : String)

def step (s : ReadyFrontierScheduler) : Op → ReadyFrontierScheduler
  | .tick snapshot => (s.nextDecisions snapshot).1
  | .forget id => s.forgetDispatch id

def decisions (s : ReadyFrontierScheduler) : Op → List Decision
  | .tick snapshot => (s.nextDecisions snapshot).2
  | .forget _ => []

def emitted (s : ReadyFrontierScheduler) : List Op → List Decision
  | [] => []
  | op :: ops => decisions s op ++ emitted (step s op) ops

/-- Without a `forget_dispatch` of the id, it is dispatched at most once, and
not at all if it is marked. -/
theorem countP_emitted (s : ReadyFrontierScheduler) {ops : List Op} {id : String}
    (h : .forget id ∉ ops) :
    (emitted s ops).countP (Decision.tackles id) ≤ 1 ∧
      (id ∈ s.tackled → (emitted s ops).countP (Decision.tackles id) = 0) := by
  induction ops generalizing s with
  | nil => exact ⟨Nat.zero_le 1, fun _ => rfl⟩
  | cons op ops ih =>
    have hrest := ih (step s op) (fun hmem => h (List.mem_cons_of_mem _ hmem))
    rw [emitted, List.countP_append]
    cases op with
    | forget i =>
      have hi : id ≠ i := fun heq => h (heq ▸ List.mem_cons_self)
      refine ⟨by simpa [decisions] using hrest.1, fun hid => ?_⟩
      rw [hrest.2 (Finset.mem_erase.mpr ⟨hi, hid⟩)]
      rfl
    | tick snapshot =>
      obtain ⟨hle, hzero, hmark⟩ := countP_nextDecisions s snapshot id
      have hmarked := hrest.2
      simp only [decisions, step] at *
      refine ⟨?_, fun hid => ?_⟩
      · rcases Nat.eq_zero_or_pos ((s.nextDecisions snapshot).2.countP (Decision.tackles id)) with h0 | hpos
        · omega
        · rw [hmarked (hmark (.inr hpos))]
          exact hle
      · rw [hzero hid, hmarked (hmark (.inl hid))]

/-- After any sequence of snapshots and retractions: until its next retraction
an id is dispatched at most once; a dispatch is of an entry that is pending,
neither reserved nor held and without an unmet blocker; a merge is of an entry
that is neither reserved, nor braked, nor in need of review. -/
theorem scheduler_decides_safely (s : ReadyFrontierScheduler) (before : List Op) :
    (∀ window id, .forget id ∉ window →
      (emitted (before.foldl step s) window).countP (Decision.tackles id) ≤ 1) ∧
    (∀ snapshot id adapter base harness,
      .tackle id adapter base harness ∈ decisions (before.foldl step s) (.tick snapshot) →
      (∃ m ∈ snapshot.molecules, m.id = id ∧ m.status = "pending" ∧ reservedForHuman m = false ∧
        "hold:human" ∉ m.tags ∧ BlockersMet snapshot m) ∧
      ∀ m ∈ snapshot.molecules, m.id = id → m.status = "pending") ∧
    ∀ snapshot id, .done id ∈ decisions (before.foldl step s) (.tick snapshot) →
      ∃ m ∈ snapshot.molecules, m.id = id ∧ m.status = "completed" ∧ reservedForHuman m = false ∧
        "no-auto-harvest" ∉ m.tags ∧ (∀ tag ∈ m.tags, startsWith tag "harvest_to:" = false) ∧
        requiresReview m = false :=
  ⟨fun _ _ hwindow => (countP_emitted _ hwindow).1, fun _ _ _ _ _ h => tackle_sound h,
    fun _ _ h => done_sound h⟩

def twoMolecules : EnsembleSnapshot :=
  ⟨[{ id := "a", status := "completed", mergedAt := some "t" },
    { id := "b", status := "pending", blockedBy := ["a"] }]⟩

theorem scheduler_decides_safely_twice :
    emitted {} [.tick twoMolecules, .tick twoMolecules] = [.done "a", .tackle "b" none none []] ∧
      (emitted {} [.tick twoMolecules, .tick twoMolecules]).countP (Decision.tackles "b") ≤ 1 ∧
      (∃ m ∈ twoMolecules.molecules, m.id = "b" ∧ m.status = "pending" ∧ reservedForHuman m = false ∧
        "hold:human" ∉ m.tags ∧ BlockersMet twoMolecules m) ∧
      ∃ m ∈ twoMolecules.molecules, m.id = "a" ∧ m.status = "completed" ∧ reservedForHuman m = false ∧
        "no-auto-harvest" ∉ m.tags ∧ (∀ tag ∈ m.tags, startsWith tag "harvest_to:" = false) ∧
        requiresReview m = false :=
  ⟨by decide, (scheduler_decides_safely {} []).1 [.tick twoMolecules, .tick twoMolecules] "b" (by simp),
    ((scheduler_decides_safely {} []).2.1 twoMolecules "b" none none [] (by decide)).1,
    (scheduler_decides_safely {} []).2.2 twoMolecules "a" (by decide)⟩

end Runs

end Cosmon.Runtime.Resident
