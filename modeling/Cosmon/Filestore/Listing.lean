import Cosmon.Filestore.TreeSafety
import Mathlib.Data.List.Pairwise

namespace Cosmon.Filestore.StateTree

open Cosmon.State.Molecule Cosmon.Core.CollapseContract Cosmon.Filestore.Layout Cosmon.Lib.Runs

/-- What a listing may be narrowed to; `none` does not filter. -/
structure MoleculeFilter where
  fleet : Option FleetId := none
  kind : Option MoleculeKind := none
  status : Option MoleculeStatus := none
  worker : Option WorkerId := none
  formula : Option FormulaId := none
  project : Option ProjectId := none

def matchesFilter (mol : MoleculeData) (filter : MoleculeFilter) : Bool :=
  filter.fleet.all (fun fleet => mol.fleetId = fleet) &&
    filter.kind.all (fun kind => mol.kind = some kind) &&
    filter.status.all (fun status => mol.status = status) &&
    filter.worker.all (fun worker => mol.assignedWorker = some worker) &&
    filter.formula.all (fun formula => mol.formulaId = formula) &&
    filter.project.all (fun project => mol.projectId = some project)

structure UnreadableMolecule where
  id : MoleculeId
  path : String
  reason : String

structure MoleculeListing where
  molecules : List MoleculeData := []
  unreadable : List UnreadableMolecule := []

/-- The answers of `read_dir` during one listing: the entries of `fleets/`,
and of each directory of molecules. -/
structure Scan where
  fleets : List FleetId
  names : Dir → List MoleculeId

def statePath (root : String) : Dir → MoleculeId → String
  | .fleet f, id => root ++ "/fleets/" ++ f ++ "/molecules/" ++ id ++ "/state.json"
  | .legacy, id => root ++ "/ops/molecules/" ++ id ++ "/state.json"

/-- One entry of a directory of molecules is listed, named as unreadable, or
passed over. -/
def scanEntry (root : String) (t : Tree) (filter : MoleculeFilter) (d : Dir)
    (listing : MoleculeListing) (name : MoleculeId) : MoleculeListing :=
  match t.entry d name with
  | .record mol =>
    if matchesFilter mol filter then { listing with molecules := listing.molecules ++ [mol] } else listing
  | .unreadable reason =>
    { listing with unreadable := listing.unreadable ++ [⟨name, statePath root d name, reason⟩] }
  | .absent | .empty => listing

def scanMoleculesDir (root : String) (t : Tree) (scan : Scan) (filter : MoleculeFilter)
    (listing : MoleculeListing) (d : Dir) : MoleculeListing :=
  (scan.names d).foldl (scanEntry root t filter d) listing

def Scan.dirs (scan : Scan) : List Dir := scan.fleets.map .fleet ++ [.legacy]

def listMoleculesReport (root : String) (t : Tree) (scan : Scan) (filter : MoleculeFilter) :
    MoleculeListing :=
  let listing := scan.dirs.foldl (scanMoleculesDir root t scan filter) {}
  { molecules := listing.molecules.mergeSort (fun a b => a.id ≤ b.id)
    unreadable := listing.unreadable.mergeSort (fun a b => a.path ≤ b.path) }

def listMolecules (root : String) (t : Tree) (scan : Scan) (filter : MoleculeFilter) :
    List MoleculeData :=
  (listMoleculesReport root t scan filter).molecules

/-- `read_dir` answers every entry once. -/
structure Scan.Reads (scan : Scan) (t : Tree) : Prop where
  fleets_nodup : scan.fleets.Nodup
  fleets_complete : ∀ f id, (t.entry (.fleet f) id).isDir → f ∈ scan.fleets
  names_nodup : ∀ d, (scan.names d).Nodup
  mem_names : ∀ d id, id ∈ scan.names d ↔ (t.entry d id).isDir

def Recorded (t : Tree) : Prop := ∀ d id, t.entry d id = .absent ∨ ∃ m, t.entry d id = .record m

def UniqueDir (t : Tree) : Prop :=
  ∀ id d d', (t.entry d id).isDir → (t.entry d' id).isDir → d = d'

def Tree.recordAt (t : Tree) (d : Dir) (id : MoleculeId) : Option MoleculeData :=
  match t.entry d id with
  | .record m => some m
  | _ => none

section Listing

variable {root : String} {t : Tree} {scan : Scan}

theorem recordAt_id {d : Dir} {id : MoleculeId} {m : MoleculeData} (h : t.recordAt d id = some m) :
    t.entry d id = .record m ∧ m.id = id := by
  rw [Tree.recordAt] at h
  split at h
  · rename_i m' hm'
    cases h
    exact ⟨hm', t.keyed d id m hm'⟩
  · cases h

theorem scanEntries_molecules (d : Dir) (names : List MoleculeId) (listing : MoleculeListing) :
    (names.foldl (scanEntry root t {} d) listing).molecules =
      listing.molecules ++ names.filterMap (t.recordAt d) := by
  induction names generalizing listing with
  | nil => simp
  | cons name names ih =>
    rw [List.foldl_cons, ih]
    cases h : t.entry d name <;>
      simp [scanEntry, Tree.recordAt, matchesFilter, h]

theorem scanDirs_molecules (dirs : List Dir) (listing : MoleculeListing) :
    (dirs.foldl (scanMoleculesDir root t scan {}) listing).molecules =
      listing.molecules ++ dirs.flatMap (fun d => (scan.names d).filterMap (t.recordAt d)) := by
  induction dirs generalizing listing with
  | nil => simp
  | cons d dirs ih =>
    rw [List.foldl_cons, ih, scanMoleculesDir, scanEntries_molecules, List.flatMap_cons,
      List.append_assoc]

theorem listMolecules_perm (root : String) (t : Tree) (scan : Scan) : (listMolecules root t scan {}).Perm
    (scan.dirs.flatMap (fun d => (scan.names d).filterMap (t.recordAt d))) := by
  rw [listMolecules, listMoleculesReport, scanDirs_molecules, List.nil_append]
  exact List.mergeSort_perm ..

theorem mem_listMolecules {m : MoleculeData} (h : m ∈ listMolecules root t scan {}) :
    ∃ d, t.entry d m.id = .record m := by
  rw [(listMolecules_perm root t scan).mem_iff, List.mem_flatMap] at h
  obtain ⟨d, -, hm⟩ := h
  obtain ⟨id, -, hrec⟩ := List.mem_filterMap.mp hm
  obtain ⟨hentry, hid⟩ := recordAt_id hrec
  exact ⟨d, hid ▸ hentry⟩

theorem map_id_records (ht : Recorded t) (hscan : scan.Reads t) (d : Dir) :
    ((scan.names d).filterMap (t.recordAt d)).map MoleculeData.id = scan.names d := by
  have hnames : ∀ names : List MoleculeId, (∀ name ∈ names, (t.entry d name).isDir) →
      (names.filterMap (t.recordAt d)).map MoleculeData.id = names := by
    intro names
    induction names with
    | nil => simp
    | cons name names ih =>
      intro hdir
      rcases ht d name with habsent | ⟨m, hm⟩
      · have := hdir name List.mem_cons_self
        rw [habsent] at this
        cases this
      · have hrec : t.recordAt d name = some m := by simp [Tree.recordAt, hm]
        rw [List.filterMap_cons_some hrec, List.map_cons, t.keyed d name m hm,
          ih (fun n hn => hdir n (List.mem_cons_of_mem _ hn))]
  exact hnames _ (fun name hname => (hscan.mem_names d name).mp hname)

theorem dirs_nodup (hscan : scan.Reads t) : scan.dirs.Nodup := by
  rw [Scan.dirs, List.nodup_append]
  refine ⟨hscan.fleets_nodup.map (fun f g h => by cases h; rfl), List.nodup_singleton _, ?_⟩
  intro d hd d' hd'
  obtain ⟨f, -, rfl⟩ := List.mem_map.mp hd
  rw [List.mem_singleton.mp hd']
  exact Dir.noConfusion

theorem mem_dirs (hscan : scan.Reads t) {d : Dir} {id : MoleculeId} (h : (t.entry d id).isDir) :
    d ∈ scan.dirs := by
  cases d with
  | legacy => simp [Scan.dirs]
  | fleet f => simp [Scan.dirs, hscan.fleets_complete f id h]

theorem nodup_listMolecules_iff (ht : Recorded t) (hscan : scan.Reads t) :
    ((listMolecules root t scan {}).map MoleculeData.id).Nodup ↔ UniqueDir t := by
  have hids : ((listMolecules root t scan {}).map MoleculeData.id).Perm (scan.dirs.flatMap scan.names) := by
    have := (listMolecules_perm root t scan).map MoleculeData.id
    simpa only [List.map_flatMap, map_id_records ht hscan] using this
  rw [hids.nodup_iff, List.nodup_flatMap]
  constructor
  · rintro ⟨-, hpair⟩ id d d' hd hd'
    by_contra hne
    have : Std.Symm (Function.onFun List.Disjoint scan.names) := ⟨fun _ _ h => h.symm⟩
    have hdisjoint := hpair.forall (mem_dirs hscan hd) (mem_dirs hscan hd') hne
    exact hdisjoint ((hscan.mem_names d id).mpr hd) ((hscan.mem_names d' id).mpr hd')
  · intro hunique
    refine ⟨fun d _ => hscan.names_nodup d, ?_⟩
    apply (dirs_nodup hscan).imp
    intro d d' hne id hid hid'
    exact hne (hunique id d d' ((hscan.mem_names d id).mp hid) ((hscan.mem_names d' id).mp hid'))

/-- The listing shows each molecule at most once, and as a load shows it. -/
def ListsAsLoaded (root : String) (t : Tree) (scan : Scan) (order : List FleetId) : Prop :=
  ((listMolecules root t scan {}).map MoleculeData.id).Nodup ∧
    ∀ m ∈ listMolecules root t scan {}, t.loadMolecule order m.id = .ok m

theorem listsAsLoaded_iff (ht : Recorded t) (hscan : scan.Reads t) {order : List FleetId}
    (horder : ∀ id, ReadsDir t order id) : ListsAsLoaded root t scan order ↔ UniqueDir t := by
  rw [ListsAsLoaded, nodup_listMolecules_iff ht hscan]
  refine ⟨fun h => h.1, fun hunique => ⟨hunique, fun m hm => ?_⟩⟩
  obtain ⟨d, hd⟩ := mem_listMolecules hm
  have hdir : (t.entry d m.id).isDir := by rw [hd]; rfl
  have hfound := leads_moleculeDir (B := fun _ _ => True) (horder m.id) (fun _ _ _ => trivial) hdir
  rw [Tree.loadMolecule, hunique m.id _ d hfound.isDir hdir, hd]

end Listing

/-- One save, with the scan its check makes. -/
structure Save where
  order : List FleetId
  data : MoleculeData
  expected : Option MoleculeRevision

def save (env : Env) (t : Tree) (s : Save) : Tree :=
  match t.checkWrite env s.order s.data s.expected with
  | .ok () => (t.createDir s.data).rename s.data
  | .error _ => t

/-- The molecule is new, or in the directory a save of `data` writes to. -/
def InPlace (t : Tree) (data : MoleculeData) : Prop :=
  ∀ d, (t.entry d data.id).isDir → d = .fleet data.fleetId

section Saves

variable {env : Env} {t : Tree}

theorem save_cases (env : Env) (t : Tree) (s : Save) :
    (t.checkWrite env s.order s.data s.expected = .ok () ∧ save env t s = t.rename s.data) ∨
      t.checkWrite env s.order s.data s.expected ≠ .ok () ∧ save env t s = t := by
  rw [save]
  split
  · rename_i hok
    exact .inl ⟨hok, t.rename_createDir s.data⟩
  · rename_i e herr
    exact .inr ⟨by simp [herr], rfl⟩

theorem recorded_save (h : Recorded t) (s : Save) : Recorded (save env t s) := by
  rcases save_cases env t s with ⟨-, hsave⟩ | ⟨-, hsave⟩ <;> rw [hsave]
  · intro d id
    simp only [Tree.rename, Tree.set]
    split
    · exact .inr ⟨s.data, rfl⟩
    · exact h d id
  · exact h

theorem uniqueDir_rename (h : UniqueDir t) (data : MoleculeData) :
    UniqueDir (t.rename data) ↔ InPlace t data := by
  constructor
  · intro hunique d hd
    apply hunique data.id d _ ((isDir_rename_iff data d data.id).mpr (.inr hd))
    rw [t.rename_self]
    rfl
  · intro hplace id
    by_cases hid : id = data.id
    · subst hid
      have hhome : ∀ d, ((t.rename data).entry d data.id).isDir → d = .fleet data.fleetId := by
        intro d hd
        by_contra hne
        rw [t.rename_of_ne_dir data hne] at hd
        exact hne (hplace d hd)
      intro d d' hd hd'
      rw [hhome d hd, hhome d' hd']
    · intro d d' hd hd'
      rw [t.rename_of_ne_id data _ hid] at hd hd'
      exact h id d d' hd hd'

theorem uniqueDir_save (h : UniqueDir t) (s : Save) : UniqueDir (save env t s) ↔
    (t.checkWrite env s.order s.data s.expected = .ok () → InPlace t s.data) := by
  rcases save_cases env t s with ⟨hok, hsave⟩ | ⟨herr, hsave⟩ <;> rw [hsave]
  · rw [uniqueDir_rename h]
    exact ⟨fun hplace _ => hplace, fun himp => himp hok⟩
  · exact ⟨fun _ hok => absurd hok herr, fun _ => h⟩

variable (env t)

/-- The tree before the `n`-th save. -/
def treeAt (saves : List Save) (n : Nat) : Tree := stateAt (save env) t saves n

variable {env t}

theorem uniqueDir_treeAt_iff (saves : List Save) : (∀ n, UniqueDir (treeAt env t saves n)) ↔
    UniqueDir t ∧ ∀ n s, saves[n]? = some s →
      (treeAt env t saves n).checkWrite env s.order s.data s.expected = .ok () →
      InPlace (treeAt env t saves n) s.data := by
  constructor
  · intro h
    refine ⟨h 0, fun n s hs => ?_⟩
    rw [← uniqueDir_save (h n) s]
    have := h (n + 1)
    rwa [treeAt, stateAt_succ _ hs] at this
  · rintro ⟨hstart, hsaves⟩ n
    apply stateAt_preserves _ _ (Nat.zero_le n) hstart
    intro k s hs ih
    exact (uniqueDir_save ih s).mpr (hsaves k s hs)

/-- Whatever mixture of flat and fleet records a store starts from, its listing
agrees with its loads in every state of a sequence of saves exactly when no
molecule had two directories at the start and every save that was accepted
went to the directory its molecule was in, or created the molecule. -/
theorem listsAsLoaded_run_iff {root : String} (saves : List Save) (ht : Recorded t)
    (scans : Nat → Scan) (hscans : ∀ n, (scans n).Reads (treeAt env t saves n))
    (orders : Nat → List FleetId) (horders : ∀ n id, ReadsDir (treeAt env t saves n) (orders n) id) :
    (∀ n, ListsAsLoaded root (treeAt env t saves n) (scans n) (orders n)) ↔
      UniqueDir t ∧ ∀ n s, saves[n]? = some s →
        (treeAt env t saves n).checkWrite env s.order s.data s.expected = .ok () →
        InPlace (treeAt env t saves n) s.data := by
  have hrecorded : ∀ n, Recorded (treeAt env t saves n) := by
    intro n
    exact stateAt_preserves _ (fun _ s _ ih => recorded_save ih s) (Nat.zero_le n) ht
  rw [← uniqueDir_treeAt_iff]
  apply forall_congr'
  intro n
  exact listsAsLoaded_iff (hrecorded n) (hscans n) (horders n)

end Saves

section Instances

theorem oneRecord_isDir (d d' : Dir) (data : MoleculeData) (id : MoleculeId) :
    ((oneRecord d data).entry d' id).isDir ↔ d' = d ∧ id = data.id := by
  simp only [oneRecord]
  split <;> simp_all [Entry.isDir]

/-- `read_dir` of a tree that holds the molecule `m` in some directories. -/
def scanOf (dirs : List Dir) : Scan := ⟨["default"], fun d => if d ∈ dirs then ["m"] else []⟩

theorem reads_scanOf {t : Tree} {dirs : List Dir} (hfleets : ∀ f, .fleet f ∈ dirs → f = "default")
    (hdirs : ∀ d id, (t.entry d id).isDir ↔ d ∈ dirs ∧ id = "m") : (scanOf dirs).Reads t where
  fleets_nodup := List.nodup_singleton _
  fleets_complete := fun f id h => List.mem_singleton.mpr (hfleets f ((hdirs _ _).mp h).1)
  names_nodup := by
    intro d
    simp only [scanOf]
    split <;> simp
  mem_names := by
    intro d id
    rw [hdirs]
    simp only [scanOf]
    split <;> simp_all

def inPlaceSaves : List Save := [⟨["default"], collapsedRecord, none⟩]

def inPlaceTree (n : Nat) : Tree :=
  treeAt exampleEnv (oneRecord (.fleet "default") staleRecord) inPlaceSaves n

theorem inPlaceTree_isDir (n : Nat) (d : Dir) (id : MoleculeId) :
    ((inPlaceTree n).entry d id).isDir ↔ d ∈ [Dir.fleet "default"] ∧ id = "m" := by
  rw [List.mem_singleton]
  cases n with
  | zero => exact oneRecord_isDir ..
  | succ n =>
    have htree : inPlaceTree (n + 1) =
        (oneRecord (.fleet "default") staleRecord).rename collapsedRecord := by
      rw [inPlaceTree, treeAt, stateAt, inPlaceSaves, List.take_succ_cons, List.take_nil]
      exact Tree.rename_createDir ..
    rw [htree, isDir_rename_iff, oneRecord_isDir]
    exact or_self_iff

theorem listsAsLoaded_run_in_place :
    ListsAsLoaded "" (inPlaceTree 1) (scanOf [.fleet "default"]) ["default"] := by
  refine (listsAsLoaded_run_iff inPlaceSaves ?_ (fun _ => scanOf [.fleet "default"]) ?_
    (fun _ => ["default"]) ?_).mpr ⟨?_, ?_⟩ 1
  · intro d id
    simp only [oneRecord]
    split
    · exact .inr ⟨_, rfl⟩
    · exact .inl rfl
  · exact fun n => reads_scanOf (by simp) (inPlaceTree_isDir n)
  · intro n id
    refine ⟨List.nodup_singleton _, fun f hf => ?_⟩
    have := ((inPlaceTree_isDir n _ id).mp hf).1
    simpa using this
  · intro id d d' hd hd'
    rw [oneRecord_isDir] at hd hd'
    rw [hd.1, hd'.1]
  · intro n s hs _ d hd
    have hsave : s = ⟨["default"], collapsedRecord, none⟩ := by
      simpa [inPlaceSaves] using List.mem_of_getElem? hs
    subst hsave
    exact List.mem_singleton.mp ((inPlaceTree_isDir n d _).mp hd).1

/-- A molecule of the flat layout is saved once: its listing then shows both
the record it had and the one saved. -/
theorem legacy_saved_listed_twice :
    let t := treeAt exampleEnv (oneRecord .legacy staleRecord) [⟨[], collapsedRecord, none⟩] 1
    (scanOf [.fleet "default", .legacy]).Reads t ∧
      (listMolecules "" t (scanOf [.fleet "default", .legacy]) {}).Perm [collapsedRecord, staleRecord] ∧
      t.loadMolecule ["default"] "m" = .ok collapsedRecord := by
  refine ⟨reads_scanOf (by simp) ?_, listMolecules_perm .., rfl⟩
  intro d id
  have htree : treeAt exampleEnv (oneRecord .legacy staleRecord) [⟨[], collapsedRecord, none⟩] 1 =
      (oneRecord .legacy staleRecord).rename collapsedRecord := Tree.rename_createDir ..
  rw [htree, isDir_rename_iff, oneRecord_isDir, List.mem_pair]
  exact or_and_right.symm

end Instances

end Cosmon.Filestore.StateTree
