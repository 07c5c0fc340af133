import Cosmon.Filestore.Layout
import Cosmon.Lib.Runs

namespace Cosmon.Filestore.StateTree

open Cosmon.State.Molecule Cosmon.Core.CollapseContract Cosmon.Filestore.Layout

/-- What stands at the path of a molecule's directory: nothing, a directory
with no `state.json`, one whose `state.json` does not parse, or a record. -/
inductive Entry where
  | absent
  | empty
  | unreadable (reason : String)
  | record (data : MoleculeData)
deriving DecidableEq

def Entry.isDir : Entry → Bool
  | .absent => false
  | _ => true

structure Tree where
  entry : Dir → MoleculeId → Entry
  keyed : ∀ d id m, entry d id = .record m → m.id = id

namespace Tree

variable (t : Tree)

/-- The directory a molecule is found in, where `order` is what `read_dir` of
`fleets/` answers: the first fleet with a directory for it, whatever that
directory holds. -/
def moleculeDir (order : List FleetId) (id : MoleculeId) : Dir :=
  match order.find? (fun f => (t.entry (.fleet f) id).isDir) with
  | some f => .fleet f
  | none => if (t.entry .legacy id).isDir then .legacy else .fleet "default"

def loadMolecule (order : List FleetId) (id : MoleculeId) : Except CosmonError MoleculeData :=
  match t.entry (t.moleculeDir order id) id with
  | .record m => .ok m
  | .unreadable reason => .error (.other reason)
  | .absent | .empty => .error (.moleculeNotFound id)

def checkWrite (env : Env) (order : List FleetId) (data : MoleculeData)
    (expected : Option MoleculeRevision) : Except CosmonError Unit :=
  match t.entry (t.moleculeDir order data.id) data.id with
  | .record current =>
    if refusesSave current data then
      .error (.stateStore ("molecule " ++ data.id ++
        " is collapsed; cannot leave Collapsed or replace its receipt"))
    else if expected.any (fun revision => env.revisionOf current ≠ revision) then
      .error (.stateStore ("molecule " ++ data.id ++ " changed before conditional save"))
    else .ok ()
  | .unreadable reason => .error (.other reason)
  -- A missing state file is creation, also where its directory exists.
  | .absent | .empty => if expected.isNone then .ok () else .error (.other "No such file or directory")

def set (d : Dir) (id : MoleculeId) (e : Entry) (he : ∀ m, e = .record m → m.id = id) : Tree where
  entry := fun d' id' => if d' = d ∧ id' = id then e else t.entry d' id'
  keyed := by
    intro d' id' m hm
    split at hm
    · rename_i h
      rw [h.2]
      exact he m hm
    · exact t.keyed d' id' m hm

/-- `create_dir_all` on the parent of the state file of `data`. -/
def createDir (data : MoleculeData) : Tree :=
  if (t.entry (.fleet data.fleetId) data.id).isDir then t
  else t.set (.fleet data.fleetId) data.id .empty (by simp)

/-- The rename of the temporary file over the state file of `data`. -/
def rename (data : MoleculeData) : Tree :=
  t.set (.fleet data.fleetId) data.id (.record data) (by simp)

theorem set_self (d : Dir) (id : MoleculeId) (e : Entry) (he) : (t.set d id e he).entry d id = e :=
  if_pos ⟨rfl, rfl⟩

theorem set_of_ne_dir (d : Dir) (id : MoleculeId) (e : Entry) (he) {d' : Dir} (h : d' ≠ d)
    (id' : MoleculeId) : (t.set d id e he).entry d' id' = t.entry d' id' :=
  if_neg (fun hd => h hd.1)

theorem set_of_ne_id (d : Dir) (id : MoleculeId) (e : Entry) (he) (d' : Dir) {id' : MoleculeId}
    (h : id' ≠ id) : (t.set d id e he).entry d' id' = t.entry d' id' :=
  if_neg (fun hd => h hd.2)

theorem rename_self (data : MoleculeData) :
    (t.rename data).entry (.fleet data.fleetId) data.id = .record data := set_self ..

theorem rename_of_ne_dir (data : MoleculeData) {d : Dir} (h : d ≠ .fleet data.fleetId)
    (id : MoleculeId) : (t.rename data).entry d id = t.entry d id := set_of_ne_dir _ _ _ _ _ h _

theorem rename_of_ne_id (data : MoleculeData) (d : Dir) {id : MoleculeId} (h : id ≠ data.id) :
    (t.rename data).entry d id = t.entry d id := set_of_ne_id _ _ _ _ _ _ h

theorem createDir_of_ne_id (data : MoleculeData) (d : Dir) {id : MoleculeId} (h : id ≠ data.id) :
    (t.createDir data).entry d id = t.entry d id := by
  rw [createDir]
  split
  · rfl
  · exact set_of_ne_id _ _ _ _ _ _ h

theorem createDir_entry (data : MoleculeData) (d : Dir) (id : MoleculeId) :
    (t.createDir data).entry d id = t.entry d id ∨
      t.entry d id = .absent ∧ (t.createDir data).entry d id = .empty := by
  rw [createDir]
  split
  · exact .inl rfl
  · rename_i hdir
    by_cases h : d = .fleet data.fleetId ∧ id = data.id
    · obtain ⟨rfl, rfl⟩ := h
      refine .inr ⟨?_, set_self ..⟩
      cases he : t.entry (.fleet data.fleetId) data.id <;> simp_all [Entry.isDir]
    · exact .inl (if_neg h)

theorem rename_createDir (data : MoleculeData) :
    (t.createDir data).rename data = t.rename data := by
  simp only [createDir]
  split
  · rfl
  · simp only [rename, set, mk.injEq]
    funext d id
    split <;> rfl

end Tree

/-- What `read_dir` of `fleets/` promises of its answer: no entry twice, and
none left out that holds a directory for the molecule. -/
structure ReadsDir (t : Tree) (order : List FleetId) (id : MoleculeId) : Prop where
  nodup : order.Nodup
  complete : ∀ f, (t.entry (.fleet f) id).isDir → f ∈ order

structure Disk where
  tree : Tree
  writer : MoleculeId → Option MoleculeData
  keyed : ∀ id data, writer id = some data → data.id = id

def Disk.setWriter (s : Disk) (id : MoleculeId) (w : Option MoleculeData)
    (hw : ∀ data, w = some data → data.id = id) : Disk where
  tree := s.tree
  writer := Function.update s.writer id w
  keyed := by
    intro id' data hdata
    by_cases h : id' = id
    · subst h
      rw [Function.update_self] at hdata
      exact hw data hdata
    · rw [Function.update_of_ne h] at hdata
      exact s.keyed id' data hdata

/-- What a caller of the store, or the machine under it, does next. A save is
`lock`, `createDir` and `rename` in this order, and `abort` is its end on an
I/O error or with its process; `saveMolecule`, `saveMoleculeDurable` and
`saveMoleculeIfRevision` differ in `expected` and in what is synced only. -/
inductive Op where
  | load (order : List FleetId) (id : MoleculeId)
  | lock (order : List FleetId) (data : MoleculeData) (expected : Option MoleculeRevision)
  | createDir (id : MoleculeId)
  | rename (id : MoleculeId)
  | abort (id : MoleculeId)

/-- The scan of `fleets/` an operation makes, and for which molecule. -/
def Op.scan : Op → Option (List FleetId × MoleculeId)
  | .load order id => some (order, id)
  | .lock order data _ => some (order, data.id)
  | _ => none

theorem none_keyed (id : MoleculeId) (data : MoleculeData) (h : none = some data) : data.id = id :=
  nomatch h

def step (env : Env) (s : Disk) : Op → Disk
  | .load _ _ => s
  | .lock order data expected =>
    match s.writer data.id, s.tree.checkWrite env order data expected with
    | none, .ok () => s.setWriter data.id (some data) (by simp)
    -- A second writer waits for the lock, a refused one has gone.
    | _, _ => s
  | .createDir id =>
    match s.writer id with
    | some data => { s with tree := s.tree.createDir data }
    | none => s
  | .rename id =>
    match s.writer id with
    | some data => { s.setWriter id none (none_keyed id) with tree := (s.tree.createDir data).rename data }
    | none => s
  | .abort id => s.setWriter id none (none_keyed id)

/-- Everything an operation can do to the directories and the lock of one
molecule. -/
inductive Moves (env : Env) (s s' : Disk) (id : MoleculeId) : Op → Prop where
  | stay (op : Op) (tree : ∀ d, s'.tree.entry d id = s.tree.entry d id)
      (writer : s'.writer id = s.writer id) : Moves env s s' id op
  | lock (order : List FleetId) (data : MoleculeData) (expected : Option MoleculeRevision)
      (key : data.id = id) (free : s.writer id = none)
      (checked : s.tree.checkWrite env order data expected = .ok ())
      (tree : s'.tree = s.tree) (writer : s'.writer id = some data) :
      Moves env s s' id (.lock order data expected)
  | createDir (data : MoleculeData) (key : data.id = id) (held : s.writer id = some data)
      (tree : s'.tree = s.tree.createDir data) (writer : s'.writer id = some data) :
      Moves env s s' id (.createDir id)
  | rename (data : MoleculeData) (key : data.id = id) (held : s.writer id = some data)
      (tree : s'.tree = s.tree.rename data) (writer : s'.writer id = none) :
      Moves env s s' id (.rename id)
  | abort (tree : s'.tree = s.tree) (writer : s'.writer id = none) : Moves env s s' id (.abort id)

theorem step_moves (env : Env) (s : Disk) (id : MoleculeId) (op : Op) :
    Moves env s (step env s op) id op := by
  cases op with
  | load order i => exact .stay _ (fun d => rfl) rfl
  | lock order data expected =>
    simp only [step]
    split
    · rename_i hfree hok
      by_cases hid : data.id = id
      · subst hid
        exact .lock order data expected rfl hfree hok rfl (Function.update_self ..)
      · exact .stay _ (fun d => rfl) (Function.update_of_ne (Ne.symm hid) ..)
    · exact .stay _ (fun d => rfl) rfl
  | createDir i =>
    simp only [step]
    split
    · rename_i data hheld
      have hkey := s.keyed i data hheld
      by_cases hid : i = id
      · subst hid
        exact .createDir data hkey hheld rfl hheld
      · exact .stay _ (fun d => s.tree.createDir_of_ne_id data d (by rw [hkey]; exact Ne.symm hid)) rfl
    · exact .stay _ (fun d => rfl) rfl
  | rename i =>
    simp only [step]
    split
    · rename_i data hheld
      have hkey := s.keyed i data hheld
      by_cases hid : i = id
      · subst hid
        exact .rename data hkey hheld (Tree.rename_createDir ..) (Function.update_self ..)
      · refine .stay _ (fun d => ?_) (Function.update_of_ne (Ne.symm hid) ..)
        rw [Tree.rename_createDir]
        exact s.tree.rename_of_ne_id data d (by rw [hkey]; exact Ne.symm hid)
    · exact .stay _ (fun d => rfl) rfl
  | abort i =>
    by_cases hid : i = id
    · subst hid
      exact .abort rfl (Function.update_self ..)
    · exact .stay _ (fun d => rfl) (Function.update_of_ne (Ne.symm hid) ..)

def ofStore (s : FileStore) : Tree where
  entry := fun d id => (s.records d id).elim .absent .record
  keyed := by
    intro d id m hm
    cases hrec : s.records d id with
    | none => simp [hrec] at hm
    | some m' =>
      simp only [hrec, Option.elim_some, Entry.record.injEq] at hm
      exact hm ▸ s.keyed d id m' hrec

theorem isDir_ofStore (s : FileStore) (d : Dir) (id : MoleculeId) :
    ((ofStore s).entry d id).isDir = (s.records d id).isSome := by
  cases h : s.records d id <;> simp [ofStore, h, Entry.isDir]

theorem moleculeDir_ofStore (s : FileStore) (id : MoleculeId) :
    (ofStore s).moleculeDir s.fleets id = s.moleculeDir id := by
  cases hfind : s.fleets.find? (fun f => (s.records (.fleet f) id).isSome) <;>
    simp [Tree.moleculeDir, FileStore.moleculeDir, isDir_ofStore, hfind]

theorem loadMolecule_ofStore (s : FileStore) (id : MoleculeId) :
    (ofStore s).loadMolecule s.fleets id = s.loadMolecule id := by
  rw [Tree.loadMolecule, moleculeDir_ofStore, FileStore.loadMolecule, FileStore.current]
  cases h : s.records (s.moleculeDir id) id <;> simp [ofStore, h]

theorem checkWrite_ofStore (env : Env) (s : FileStore) (data : MoleculeData)
    (expected : Option MoleculeRevision) :
    (ofStore s).checkWrite env s.fleets data expected =
      (s.writeMoleculeChecked env data expected).map (fun _ => ()) := by
  rw [Tree.checkWrite, moleculeDir_ofStore, FileStore.writeMoleculeChecked, FileStore.current]
  cases h : s.records (s.moleculeDir data.id) data.id with
  | none =>
    simp only [ofStore, h, Option.elim_none]
    split <;> rfl
  | some m =>
    simp only [ofStore, h, Option.elim_some]
    split
    · rfl
    · split <;> rfl

theorem rename_ofStore (s : FileStore) (data : MoleculeData) :
    (ofStore s).rename data = ofStore (s.put data) := by
  simp only [Tree.rename, Tree.set, ofStore, FileStore.put, Tree.mk.injEq]
  funext d id
  split <;> simp

theorem run_ofStore (env : Env) (s : FileStore) (data : MoleculeData)
    (expected : Option MoleculeRevision) (d : Disk) (htree : d.tree = ofStore s)
    (hfree : d.writer data.id = none) :
    ([.lock s.fleets data expected, .createDir data.id, .rename data.id].foldl (step env) d).tree =
      match s.writeMoleculeChecked env data expected with
      | .ok s' => ofStore s'
      | .error _ => ofStore s := by
  simp only [List.foldl_cons, List.foldl_nil]
  have hcheck := checkWrite_ofStore env s data expected
  cases hwrite : s.writeMoleculeChecked env data expected with
  | error e =>
    rw [hwrite] at hcheck
    have hlock : step env d (.lock s.fleets data expected) = d := by
      simp only [step, htree, hcheck, hfree]
      rfl
    rw [hlock]
    simp only [step, hfree, htree]
  | ok s' =>
    rw [hwrite] at hcheck
    obtain ⟨rfl, -⟩ := writeMoleculeChecked_ok hwrite
    have hlock : step env d (.lock s.fleets data expected) =
        d.setWriter data.id (some data) (by simp) := by
      simp only [step, htree, hcheck, hfree]
      rfl
    rw [hlock]
    simp only [step, Disk.setWriter, Function.update_self, htree, Tree.rename_createDir,
      rename_ofStore]

theorem bare_keyed (_ : Dir) (id : MoleculeId) (m : MoleculeData) (h : none = some m) : m.id = id := by
  cases h

theorem bare_listed (f : FleetId) (_ : MoleculeId) (h : (none : Option MoleculeData).isSome) :
    f ∈ ([] : List FleetId) := by
  cases h

def bare : FileStore := ⟨[], fun _ _ => none, fun _ => none, bare_keyed, bare_listed⟩

theorem run_ofStore_bare :
    ([.lock [] { id := "m" } none, .createDir "m", .rename "m"].foldl
      (step ⟨"", fun _ => "default", id, fun _ => "", fun _ => ""⟩) ⟨ofStore bare, fun _ => none, by simp⟩).tree =
        ofStore (bare.put { id := "m" }) :=
  run_ofStore _ bare { id := "m" } none _ rfl rfl

end Cosmon.Filestore.StateTree
