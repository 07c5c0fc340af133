import Cosmon.Core.CollapseContract
import Mathlib.Logic.Function.Basic

namespace Cosmon.Filestore.Layout

open Cosmon.State.Molecule Cosmon.Core.CollapseContract

/-- What the store and the operations on it take from outside: the state root,
the fleet each id is nucleated in, and the three hashes. -/
structure Env where
  root : String
  home : MoleculeId → FleetId
  fileStem : IdempotencyKey → String
  revisionOf : MoleculeData → MoleculeRevision
  digestOf : CollapseIntentV1 → RequestDigest

inductive Dir where
  | fleet (fleet : FleetId)
  | legacy
deriving DecidableEq

/-- The state files and key records under a state root. `fleets` lists the
entries of `fleets/` in the order a scan meets them. -/
structure FileStore where
  fleets : List FleetId
  records : Dir → MoleculeId → Option MoleculeData
  keys : String → Option CollapseKeyRecord
  keyed : ∀ d id m, records d id = some m → m.id = id
  listed : ∀ f id, (records (.fleet f) id).isSome → f ∈ fleets

/-- The directory a molecule is found in: the first fleet that has it, else
the flat layout, else the default fleet. -/
def FileStore.moleculeDir (s : FileStore) (id : MoleculeId) : Dir :=
  match s.fleets.find? (fun f => (s.records (.fleet f) id).isSome) with
  | some f => .fleet f
  | none => if (s.records .legacy id).isSome then .legacy else .fleet "default"

def FileStore.current (s : FileStore) (id : MoleculeId) : Option MoleculeData :=
  s.records (s.moleculeDir id) id

def FileStore.loadMolecule (s : FileStore) (id : MoleculeId) : Except CosmonError MoleculeData :=
  match s.current id with
  | none => .error (.moleculeNotFound id)
  | some m => .ok m

def FileStore.loadMoleculeRevisioned (env : Env) (s : FileStore) (id : MoleculeId) :
    Except CosmonError (MoleculeData × MoleculeRevision) :=
  match s.current id with
  | none => .error (.moleculeNotFound id)
  | some m => .ok (m, env.revisionOf m)

def FileStore.put (s : FileStore) (data : MoleculeData) : FileStore where
  fleets := if data.fleetId ∈ s.fleets then s.fleets else s.fleets ++ [data.fleetId]
  records := fun d id => if d = .fleet data.fleetId ∧ id = data.id then some data else s.records d id
  keys := s.keys
  keyed := by
    intro d id m hm
    split at hm
    · rename_i h
      rw [← Option.some.inj hm, h.2]
    · exact s.keyed d id m hm
  listed := by
    intro f id hm
    by_cases h : Dir.fleet f = .fleet data.fleetId ∧ id = data.id
    · cases h.1
      split <;> simp_all
    · rw [if_neg h] at hm
      have := s.listed f id hm
      split <;> simp_all

/-- Check and rename under the molecule's write lock. Every caller saves a
record under its own id. -/
def FileStore.writeMoleculeChecked (env : Env) (s : FileStore) (data : MoleculeData)
    (expected : Option MoleculeRevision) : Except CosmonError FileStore :=
  match s.current data.id with
  | some current =>
    if refusesSave current data then
      .error (.stateStore ("molecule " ++ data.id ++
        " is collapsed; cannot leave Collapsed or replace its receipt"))
    else if expected.any (fun revision => env.revisionOf current ≠ revision) then
      .error (.stateStore ("molecule " ++ data.id ++ " changed before conditional save"))
    else .ok (s.put data)
  | none => if expected.isNone then .ok (s.put data) else .error (.other "No such file or directory")

def FileStore.saveMolecule (env : Env) (s : FileStore) (data : MoleculeData) :
    Except CosmonError FileStore :=
  s.writeMoleculeChecked env data none

/-- As `saveMolecule`, and synced before it returns. -/
def FileStore.saveMoleculeDurable (env : Env) (s : FileStore) (data : MoleculeData) :
    Except CosmonError FileStore :=
  s.writeMoleculeChecked env data none

def FileStore.saveMoleculeIfRevision (env : Env) (s : FileStore) (data : MoleculeData)
    (expected : MoleculeRevision) : Except CosmonError FileStore :=
  s.writeMoleculeChecked env data (some expected)

def collapseKeyPath (env : Env) (key : IdempotencyKey) : String :=
  env.root ++ "/collapse-receipts/" ++ env.fileStem key ++ ".json"

def FileStore.readCollapseKey (env : Env) (s : FileStore) (key : IdempotencyKey) :
    Except CosmonError (Option CollapseKeyRecord) :=
  match s.keys (env.fileStem key) with
  | none => .ok none
  | some record =>
    if record.key ≠ key then
      .error (.stateStore ("collapse key record " ++ collapseKeyPath env key ++ " names another key"))
    else .ok (some record)

def FileStore.setKey (env : Env) (s : FileStore) (record : CollapseKeyRecord) : FileStore :=
  { s with keys := Function.update s.keys (env.fileStem record.key) (some record) }

def FileStore.reserveCollapseKey (env : Env) (s : FileStore) (record : CollapseKeyRecord) :
    FileStore × Bool :=
  if (s.keys (env.fileStem record.key)).isSome then (s, false) else (s.setKey env record, true)

def FileStore.commitCollapseKey (env : Env) (s : FileStore) (record : CollapseKeyRecord) : FileStore :=
  s.setKey env record

theorem setKey_self (env : Env) (s : FileStore) (record : CollapseKeyRecord) :
    (s.setKey env record).keys (env.fileStem record.key) = some record :=
  Function.update_self ..

theorem put_self (s : FileStore) (data : MoleculeData) :
    (s.put data).records (.fleet data.fleetId) data.id = some data :=
  if_pos ⟨rfl, rfl⟩

theorem put_of_ne (s : FileStore) (data : MoleculeData) (d : Dir) {id : MoleculeId}
    (h : id ≠ data.id) : (s.put data).records d id = s.records d id :=
  if_neg (fun hd => h hd.2)

theorem put_legacy (s : FileStore) (data : MoleculeData) (id : MoleculeId) :
    (s.put data).records .legacy id = s.records .legacy id := by
  simp [FileStore.put]

theorem writeMoleculeChecked_ok {env : Env} {s s' : FileStore} {data : MoleculeData}
    {expected : Option MoleculeRevision} (h : s.writeMoleculeChecked env data expected = .ok s') :
    s' = s.put data ∧ ∀ current, s.current data.id = some current → refusesSave current data = false := by
  simp only [FileStore.writeMoleculeChecked] at h
  split at h
  · rename_i current hcurrent
    split at h
    · cases h
    · rename_i hguard
      split at h
      · cases h
      · cases h
        refine ⟨rfl, fun c hc => ?_⟩
        rw [hcurrent] at hc
        cases hc
        simpa using hguard
  · rename_i hnone
    split at h
    · cases h
      refine ⟨rfl, fun c hc => ?_⟩
      rw [hnone] at hc
      cases hc
    · cases h

theorem save_eq (env : Env) (s : FileStore) (data : MoleculeData) (revision : MoleculeRevision)
    (checked : Bool) :
    (if checked then s.saveMoleculeIfRevision env data revision else s.saveMolecule env data) =
      s.writeMoleculeChecked env data (if checked then some revision else none) := by
  cases checked <;> rfl

theorem readCollapseKey_ok {env : Env} {s : FileStore} {key : IdempotencyKey}
    {record : Option CollapseKeyRecord} (h : s.readCollapseKey env key = .ok record) :
    s.keys (env.fileStem key) = record ∧ ∀ r, record = some r → r.key = key := by
  simp only [FileStore.readCollapseKey] at h
  split at h
  · rename_i hnone
    cases h
    exact ⟨hnone, by simp⟩
  · rename_i r hr
    split at h
    · cases h
    · rename_i hkey
      cases h
      refine ⟨hr, fun r' hr' => ?_⟩
      cases hr'
      exact not_ne_iff.mp hkey

end Cosmon.Filestore.Layout
