import Cosmon.Filestore.Layout

namespace Cosmon.Filestore.Receipts

open Cosmon.State.Molecule Cosmon.Core.CollapseContract Cosmon.Filestore.Layout

variable {env : Env} {s s' : FileStore} {id : MoleculeId} {data : MoleculeData}
variable {expected : Option MoleculeRevision}

/-- Every molecule belongs to one fleet: each of its records names that fleet
and lies in its directory or in the flat one. -/
structure Housed (env : Env) (s : FileStore) : Prop where
  dir : ∀ f id, (s.records (.fleet f) id).isSome → f = env.home id
  record : ∀ d id m, s.records d id = some m → m.fleetId = env.home id

def atHome (env : Env) (s : FileStore) (id : MoleculeId) : Option MoleculeData :=
  s.records (.fleet (env.home id)) id

theorem Housed.find_eq (h : Housed env s) (id : MoleculeId) :
    s.fleets.find? (fun f => (s.records (.fleet f) id).isSome) =
      if (atHome env s id).isSome then some (env.home id) else none := by
  split
  · rename_i hsome
    cases hfind : s.fleets.find? (fun f => (s.records (.fleet f) id).isSome) with
    | none =>
      have := List.find?_eq_none.mp hfind _ (s.listed _ _ hsome)
      exact absurd hsome this
    | some f =>
      have hf : (s.records (.fleet f) id).isSome := by simpa using List.find?_some hfind
      rw [h.dir f id hf]
  · rename_i hnone
    apply List.find?_eq_none.mpr
    intro f _ hf
    rw [h.dir f id hf] at hf
    exact hnone hf

/-- In a housed store a molecule is read from its own fleet, and from the flat
layout as long as its fleet does not have it. -/
theorem Housed.current_eq (h : Housed env s) (id : MoleculeId) :
    s.current id = (atHome env s id).or (s.records .legacy id) := by
  rw [FileStore.current, FileStore.moleculeDir, h.find_eq id]
  cases hhome : atHome env s id with
  | some m => simpa [atHome] using hhome
  | none =>
    simp only [Option.isSome_none, Bool.false_eq_true, if_false, Option.none_or]
    cases hlegacy : s.records .legacy id with
    | some m => simp [hlegacy]
    | none =>
      simp only [Option.isSome_none, Bool.false_eq_true, if_false]
      cases hdefault : s.records (.fleet "default") id with
      | none => rfl
      | some m =>
        have hdir := h.dir "default" id (by rw [hdefault]; rfl)
        rw [atHome, ← hdir, hdefault] at hhome
        cases hhome

theorem Housed.current_of_atHome (h : Housed env s) {m : MoleculeData}
    (hm : atHome env s id = some m) : s.current id = some m := by
  rw [h.current_eq, hm, Option.some_or]

theorem Housed.moleculeDir_of_atHome (h : Housed env s) (hm : (atHome env s id).isSome) :
    s.moleculeDir id = .fleet (env.home id) := by
  rw [FileStore.moleculeDir, h.find_eq, if_pos hm]

theorem Housed.current_fleetId (h : Housed env s) {m : MoleculeData} (hm : s.current id = some m) :
    m.id = id ∧ m.fleetId = env.home id :=
  ⟨s.keyed _ _ _ hm, h.record _ _ _ hm⟩

theorem atHome_put (hd : data.fleetId = env.home data.id) :
    atHome env (s.put data) data.id = some data := by
  rw [atHome, ← hd]
  exact put_self s data

theorem atHome_put_of_ne (h : id ≠ data.id) : atHome env (s.put data) id = atHome env s id :=
  put_of_ne s data _ h

theorem Housed.put (h : Housed env s) (hd : data.fleetId = env.home data.id) :
    Housed env (s.put data) where
  dir := by
    intro f id hf
    by_cases hid : id = data.id
    · subst hid
      by_cases hfleet : f = data.fleetId
      · rw [hfleet, hd]
      · exact h.dir f _ (by simpa [FileStore.put, hfleet] using hf)
    · exact h.dir f id (put_of_ne s data _ hid ▸ hf)
  record := by
    intro d id m hm
    simp only [FileStore.put] at hm
    split at hm
    · rename_i hcase
      rw [← Option.some.inj hm, hcase.2, hd]
    · exact h.record d id m hm

def Carries (env : Env) (s : FileStore) (id : MoleculeId) (receipt : CollapseReceipt) : Prop :=
  ∃ m, atHome env s id = some m ∧ m.collapseReceipt = some receipt

def Bound (env : Env) (s : FileStore) (key : IdempotencyKey) (molecule : MoleculeId)
    (digest : RequestDigest) : Prop :=
  ∃ record, s.keys (env.fileStem key) = some record ∧ record.key = key ∧
    record.molecule = molecule ∧ record.digest = digest

def Committed (env : Env) (s : FileStore) (key : IdempotencyKey) (receipt : CollapseReceipt) : Prop :=
  ∃ record, s.keys (env.fileStem key) = some record ∧ record.key = key ∧ record.receipt = some receipt

theorem carries_unique {r r' : CollapseReceipt} (h : Carries env s id r) (h' : Carries env s id r') :
    r = r' := by
  obtain ⟨m, hm, hr⟩ := h
  obtain ⟨m', hm', hr'⟩ := h'
  rw [hm] at hm'
  cases hm'
  exact Option.some.inj (hr.symm.trans hr')

theorem bound_unique {key : IdempotencyKey} {m m' : MoleculeId} {d d' : RequestDigest}
    (h : Bound env s key m d) (h' : Bound env s key m' d') : m = m' ∧ d = d' := by
  obtain ⟨record, hrecord, -, hm, hd⟩ := h
  obtain ⟨record', hrecord', -, hm', hd'⟩ := h'
  rw [hrecord] at hrecord'
  cases hrecord'
  exact ⟨hm.symm.trans hm', hd.symm.trans hd'⟩

/-- What a consistent store satisfies: receipts are only in collapsed states,
each under a key that is bound to it, and a committed record's receipt is the
one its molecule carries. -/
structure Sound (env : Env) (s : FileStore) : Prop where
  housed : Housed env s
  bare : ∀ id m, s.records .legacy id = some m → m.collapseReceipt = none
  receipt : ∀ id m r, atHome env s id = some m → m.collapseReceipt = some r →
    m.status = .collapsed ∧ r.molecule = id ∧ Bound env s r.key id r.digest
  stem : ∀ stem record, s.keys stem = some record → env.fileStem record.key = stem
  phase : ∀ stem record, s.keys stem = some record →
    (record.phase = .reserved ∧ record.receipt = none) ∨
      ∃ r, record.phase = .committed ∧ record.receipt = some r ∧ r.key = record.key ∧
        r.digest = record.digest ∧ Carries env s record.molecule r

theorem Sound.current_receipt (h : Sound env s) {m : MoleculeData} {r : CollapseReceipt}
    (hm : s.current id = some m) (hr : m.collapseReceipt = some r) :
    Carries env s id r ∧ m.status = .collapsed := by
  rw [h.housed.current_eq] at hm
  cases hhome : atHome env s id with
  | some m' =>
    rw [hhome, Option.some_or] at hm
    cases hm
    exact ⟨⟨m, hhome, hr⟩, (h.receipt id m r hhome hr).1⟩
  | none =>
    rw [hhome, Option.none_or] at hm
    rw [h.bare id m hm] at hr
    cases hr

theorem Sound.bound_of_carries (h : Sound env s) {r : CollapseReceipt} (hr : Carries env s id r) :
    r.molecule = id ∧ Bound env s r.key id r.digest := by
  obtain ⟨m, hm, hr⟩ := hr
  exact (h.receipt id m r hm hr).2

/-- What no later step of the store takes back. -/
structure Grows (env : Env) (s s' : FileStore) : Prop where
  carries : ∀ id r, Carries env s id r → Carries env s' id r
  bound : ∀ key molecule digest, Bound env s key molecule digest → Bound env s' key molecule digest
  committed : ∀ key r, Committed env s key r → Committed env s' key r
  present : ∀ id, (atHome env s id).isSome → (atHome env s' id).isSome
  legacy : ∀ id, s'.records .legacy id = s.records .legacy id

theorem Grows.refl (env : Env) (s : FileStore) : Grows env s s :=
  ⟨fun _ _ h => h, fun _ _ _ h => h, fun _ _ h => h, fun _ h => h, fun _ => rfl⟩

theorem Grows.trans {s'' : FileStore} (h : Grows env s s') (h' : Grows env s' s'') : Grows env s s'' :=
  ⟨fun id r hr => h'.carries id r (h.carries id r hr),
    fun key m d hb => h'.bound key m d (h.bound key m d hb),
    fun key r hc => h'.committed key r (h.committed key r hc),
    fun id hp => h'.present id (h.present id hp), fun id => (h'.legacy id).trans (h.legacy id)⟩

theorem Sound.save_receipt (h : Sound env s) (hsave : s.writeMoleculeChecked env data expected = .ok s')
    {r : CollapseReceipt} (hr : Carries env s data.id r) :
    data.status = .collapsed ∧ data.collapseReceipt = some r := by
  obtain ⟨-, hguard⟩ := writeMoleculeChecked_ok hsave
  obtain ⟨m, hm, hr⟩ := hr
  have hcollapsed := (h.receipt _ m r hm hr).1
  have := hguard m (h.housed.current_of_atHome hm)
  simpa [refusesSave, hcollapsed, hr] using this

theorem Sound.save_grows (h : Sound env s) (hd : data.fleetId = env.home data.id)
    (hsave : s.writeMoleculeChecked env data expected = .ok s') : Grows env s s' := by
  obtain ⟨rfl, -⟩ := writeMoleculeChecked_ok hsave
  refine ⟨fun id r hr => ?_, fun _ _ _ hb => hb, fun _ _ hc => hc, fun id hp => ?_, put_legacy s data⟩
  · by_cases hid : id = data.id
    · subst hid
      exact ⟨data, atHome_put hd, (h.save_receipt hsave hr).2⟩
    · obtain ⟨m, hm, hr⟩ := hr
      exact ⟨m, (atHome_put_of_ne hid).trans hm, hr⟩
  · by_cases hid : id = data.id
    · rw [hid, atHome_put hd, Option.isSome_some]
    · rw [atHome_put_of_ne hid]
      exact hp

/-- A save keeps the store consistent if a receipt in it is the one the state
carries already, or one under a key that is bound to it. -/
theorem Sound.save (h : Sound env s) (hd : data.fleetId = env.home data.id)
    (hsave : s.writeMoleculeChecked env data expected = .ok s')
    (hreceipt : ∀ r, data.collapseReceipt = some r → Carries env s data.id r ∨
      (data.status = .collapsed ∧ r.molecule = data.id ∧ Bound env s r.key data.id r.digest)) :
    Sound env s' := by
  have hgrows := h.save_grows hd hsave
  have hcarried := fun r => h.save_receipt hsave (r := r)
  obtain ⟨rfl, -⟩ := writeMoleculeChecked_ok hsave
  constructor
  case housed => exact h.housed.put hd
  case bare =>
    intro id m hm
    exact h.bare id m (put_legacy s data id ▸ hm)
  case receipt =>
    intro id m r hm hr
    by_cases hid : id = data.id
    · subst hid
      rw [atHome_put hd] at hm
      cases hm
      cases hreceipt r hr with
      | inl hcarries =>
        obtain ⟨hmol, hbound⟩ := h.bound_of_carries hcarries
        exact ⟨(hcarried r hcarries).1, hmol, hbound⟩
      | inr hnew => exact hnew
    · rw [atHome_put_of_ne hid] at hm
      exact h.receipt id m r hm hr
  case stem => exact h.stem
  case phase =>
    intro stem record hrecord
    cases h.phase stem record hrecord with
    | inl hreserved => exact .inl hreserved
    | inr hcommitted =>
      obtain ⟨r, hphase, hr, hkey, hdigest, hcarries⟩ := hcommitted
      exact .inr ⟨r, hphase, hr, hkey, hdigest, hgrows.carries _ _ hcarries⟩

theorem grows_setKey {record : CollapseKeyRecord}
    (hold : ∀ old, s.keys (env.fileStem record.key) = some old →
      old.key = record.key ∧ old.molecule = record.molecule ∧ old.digest = record.digest ∧
        (∀ r, old.receipt = some r → record.receipt = some r)) :
    Grows env s (s.setKey env record) := by
  refine ⟨fun _ _ hr => hr, fun key molecule digest hb => ?_, fun key r hc => ?_, fun _ hp => hp,
    fun _ => rfl⟩
  · obtain ⟨old, hget, hkey, hmol, hdigest⟩ := hb
    by_cases hstem : env.fileStem key = env.fileStem record.key
    · rw [hstem] at hget
      obtain ⟨hk, hm, hd, -⟩ := hold old hget
      refine ⟨record, ?_, hk ▸ hkey, hm ▸ hmol, hd ▸ hdigest⟩
      rw [hstem]
      exact setKey_self env s record
    · exact ⟨old, (Function.update_of_ne hstem _ _).trans hget, hkey, hmol, hdigest⟩
  · obtain ⟨old, hget, hkey, hr⟩ := hc
    by_cases hstem : env.fileStem key = env.fileStem record.key
    · rw [hstem] at hget
      obtain ⟨hk, -, -, hrec⟩ := hold old hget
      refine ⟨record, ?_, hk ▸ hkey, hrec r hr⟩
      rw [hstem]
      exact setKey_self env s record
    · exact ⟨old, (Function.update_of_ne hstem _ _).trans hget, hkey, hr⟩

theorem Sound.setKey (h : Sound env s) {record : CollapseKeyRecord}
    (hgrows : Grows env s (s.setKey env record))
    (hphase : (record.phase = .reserved ∧ record.receipt = none) ∨
      ∃ r, record.phase = .committed ∧ record.receipt = some r ∧ r.key = record.key ∧
        r.digest = record.digest ∧ Carries env s record.molecule r) :
    Sound env (s.setKey env record) := by
  constructor
  case housed => exact ⟨h.housed.dir, h.housed.record⟩
  case bare => exact h.bare
  case receipt =>
    intro id m r hm hr
    obtain ⟨hcollapsed, hmol, hbound⟩ := h.receipt id m r hm hr
    exact ⟨hcollapsed, hmol, hgrows.bound _ _ _ hbound⟩
  case stem =>
    intro stem r hr
    by_cases hstem : stem = env.fileStem record.key
    · subst hstem
      rw [setKey_self] at hr
      rw [← Option.some.inj hr]
    · exact h.stem stem r ((Function.update_of_ne hstem _ _).symm.trans hr)
  case phase =>
    intro stem r hr
    by_cases hstem : stem = env.fileStem record.key
    · subst hstem
      rw [setKey_self] at hr
      rw [← Option.some.inj hr]
      exact hphase
    · exact h.phase stem r ((Function.update_of_ne hstem _ _).symm.trans hr)

theorem Sound.reserve (h : Sound env s) {key : IdempotencyKey} (molecule : MoleculeId)
    (digest : RequestDigest) (hnone : s.keys (env.fileStem key) = none) :
    Grows env s (s.setKey env (.reserved key molecule digest)) ∧
      Sound env (s.setKey env (.reserved key molecule digest)) ∧
      Bound env (s.setKey env (.reserved key molecule digest)) key molecule digest := by
  have hgrows : Grows env s (s.setKey env (.reserved key molecule digest)) := by
    apply grows_setKey
    intro old hold
    rw [CollapseKeyRecord.reserved, hnone] at hold
    cases hold
  refine ⟨hgrows, h.setKey hgrows (.inl ⟨rfl, rfl⟩), ?_⟩
  exact ⟨_, setKey_self env s _, rfl, rfl, rfl⟩

theorem Sound.commit (h : Sound env s) {record : CollapseKeyRecord} {r : CollapseReceipt}
    (hbound : Bound env s record.key record.molecule record.digest)
    (hcarries : Carries env s record.molecule r) (hkey : r.key = record.key)
    (hdigest : r.digest = record.digest) :
    Grows env s (s.commitCollapseKey env (record.committed r)) ∧
      Sound env (s.commitCollapseKey env (record.committed r)) ∧
      Committed env (s.commitCollapseKey env (record.committed r)) record.key r := by
  have hgrows : Grows env s (s.setKey env (record.committed r)) := by
    apply grows_setKey
    intro old hold
    obtain ⟨old', hold', hk, hm, hd⟩ := hbound
    rw [CollapseKeyRecord.committed, hold'] at hold
    cases hold
    refine ⟨hk, hm, hd, fun r' hr' => ?_⟩
    cases h.phase _ _ hold' with
    | inl hreserved =>
      rw [hreserved.2] at hr'
      cases hr'
    | inr hcommitted =>
      obtain ⟨r'', -, hr'', -, -, hcarries''⟩ := hcommitted
      rw [hr''] at hr'
      cases hr'
      rw [hm] at hcarries''
      rw [carries_unique hcarries'' hcarries]
      rfl
  refine ⟨hgrows, h.setKey hgrows (.inr ⟨r, rfl, rfl, hkey, hdigest, hcarries⟩), ?_⟩
  exact ⟨_, setKey_self env s (record.committed r), rfl, rfl⟩

theorem sound_fresh (h : Housed env s) (hkeys : ∀ stem, s.keys stem = none)
    (hbare : ∀ d id m, s.records d id = some m → m.collapseReceipt = none) : Sound env s where
  housed := h
  bare := hbare .legacy
  receipt := by
    intro id m r hm hr
    rw [hbare _ id m hm] at hr
    cases hr
  stem := by
    intro stem record hrecord
    rw [hkeys] at hrecord
    cases hrecord
  phase := by
    intro stem record hrecord
    rw [hkeys] at hrecord
    cases hrecord

end Cosmon.Filestore.Receipts
