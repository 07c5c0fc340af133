import Cosmon.Filestore.FleetFiles

namespace Cosmon.Filestore.FleetSplits

open Cosmon.Core.Formulas Cosmon.Filestore.FleetFiles

section leaves

variable {α : Type}

theorem ofString_raw {new : String → Except IdError String} (i : Id new) : Id.ofString new i.raw = .ok i := by
  unfold Id.ofString
  split
  · rename_i e h
    have hv := i.valid
    rw [h] at hv
    cases hv
  · rfl

theorem idValue_idText {new : String → Except IdError String} (i : Id new) : idValue (idText i) = some i := by
  rw [idText, idValue, ofString_raw]
  rfl

theorem u32Value_toNat (n : UInt32) : u32Value (.int n.toNat) = some n := by
  have h : n.toNat < 4294967296 := n.toNat_lt
  rw [u32Value, if_pos (by omega), Int.toNat_natCast, UInt32.ofNat_toNat]

theorem usizeValue_toNat (n : UInt64) : usizeValue (.int n.toNat) = some n := by
  have h : n.toNat < 18446744073709551616 := n.toNat_lt
  rw [usizeValue, if_pos (by omega), Int.toNat_natCast, UInt64.ofNat_toNat]

theorem statusOf_statusValue (s : State.Molecule.WorkerStatus) : statusOf (statusValue s) = some s := by
  cases s <;> rfl

end leaves

section fields

variable {fs : List (String × Option Value)}

theorem present_cons (p : String × Option Value) :
    present (p :: fs) = (p.2.map fun v => (p.1, v)).toList ++ present fs := by
  obtain ⟨name, v⟩ := p
  cases v <;> rfl

theorem filter_present (p : String → Bool) :
    (present fs).filter (fun e => p e.1) = present (fs.filter fun e => p e.1) := by
  induction fs with
  | nil => rfl
  | cons e rest ih =>
    obtain ⟨name, v⟩ := e
    rw [present_cons, List.filter_append, ih]
    cases hp : p name <;> cases v <;> simp [hp, present]

theorem without_present (name : String) : without name (present fs) = present (fs.filter fun e => e.1 ≠ name) :=
  filter_present fun n => decide (n ≠ name)

theorem lookup_none_of_notMem {β : Type} {l : List (String × β)} {name : String} (h : name ∉ l.map Prod.fst) :
    l.lookup name = none := by
  rw [List.lookup_eq_none_iff]
  intro p hp
  have hne : name ≠ p.1 := by
    rintro rfl
    exact h (List.mem_map_of_mem hp)
  simpa using hne

theorem lookup_present (hfs : (fs.map Prod.fst).Nodup) (name : String) :
    (present fs).lookup name = (fs.lookup name).join := by
  induction fs with
  | nil => rfl
  | cons e rest ih =>
    obtain ⟨first, v⟩ := e
    rw [List.map_cons, List.nodup_cons] at hfs
    rw [present_cons, List.lookup_cons]
    by_cases h : name = first
    · subst h
      cases v with
      | some v => simp
      | none => simp [ih hfs.2, lookup_none_of_notMem hfs.1]
    · have hne : (name == first) = false := beq_false_of_ne h
      cases v with
      | some v => simp [List.lookup_cons, hne, ih hfs.2]
      | none => simp [hne, ih hfs.2]

theorem filter_key {β : Type} {l : List (String × β)} (hl : (l.map Prod.fst).Nodup) (name : String) :
    (l.filter fun p => p.1 = name) = ((l.lookup name).map fun v => (name, v)).toList := by
  induction l with
  | nil => rfl
  | cons e rest ih =>
    obtain ⟨first, v⟩ := e
    rw [List.map_cons, List.nodup_cons] at hl
    rw [List.lookup_cons]
    by_cases h : name = first
    · subst h
      simp [ih hl.2, lookup_none_of_notMem hl.1]
    · have hne : (name == first) = false := beq_false_of_ne h
      simp [hne, ih hl.2, Ne.symm h]

theorem nodup_present (hfs : (fs.map Prod.fst).Nodup) : ((present fs).map Prod.fst).Nodup := by
  refine hfs.sublist ?_
  induction fs with
  | nil => exact List.Sublist.slnil
  | cons e rest ih =>
    rw [present_cons]
    rw [List.map_cons, List.nodup_cons] at hfs
    obtain ⟨first, v⟩ := e
    cases v with
    | none => exact (ih hfs.2).cons _
    | some v => exact (ih hfs.2).cons_cons _

theorem field_present (hfs : (fs.map Prod.fst).Nodup) (name : String) :
    field (present fs) name = some (fs.lookup name).join := by
  rw [← lookup_present hfs, field, filter_key (nodup_present hfs)]
  cases (present fs).lookup name <;> rfl

end fields

section workers

variable (cx : Codec)

def Codec.ReadsTime (cx : Codec) (t : State.Molecule.Instant) : Prop := cx.parseTime (cx.time t) = some t

def durableFields (w : WorkerData) : List (String × Option Value) :=
  ((workerFields cx w).filter fun e => e.1 ≠ "repo").filter fun e => e.1 ≠ "restart_count"

theorem workerFields_nodup (w : WorkerData) : ((workerFields cx w).map Prod.fst).Nodup := by
  have h : (["agent_id", "clearance", "current_molecule", "desired", "frozen_at", "frozen_molecule", "id",
    "preempted_by", "repo", "restart_count", "role", "status", "updated_at", "worker_role"] : List String).Nodup := by
    decide
  exact h

theorem takeStringField_repo (w : WorkerData) :
    takeStringField (workerValue cx w) "repo" =
      (w.repo, .object (present ((workerFields cx w).filter fun e => e.1 ≠ "repo"))) := by
  have hlookup : (present (workerFields cx w)).lookup "repo" = some (optionValue .string w.repo) :=
    lookup_present (workerFields_nodup cx w) "repo"
  unfold takeStringField workerValue
  simp only [hlookup, without_present]
  cases w.repo <;> rfl

theorem takeU32Field_restartCount (w : WorkerData) :
    takeU32Field (.object (present ((workerFields cx w).filter fun e => e.1 ≠ "repo"))) "restart_count" =
      (w.restartCount, .object (present (durableFields cx w))) := by
  have hnodup : (((workerFields cx w).filter fun e => e.1 ≠ "repo").map Prod.fst).Nodup :=
    (workerFields_nodup cx w).sublist (List.filter_sublist.map Prod.fst)
  have hlookup : (present ((workerFields cx w).filter fun e => e.1 ≠ "repo")).lookup "restart_count" =
      some (.int w.restartCount.toNat) := lookup_present hnodup "restart_count"
  unfold takeU32Field
  simp only [hlookup, without_present, u32Value_toNat]
  rfl

theorem field_durable (w : WorkerData) (name : String) :
    field (present (durableFields cx w)) name = some ((durableFields cx w).lookup name).join :=
  field_present ((workerFields_nodup cx w).sublist ((List.filter_sublist.trans List.filter_sublist).map Prod.fst)) name

section fields

variable {α : Type} {decode : Value → Option α} {fields : List (String × Value)} {name : String}

theorem required_of {v : Value} {a : α} (hfield : field fields name = some (some v)) (hv : decode v = some a) :
    required decode fields name = some a := by
  rw [required, hfield]
  exact hv

theorem orDefault_of {v : Value} {a : α} (hfield : field fields name = some (some v)) (hv : decode v = some a)
    (default : α) : orDefault decode fields name default = some a := by
  rw [orDefault, hfield]
  exact hv

theorem orDefault_absent (hfield : field fields name = some none) (default : α) :
    orDefault decode fields name default = some default := by
  rw [orDefault, hfield]
  rfl

theorem optional_nullable {encode : α → Value} (o : Option α)
    (hfield : field fields name = some (some (optionValue encode o)))
    (hv : ∀ a ∈ o, encode a ≠ .null ∧ decode (encode a) = some a) : optional decode fields name = some o := by
  refine orDefault_of hfield ?_ none
  cases o with
  | none => rfl
  | some a =>
    obtain ⟨hnull, ha⟩ := hv a rfl
    unfold nullable optionValue
    split
    · rename_i heq
      exact absurd heq hnull
    · rw [ha]
      rfl

theorem optional_skipped {encode : α → Value} (o : Option α) (hfield : field fields name = some (o.map encode))
    (hv : ∀ a ∈ o, encode a ≠ .null ∧ decode (encode a) = some a) : optional decode fields name = some o := by
  cases o with
  | none => exact orDefault_absent hfield none
  | some a => exact optional_nullable (some a) hfield hv

end fields

def Codec.ReadsTimes (w : WorkerData) : Prop :=
  Codec.ReadsTime cx w.updatedAt ∧ ∀ t ∈ w.frozenAt, Codec.ReadsTime cx t

def durable (w : WorkerData) : WorkerData := { w with repo := none, restartCount := 0 }

theorem workerOf_durable {cx : Codec} {w : WorkerData} (ht : Codec.ReadsTimes cx w) :
    workerOf cx (.object (present (durableFields cx w))) = some (durable w) := by
  have hf := field_durable cx w
  have hid : ∀ {new : String → Except IdError String} (i : Id new),
      idText i ≠ Value.null ∧ idValue (idText i) = some i := fun i => ⟨nofun, idValue_idText i⟩
  have hworker : required idValue (present (durableFields cx w)) "id" = some w.id :=
    required_of (hf "id") (idValue_idText w.id)
  have hagent : required idValue (present (durableFields cx w)) "agent_id" = some w.agentId :=
    required_of (hf "agent_id") (idValue_idText w.agentId)
  have hrole : required (named agentRoles) (present (durableFields cx w)) "role" = some w.role :=
    required_of (hf "role") (by cases w.role <;> rfl)
  have hclearance : required (named clearances) (present (durableFields cx w)) "clearance" = some w.clearance :=
    required_of (hf "clearance") (by cases w.clearance <;> rfl)
  have hstatus : required statusOf (present (durableFields cx w)) "status" = some w.status :=
    required_of (hf "status") (statusOf_statusValue w.status)
  have hworkerRole : orDefault (named workerRoles) (present (durableFields cx w)) "worker_role" .cognition =
      some w.workerRole := orDefault_of (hf "worker_role") (by cases w.workerRole <;> rfl) _
  have hdesired : orDefault (named desiredStates) (present (durableFields cx w)) "desired" .running = some w.desired :=
    orDefault_of (hf "desired") (by cases w.desired <;> rfl) _
  have hrepo : optional text (present (durableFields cx w)) "repo" = some none := orDefault_absent (hf "repo") none
  have hmolecule : optional idValue (present (durableFields cx w)) "current_molecule" = some w.currentMolecule :=
    optional_nullable w.currentMolecule (hf "current_molecule") fun i _ => hid i
  have hupdated : required (timeValue cx) (present (durableFields cx w)) "updated_at" = some w.updatedAt :=
    required_of (hf "updated_at") ht.1
  have hpreempted : optional idValue (present (durableFields cx w)) "preempted_by" = some w.preemptedBy :=
    optional_skipped w.preemptedBy (hf "preempted_by") fun i _ => hid i
  have hfrozenMolecule : optional idValue (present (durableFields cx w)) "frozen_molecule" = some w.frozenMolecule :=
    optional_skipped w.frozenMolecule (hf "frozen_molecule") fun i _ => hid i
  have hfrozenAt : optional (timeValue cx) (present (durableFields cx w)) "frozen_at" = some w.frozenAt :=
    optional_skipped w.frozenAt (hf "frozen_at") fun t h => ⟨nofun, ht.2 t h⟩
  have hrestarts : orDefault u32Value (present (durableFields cx w)) "restart_count" 0 = some 0 :=
    orDefault_absent (hf "restart_count") 0
  change workerOfFields cx (present (durableFields cx w)) = _
  unfold workerOfFields
  rw [hworker, hagent, hrole, hclearance, hstatus, hworkerRole, hdesired, hrepo, hmolecule, hupdated, hpreempted,
    hfrozenMolecule, hfrozenAt, hrestarts]
  rfl

end workers

section maps

variable {κ α β : Type} [DecidableEq κ] {decodeKey : Value → Option κ} {key : κ → String}

theorem mapOf_entries {decode : Value → Option β} {encode : α → Value} {g : α → β}
    {es : List (Sigma fun _ : κ => α)} (hkey : ∀ k, decodeKey (.string (key k)) = some k)
    (hvalue : ∀ e ∈ es, decode (encode e.2) = some (g e.2)) :
    mapOf decodeKey decode (.object (es.map fun e => (key e.1, encode e.2))) =
      some (es.map fun e => (⟨e.1, g e.2⟩ : Sigma fun _ : κ => β)).reverse.toAList := by
  have hread : (es.map fun e => (key e.1, encode e.2)).mapM (fun p => do
      let k ← decodeKey (.string p.1)
      let v ← decode p.2
      pure (⟨k, v⟩ : Sigma fun _ : κ => β)) = some (es.map fun e => ⟨e.1, g e.2⟩) := by
    induction es with
    | nil => rfl
    | cons e rest ih =>
      rw [List.forall_mem_cons] at hvalue
      rw [List.map_cons, List.mapM_cons, ih hvalue.2, hkey, hvalue.1]
      rfl
  rw [mapOf, hread]
  rfl

theorem lookup_read {m : HashMap κ α} {es : List (Sigma fun _ : κ => α)} (hperm : es.Perm m.entries) (g : α → β)
    (k : κ) : ((es.map fun e => (⟨e.1, g e.2⟩ : Sigma fun _ : κ => β)).reverse.toAList).lookup k =
      (m.lookup k).map g := by
  have hnodup : (es.map fun e => (⟨e.1, g e.2⟩ : Sigma fun _ : κ => β)).NodupKeys := by
    rw [List.NodupKeys, List.keys, List.map_map]
    exact (hperm.map Sigma.fst).nodup_iff.mpr m.nodupKeys
  rw [AList.lookup_to_alist, ← List.perm_dlookup k hnodup (List.reverse_perm _).symm]
  exact (List.dlookup_map₂ (f := fun _ => g) k).trans
    (congrArg _ (List.perm_dlookup k ((List.perm_nodupKeys hperm).mpr m.nodupKeys) hperm))

theorem mapOf_read {decode : Value → Option β} {encode : α → Value} {g : α → β} {m : HashMap κ α}
    {es : List (Sigma fun _ : κ => α)} (hperm : es.Perm m.entries)
    (hkey : ∀ k, decodeKey (.string (key k)) = some k) (hvalue : ∀ e ∈ m.entries, decode (encode e.2) = some (g e.2)) :
    ∃ read, mapOf decodeKey decode (.object (es.map fun e => (key e.1, encode e.2))) = some read ∧
      ∀ k, read.lookup k = (m.lookup k).map g :=
  ⟨_, mapOf_entries hkey fun e he => hvalue e (hperm.subset he), lookup_read hperm g⟩

theorem lookup_mapValues (f : α → β) (m : HashMap κ α) (k : κ) :
    (mapValues f m).lookup k = (m.lookup k).map f :=
  List.dlookup_map₂ (f := fun _ => f) k

end maps

section halves

variable (cx : Codec)

def live (w : WorkerData) : Option RuntimeWorker :=
  if w.repo.isSome ∨ w.restartCount ≠ 0 then some ⟨w.repo, w.restartCount⟩ else none

theorem splitWorkers_entries (es : List (Sigma fun _ : WorkerId => WorkerData)) (hes : es.NodupKeys)
    (runtime : HashMap WorkerId RuntimeWorker) :
    ∃ after, splitWorkers runtime (es.map fun e => (e.1.raw, workerValue cx e.2)) =
        .ok (es.map fun e => (e.1.raw, .object (present (durableFields cx e.2))), after) ∧
      ∀ k, after.lookup k = ((es.dlookup k).bind live).or (runtime.lookup k) := by
  induction es generalizing runtime with
  | nil => exact ⟨runtime, rfl, fun k => rfl⟩
  | cons e rest ih =>
    obtain ⟨wid, w⟩ := e
    obtain ⟨hnotin, hrest⟩ := List.nodupKeys_cons.mp hes
    obtain ⟨after, hsplit, hafter⟩ := ih hrest
      (if w.repo.isSome ∨ w.restartCount ≠ 0 then runtime.insert wid ⟨w.repo, w.restartCount⟩ else runtime)
    refine ⟨after, ?_, ?_⟩
    · rw [List.map_cons, splitWorkers, ofString_raw]
      simp only [takeStringField_repo, takeU32Field_restartCount, hsplit]
      rfl
    · intro k
      rw [hafter]
      by_cases hk : k = wid
      · subst hk
        rw [List.dlookup_cons_eq, List.dlookup_eq_none.mpr hnotin]
        simp only [Option.bind_none, Option.none_or, Option.bind_some, live]
        split
        · rw [AList.lookup_insert]
          rfl
        · rfl
      · have hrest : (⟨wid, w⟩ :: rest : List (Sigma fun _ : WorkerId => WorkerData)).dlookup k = rest.dlookup k :=
          List.dlookup_cons_ne rest _ hk
        rw [hrest]
        congr 1
        split
        · exact AList.lookup_insert_ne hk
        · rfl

theorem runtimeWorkerOf_value (rw : RuntimeWorker) : runtimeWorkerOf (runtimeWorkerValue rw) = some rw := by
  obtain ⟨repo, restartCount⟩ := rw
  have hf := @field_present [("repo", repo.map Value.string),
    ("restart_count", if restartCount = 0 then none else some (.int restartCount.toNat))]
    (by have h : (["repo", "restart_count"] : List String).Nodup := by decide
        exact h)
  have hrepo := @optional_skipped _ text _ _ Value.string repo (hf "repo") fun s _ => ⟨nofun, rfl⟩
  have hrestarts : orDefault u32Value (present [("repo", repo.map Value.string),
      ("restart_count", if restartCount = 0 then none else some (.int restartCount.toNat))]) "restart_count" 0 =
      some restartCount := by
    have h := hf "restart_count"
    by_cases hzero : restartCount = 0
    · rw [if_pos hzero] at h ⊢
      rw [orDefault_absent h, hzero]
    · rw [if_neg hzero] at h ⊢
      exact orDefault_of h (u32Value_toNat restartCount) 0
  change runtimeWorkerOfFields _ = _
  unfold runtimeWorkerOfFields
  rw [hrepo, hrestarts]
  rfl

theorem repoOf_value (r : RepoData) : repoOf (repoValue r) = some r := rfl

theorem runtimeFleetOf_value (after : HashMap WorkerId RuntimeWorker) :
    ∃ runtime, runtimeFleetOf (runtimeFleetValue ⟨after⟩) = some runtime ∧
      ∀ k, runtime.workers.lookup k = after.lookup k := by
  obtain ⟨read, hread, hlookup⟩ := @mapOf_read _ _ _ _ idValue Id.raw runtimeWorkerOf
    runtimeWorkerValue id _ _ (List.Perm.refl after.entries) idValue_idText
    fun e _ => runtimeWorkerOf_value e.2
  refine ⟨⟨read⟩, ?_, fun k => by rw [hlookup, Option.map_id, id]⟩
  have hworkers : orDefault (mapOf idValue runtimeWorkerOf)
      [("workers", .object (after.entries.map fun e => (e.1.raw, runtimeWorkerValue e.2)))] "workers" ∅ =
      some read := orDefault_of rfl hread ∅
  unfold runtimeFleetOf runtimeFleetValue recordFields
  simp only [Option.bind_eq_bind, Option.bind_some, hworkers]
  rfl

def durableFleet (fleet : Fleet) (workers : List (String × Value)) : List (String × Option Value) :=
  [("attention_budget", fleet.attentionBudget.map fun n => .int n.toNat),
    ("repos", some (.object (entriesValue id repoValue fleet.repos))), ("workers", some (.object workers))]

theorem durableFleet_nodup (fleet : Fleet) (workers : List (String × Value)) :
    ((durableFleet fleet workers).map Prod.fst).Nodup := by
  have h : (["attention_budget", "repos", "workers"] : List String).Nodup := by decide
  exact h

theorem fleetValue_eq (fleet : Fleet) : fleetValue cx fleet =
    .object (present (durableFleet fleet (entriesValue Id.raw (workerValue cx) fleet.workers))) := rfl

theorem workersOf_fleetValue (fleet : Fleet) :
    workersOf (fleetValue cx fleet) = some (entriesValue Id.raw (workerValue cx) fleet.workers) := by
  have h := lookup_present (durableFleet_nodup fleet (entriesValue Id.raw (workerValue cx) fleet.workers)) "workers"
  rw [fleetValue_eq]
  unfold workersOf
  simp only [h]
  rfl

theorem withWorkers_fleetValue (fleet : Fleet) (workers : List (String × Value)) :
    withWorkers workers (fleetValue cx fleet) = .object (present (durableFleet fleet workers)) := by
  rw [fleetValue_eq]
  unfold durableFleet
  cases fleet.attentionBudget <;> rfl

theorem fleetOf_durable {cx : Codec} {fleet : Fleet} (ht : ∀ e ∈ fleet.workers.entries, Codec.ReadsTimes cx e.2)
    {es : List (Sigma fun _ : WorkerId => WorkerData)} (hperm : es.Perm fleet.workers.entries) :
    ∃ read, fleetOf cx (withWorkers (es.map fun e => (e.1.raw, .object (present (durableFields cx e.2))))
        (fleetValue cx fleet)) = some read ∧
      (∀ k, read.workers.lookup k = (fleet.workers.lookup k).map durable) ∧
      (∀ k, read.repos.lookup k = fleet.repos.lookup k) ∧ read.attentionBudget = fleet.attentionBudget := by
  obtain ⟨workers, hworkers, hlookup⟩ := @mapOf_read _ _ _ _ idValue Id.raw (workerOf cx)
    (fun w => .object (present (durableFields cx w))) _ _ _ hperm idValue_idText
    fun e he => workerOf_durable (ht e he)
  obtain ⟨repos, hrepos, hsame⟩ := @mapOf_read _ _ _ _ text id repoOf
    repoValue id _ _ (List.perm_insertionSort (fun d e => d.1 ≤ e.1) fleet.repos.entries)
    (fun k => rfl) fun e _ => repoOf_value e.2
  refine ⟨⟨workers, repos, fleet.attentionBudget⟩, ?_, hlookup,
    fun k => by rw [hsame, Option.map_id, id], rfl⟩
  have hf := field_present (durableFleet_nodup fleet
    (es.map fun e => (e.1.raw, .object (present (durableFields cx e.2)))))
  rw [withWorkers_fleetValue]
  change fleetOfFields cx _ = _
  unfold fleetOfFields
  rw [required_of (hf "workers") hworkers, required_of (hf "repos") hrepos,
    @optional_skipped _ usizeValue _ _ _ fleet.attentionBudget (hf "attention_budget")
      fun n _ => ⟨nofun, usizeValue_toNat n⟩]
  rfl

/-- A fleet is split without a failure, and its halves are read back with all that it holds. -/
theorem splitFleet_read {cx : Codec} {fleet : Fleet} (ht : ∀ e ∈ fleet.workers.entries, Codec.ReadsTimes cx e.2) :
    ∃ v runtime, splitFleet cx fleet = .ok (v, runtime) ∧
      (∃ read, fleetOf cx v = some read ∧
        (∀ k, read.workers.lookup k = (fleet.workers.lookup k).map durable) ∧
        (∀ k, read.repos.lookup k = fleet.repos.lookup k) ∧ read.attentionBudget = fleet.attentionBudget) ∧
      ∃ read, runtimeFleetOf (runtimeFleetValue runtime) = some read ∧
        ∀ k, read.workers.lookup k = (fleet.workers.lookup k).bind live := by
  have hperm := List.perm_insertionSort
    (fun d e : Sigma fun _ : WorkerId => WorkerData => d.1.raw ≤ e.1.raw) fleet.workers.entries
  have hnodup := (List.perm_nodupKeys hperm).mpr fleet.workers.nodupKeys
  obtain ⟨after, hsplit, hafter⟩ := splitWorkers_entries cx _ hnodup ∅
  obtain ⟨read, hread, hlookup⟩ := runtimeFleetOf_value after
  refine ⟨_, ⟨after⟩, ?_, fleetOf_durable ht hperm, read, hread, fun k => ?_⟩
  · unfold splitFleet
    simp only [workersOf_fleetValue]
    rw [entriesValue, hsplit]
    rfl
  · rw [hlookup, hafter, AList.lookup_empty, Option.or_none, List.perm_dlookup k hnodup hperm]
    rfl

end halves

section loads

variable (cx : Codec)

/-- What the live half holds for a worker. A corrupt one holds nothing. -/
def overlayEntry (runtime : Option Content) (id : WorkerId) : Option RuntimeWorker :=
  match runtime with
  | some (.text data) => (parseRuntime cx data).bind fun read => read.workers.lookup id
  | _ => none

def overlaid (entry : Option RuntimeWorker) (w : WorkerData) : WorkerData :=
  match entry with
  | some rw => rw.overlay w
  | none => w

theorem lookup_overlayWorkers (es : List (Sigma fun _ : WorkerId => RuntimeWorker)) (hes : es.NodupKeys)
    (workers : HashMap WorkerId WorkerData) (k : WorkerId) :
    (overlayWorkers workers es).lookup k = (workers.lookup k).map (overlaid (es.dlookup k)) := by
  induction es generalizing workers with
  | nil => exact Option.map_id'.symm
  | cons e rest ih =>
    obtain ⟨wid, rw⟩ := e
    obtain ⟨hnotin, hrest⟩ := List.nodupKeys_cons.mp hes
    by_cases hk : k = wid
    · subst hk
      rw [List.dlookup_cons_eq, overlayWorkers]
      cases hw : workers.lookup k with
      | none =>
        simp only [ih hrest, hw]
        rfl
      | some w =>
        simp only [ih hrest, AList.lookup_insert, List.dlookup_eq_none.mpr hnotin]
        rfl
    · have hdrop : (⟨wid, rw⟩ :: rest : List (Sigma fun _ : WorkerId => RuntimeWorker)).dlookup k = rest.dlookup k :=
        List.dlookup_cons_ne rest _ hk
      rw [hdrop, overlayWorkers]
      cases workers.lookup wid with
      | none => exact ih hrest workers
      | some w =>
        have hkeep : (workers.insert wid (rw.overlay w)).lookup k = workers.lookup k := AList.lookup_insert_ne hk
        rw [← hkeep]
        exact ih hrest _

theorem mergeRuntimeOverlay_ok (fleet : Fleet) {runtime : Option Content} (h : runtime ≠ some .notUtf8) :
    ∃ merged, mergeRuntimeOverlay cx fleet runtime = .ok merged ∧
      (∀ k, merged.workers.lookup k = (fleet.workers.lookup k).map (overlaid (overlayEntry cx runtime k))) ∧
      merged.repos = fleet.repos ∧ merged.attentionBudget = fleet.attentionBudget := by
  have hplain : ∀ k, fleet.workers.lookup k = (fleet.workers.lookup k).map (overlaid none) :=
    fun k => Option.map_id'.symm
  cases runtime with
  | none => exact ⟨fleet, rfl, hplain, rfl, rfl⟩
  | some content =>
    cases content with
    | notUtf8 => exact absurd rfl h
    | text data =>
      cases hread : parseRuntime cx data with
      | none =>
        refine ⟨fleet, by simp only [mergeRuntimeOverlay, hread], fun k => ?_, rfl, rfl⟩
        simp only [overlayEntry, hread]
        exact hplain k
      | some read =>
        refine ⟨{ fleet with workers := overlayWorkers fleet.workers read.workers.entries },
          by simp only [mergeRuntimeOverlay, hread], fun k => ?_, rfl, rfl⟩
        simp only [overlayEntry, hread]
        exact lookup_overlayWorkers read.workers.entries read.workers.nodupKeys fleet.workers k

/-- What is loaded: each worker of the durable half, with its role and then with its live fields. -/
theorem loadFleet_ok {files : Files} {data : String} {read : Fleet} (hfleet : files.fleet = some (.text data))
    (hread : parseFleet cx data = some read) (h : files.runtime ≠ some .notUtf8) :
    ∃ loaded, loadFleet cx files = .ok loaded ∧
      (∀ k, loaded.workers.lookup k =
        (read.workers.lookup k).map fun w => overlaid (overlayEntry cx files.runtime k) w.reconciled) ∧
      loaded.repos = read.repos ∧ loaded.attentionBudget = read.attentionBudget := by
  obtain ⟨loaded, hmerge, hlookup, hrest⟩ := mergeRuntimeOverlay_ok cx read.reconcileWorkerRoles h
  refine ⟨loaded, ?_, fun k => ?_, hrest⟩
  · unfold loadFleet
    simp only [hfleet, hread]
    exact hmerge
  · rw [hlookup, Fleet.reconcileWorkerRoles, lookup_mapValues, Option.map_map]
    rfl

end loads

section crashes

variable (cx : Codec)

/-- The codec reads back what a save of this fleet writes. -/
structure Codec.Reads (cx : Codec) (fleet : Fleet) : Prop where
  times : ∀ e ∈ fleet.workers.entries, Codec.ReadsTimes cx e.2
  texts : ∀ v runtime, splitFleet cx fleet = .ok (v, runtime) →
    cx.fromStr (cx.toStringPretty v) = some v ∧
      cx.fromStr (cx.toStringPretty (runtimeFleetValue runtime)) = some (runtimeFleetValue runtime)

structure Same (a b : Fleet) : Prop where
  workers : ∀ id, a.workers.lookup id = b.workers.lookup id
  repos : ∀ name, a.repos.lookup name = b.repos.lookup name
  attentionBudget : a.attentionBudget = b.attentionBudget

def roster (fleet : Fleet) : Fleet := { fleet with workers := mapValues durable fleet.workers }

def OldOrNew (before new now : WorkerData) : Prop :=
  (now.repo = before.repo ∨ now.repo = new.repo) ∧
    (now.restartCount = before.restartCount ∨ now.restartCount = new.restartCount)

/-- A save is read back, and one that is cut short loses no live field. -/
structure SaveHolds (fleet : Fleet) (files : Files) : Prop where
  completed : ∃ after loaded, saveFleet cx fleet files = .ok after ∧ loadFleet cx after = .ok loaded ∧
    Same loaded fleet.reconcileWorkerRoles
  cutShort : ∃ after loaded, saveCutShort cx fleet files = .ok after ∧ loadFleet cx after = .ok loaded ∧
    Same (roster loaded) (roster fleet.reconcileWorkerRoles) ∧
    ∀ old, loadFleet cx files = .ok old → ∀ id before new now, old.workers.lookup id = some before →
      fleet.workers.lookup id = some new → loaded.workers.lookup id = some now → OldOrNew before new now

def inlineFleet (files : Files) : Option Fleet :=
  match files.fleet with
  | some (.text data) => parseFleet cx data
  | _ => none

/-- The live half before the save is a text, and it has an entry for each worker whose live
fields stand in the durable half and are not given up by the new fleet. -/
structure OverlayKeeps (fleet : Fleet) (files : Files) : Prop where
  readable : files.runtime ≠ some .notUtf8
  kept : ∀ inline, inlineFleet cx files = some inline → ∀ id before new, inline.workers.lookup id = some before →
    fleet.workers.lookup id = some new → overlayEntry cx files.runtime id = none →
    (before.repo = none ∨ new.repo = none) ∧ (before.restartCount = 0 ∨ new.restartCount = 0)

variable {cx} {fleet : Fleet} {files : Files}

theorem reconciled_eq (w : WorkerData) : w.reconciled =
    { w with workerRole := if w.workerRole = .cognition then deriveWorkerRole w.role w.id.raw else w.workerRole } := by
  unfold WorkerData.reconciled
  by_cases h : w.workerRole = .cognition
  · rw [if_pos h, if_pos h]
  · rw [if_neg h, if_neg h]

theorem durable_reconciled (w : WorkerData) : (durable w).reconciled = durable w.reconciled := by
  rw [reconciled_eq, reconciled_eq]
  rfl

theorem overlaid_live (w : WorkerData) : overlaid (live w) (durable w).reconciled = w.reconciled := by
  rw [durable_reconciled, reconciled_eq, live]
  split
  · rfl
  · rename_i hnone
    rw [not_or, Bool.not_eq_true, Option.isSome_eq_false_iff, Option.isNone_iff_eq_none, not_not] at hnone
    obtain ⟨hrepo, hrestarts⟩ := hnone
    rw [overlaid, durable, hrepo, hrestarts]

theorem durable_overlaid (entry : Option RuntimeWorker) (w : WorkerData) :
    durable (overlaid entry (durable w).reconciled) = durable w.reconciled := by
  rw [durable_reconciled]
  cases entry <;> rfl

theorem splitFleetForPersist_read (hreads : Codec.Reads cx fleet) :
    ∃ data runtime, splitFleetForPersist cx fleet = .ok (data, runtime) ∧
      (∃ read, parseFleet cx data = some read ∧
        (∀ k, read.workers.lookup k = (fleet.workers.lookup k).map durable) ∧
        (∀ k, read.repos.lookup k = fleet.repos.lookup k) ∧ read.attentionBudget = fleet.attentionBudget) ∧
      ∀ k, overlayEntry cx (some (.text runtime)) k = (fleet.workers.lookup k).bind live := by
  obtain ⟨v, runtime, hsplit, ⟨read, hread, hrest⟩, overlay, hoverlay, hentries⟩ := splitFleet_read hreads.times
  obtain ⟨hv, hruntime⟩ := hreads.texts v runtime hsplit
  refine ⟨cx.toStringPretty v, cx.toStringPretty (runtimeFleetValue runtime), ?_, ⟨read, ?_, hrest⟩, fun k => ?_⟩
  · rw [splitFleetForPersist, hsplit]
    rfl
  · rw [parseFleet, hv]
    exact hread
  · rw [← hentries k]
    simp only [overlayEntry, parseRuntime, hruntime, Option.bind_some, hoverlay]

theorem load_completed (hreads : Codec.Reads cx fleet) :
    ∃ after loaded, saveFleet cx fleet files = .ok after ∧ loadFleet cx after = .ok loaded ∧
      Same loaded fleet.reconcileWorkerRoles := by
  obtain ⟨data, runtime, hsplit, ⟨read, hread, hworkers, hrepos, hbudget⟩, hentries⟩ :=
    splitFleetForPersist_read hreads
  obtain ⟨loaded, hload, hlookup, hloadedRepos, hloadedBudget⟩ :=
    @loadFleet_ok cx (replaceRuntime runtime (replaceFleet data files)) _ _ rfl hread (nofun)
  refine ⟨_, loaded, congrArg (Except.map _) hsplit, hload, fun id => ?_, fun name => ?_, ?_⟩
  · have hentry : overlayEntry cx (replaceRuntime runtime (replaceFleet data files)).runtime id =
        (fleet.workers.lookup id).bind live := hentries id
    rw [hlookup, hentry, hworkers, Fleet.reconcileWorkerRoles, lookup_mapValues]
    cases fleet.workers.lookup id with
    | none => rfl
    | some w => exact congrArg some (overlaid_live w)
  · rw [hloadedRepos]
    exact hrepos name
  · rw [hloadedBudget]
    exact hbudget

theorem load_cutShort (hreads : Codec.Reads cx fleet) (h : files.runtime ≠ some .notUtf8) :
    ∃ after loaded, saveCutShort cx fleet files = .ok after ∧ loadFleet cx after = .ok loaded ∧
      Same (roster loaded) (roster fleet.reconcileWorkerRoles) ∧
      ∀ id, loaded.workers.lookup id =
        (fleet.workers.lookup id).map fun w => overlaid (overlayEntry cx files.runtime id) (durable w).reconciled := by
  obtain ⟨data, runtime, hsplit, ⟨read, hread, hworkers, hrepos, hbudget⟩, hentries⟩ :=
    splitFleetForPersist_read hreads
  obtain ⟨loaded, hload, hlookup, hloadedRepos, hloadedBudget⟩ :=
    @loadFleet_ok cx (replaceFleet data files) _ _ rfl hread h
  have hall : ∀ id, loaded.workers.lookup id =
      (fleet.workers.lookup id).map fun w => overlaid (overlayEntry cx files.runtime id) (durable w).reconciled := by
    intro id
    rw [hlookup, hworkers, Option.map_map]
    rfl
  refine ⟨_, loaded, congrArg (Except.map _) hsplit, hload, ⟨fun id => ?_, fun name => ?_, ?_⟩, hall⟩
  · rw [roster, roster, lookup_mapValues, hall, Fleet.reconcileWorkerRoles, lookup_mapValues, lookup_mapValues,
      Option.map_map, Option.map_map]
    exact congrArg (Option.map · _) (funext fun w => durable_overlaid _ w)
  · exact (congrArg (AList.lookup name) hloadedRepos).trans (hrepos name)
  · exact hloadedBudget.trans hbudget

theorem oldOrNew_iff (entry : Option RuntimeWorker) (before new : WorkerData) :
    OldOrNew (overlaid entry before.reconciled) new (overlaid entry (durable new).reconciled) ↔
      (entry = none → (before.repo = none ∨ new.repo = none) ∧ (before.restartCount = 0 ∨ new.restartCount = 0)) := by
  rw [durable_reconciled, reconciled_eq, reconciled_eq]
  cases entry with
  | none =>
    simp only [OldOrNew, overlaid, durable, forall_const]
    rw [eq_comm, @eq_comm _ none, @eq_comm _ 0, @eq_comm _ 0]
  | some rw => exact ⟨fun _ h => (nomatch h), fun _ => ⟨Or.inl rfl, Or.inl rfl⟩⟩

theorem readable_of_load {data : String} {loaded : Fleet} (hread : ∃ read, parseFleet cx data = some read)
    (h : loadFleet cx (replaceFleet data files) = .ok loaded) : files.runtime ≠ some .notUtf8 := by
  intro hruntime
  obtain ⟨read, hread⟩ := hread
  simp only [loadFleet, replaceFleet, hread, hruntime, mergeRuntimeOverlay] at h
  cases h

theorem inline_of_load {old : Fleet} (h : loadFleet cx files = .ok old) (hreadable : files.runtime ≠ some .notUtf8)
    {id : WorkerId} {before : WorkerData} (hbefore : old.workers.lookup id = some before) :
    ∃ inline w, inlineFleet cx files = some inline ∧ inline.workers.lookup id = some w ∧
      before = overlaid (overlayEntry cx files.runtime id) w.reconciled := by
  cases hfile : files.fleet with
  | none =>
    simp only [loadFleet, hfile, Except.ok.injEq] at h
    subst h
    cases hbefore
  | some content =>
    cases content with
    | notUtf8 =>
      simp only [loadFleet, hfile] at h
      cases h
    | text data =>
      cases hread : parseFleet cx data with
      | none =>
        simp only [loadFleet, hfile, hread] at h
        cases h
      | some inline =>
        obtain ⟨loaded, hload, hlookup, -⟩ := loadFleet_ok cx hfile hread hreadable
        rw [hload, Except.ok.injEq] at h
        subst h
        rw [hlookup] at hbefore
        obtain ⟨w, hw, rfl⟩ := Option.map_eq_some_iff.mp hbefore
        exact ⟨inline, w, by simp only [inlineFleet, hfile, hread], hw, rfl⟩

theorem load_of_inline {inline : Fleet} (h : inlineFleet cx files = some inline)
    (hreadable : files.runtime ≠ some .notUtf8) :
    ∃ old, loadFleet cx files = .ok old ∧ ∀ id, old.workers.lookup id =
      (inline.workers.lookup id).map fun w => overlaid (overlayEntry cx files.runtime id) w.reconciled := by
  unfold inlineFleet at h
  split at h
  · rename_i data hfile
    obtain ⟨old, hload, hlookup, -⟩ := loadFleet_ok cx hfile h hreadable
    exact ⟨old, hload, hlookup⟩
  · cases h

theorem overlayKeeps_of_saveHolds (hreads : Codec.Reads cx fleet) (h : SaveHolds cx fleet files) :
    OverlayKeeps cx fleet files := by
  obtain ⟨-, after, loaded, hsave, hload, -, hall⟩ := h
  have hreadable : files.runtime ≠ some .notUtf8 := by
    obtain ⟨data, runtime, hsplit, ⟨read, hread, -⟩, -⟩ := splitFleetForPersist_read hreads
    rw [saveCutShort, hsplit] at hsave
    cases hsave
    exact readable_of_load ⟨read, hread⟩ hload
  refine ⟨hreadable, fun inline hinline id before new hbefore hnew => ?_⟩
  obtain ⟨old, hold, hlookup⟩ := load_of_inline hinline hreadable
  obtain ⟨after', loaded', hsave', hload', -, hlookup'⟩ := load_cutShort hreads hreadable
  rw [hsave, Except.ok.injEq] at hsave'
  subst hsave'
  rw [hload, Except.ok.injEq] at hload'
  subst hload'
  refine (oldOrNew_iff _ before new).mp (hall old hold id _ new _ ?_ hnew ?_)
  · rw [hlookup, hbefore]
    rfl
  · rw [hlookup', hnew]
    rfl

theorem saveHolds_of_overlayKeeps (hreads : Codec.Reads cx fleet) (h : OverlayKeeps cx fleet files) :
    SaveHolds cx fleet files := by
  obtain ⟨hreadable, hkept⟩ := h
  obtain ⟨after, loaded, hsave, hload, hroster, hlookup⟩ := load_cutShort hreads hreadable
  refine ⟨load_completed hreads, after, loaded, hsave, hload, hroster, fun old hold id before new now => ?_⟩
  intro hbefore hnew hnow
  obtain ⟨inline, w, hinline, hw, rfl⟩ := inline_of_load hold hreadable hbefore
  rw [hlookup, hnew, Option.map_some, Option.some.injEq] at hnow
  subst hnow
  exact (oldOrNew_iff _ w new).mpr (hkept inline hinline id w new hw hnew)

/-- A crash between the two replacements loses a live field exactly where it stood in the durable
half only: a save removes it there before it writes it to the live half. -/
theorem saveHolds_iff (hreads : Codec.Reads cx fleet) : SaveHolds cx fleet files ↔ OverlayKeeps cx fleet files :=
  ⟨overlayKeeps_of_saveHolds hreads, saveHolds_of_overlayKeeps hreads⟩

end crashes

section legacy

def legacyId : WorkerId := ⟨"quartz-legacy", by decide⟩

def respawned (restartCount : UInt32) : WorkerData where
  id := legacyId
  agentId := ⟨"polecat", by decide⟩
  role := .implementation
  clearance := .write
  status := .active
  workerRole := .cognition
  desired := .running
  repo := some ".worktrees/legacy"
  currentMolecule := none
  updatedAt := 1776160800000000000
  restartCount := restartCount

def oneWorker (w : WorkerData) : Fleet := { workers := AList.singleton legacyId w }

/-- `fleet.json` before the split, with the live fields inline. -/
def legacyText : String :=
  "\x7b\"workers\":\x7b\"quartz-legacy\":\x7b\"id\":\"quartz-legacy\",\"agent_id\":\"polecat\"," ++
  "\"role\":\"implementation\",\"clearance\":\"write\",\"status\":\"active\",\"desired\":\"running\"," ++
  "\"repo\":\".worktrees/legacy\",\"current_molecule\":null,\"updated_at\":\"2026-04-14T10:00:00Z\"," ++
  "\"restart_count\":2\x7d\x7d,\"repos\":\x7b\x7d\x7d"

def legacyValue : Value :=
  .object [("workers", .object [("quartz-legacy", .object [("id", .string "quartz-legacy"),
    ("agent_id", .string "polecat"), ("role", .string "implementation"), ("clearance", .string "write"),
    ("status", .string "active"), ("desired", .string "running"), ("repo", .string ".worktrees/legacy"),
    ("current_molecule", .null), ("updated_at", .string "2026-04-14T10:00:00Z"), ("restart_count", .int 2)])]),
    ("repos", .object [])]

def durableText : String :=
  "\x7b\n  \"repos\": \x7b\x7d,\n  \"workers\": \x7b\n    \"quartz-legacy\": \x7b\n" ++
    "      \"agent_id\": \"polecat\",\n      \"clearance\": \"write\",\n" ++
    "      \"current_molecule\": null,\n      \"desired\": \"running\",\n" ++
    "      \"id\": \"quartz-legacy\",\n      \"role\": \"implementation\",\n" ++
    "      \"status\": \"active\",\n      \"updated_at\": \"2026-04-14T10:00:00Z\",\n" ++
    "      \"worker_role\": \"cognition\"\n    \x7d\n  \x7d\n\x7d"

def runtimeText : String :=
  "\x7b\n  \"workers\": \x7b\n    \"quartz-legacy\": \x7b\n      \"repo\": \".worktrees/legacy\",\n" ++
    "      \"restart_count\": 3\n    \x7d\n  \x7d\n\x7d"

def durableValue : Value :=
  .object [("repos", .object []), ("workers", .object [("quartz-legacy", .object [("agent_id", .string "polecat"),
    ("clearance", .string "write"), ("current_molecule", .null), ("desired", .string "running"),
    ("id", .string "quartz-legacy"), ("role", .string "implementation"), ("status", .string "active"),
    ("updated_at", .string "2026-04-14T10:00:00Z"), ("worker_role", .string "cognition")])])]

def runtimeValue : Value :=
  .object [("workers", .object [("quartz-legacy", .object [("repo", .string ".worktrees/legacy"),
    ("restart_count", .int 3)])])]

/-- `serde_json` and `chrono` on these texts. -/
def legacyCodec : Codec where
  toStringPretty v := if (workersOf v).isSome && (recordFields [] v).any (fun fields => fields.length = 2) then
    durableText else runtimeText
  fromStr data :=
    if data = legacyText then some legacyValue
    else if data = durableText then some durableValue
    else if data = runtimeText then some runtimeValue
    else none
  time _ := "2026-04-14T10:00:00Z"
  parseTime s := if s = "2026-04-14T10:00:00Z" then some 1776160800000000000 else none

theorem splitFleet_legacy : splitFleet legacyCodec (oneWorker (respawned 3)) =
    .ok (durableValue, ⟨AList.singleton legacyId ⟨some ".worktrees/legacy", 3⟩⟩) := by
  have hentries : entriesValue Id.raw (workerValue legacyCodec) (oneWorker (respawned 3)).workers =
      [(legacyId.raw, workerValue legacyCodec (respawned 3))] := rfl
  unfold splitFleet
  simp only [workersOf_fleetValue, hentries, splitWorkers, ofString_raw, takeStringField_repo,
    takeU32Field_restartCount, withWorkers_fleetValue, Except.map]
  rfl

theorem legacyCodec_texts : durableText ≠ legacyText ∧ runtimeText ≠ legacyText ∧ runtimeText ≠ durableText := by
  decide +kernel

theorem legacyCodec_reads : Codec.Reads legacyCodec (oneWorker (respawned 3)) := by
  obtain ⟨hdurable, hruntime, hhalves⟩ := legacyCodec_texts
  constructor
  · intro e he
    obtain rfl := List.mem_singleton.mp he
    exact ⟨rfl, nofun⟩
  · intro v runtime h
    rw [splitFleet_legacy] at h
    cases h
    have hprint : legacyCodec.toStringPretty durableValue = durableText := rfl
    have hprint' : legacyCodec.toStringPretty runtimeValue = runtimeText := rfl
    refine ⟨?_, ?_⟩
    · rw [hprint]
      simp only [legacyCodec, if_neg hdurable, if_true]
    · change legacyCodec.fromStr (legacyCodec.toStringPretty runtimeValue) = some runtimeValue
      rw [hprint']
      simp only [legacyCodec, if_neg hruntime, if_neg hhalves, if_true]

theorem saveHolds_iff_legacy :
    SaveHolds legacyCodec (oneWorker (respawned 3)) { fleet := some (.text legacyText) } ↔
      OverlayKeeps legacyCodec (oneWorker (respawned 3)) { fleet := some (.text legacyText) } :=
  saveHolds_iff legacyCodec_reads

theorem inlineFleet_legacy : ∃ inline, inlineFleet legacyCodec { fleet := some (.text legacyText) } = some inline ∧
    inline.workers.lookup legacyId = some (respawned 2) := by
  have hread : legacyCodec.fromStr legacyText = some legacyValue := by simp only [legacyCodec, if_true]
  have hfleet : ∃ inline, fleetOf legacyCodec legacyValue = some inline ∧
      inline.workers.lookup legacyId = some (respawned 2) := ⟨_, rfl, rfl⟩
  obtain ⟨inline, hinline, hlookup⟩ := hfleet
  refine ⟨inline, ?_, hlookup⟩
  simp only [inlineFleet, parseFleet, hread, Option.bind_some, hinline]

/-- A crash in the first save of a legacy fleet resets the respawn counter. -/
theorem not_saveHolds_legacy : Codec.Reads legacyCodec (oneWorker (respawned 3)) ∧
    ¬ SaveHolds legacyCodec (oneWorker (respawned 3)) { fleet := some (.text legacyText) } := by
  refine ⟨legacyCodec_reads, fun h => ?_⟩
  obtain ⟨inline, hinline, hlookup⟩ := inlineFleet_legacy
  obtain ⟨-, hrestarts⟩ := (overlayKeeps_of_saveHolds legacyCodec_reads h).kept inline hinline legacyId
    (respawned 2) (respawned 3) hlookup (AList.lookup_insert ∅) rfl
  obtain h | h := hrestarts
  · exact absurd h (by decide)
  · exact absurd h (by decide)

end legacy

end Cosmon.Filestore.FleetSplits
