import Cosmon.State.Projection
import Cosmon.State.RebuildFiles

namespace Cosmon.State.RebuildSweep

open Cosmon.Core.Formulas Cosmon.Lib.Effects Cosmon.Lib.Effects.Effect Cosmon.State.Molecule
open Cosmon.State.Projection Cosmon.State.Rebuild Cosmon.State.RebuildFiles

/-- An entry of a `molecules` directory. A name that is no UTF-8 has no text. -/
structure MolEntry where
  name : Option String
  isDir : Bool

structure Tree where
  root : String
  isDir : Bool
  fleets : List String
  molecules : String → Option (List MolEntry)
  files : String → MoleculeId → Files

/-- What the system refuses to do in the course of one sweep. -/
structure SweepFaults where
  listRoot : Option String := none
  listMolecules : String → Option String := fun _ => none
  fileType : String → MolEntry → Option String := fun _ _ => none
  rebuild : String → MoleculeId → Faults := fun _ _ => {}

def molsDir (t : Tree) (fleet : String) : String := t.root ++ "/" ++ fleet ++ "/molecules"

def entryId (entry : MolEntry) : Option MoleculeId :=
  if entry.isDir then entry.name.bind fun name => (moleculeIdNew name).toOption else none

def fleetDirs (faults : SweepFaults) (fleet : String) :
    List MolEntry → Except RebuildError (List (MoleculeId × String))
  | [] => .ok []
  | entry :: rest =>
    match faults.fileType fleet entry with
    | some e => .error (.io e)
    | none =>
      match fleetDirs faults fleet rest with
      | .error e => .error e
      | .ok dirs =>
        match entryId entry with
        | some id => .ok ((id, fleet) :: dirs)
        | none => .ok dirs

def moleculeDirs (faults : SweepFaults) (t : Tree) : List String → Except RebuildError (List (MoleculeId × String))
  | [] => .ok []
  | fleet :: rest =>
    match t.molecules fleet with
    | none => moleculeDirs faults t rest
    | some entries =>
      match faults.listMolecules fleet with
      | some e => .error (ioError "list" (molsDir t fleet) e)
      | none =>
        match fleetDirs faults fleet entries with
        | .error e => .error e
        | .ok dirs => (moleculeDirs faults t rest).map (dirs ++ ·)

abbrev SweepEntry := MoleculeId × Except RebuildError RebuildOutcome

def rebuildOne (json : Codec) (log : EventsLog) (faults : SweepFaults) (place : MoleculeId × String) :
    Effect Tree RebuildError SweepEntry := fun t =>
  let run := rebuildMoleculeState json log (faults.rebuild place.2 place.1) (molsDir t place.2 ++ "/" ++ place.1)
    place.1 (t.files place.2 place.1)
  (.ok (place.1, run.1), { t with
    files := Function.update t.files place.2 (Function.update (t.files place.2) place.1 run.2) })

/-- Rebuild what is missing, in the order of the ids. A molecule that is refused is an entry
of the result and stops nothing. -/
def rebuildAllMissing (json : Codec) (log : EventsLog) (faults : SweepFaults) :
    Effect Tree RebuildError (List SweepEntry) := fun t =>
  if t.isDir = false then (.ok [], t)
  else
    match faults.listRoot with
    | some e => (.error (ioError "list" t.root e), t)
    | none =>
      match moleculeDirs faults t t.fleets with
      | .error e => (.error e, t)
      | .ok dirs =>
        collect (rebuildOne json log faults) (dirs.mergeSort fun a b => decide (a.1 ≤ b.1)) t

section Sweep

variable {json : Codec} {log : EventsLog} {faults : SweepFaults}

def Listed (t : Tree) (fleet : String) (id : MoleculeId) : Prop :=
  fleet ∈ t.fleets ∧ ∃ entries, t.molecules fleet = some entries ∧ ∃ entry ∈ entries, entryId entry = some id

theorem mem_fleetDirs {fleet : String} {entries : List MolEntry} {dirs : List (MoleculeId × String)}
    (h : fleetDirs faults fleet entries = .ok dirs) (id : MoleculeId) (fleet' : String) :
    (id, fleet') ∈ dirs ↔ fleet' = fleet ∧ ∃ entry ∈ entries, entryId entry = some id := by
  induction entries generalizing dirs with
  | nil =>
    cases h
    simp
  | cons entry rest ih =>
    unfold fleetDirs at h
    split at h
    · cases h
    · cases hrest : fleetDirs faults fleet rest with
      | error e =>
        rw [hrest] at h
        cases h
      | ok more =>
        rw [hrest] at h
        dsimp only at h
        rw [List.exists_mem_cons_iff, and_or_left, ← ih hrest]
        cases hid : entryId entry with
        | none =>
          rw [hid] at h
          cases h
          simp
        | some id' =>
          rw [hid] at h
          cases h
          simp [and_comm, eq_comm]

theorem mem_moleculeDirs {t : Tree} {fleets : List String} {dirs : List (MoleculeId × String)}
    (h : moleculeDirs faults t fleets = .ok dirs) (id : MoleculeId) (fleet : String) :
    (id, fleet) ∈ dirs ↔ fleet ∈ fleets ∧
      ∃ entries, t.molecules fleet = some entries ∧ ∃ entry ∈ entries, entryId entry = some id := by
  induction fleets generalizing dirs with
  | nil =>
    cases h
    simp
  | cons first rest ih =>
    unfold moleculeDirs at h
    rw [List.mem_cons, or_and_right]
    split at h
    · next hnone =>
      rw [ih h]
      constructor
      · exact .inr
      · rintro (⟨rfl, entries, hsome, -⟩ | hrest)
        · rw [hnone] at hsome
          cases hsome
        · exact hrest
    · next entries hsome =>
      split at h
      · cases h
      · split at h
        · cases h
        · next own hown =>
          cases hrest : moleculeDirs faults t rest with
          | error e =>
            rw [hrest] at h
            cases h
          | ok more =>
            rw [hrest] at h
            cases h
            rw [List.mem_append, mem_fleetDirs hown, ih hrest]
            apply or_congr_left
            constructor
            · rintro ⟨rfl, hentry⟩
              exact ⟨rfl, entries, hsome, hentry⟩
            · rintro ⟨rfl, entries', hsome', hentry⟩
              rw [hsome] at hsome'
              cases hsome'
              exact ⟨rfl, hentry⟩

/-- What a sweep keeps: the listing, and the files of every molecule as a rebuild does. -/
structure Kept (json : Codec) (t t' : Tree) : Prop where
  root : t'.root = t.root
  isDir : t'.isDir = t.isDir
  fleets : t'.fleets = t.fleets
  molecules : t'.molecules = t.molecules
  files : ∀ fleet id, Safe json (t.files fleet id) (t'.files fleet id)

instance : Std.Refl (Kept json) where
  refl t := ⟨rfl, rfl, rfl, rfl, fun fleet id => refl_of (Safe json) (t.files fleet id)⟩

instance : IsTrans Tree (Kept json) where
  trans _ _ _ hab hbc :=
    ⟨hbc.root.trans hab.root, hbc.isDir.trans hab.isDir, hbc.fleets.trans hab.fleets,
      hbc.molecules.trans hab.molecules,
      fun fleet id => trans_of (Safe json) (hab.files fleet id) (hbc.files fleet id)⟩

theorem rebuildOne_files {place : MoleculeId × String} (t : Tree) (fleet : String) (id : MoleculeId) :
    (rebuildOne json log faults place t).2.files fleet id =
      if fleet = place.2 ∧ id = place.1 then
        (rebuildMoleculeState json log (faults.rebuild fleet id) (molsDir t fleet ++ "/" ++ id) id
          (t.files fleet id)).2
      else t.files fleet id := by
  obtain ⟨id', fleet'⟩ := place
  simp only [rebuildOne]
  by_cases hf : fleet = fleet'
  · subst hf
    rw [Function.update_self]
    by_cases hi : id = id'
    · subst hi
      rw [Function.update_self, if_pos ⟨rfl, rfl⟩]
    · rw [Function.update_of_ne hi, if_neg fun h => hi h.2]
  · rw [Function.update_of_ne hf, if_neg fun h => hf h.1]

theorem rebuildOne_kept (place : MoleculeId × String) : Keeps (Kept json) (rebuildOne json log faults place) := by
  intro t
  refine ⟨rfl, rfl, rfl, rfl, fun fleet id => ?_⟩
  rw [rebuildOne_files]
  split
  · exact rebuild_safe _
  · exact refl_of (Safe json) _

theorem rebuildOne_idle {place : MoleculeId × String} {t : Tree} {fleet : String} {id : MoleculeId}
    (h : ¬Due json log id (t.files fleet id)) :
    (rebuildOne json log faults place t).2.files fleet id = t.files fleet id := by
  rw [rebuildOne_files]
  split
  · exact rebuild_idle h
  · rfl

theorem sweep_cons (place : MoleculeId × String) (rest : List (MoleculeId × String)) (t : Tree) :
    (collect (rebuildOne json log faults) (place :: rest) t).2 =
      (collect (rebuildOne json log faults) rest (rebuildOne json log faults place t).2).2 := by
  obtain ⟨more, t', hrest⟩ | ⟨e, t', hrest⟩ :=
    Effect.outcome (collect (rebuildOne json log faults) rest) (rebuildOne json log faults place t).2
  · have hall : ∃ results, collect (rebuildOne json log faults) (place :: rest) t = (.ok results, t') :=
      ⟨_, bind_ok.mpr ⟨_, _, rfl, bind_ok.mpr ⟨more, t', hrest, rfl⟩⟩⟩
    obtain ⟨results, hall⟩ := hall
    rw [hrest, hall]
  · have hall : collect (rebuildOne json log faults) (place :: rest) t = (.error e, t') :=
      bind_error.mpr (.inr ⟨_, _, rfl, bind_error.mpr (.inl hrest)⟩)
    rw [hrest, hall]

theorem sweep_absent (places : List (MoleculeId × String)) {t : Tree} {fleet : String} {id : MoleculeId}
    (h : (id, fleet) ∉ places) :
    (collect (rebuildOne json log faults) places t).2.files fleet id = t.files fleet id := by
  induction places generalizing t with
  | nil => rfl
  | cons place rest ih =>
    rw [List.mem_cons, not_or] at h
    rw [sweep_cons, ih h.2, rebuildOne_files, if_neg]
    rintro ⟨rfl, rfl⟩
    exact h.1 rfl

theorem sweep_idle (places : List (MoleculeId × String)) {t : Tree} {fleet : String} {id : MoleculeId}
    (h : ¬Due json log id (t.files fleet id)) :
    (collect (rebuildOne json log faults) places t).2.files fleet id = t.files fleet id := by
  induction places generalizing t with
  | nil => rfl
  | cons place rest ih =>
    have hhead : (rebuildOne json log faults place t).2.files fleet id = t.files fleet id := rebuildOne_idle h
    rw [sweep_cons, ih (hhead.symm ▸ h), hhead]

theorem sweep_done (places : List (MoleculeId × String)) {t t' : Tree} {results : List SweepEntry}
    (h : collect (rebuildOne json log faults) places t = (.ok results, t')) {fleet : String} {id : MoleculeId}
    (hmem : (id, fleet) ∈ places) (hrun : ∀ entry ∈ results, entry.1 = id → ¬Stopped entry.2) :
    ¬Due json log id (t'.files fleet id) := by
  induction places generalizing t results with
  | nil => cases hmem
  | cons place rest ih =>
    obtain ⟨first, t₁, hfirst, hrest⟩ := bind_ok.mp h
    obtain ⟨more, t₂, hmore, hlast⟩ := bind_ok.mp hrest
    cases hlast
    rw [List.forall_mem_cons] at hrun
    obtain rfl | htail := List.mem_cons.mp hmem
    · have hentry : first = (id, (rebuildMoleculeState json log (faults.rebuild fleet id)
          (molsDir t fleet ++ "/" ++ id) id (t.files fleet id)).1) := by
        cases hfirst
        rfl
      have hfiles : (rebuildOne json log faults (id, fleet) t).2.files fleet id = _ := rebuildOne_files t fleet id
      rw [hfirst, if_pos ⟨rfl, rfl⟩] at hfiles
      subst hentry
      have hdone := rebuild_done (hrun.1 rfl)
      rw [← hfiles] at hdone
      have hidle : (collect (rebuildOne json log faults) rest t₁).2.files fleet id = t₁.files fleet id :=
        sweep_idle rest hdone
      rw [hmore] at hidle
      rw [hidle]
      exact hdone
    · exact ih hmore htail hrun.2

theorem rebuildAllMissing_kept : Keeps (Kept json) (rebuildAllMissing json log faults) := by
  intro t
  unfold rebuildAllMissing
  split
  · exact refl_of (Kept json) t
  · split
    · exact refl_of (Kept json) t
    · split
      · exact refl_of (Kept json) t
      · exact keeps_collect (fun place _ => rebuildOne_kept place) t

theorem rebuildAllMissing_cases (json : Codec) (log : EventsLog) (faults : SweepFaults) (t : Tree) :
    ((rebuildAllMissing json log faults t).2 = t ∧
      (t.isDir = false ∨ ∃ e, (rebuildAllMissing json log faults t).1 = .error e)) ∨
    ∃ places, t.isDir = true ∧
      rebuildAllMissing json log faults t = collect (rebuildOne json log faults) places t ∧
      ∀ fleet id, (id, fleet) ∈ places ↔ Listed t fleet id := by
  unfold rebuildAllMissing
  split
  · next hdir => exact .inl ⟨rfl, .inl hdir⟩
  · next hdir =>
    split
    · exact .inl ⟨rfl, .inr ⟨_, rfl⟩⟩
    · cases hdirs : moleculeDirs faults t t.fleets with
      | error e => exact .inl ⟨rfl, .inr ⟨e, rfl⟩⟩
      | ok dirs =>
        refine .inr ⟨_, Bool.not_eq_false _ ▸ hdir, rfl, fun fleet id => ?_⟩
        rw [List.mem_mergeSort, mem_moleculeDirs hdirs, Listed]

/-- A second sweep leaves alone every molecule for which the first met no refusal of the
system. -/
theorem rebuildAllMissing_again {faults' : SweepFaults} {t t' : Tree} {results : List SweepEntry}
    (h : rebuildAllMissing json log faults t = (.ok results, t')) {fleet : String} {id : MoleculeId}
    (hrun : ∀ entry ∈ results, entry.1 = id → ¬Stopped entry.2) :
    (rebuildAllMissing json log faults' t').2.files fleet id = t'.files fleet id := by
  have hkept : Kept json t (rebuildAllMissing json log faults t).2 := rebuildAllMissing_kept t
  rw [h] at hkept
  have hlisted : Listed t' fleet id ↔ Listed t fleet id := by
    rw [Listed, Listed, hkept.fleets, hkept.molecules]
  obtain ⟨hsame, -⟩ | ⟨places', hdir', hsecond, hplaces'⟩ := rebuildAllMissing_cases json log faults' t'
  · rw [hsame]
  · rw [hsecond]
    by_cases hmem : (id, fleet) ∈ places'
    · obtain ⟨-, hdir | ⟨e, he⟩⟩ | ⟨places, -, hfirst, hplaces⟩ := rebuildAllMissing_cases json log faults t
      · rw [hkept.isDir, hdir] at hdir'
        cases hdir'
      · rw [h] at he
        cases he
      · rw [hfirst] at h
        apply sweep_idle
        apply sweep_done places h _ hrun
        rw [hplaces, ← hlisted, ← hplaces']
        exact hmem
    · exact sweep_absent places' hmem

end Sweep

section Locality

def nucleated : EventV2 → Option MoleculeId
  | .moleculeNucleated id _ _ _ => some id
  | _ => none

def owner (event : EventV2) : Option MoleculeId := (nucleated event).or (subject event)

theorem amend_of_ne {out : Projection} {id id' : MoleculeId} (h : id ≠ id') (f : MoleculeData → MoleculeData) :
    amend out id' f id = out id := Function.update_of_ne h _ _

theorem applyEvent_of_ne {env : Envelope} {id : MoleculeId} (h : owner env.event ≠ some id) (out : Projection) :
    applyEvent env out id = out id := by
  obtain ⟨timestamp, event⟩ := env
  cases event with
  | moleculeNucleated id' formulaId parentId blocks =>
    exact Function.update_of_ne (fun heq => h (congrArg some heq.symm)) _ _
  | other name => rfl
  | _ => exact amend_of_ne (fun heq => h (congrArg some heq.symm)) _

theorem applyEvent_congr {env : Envelope} {id : MoleculeId} {out out' : Projection} (h : out id = out' id) :
    applyEvent env out id = applyEvent env out' id := by
  by_cases howner : owner env.event = some id
  · obtain ⟨timestamp, event⟩ := env
    cases event
    all_goals cases howner
    all_goals simp only [applyEvent, amend_self, Function.update_self, h]
  · rw [applyEvent_of_ne howner, applyEvent_of_ne howner, h]

theorem foldl_congr (envelopes : List Envelope) {id : MoleculeId} {out out' : Projection} (h : out id = out' id) :
    envelopes.foldl (fun out env => applyEvent env out) out id =
      envelopes.foldl (fun out env => applyEvent env out) out' id := by
  induction envelopes generalizing out out' with
  | nil => exact h
  | cons env rest ih => exact ih (applyEvent_congr h)

theorem foldl_filter (envelopes : List Envelope) {id : MoleculeId} {keep : Envelope → Bool}
    (h : ∀ env ∈ envelopes, owner env.event = some id → keep env = true) (out : Projection) :
    (envelopes.filter keep).foldl (fun out env => applyEvent env out) out id =
      envelopes.foldl (fun out env => applyEvent env out) out id := by
  induction envelopes generalizing out with
  | nil => rfl
  | cons env rest ih =>
    rw [List.forall_mem_cons] at h
    rw [List.foldl_cons, ← ih h.2]
    by_cases hkeep : keep env = true
    · rw [List.filter_cons_of_pos hkeep, List.foldl_cons]
    · rw [List.filter_cons_of_neg hkeep]
      apply foldl_congr
      exact (applyEvent_of_ne (fun howner => hkeep (h.1 howner)) out).symm

theorem foldl_before (envelopes : List Envelope) {id : MoleculeId}
    (h : ∀ env ∈ envelopes, nucleated env.event ≠ some id) {out : Projection} (hout : out id = none) :
    envelopes.foldl (fun out env => applyEvent env out) out id = none := by
  induction envelopes generalizing out with
  | nil => exact hout
  | cons env rest ih =>
    rw [List.forall_mem_cons] at h
    apply ih h.2
    by_cases howner : owner env.event = some id
    · obtain ⟨timestamp, event⟩ := env
      cases event with
      | moleculeNucleated id' formulaId parentId blocks => exact absurd howner h.1
      | other name => cases howner
      | _ =>
        cases howner
        simp only [applyEvent, amend_self, hout, Option.map_none]
    · exact (applyEvent_of_ne howner out).trans hout

theorem projectSingle_filter (id : MoleculeId) (envelopes : List Envelope) {keep : Envelope → Bool}
    (h : ∀ env ∈ envelopes, owner env.event = some id → keep env = true) :
    projectSingle id (envelopes.filter keep) = projectSingle id envelopes := foldl_filter envelopes h _

theorem projectSingle_append {id : MoleculeId} {early : List Envelope} (late : List Envelope)
    (h : ∀ env ∈ early, nucleated env.event ≠ some id) :
    projectSingle id (early ++ late) = projectSingle id late := by
  rw [projectSingle, projectMoleculesFromEvents, List.foldl_append]
  exact foldl_congr late (foldl_before early h rfl)

end Locality

/-- A rebuild loses no state file with content and no archive, and neither does a sweep. Where
the system stopped no rebuild, repeating it changes nothing. The projection of a molecule
is that of the envelopes that create or change it, from its nucleation on. -/
theorem rebuild_preserves (json : Codec) (log : EventsLog) :
    (∀ dir id faults files,
      Safe json files (rebuildMoleculeState json log faults dir id files).2 ∧
      (¬Stopped (rebuildMoleculeState json log faults dir id files).1 → ∀ faults',
        (rebuildMoleculeState json log faults' dir id (rebuildMoleculeState json log faults dir id files).2).2 =
          (rebuildMoleculeState json log faults dir id files).2)) ∧
    (∀ faults t, Kept json t (rebuildAllMissing json log faults t).2 ∧
      ∀ results t', rebuildAllMissing json log faults t = (.ok results, t') → ∀ faults' fleet id,
        (∀ entry ∈ results, entry.1 = id → ¬Stopped entry.2) →
          (rebuildAllMissing json log faults' t').2.files fleet id = t'.files fleet id) ∧
    (∀ id envelopes (keep : Envelope → Bool),
      (∀ env ∈ envelopes, owner env.event = some id → keep env = true) →
        projectSingle id (envelopes.filter keep) = projectSingle id envelopes) ∧
    ∀ id early late, (∀ env ∈ early, nucleated env.event ≠ some id) →
      projectSingle id (early ++ late) = projectSingle id late := by
  refine ⟨fun dir id faults files => ⟨rebuild_safe files, fun hrun faults' => ?_⟩,
    fun faults t => ⟨rebuildAllMissing_kept t, fun results t' h faults' fleet id hrun => ?_⟩,
    fun id envelopes keep h => projectSingle_filter id envelopes h,
    fun id early late h => projectSingle_append late h⟩
  · exact rebuild_idle (rebuild_done hrun)
  · exact rebuildAllMissing_again h hrun

def exampleCodec : Codec where
  fromSlice text := if text = [] then .error "EOF while parsing a value" else .ok (emptyMoleculeData "" "" 0)
  toStringPretty _ := .ok [123, 125]
  reads _ text h := by
    cases h
    exact ⟨_, if_neg (List.cons_ne_nil _ _)⟩

def exampleLog : EventsLog where
  path := "events.jsonl"
  envelopes := some (.ok [⟨0, .moleculeNucleated "task-20260101-0001" "task-work" none []⟩])

def exampleFaults : Faults := { writeTmp := some { error := "Is a directory (os error 21)" } }

def exampleFiles : Files := fun name => if name = stateFile then some [] else none

/-- The archive is written before the fresh state, so where the latter cannot be written each
run adds one more archive. -/
theorem rebuild_archives_again :
    ¬∀ (json : Codec) (log : EventsLog) (faults : Faults) (dir : String) (id : MoleculeId) (files : Files),
      (rebuildMoleculeState json log faults dir id (rebuildMoleculeState json log faults dir id files).2).2 =
        (rebuildMoleculeState json log faults dir id files).2 := by
  intro h
  have hsecond := congrFun
    (h exampleCodec exampleLog exampleFaults "task-20260101-0001" "task-20260101-0001" exampleFiles)
    "state.json.broken.2"
  revert hsecond
  decide

end Cosmon.State.RebuildSweep
