import Cosmon.State.Archive

namespace Cosmon.State.Archive

open Cosmon.Lib Cosmon.Lib.Bytes Cosmon.Lib.Checks Cosmon.Lib.Directory Cosmon.State.Molecule
open Cosmon.Hashing.Canonical (Json)
open Cosmon.Hashing.Digest (Hash)

def filesOf (responses : List (String × Node)) : List (String × List UInt8) :=
  responses.filterMap fun p =>
    match p.2 with
    | .file bytes => some (p.1, bytes)
    | .dir => none

def LiveDir.files (live : LiveDir) : List (String × List UInt8) := filesOf (live.responses.getD [])

def LiveDir.names (live : LiveDir) : List String := live.files.map Prod.fst

def responseHashes (sha256 : List UInt8 → Hash) (files : List (String × List UInt8)) : List (String × String) :=
  files.foldl (fun hashes p => mapInsert p.1 (sha256Hex sha256 p.2) hashes) []

def manifestOf (sha256 : List UInt8 → Hash) (mol : MoleculeData) (warnings : List String) (live : LiveDir) : Json :=
  manifestValue mol (responseHashes sha256 live.files) (live.synthesis.map (sha256Hex sha256)) warnings

def Reports (sha256 : List UInt8 → Hash) (parse : List UInt8 → Option Json) (entry : Entry) (ok : Bool) : Prop :=
  ∃ report, verifyEntry sha256 parse entry = .ok report ∧ report.ok = ok

def Entry.setResponse (entry : Entry) (name : String) (node : Option Node) : Entry :=
  { entry with responses := Function.update entry.responses name node }

def Entry.setSynthesis (entry : Entry) (node : Option Node) : Entry :=
  { entry with files := Function.update entry.files "synthesis.md" node }

/-- The entry verifies, holds the live responses, and does not verify once one of these responses, or the synthesis
where it counts, is changed or deleted. -/
structure Archived (sha256 : List UInt8 → Hash) (parse : List UInt8 → Option Json) (live : LiveDir)
    (among : String → Prop) (synthesis : Prop) (entry : Entry) : Prop where
  ok : Reports sha256 parse entry true
  present : ∀ p ∈ live.files, entry.responses p.1 = some (.file p.2)
  changed : ∀ name bytes other, among name → entry.responses name = some (.file bytes) → other ≠ bytes →
    Set.InjOn sha256 {bytes, other} → Reports sha256 parse (entry.setResponse name (some (.file other))) false
  deleted : ∀ name bytes, among name → entry.responses name = some (.file bytes) →
    Reports sha256 parse (entry.setResponse name none) false
  synthesisChanged : ∀ bytes other, synthesis → entry.files "synthesis.md" = some (.file bytes) → other ≠ bytes →
    Set.InjOn sha256 {bytes, other} → Reports sha256 parse (entry.setSynthesis (some (.file other))) false
  synthesisDeleted : ∀ bytes, synthesis → entry.files "synthesis.md" = some (.file bytes) →
    Reports sha256 parse (entry.setSynthesis none) false

def Undisturbed (live : LiveDir) : Prop := live.names.Pairwise fun n m => tmpName m ≠ n

/-- Every response of an earlier entry is written again or taken away, and so is its synthesis. -/
def NothingStale (live : LiveDir) (prior : Entry) : Prop :=
  (∀ name bytes, prior.responses name = some (.file bytes) →
      name ∈ live.names ∨ ∃ m ∈ live.names, tmpName m = name) ∧
    ∀ bytes, prior.files "synthesis.md" = some (.file bytes) → live.synthesis.isSome

instance (live : LiveDir) : Decidable (Undisturbed live) := inferInstanceAs (Decidable (List.Pairwise _ _))

theorem names_nodup (live : LiveDir) : live.names.Nodup := by
  have hsub : ∀ l : List (String × Node), ((filesOf l).map Prod.fst).Sublist (l.map Prod.fst) := by
    intro l
    induction l with
    | nil => exact List.Sublist.refl _
    | cons p rest ih =>
      unfold filesOf at ih ⊢
      rw [List.filterMap_cons]
      cases hnode : p.2 with
      | dir => exact ih.cons _
      | file bytes => exact ih.cons_cons _
  exact (hsub _).nodup live.distinct

section Writing

variable {sha256 : List UInt8 → Hash} {render : Json → List UInt8}

theorem writeAtomic_stage {d d' : Dir String} {name : String} {bytes : List UInt8}
    (h : writeAtomic d name bytes = .ok d') : stage tmpName d name bytes = some d' := by
  unfold writeAtomic at h
  cases hstage : stage tmpName d name bytes with
  | none =>
    rw [hstage] at h
    cases h
  | some d₁ =>
    rw [hstage] at h
    cases h
    rfl

theorem writeAtomic_other {d d' : Dir String} {name x : String} {bytes : List UInt8}
    (h : writeAtomic d name bytes = .ok d') (hname : x ≠ name) (htmp : x ≠ tmpName name) : d' x = d x := by
  rw [stage_eq (writeAtomic_stage h), if_neg hname, if_neg htmp]

theorem writeAtomic_self {d d' : Dir String} {name : String} {bytes : List UInt8}
    (h : writeAtomic d name bytes = .ok d') : d' name = some (.file bytes) := by
  rw [stage_eq (writeAtomic_stage h), if_pos rfl]

theorem appendJsonl_other {d d' : Dir String} {name x : String} {line : List UInt8}
    (h : appendJsonl d name line = .ok d') (hname : x ≠ name) : d' x = d x := by
  unfold appendJsonl at h
  split at h
  · cases h
  · cases h
    exact Function.update_of_ne hname _ _
  · cases h
    exact Function.update_of_ne hname _ _

theorem copyResponses_ok {responses : List (String × Node)} {dest dest' : Dir String}
    {hashes hashes' : List (String × String)}
    (h : copyResponses sha256 responses dest hashes = .ok (dest', hashes')) :
    stageAll tmpName dest (filesOf responses) = some dest' ∧
      hashes' = (filesOf responses).foldl (fun hashes p => mapInsert p.1 (sha256Hex sha256 p.2) hashes) hashes := by
  induction responses generalizing dest hashes with
  | nil =>
    cases h
    exact ⟨rfl, rfl⟩
  | cons p rest ih =>
    obtain ⟨name, node⟩ := p
    cases node with
    | dir => exact ih h
    | file bytes =>
      obtain ⟨d₁, hwrite, h⟩ := bind_ok h
      obtain ⟨hstage, hhashes⟩ := ih h
      refine ⟨?_, hhashes⟩
      change (stage tmpName dest name bytes).bind _ = _
      rw [writeAtomic_stage hwrite]
      exact hstage

theorem copyLive_ok {live : LiveDir} {entry entry' : Entry} {hashes : List (String × String)}
    (h : copyLive sha256 live entry = .ok (entry', hashes)) :
    stageAll tmpName entry.responses live.files = some entry'.responses ∧
      hashes = responseHashes sha256 live.files ∧ ∀ x, x ≠ "responses" → entry'.files x = entry.files x := by
  unfold copyLive at h
  unfold LiveDir.files
  cases hlive : live.responses with
  | none =>
    rw [hlive] at h
    cases h
    exact ⟨rfl, rfl, fun _ _ => rfl⟩
  | some responses =>
    rw [hlive] at h
    dsimp only at h
    split at h
    · cases h
    · obtain ⟨⟨dest, hashes'⟩, hcopy, h⟩ := bind_ok h
      cases h
      obtain ⟨hstage, hhashes⟩ := copyResponses_ok hcopy
      exact ⟨hstage, hhashes, fun x hx => Function.update_of_ne hx _ _⟩

theorem copySynthesis_ok {live : LiveDir} {d d' : Dir String} (h : copySynthesis live d = .ok d') :
    d' "synthesis.md" = (live.synthesis.map Node.file).or (d "synthesis.md") := by
  unfold copySynthesis at h
  cases hlive : live.synthesis with
  | none =>
    rw [hlive] at h
    cases h
    rfl
  | some bytes =>
    rw [hlive] at h
    exact writeAtomic_self h

theorem write_ok {texts : Texts} {mol : MoleculeData} {warnings : List String} {live : LiveDir} {prior entry : Entry}
    (h : writeWithWarnings sha256 render texts mol warnings live prior = .ok entry) :
    stageAll tmpName prior.responses live.files = some entry.responses ∧
      entry.files "manifest.json" = some (.file (render (manifestOf sha256 mol warnings live))) ∧
      entry.files "synthesis.md" = (live.synthesis.map Node.file).or (prior.files "synthesis.md") := by
  obtain ⟨d₁, hmolecule, h⟩ := bind_ok h
  obtain ⟨d₂, hedges, h⟩ := bind_ok h
  obtain ⟨⟨e₃, hashes⟩, hcopy, h⟩ := bind_ok h
  obtain ⟨d₄, hsynthesis, h⟩ := bind_ok h
  obtain ⟨d₅, hmanifest, h⟩ := bind_ok h
  obtain ⟨journal, -, h⟩ := bind_ok h
  obtain ⟨d₆, hjournal, h⟩ := bind_ok h
  obtain ⟨d₇, hevents, h⟩ := bind_ok h
  cases h
  obtain ⟨hstage, rfl, hframe⟩ := copyLive_ok hcopy
  dsimp only at hframe ⊢
  refine ⟨hstage, ?_, ?_⟩
  · rw [appendJsonl_other hevents (by decide), writeAtomic_other hjournal (by decide) (by decide)]
    exact writeAtomic_self hmanifest
  · rw [appendJsonl_other hevents (by decide), writeAtomic_other hjournal (by decide) (by decide),
      writeAtomic_other hmanifest (by decide) (by decide), copySynthesis_ok hsynthesis, hframe _ (by decide),
      writeAtomic_other hedges (by decide) (by decide), writeAtomic_other hmolecule (by decide) (by decide)]

end Writing

section Sealed

variable {sha256 : List UInt8 → Hash} {parse : List UInt8 → Option Json}

theorem mapGet_nil {V : Type} (k : String) : mapGet k ([] : List (String × V)) = none := rfl

theorem mapGet_insert {V : Type} (k k' : String) (v : V) (fields : List (String × V)) :
    mapGet k (mapInsert k' v fields) = if k' = k then some v else mapGet k fields := by
  unfold mapGet mapInsert
  rw [Keyed.get_insert]
  split
  · rfl
  · rfl

theorem manifestValue_get (mol : MoleculeData) (hashes : List (String × String)) (synthesis : Option String)
    (warnings : List String) :
    get (manifestValue mol hashes synthesis warnings) "response_hashes" =
        some (.object (hashes.map fun p => (p.1, .string p.2))) ∧
      get (manifestValue mol hashes synthesis warnings) "synthesis_hash" = synthesis.map .string := by
  unfold manifestValue get
  cases synthesis with
  | none =>
    by_cases hwarnings : warnings = []
    · simp [hwarnings, mapGet_insert, mapGet_nil]
    · simp [hwarnings, mapGet_insert, mapGet_nil]
  | some hash =>
    by_cases hwarnings : warnings = []
    · simp [hwarnings, mapGet_insert]
    · simp [hwarnings, mapGet_insert]

theorem mem_responseHashes {files : List (String × List UInt8)} (hnames : (files.map Prod.fst).Nodup)
    {p : String × String} :
    p ∈ responseHashes sha256 files ↔ ∃ f ∈ files, (f.1, sha256Hex sha256 f.2) = p := by
  have hperm : (responseHashes sha256 files).Perm (files.map fun f => (f.1, sha256Hex sha256 f.2)) := by
    apply Keyed.foldl_insert_perm Prod.fst (fun f : String × List UInt8 => (f.1, sha256Hex sha256 f.2))
    rw [List.map_map]
    exact hnames
  rw [hperm.mem_iff, List.mem_map]

theorem sha256Hex_ne (bytes : List UInt8) : sha256Hex sha256 bytes ≠ "" := by
  intro h
  have hlength := (sha256 bytes).toHex_digits.1
  unfold sha256Hex at h
  rw [h] at hlength
  cases hlength

theorem currentHash_eq {d : Dir String} {name : String} {bytes : List UInt8} :
    currentHash sha256 d name = sha256Hex sha256 bytes ↔
      ∃ current, d name = some (.file current) ∧ sha256 current = sha256 bytes := by
  unfold currentHash
  cases hnode : d name with
  | none => exact ⟨fun h => absurd h.symm (sha256Hex_ne bytes), fun h => by simp at h⟩
  | some node =>
    cases node with
    | dir => exact ⟨fun h => absurd h.symm (sha256Hex_ne bytes), fun h => by simp at h⟩
    | file current =>
      constructor
      · exact fun h => ⟨current, rfl, Hash.toHex_injective h⟩
      · rintro ⟨_, heq, hhash⟩
        cases heq
        exact congrArg Hash.toHex hhash

/-- What is sealed of the live directory is in the entry, up to its hash. -/
def Matches (sha256 : List UInt8 → Hash) (live : LiveDir) (entry : Entry) : Prop :=
  (∀ f ∈ live.files, currentHash sha256 entry.responses f.1 = sha256Hex sha256 f.2) ∧
    ∀ bytes ∈ live.synthesis, currentHash sha256 entry.files "synthesis.md" = sha256Hex sha256 bytes

theorem checkOf_ok {d : Dir String} {kind name : String} {bytes : List UInt8} :
    (checkOf sha256 d kind name (sha256Hex sha256 bytes)).ok = true ↔
      currentHash sha256 d name = sha256Hex sha256 bytes := by
  unfold checkOf
  rw [Bool.and_eq_true, decide_eq_true_eq, decide_eq_true_eq]
  exact ⟨And.right, fun h => ⟨h ▸ sha256Hex_ne bytes, h⟩⟩

theorem reports_iff {mol : MoleculeData} {warnings : List String} {live : LiveDir} {entry : Entry} {bytes : List UInt8}
    (hmanifest : entry.files "manifest.json" = some (.file bytes))
    (hparse : parse bytes = some (manifestOf sha256 mol warnings live)) :
    (Reports sha256 parse entry true ↔ Matches sha256 live entry) ∧
      (Reports sha256 parse entry false ↔ ¬ Matches sha256 live entry) := by
  have hall : (checks sha256 entry (manifestOf sha256 mol warnings live)).all VerifyCheck.ok = true ↔
      Matches sha256 live entry := by
    obtain ⟨hresponses, hsynthesis⟩ := manifestValue_get mol (responseHashes sha256 live.files)
      (live.synthesis.map (sha256Hex sha256)) warnings
    unfold checks manifestOf
    rw [hresponses, hsynthesis, List.all_append, Bool.and_eq_true]
    apply and_congr
    · rw [List.all_eq_true]
      simp only [Option.bind_some, asObject, Option.getD_some, List.map_map, List.mem_map, forall_exists_index, and_imp,
        forall_apply_eq_imp_iff₂, Function.comp_apply, asStr]
      constructor
      · intro h f hf
        exact checkOf_ok.mp (h _ ((mem_responseHashes (names_nodup live)).mpr ⟨f, hf, rfl⟩))
      · intro h p hp
        obtain ⟨f, hf, rfl⟩ := (mem_responseHashes (names_nodup live)).mp hp
        exact checkOf_ok.mpr (h f hf)
    · cases live.synthesis with
      | none => simp
      | some bytes => simp [asStr, checkOf_ok]
  have hverify : ∃ report, verifyEntry sha256 parse entry = .ok report ∧
      (report.ok = true ↔ Matches sha256 live entry) := by
    unfold verifyEntry
    rw [hmanifest]
    dsimp only
    rw [hparse]
    exact ⟨_, rfl, hall⟩
  obtain ⟨report, hreport, hok⟩ := hverify
  have hunique : ∀ b, Reports sha256 parse entry b ↔ report.ok = b := by
    intro b
    unfold Reports
    rw [hreport]
    constructor
    · rintro ⟨_, heq, hb⟩
      cases heq
      exact hb
    · exact fun hb => ⟨report, rfl, hb⟩
  rw [hunique, hunique, hok, ← hok, Bool.not_eq_true]
  exact ⟨Iff.rfl, Iff.rfl⟩

theorem injOn_pair {bytes other : List UInt8} (h : Set.InjOn sha256 {bytes, other}) (hne : other ≠ bytes) :
    sha256 other ≠ sha256 bytes := by
  intro heq
  exact hne (h (Set.mem_insert_of_mem _ rfl) (Set.mem_insert _ _) heq)

theorem currentHash_changed {d : Dir String} {name : String} {bytes other : List UInt8}
    (h : Set.InjOn sha256 {bytes, other}) (hne : other ≠ bytes) :
    currentHash sha256 (Function.update d name (some (.file other))) name ≠ sha256Hex sha256 bytes := by
  intro heq
  obtain ⟨current, hnode, hhash⟩ := currentHash_eq.mp heq
  rw [Function.update_self] at hnode
  cases hnode
  exact injOn_pair h hne hhash

theorem currentHash_deleted {d : Dir String} {name : String} {bytes : List UInt8} :
    currentHash sha256 (Function.update d name none) name ≠ sha256Hex sha256 bytes := by
  intro heq
  obtain ⟨current, hnode, -⟩ := currentHash_eq.mp heq
  rw [Function.update_self] at hnode
  cases hnode

theorem currentHash_other {d : Dir String} {name other : String} (h : other ≠ name) (node : Option Node) :
    currentHash sha256 (Function.update d name node) other = currentHash sha256 d other := by
  unfold currentHash
  rw [Function.update_of_ne h]

theorem setResponse_manifest (entry : Entry) (name : String) (node : Option Node) :
    (entry.setResponse name node).files "manifest.json" = entry.files "manifest.json" := rfl

theorem setSynthesis_manifest (entry : Entry) (node : Option Node) :
    (entry.setSynthesis node).files "manifest.json" = entry.files "manifest.json" := by
  have hne : "manifest.json" ≠ "synthesis.md" := by decide
  exact Function.update_of_ne hne node entry.files

end Sealed

section Archiving

variable {sha256 : List UInt8 → Hash} {render : Json → List UInt8} {parse : List UInt8 → Option Json} {texts : Texts}
  {mol : MoleculeData} {warnings : List String} {live : LiveDir} {prior entry : Entry}
  (hwrite : writeWithWarnings sha256 render texts mol warnings live prior = .ok entry)
  (hjson : parse (render (manifestOf sha256 mol warnings live)) = some (manifestOf sha256 mol warnings live))

include hwrite

theorem undisturbed_iff : (∀ p ∈ live.files, entry.responses p.1 = some (.file p.2)) ↔ Undisturbed live :=
  stageAll_present (names_nodup live) (write_ok hwrite).1

theorem synthesis_written {bytes : List UInt8} (h : bytes ∈ live.synthesis) :
    entry.files "synthesis.md" = some (.file bytes) := by
  rw [(write_ok hwrite).2.2, Option.mem_def.mp h]
  rfl

include hjson

theorem archived_of_undisturbed (h : Undisturbed live) {among : String → Prop} {synthesis : Prop}
    (hamong : ∀ name bytes, among name → entry.responses name = some (.file bytes) → name ∈ live.names)
    (hsynthesis : ∀ bytes, synthesis → entry.files "synthesis.md" = some (.file bytes) → live.synthesis.isSome) :
    Archived sha256 parse live among synthesis entry := by
  obtain ⟨-, hmanifest, -⟩ := write_ok hwrite
  have hpresent := (undisturbed_iff hwrite).mpr h
  have hsealed : ∀ name bytes, among name → entry.responses name = some (.file bytes) → (name, bytes) ∈ live.files := by
    intro name bytes hname hfile
    obtain ⟨p, hp, rfl⟩ := List.mem_map.mp (hamong name bytes hname hfile)
    rw [hpresent p hp] at hfile
    cases hfile
    exact hp
  have hseal : ∀ bytes, synthesis → entry.files "synthesis.md" = some (.file bytes) → bytes ∈ live.synthesis := by
    intro bytes hcounts hfile
    obtain ⟨kept, hsome⟩ := Option.isSome_iff_exists.mp (hsynthesis bytes hcounts hfile)
    rw [synthesis_written hwrite hsome] at hfile
    cases hfile
    exact hsome
  constructor
  case ok =>
    refine (reports_iff hmanifest hjson).1.mpr ⟨fun f hf => ?_, fun bytes hbytes => ?_⟩
    · exact currentHash_eq.mpr ⟨f.2, hpresent f hf, rfl⟩
    · exact currentHash_eq.mpr ⟨bytes, synthesis_written hwrite hbytes, rfl⟩
  case present => exact hpresent
  case changed =>
    intro name bytes other hname hfile hne hfree
    refine (reports_iff ((setResponse_manifest entry name _).trans hmanifest) hjson).2.mpr fun hmatches => ?_
    exact currentHash_changed hfree hne (hmatches.1 _ (hsealed name bytes hname hfile))
  case deleted =>
    intro name bytes hname hfile
    refine (reports_iff ((setResponse_manifest entry name _).trans hmanifest) hjson).2.mpr fun hmatches => ?_
    exact currentHash_deleted (hmatches.1 _ (hsealed name bytes hname hfile))
  case synthesisChanged =>
    intro bytes other hcounts hfile hne hfree
    refine (reports_iff ((setSynthesis_manifest entry _).trans hmanifest) hjson).2.mpr fun hmatches => ?_
    exact currentHash_changed hfree hne (hmatches.2 bytes (hseal bytes hcounts hfile))
  case synthesisDeleted =>
    intro bytes hcounts hfile
    refine (reports_iff ((setSynthesis_manifest entry _).trans hmanifest) hjson).2.mpr fun hmatches => ?_
    exact currentHash_deleted (hmatches.2 bytes (hseal bytes hcounts hfile))

theorem nothingStale_of_archived (h : Archived sha256 parse live (fun _ => True) True entry) :
    NothingStale live prior := by
  obtain ⟨hstage, hmanifest, hfile⟩ := write_ok hwrite
  have hmatches := (reports_iff hmanifest hjson).1.mp h.ok
  constructor
  · intro name bytes hprior
    by_contra hstale
    rw [not_or] at hstale
    have hkept : entry.responses name = some (.file bytes) := by
      rw [stageAll_other hstage hstale.1, ← hprior]
      exact if_neg hstale.2
    refine (reports_iff ((setResponse_manifest entry name none).trans hmanifest) hjson).2.mp
      (h.deleted name bytes trivial hkept) ⟨fun f hf => ?_, hmatches.2⟩
    have hne : f.1 ≠ name := fun heq => hstale.1 (heq ▸ List.mem_map_of_mem hf)
    exact (currentHash_other hne none).trans (hmatches.1 f hf)
  · intro bytes hprior
    by_contra hstale
    rw [Bool.not_eq_true, Option.isSome_eq_false_iff, Option.isNone_iff_eq_none] at hstale
    have hkept : entry.files "synthesis.md" = some (.file bytes) := by
      rw [hfile, hstale, ← hprior]
      rfl
    refine (reports_iff ((setSynthesis_manifest entry none).trans hmanifest) hjson).2.mp
      (h.synthesisDeleted bytes trivial hkept) ⟨hmatches.1, fun other hsome => ?_⟩
    rw [hstale] at hsome
    cases hsome

/-- Of the files that a write has copied, and of all that the entry then holds. -/
theorem write_archived :
    (Archived sha256 parse live (· ∈ live.names) (live.synthesis.isSome) entry ↔ Undisturbed live) ∧
      (Archived sha256 parse live (fun _ => True) True entry ↔ Undisturbed live ∧ NothingStale live prior) := by
  obtain ⟨hstage, -, hfile⟩ := write_ok hwrite
  refine ⟨⟨fun h => (undisturbed_iff hwrite).mp h.present, fun h => ?_⟩,
    ⟨fun h => ⟨(undisturbed_iff hwrite).mp h.present, nothingStale_of_archived hwrite hjson h⟩, fun h => ?_⟩⟩
  · exact archived_of_undisturbed hwrite hjson h (fun _ _ hname _ => hname) fun _ hsome _ => hsome
  · apply archived_of_undisturbed hwrite hjson h.1
    · intro name bytes _ hresponse
      by_contra hname
      rw [stageAll_other hstage hname] at hresponse
      split at hresponse
      · cases hresponse
      · rename_i htmp
        exact (h.2.1 name bytes hresponse).elim hname htmp
    · intro bytes _ hsynthesis
      by_contra hnone
      rw [Bool.not_eq_true, Option.isSome_eq_false_iff, Option.isNone_iff_eq_none] at hnone
      rw [hfile, hnone] at hsynthesis
      have hsome := h.2.2 bytes hsynthesis
      rw [hnone] at hsome
      cases hsome

end Archiving

section Examples

def greeting : List UInt8 := utf8 "hi\n"

def greetingDigest : Hash :=
  ⟨[152, 234, 110, 79, 33, 111, 47, 180, 182, 159, 255, 155, 58, 68, 132, 44, 56, 104, 108, 166, 133, 243, 245, 93, 196,
    140, 93, 63, 177, 16, 123, 228], rfl⟩

def sampleMolecule : MoleculeData where
  id := "task-20300101-abcd"
  formulaId := "task-work"
  status := .completed

def sampleTexts : Texts := ⟨[], [], .ok [], []⟩

def liveWith (names : List String) (distinct : names.Nodup) : LiveDir where
  responses := some (names.map fun name => (name, .file greeting))
  distinct := by
    rw [Option.getD_some, List.map_map]
    exact (List.map_id'' (fun _ => rfl) names).symm ▸ distinct
  synthesis := none

def emptyEntry : Entry := ⟨fun _ => none, fun _ => none⟩

def manifestText : List UInt8 :=
  utf8 ("\x7b\n  \"formula_pin\": \"task-work\",\n  \"molecule_id\": \"task-20300101-abcd\",\n" ++
    "  \"response_hashes\": \x7b\n" ++
    "    \"a.md\": \"98ea6e4f216f2fb4b69fff9b3a44842c38686ca685f3f55dc48c5d3fb1107be4\"\n  \x7d,\n" ++
    "  \"schema_version\": \"1\",\n  \"status\": \"completed\"\n\x7d\n")

theorem write_archived_one :
    ∃ entry, writeWithWarnings (fun _ => greetingDigest) (fun _ => manifestText) sampleTexts sampleMolecule []
        (liveWith ["a.md"] (by decide)) emptyEntry = .ok entry ∧
      Archived (fun _ => greetingDigest)
        (fun _ => some (manifestOf (fun _ => greetingDigest) sampleMolecule [] (liveWith ["a.md"] (by decide))))
        (liveWith ["a.md"] (by decide)) (fun _ => True) True entry := by
  have hwritten : ∃ entry, writeWithWarnings (fun _ => greetingDigest) (fun _ => manifestText) sampleTexts
      sampleMolecule [] (liveWith ["a.md"] (by decide)) emptyEntry = .ok entry := ⟨_, rfl⟩
  obtain ⟨entry, hwrite⟩ := hwritten
  refine ⟨entry, hwrite, (write_archived hwrite rfl).2.mpr ⟨by decide, ?_, ?_⟩⟩
  · intro name bytes h
    cases h
  · intro bytes h
    cases h

/-- The response `a.tmp` is read before `a.md`, which is staged under its name. -/
theorem write_clobbers :
    ∃ entry, writeWithWarnings (fun _ => greetingDigest) (fun _ => manifestText) sampleTexts sampleMolecule []
        (liveWith ["a.tmp", "a.md"] (by decide)) emptyEntry = .ok entry ∧
      entry.responses "a.tmp" = none ∧
      ∀ (parse : List UInt8 → Option Json) (among : String → Prop) (synthesis : Prop),
        ¬ Archived (fun _ => greetingDigest) parse (liveWith ["a.tmp", "a.md"] (by decide)) among synthesis entry := by
  refine ⟨_, rfl, rfl, fun parse among synthesis h => ?_⟩
  have hpresent := h.present ("a.tmp", greeting) (by decide)
  cases hpresent

end Examples

end Cosmon.State.Archive
