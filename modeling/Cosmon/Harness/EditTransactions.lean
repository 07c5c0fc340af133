import Cosmon.Harness.EditPlans
import Mathlib.Data.List.Forall2

namespace Cosmon.Harness.EditFile

open Cosmon.Harness.PathAuthority Cosmon.Lib.Checks Cosmon.Lib.FileTree Cosmon.Lib.UnixPath

section Spellings

variable {edits : List EditOp} {op : EditOp} {path : String}

def spellings (edits : List EditOp) : List String := (edits.map EditOp.path).eraseDups

def opsOf (edits : List EditOp) (path : String) : List EditOp := edits.filter (·.path = path)

theorem mem_spellings : path ∈ spellings edits ↔ ∃ op ∈ edits, op.path = path := by
  rw [spellings, List.mem_eraseDups, List.mem_map]

theorem opsOf_ne_nil (h : path ∈ spellings edits) : opsOf edits path ≠ [] := by
  obtain ⟨op, hop, hpath⟩ := mem_spellings.mp h
  exact List.ne_nil_of_mem (List.mem_filter.mpr ⟨hop, decide_eq_true hpath⟩)

theorem spellings_concat : spellings (edits ++ [op]) =
    if op.path ∈ spellings edits then spellings edits else spellings edits ++ [op.path] := by
  have hmem : op.path ∈ spellings edits ↔ op.path ∈ edits.map EditOp.path := List.mem_eraseDups
  rw [if_congr hmem rfl rfl, spellings, List.map_append, List.eraseDups_append, List.map_singleton, List.removeAll]
  by_cases h : op.path ∈ edits.map EditOp.path
  · rw [if_pos h, List.filter_cons_of_neg (by simpa using h), List.filter_nil, List.eraseDups_nil, List.append_nil]
    rfl
  · rw [if_neg h, List.filter_cons_of_pos (by simpa using h), List.filter_nil]
    rfl

theorem opsOf_concat : opsOf (edits ++ [op]) path =
    if op.path = path then opsOf edits path ++ [op] else opsOf edits path := by
  rw [opsOf, List.filter_append, opsOf]
  by_cases h : op.path = path
  · simp [h]
  · simp [h]

def groupOf (edits : List EditOp) (path : String) : Group := ⟨path, opsOf edits path⟩

theorem foldl_addOp (edits : List EditOp) : edits.foldl addOp [] = (spellings edits).map (groupOf edits) := by
  induction edits using List.reverseRecOn with
  | nil => rfl
  | append_singleton edits op ih =>
    have hany : ((spellings edits).map (groupOf edits)).any (·.path = op.path) = true ↔
        op.path ∈ spellings edits := by
      simp only [List.any_map, List.any_eq_true, Function.comp_apply, decide_eq_true_eq]
      exact exists_eq_right
    rw [List.foldl_concat, ih, addOp, if_congr hany rfl rfl, spellings_concat]
    by_cases h : op.path ∈ spellings edits
    · rw [if_pos h, if_pos h, List.map_map]
      refine List.map_congr_left fun path _ => ?_
      by_cases hpath : op.path = path
      · simp [groupOf, opsOf_concat, hpath]
      · simp [groupOf, opsOf_concat, hpath, Ne.symm hpath]
    · rw [if_neg h, if_neg h, List.map_append]
      have hnone : opsOf edits op.path = [] := by
        rw [opsOf, List.filter_eq_nil_iff]
        intro other hother hpath
        exact h (mem_spellings.mpr ⟨other, hother, of_decide_eq_true hpath⟩)
      have hrest : (spellings edits).map (groupOf (edits ++ [op])) = (spellings edits).map (groupOf edits) := by
        refine List.map_congr_left fun path hpath => ?_
        rw [groupOf, opsOf_concat, if_neg fun heq : op.path = path => h (heq ▸ hpath), groupOf]
      rw [hrest, List.map_singleton, groupOf, opsOf_concat, if_pos rfl, hnone]
      rfl

theorem groupEdits_ok {workDir : List Char} {groups : List Group} (h : groupEdits workDir edits = .ok groups) :
    groups = (spellings edits).map (groupOf edits) := by
  rw [← foldl_addOp]
  refine @foldlM_ok _ _ _ _ _ (fun edits groups => groups = edits.foldl addOp []) rfl ?_ _ _ h
  rintro edits _ op groups rfl hstep
  obtain ⟨target, -, hstep⟩ := bind_ok hstep
  rw [List.foldl_concat]
  exact (Except.ok.inj hstep).symm

theorem groupEdits_of {workDir : List Char} (h : ∀ op ∈ edits, ∃ target, sanitizeJoin workDir op.path = .ok target) :
    groupEdits workDir edits = .ok ((spellings edits).map (groupOf edits)) := by
  rw [← foldl_addOp, groupEdits]
  generalize ([] : List Group) = groups
  induction edits generalizing groups with
  | nil => rfl
  | cons op rest ih =>
    rw [List.forall_mem_cons] at h
    obtain ⟨target, htarget⟩ := h.1
    rw [List.foldlM_cons, htarget]
    exact ih h.2 (addOp groups op)

end Spellings

section Decided

instance (outer loc : Loc Char) : Decidable (Above outer loc) := inferInstanceAs (Decidable (_ ∧ _))

instance (earlier : List (Loc Char)) (dir : Bool) (loc : Loc Char) : Decidable (Clashes earlier dir loc) :=
  inferInstanceAs (Decidable (_ ∨ ∃ l ∈ earlier, _))

def reached (root : Loc Char) : List (Loc Char) → List String → List String
  | _, [] => []
  | earlier, path :: rest =>
    if Clashes earlier (asksDir path) (place root path) then []
    else path :: reached root (earlier ++ [place root path]) rest

def lastFor (root loc : Loc Char) (paths : List String) : Option String :=
  (paths.filter fun path => place root path = loc).getLast?

variable {root loc : Loc Char} {earlier : List (Loc Char)} {path : String} {paths rest : List String}

theorem reached_clash (h : Clashes earlier (asksDir path) (place root path)) :
    reached root earlier (path :: rest) = [] := if_pos h

theorem reached_clear (h : ¬ Clashes earlier (asksDir path) (place root path)) :
    reached root earlier (path :: rest) = path :: reached root (earlier ++ [place root path]) rest := if_neg h

theorem overwrite_last {files : Loc Char → Option (List UInt8)} {text : String → List UInt8}
    (h : lastFor root loc paths = some path) :
    overwrite files (paths.map fun path => (place root path, text path)) loc = some (text path) := by
  induction paths using List.reverseRecOn with
  | nil => cases h
  | append_singleton paths last ih =>
    rw [List.map_append, List.map_singleton, overwrite_concat]
    rw [lastFor, List.filter_append] at h
    by_cases hlast : place root last = loc
    · rw [List.filter_cons_of_pos (by simpa using hlast), List.filter_nil, List.getLast?_concat] at h
      rw [hlast, Function.update_self, Option.some.inj h]
    · rw [List.filter_cons_of_neg (by simpa using hlast), List.filter_nil, List.append_nil] at h
      rw [Function.update_of_ne (Ne.symm hlast), ih h]

theorem overwrite_unnamed {files : Loc Char → Option (List UInt8)} {text : String → List UInt8}
    (h : lastFor root loc paths = none) :
    overwrite files (paths.map fun path => (place root path, text path)) loc = files loc := by
  apply overwrite_other
  rw [List.map_map, List.mem_map]
  rintro ⟨path, hpath, hplace⟩
  rw [lastFor, List.getLast?_eq_none_iff, List.filter_eq_nil_iff] at h
  exact h path hpath (decide_eq_true hplace)

end Decided

section Passes

variable {t : Nodes Char} {cwd root : Loc Char} {workDir : List Char} {edits : List EditOp}
  {base : List (Component Char)} {left : Nat} {nonces : Nat → BitVec 128} {text : String → List UInt8}

theorem commitAll_run (hplain : Plain t) (hcwd : t cwd = some .dir)
    (henter : enter t symlinkLimit cwd base = .ok (root, left)) {paths : List String} {commits : List Commit}
    (hplans : List.Forall₂ (fun path c => Planned t root base path (opsOf edits path) c ∧ c.bytes = text path)
      paths commits)
    (hnames : ∀ path ∈ paths, ∀ name ∈ pathNames path, Ordinary nonces name) {nonces' : Nat → BitVec 128}
    (hnonces : ∀ k, ∃ j, nonces' k = nonces j) {done : List (Loc Char × List UInt8)} {w : Lib.FileTree.World Char}
    (hrun : Run t nonces done w) :
    ((commitAll cwd nonces' commits w).1 = .ok () ↔ reached root (done.map Prod.fst) paths = paths) ∧
      ∀ loc, fileAt (commitAll cwd nonces' commits w).2.node loc =
        overwrite (fileAt t) (done ++ (reached root (done.map Prod.fst) paths).map fun path =>
          (place root path, text path)) loc := by
  induction hplans generalizing nonces' done w with
  | nil =>
    refine ⟨iff_of_true rfl rfl, fun loc => ?_⟩
    rw [reached, List.map_nil, List.append_nil]
    exact hrun.files loc
  | @cons path c rest commits hplan _ ih =>
    obtain ⟨hplan, hbytes⟩ := hplan
    rw [List.forall_mem_cons] at hnames
    obtain ⟨j, hj⟩ := hnonces 0
    rw [commitAll, hj]
    obtain ⟨hclear, w', hwrite, hnext⟩ | ⟨hclash, e, w', hwrite, hsame⟩ :=
      hrun.step hplain hcwd henter hplan.ready hnames.1 j c.bytes
    · rw [hplan.dir] at hclear
      obtain ⟨hdone, hfiles⟩ := @ih hnames.2 (fun k => nonces' (k + 1)) (fun k => hnonces (k + 1)) _ w' hnext
      rw [hwrite, reached_clear hclear, List.cons_inj_right]
      rw [List.map_append, List.map_singleton] at hdone hfiles
      refine ⟨hdone, fun loc => (hfiles loc).trans ?_⟩
      rw [List.map_cons, List.append_assoc, List.singleton_append, hbytes]
      rfl
    · rw [hplan.dir] at hclash
      rw [hwrite, reached_clash hclash]
      refine ⟨iff_of_false nofun (List.cons_ne_nil path rest).symm, fun loc => ?_⟩
      rw [List.map_nil, List.append_nil]
      exact (hsame loc).trans (hrun.files loc)

theorem computeGroup_root {g : Group} {r : Except EditError (EditResult × Commit)}
    (h : computeGroup t cwd workDir g = .ok r) : ∃ root, canonicalRoot t cwd workDir = .ok root := by
  obtain ⟨target, -, h⟩ := bind_ok h
  obtain ⟨⟨⟩, hensure, -⟩ := bind_ok h
  obtain ⟨root, hroot, -⟩ := bind_ok hensure
  exact ⟨root, hroot⟩

theorem mapM_id_ok {results : List (Except EditError (EditResult × Commit))} {planned : List (EditResult × Commit)}
    (h : results.mapM id = .ok planned) : results = planned.map .ok := by
  have hall := mapM_forall₂ h
  clear h
  induction hall with
  | nil => rfl
  | cons hr _ ih => rw [List.map_cons, ← ih, ← hr, id]

theorem mapM_id_of (planned : List (EditResult × Commit)) :
    (planned.map .ok : List (Except EditError (EditResult × Commit))).mapM id = .ok planned := by
  induction planned with
  | nil => rfl
  | cons p rest ih =>
    rw [List.map_cons, List.mapM_cons, ih]
    rfl

theorem computeAll_ok {planned : List (EditResult × Commit)}
    (h : computeAll t cwd workDir edits = .ok (planned.map .ok)) :
    List.Forall₂ (fun path p => computeGroup t cwd workDir (groupOf edits path) = .ok (.ok p))
      (spellings edits) planned := by
  obtain ⟨groups, hgroups, h⟩ := bind_ok h
  obtain rfl := groupEdits_ok hgroups
  have hall := mapM_forall₂ h
  rwa [List.forall₂_map_left_iff, List.forall₂_map_right_iff] at hall

theorem computeAll_root {planned : List (EditResult × Commit)}
    (h : computeAll t cwd workDir edits = .ok (planned.map .ok)) (hne : edits ≠ []) :
    ∃ root, canonicalRoot t cwd workDir = .ok root := by
  obtain ⟨op, rest, rfl⟩ := List.exists_cons_of_ne_nil hne
  have hfirst : op.path ∈ spellings (op :: rest) := mem_spellings.mpr ⟨op, List.mem_cons_self, rfl⟩
  have hall := computeAll_ok h
  generalize spellings (op :: rest) = paths at hfirst hall
  cases hall with
  | nil => cases hfirst
  | cons hr _ => exact computeGroup_root hr

theorem computeAll_some (hclosed : Closed t) (hplain : Plain t) (hcwd : t cwd = some .dir)
    (hroot : canonicalRoot t cwd workDir = .ok root)
    (h : ∀ path ∈ spellings edits, Applicable t cwd workDir root path (opsOf edits path)) :
    ∃ planned : List (EditResult × Commit), computeAll t cwd workDir edits = .ok (planned.map .ok) := by
  have hjoin : ∀ op ∈ edits, ∃ target, sanitizeJoin workDir op.path = .ok target := by
    intro op hop
    obtain ⟨target, htarget⟩ := (h op.path (mem_spellings.mpr ⟨op, hop, rfl⟩)).resolved
    obtain ⟨joined, hjoin, -⟩ := bind_ok htarget
    exact ⟨joined, hjoin⟩
  rw [computeAll, groupEdits_of hjoin]
  change ∃ planned : List (EditResult × Commit),
    ((spellings edits).map (groupOf edits)).mapM (computeGroup t cwd workDir) = .ok (planned.map .ok)
  generalize spellings edits = paths at h ⊢
  induction paths with
  | nil => exact ⟨[], rfl⟩
  | cons path rest ih =>
    rw [List.forall_mem_cons] at h
    obtain ⟨r, hr⟩ := @computeGroup_some _ _ _ _ (groupOf edits path) hclosed hplain hcwd hroot h.1
    obtain ⟨planned, hplanned⟩ := ih h.2
    refine ⟨r :: planned, ?_⟩
    rw [List.map_cons, List.mapM_cons, hr]
    change (((rest.map (groupOf edits)).mapM (computeGroup t cwd workDir)) >>= _) = _
    rw [hplanned]
    rfl

end Passes

def Done (r : Except ToolError (List (Except EditError EditResult))) : Prop :=
  ∃ results, r = .ok results ∧ ∀ e ∈ results, ∃ result, e = .ok result

section Calls

variable {t : Nodes Char} {cwd root : Loc Char} {workDir : List Char} {edits : List EditOp}
  {nonces : Nat → BitVec 128} {planned : List (EditResult × Commit)}

theorem applyEdits_planned (h : computeAll t cwd workDir edits = .ok (planned.map .ok)) :
    (Done (applyEdits cwd workDir nonces edits ⟨t, []⟩).1 ↔
      (commitAll cwd nonces (planned.map Prod.snd) ⟨t, []⟩).1 = .ok ()) ∧
    (applyEdits cwd workDir nonces edits ⟨t, []⟩).2 = (commitAll cwd nonces (planned.map Prod.snd) ⟨t, []⟩).2 := by
  rw [applyEdits, h]
  dsimp only
  rw [mapM_id_of]
  dsimp only
  obtain ⟨r, w'⟩ := commitAll cwd nonces (planned.map Prod.snd) ⟨t, []⟩
  cases r with
  | error e => exact ⟨iff_of_false (fun ⟨_, hr, _⟩ => nomatch hr) nofun, rfl⟩
  | ok done =>
    refine ⟨iff_of_true ⟨_, rfl, fun e he => ?_⟩ rfl, rfl⟩
    rw [List.map_map, List.mem_map] at he
    obtain ⟨p, -, rfl⟩ := he
    exact ⟨p.1, rfl⟩

theorem applyEdits_unplanned
    (h : ¬ ∃ planned : List (EditResult × Commit), computeAll t cwd workDir edits = .ok (planned.map .ok)) :
    ¬ Done (applyEdits cwd workDir nonces edits ⟨t, []⟩).1 ∧
      (applyEdits cwd workDir nonces edits ⟨t, []⟩).2 = ⟨t, []⟩ := by
  rw [applyEdits]
  cases hcomputed : computeAll t cwd workDir edits with
  | error e => exact ⟨(fun ⟨_, hr, _⟩ => nomatch hr), rfl⟩
  | ok computed =>
    dsimp only
    cases hplanned : computed.mapM id with
    | ok planned => exact absurd ⟨planned, hcomputed.trans (congrArg _ (mapM_id_ok hplanned))⟩ h
    | error e =>
      refine ⟨?_, rfl⟩
      rintro ⟨results, hr, hall⟩
      obtain rfl := Except.ok.inj hr
      refine @mapM_error _ _ _ id (fun _ => False) computed e ?_ hplanned
      intro r hr e' he
      obtain ⟨result, hresult⟩ := hall _ (List.mem_map_of_mem hr)
      obtain ⟨p, hp, -⟩ := map_ok hresult
      cases he.symm.trans hp

theorem planned_texts (hclosed : Closed t) (hplain : Plain t) (hcwd : t cwd = some .dir)
    (hroot : canonicalRoot t cwd workDir = .ok root) (h : computeAll t cwd workDir edits = .ok (planned.map .ok)) :
    ∃ text : String → List UInt8, (∀ path ∈ spellings edits, Applicable t cwd workDir root path (opsOf edits path) ∧
      EditedAll (opsOf edits path) (fileAt t (place root path)) (some (text path))) ∧
    List.Forall₂ (fun path c => Planned t root (readPath workDir).parts path (opsOf edits path) c ∧
      c.bytes = text path) (spellings edits) (planned.map Prod.snd) := by
  have hall : List.Forall₂ (fun path p => Applicable t cwd workDir root path (opsOf edits path) ∧
      Planned t root (readPath workDir).parts path (opsOf edits path) p.2) (spellings edits) planned := by
    refine ((List.forall₂_and_left _ _).mpr ⟨fun _ hpath => hpath, computeAll_ok h⟩).imp fun path p hp => ?_
    exact @computeGroup_ok _ _ _ _ (groupOf edits path) p.2 p.1 hclosed hplain hcwd hroot hp.2 (opsOf_ne_nil hp.1)
  obtain ⟨happlicable, hplans⟩ := (List.forall₂_and_left _ _).mp hall
  have htexts : ∀ path ∈ spellings edits, ∃ bytes,
      EditedAll (opsOf edits path) (fileAt t (place root path)) (some bytes) := by
    intro path hpath
    obtain ⟨after, hafter⟩ := (happlicable path hpath).edited
    obtain ⟨bytes, rfl⟩ := hafter.some (opsOf_ne_nil hpath)
    exact ⟨bytes, hafter⟩
  choose! text htext using htexts
  refine ⟨text, fun path hpath => ⟨happlicable path hpath, htext path hpath⟩, ?_⟩
  rw [List.forall₂_map_right_iff]
  refine ((List.forall₂_and_left _ _).mpr ⟨fun _ hpath => hpath, hplans⟩).imp fun path p hp => ⟨hp.2, ?_⟩
  exact Option.some.inj (hp.2.edited.det (htext path hp.1))

end Calls

def opsAt (root : Option (Loc Char)) (edits : List EditOp) (loc : Loc Char) : List EditOp :=
  edits.filter fun op => root.map (place · op.path) = some loc

/-- All of the operations are applied, each to what the ones before it left, or none is. -/
def Transaction (t : Nodes Char) (cwd : Loc Char) (workDir : List Char) (nonces : Nat → BitVec 128)
    (edits : List EditOp) : Prop :=
  (Done (applyEdits cwd workDir nonces edits ⟨t, []⟩).1 ∧
    ∀ loc, EditedAll (opsAt (canonicalRoot t cwd workDir).toOption edits loc) (fileAt t loc)
      (fileAt (applyEdits cwd workDir nonces edits ⟨t, []⟩).2.node loc)) ∨
  (¬ Done (applyEdits cwd workDir nonces edits ⟨t, []⟩).1 ∧
    ∀ loc, fileAt (applyEdits cwd workDir nonces edits ⟨t, []⟩).2.node loc = fileAt t loc)

/-- What makes a call whose plans are made a transaction. Where no path clashes with an earlier one, the
operations under the last spelling of a file do what all the operations on it do; where one does, the
operations under the last spelling of a file before it leave the file as it is. -/
structure Settled (files : Loc Char → Option (List UInt8)) (root : Loc Char) (edits : List EditOp) : Prop where
  whole : reached root [] (spellings edits) = spellings edits →
    ∀ loc path after, lastFor root loc (spellings edits) = some path →
      EditedAll (opsOf edits path) (files loc) after → EditedAll (opsAt (some root) edits loc) (files loc) after
  part : reached root [] (spellings edits) ≠ spellings edits →
    ∀ loc path after, lastFor root loc (reached root [] (spellings edits)) = some path →
      EditedAll (opsOf edits path) (files loc) after → after = files loc

/-- No file of the tree, and none that is written, has the name of a temporary file. -/
structure Fresh (t : Nodes Char) (nonces : Nat → BitVec 128) (edits : List EditOp) : Prop where
  tree : ∀ loc name, t (loc ++ [name]) ≠ none → Ordinary nonces name
  paths : ∀ op ∈ edits, ∀ name ∈ pathNames op.path, Ordinary nonces name

section Results

variable {t : Nodes Char} {cwd root loc : Loc Char} {workDir : List Char} {edits : List EditOp}
  {nonces : Nat → BitVec 128} {planned : List (EditResult × Commit)} {paths : List String} {path : String}

theorem lastFor_some (h : lastFor root loc paths = some path) : path ∈ paths ∧ place root path = loc := by
  have hmem := List.mem_filter.mp (List.mem_of_getLast? h)
  exact ⟨hmem.1, of_decide_eq_true hmem.2⟩

theorem opsAt_unnamed (h : lastFor root loc (spellings edits) = none) : opsAt (some root) edits loc = [] := by
  rw [lastFor, List.getLast?_eq_none_iff, List.filter_eq_nil_iff] at h
  rw [opsAt, List.filter_eq_nil_iff]
  intro op hop hplace
  have hat : place root op.path = loc := Option.some.inj (of_decide_eq_true hplace)
  exact h op.path (mem_spellings.mpr ⟨op, hop, rfl⟩) (decide_eq_true hat)

theorem reached_subset {earlier : List (Loc Char)} (h : path ∈ reached root earlier paths) : path ∈ paths := by
  induction paths generalizing earlier with
  | nil => exact h
  | cons first rest ih =>
    by_cases hclash : Clashes earlier (asksDir first) (place root first)
    · rw [reached_clash hclash] at h
      cases h
    · rw [reached_clear hclash, List.mem_cons] at h
      exact List.mem_cons.mpr (h.imp_right ih)

/-- What a call leaves whose plans are made: each file that was reached is what the operations under its
last spelling make of it, and the others are as before. -/
structure Committed (t t' : Nodes Char) (root : Loc Char) (edits : List EditOp) : Prop where
  written : ∀ loc path, lastFor root loc (reached root [] (spellings edits)) = some path →
    EditedAll (opsOf edits path) (fileAt t loc) (fileAt t' loc)
  kept : ∀ loc, lastFor root loc (reached root [] (spellings edits)) = none → fileAt t' loc = fileAt t loc

theorem applyEdits_committed (hclosed : Closed t) (hplain : Plain t) (hcwd : t cwd = some .dir)
    (hfresh : Fresh t nonces edits) (hroot : canonicalRoot t cwd workDir = .ok root)
    (hcompute : computeAll t cwd workDir edits = .ok (planned.map .ok)) (hne : edits ≠ []) :
    (∀ path ∈ spellings edits, Applicable t cwd workDir root path (opsOf edits path)) ∧
    (Done (applyEdits cwd workDir nonces edits ⟨t, []⟩).1 ↔ reached root [] (spellings edits) = spellings edits) ∧
    Committed t (applyEdits cwd workDir nonces edits ⟨t, []⟩).2.node root edits := by
  obtain ⟨text, htext, hplans⟩ := planned_texts hclosed hplain hcwd hroot hcompute
  obtain ⟨op, rest, rfl⟩ := List.exists_cons_of_ne_nil hne
  have hfirst : op.path ∈ spellings (op :: rest) := mem_spellings.mpr ⟨op, List.mem_cons_self, rfl⟩
  obtain ⟨joined, hresolved⟩ := (htext _ hfirst).1.resolved
  obtain ⟨target, hjoin, hresolved⟩ := bind_ok hresolved
  obtain ⟨⟨⟩, hensure, -⟩ := bind_ok hresolved
  obtain ⟨-, left, henter⟩ := (accepted hclosed hplain hcwd hroot hjoin hensure).entered
  have hstart : Run t nonces [] ⟨t, []⟩ :=
    ⟨hclosed, hplain, hfresh.tree, fun loc => (or_iff_left (by simp)).symm, fun _ => rfl⟩
  have hnames : ∀ path ∈ spellings (op :: rest), ∀ name ∈ pathNames path, Ordinary nonces name := by
    intro path hpath
    obtain ⟨other, hother, rfl⟩ := mem_spellings.mp hpath
    exact hfresh.paths other hother
  obtain ⟨hdone, hfiles⟩ := commitAll_run hplain hcwd henter hplans hnames (fun k => ⟨k, rfl⟩) hstart
  obtain ⟨hresult, hleft⟩ := @applyEdits_planned _ cwd workDir _ nonces _ hcompute
  simp only [List.map_nil, List.nil_append] at hdone hfiles
  refine ⟨fun path hpath => (htext path hpath).1, hresult.trans hdone, ?_, ?_⟩
  · intro loc path hlast
    obtain ⟨hpath, hplace⟩ := lastFor_some hlast
    rw [hleft, hfiles, overwrite_last hlast, ← hplace]
    exact (htext path (reached_subset hpath)).2
  · intro loc hlast
    rw [hleft, hfiles, overwrite_unnamed hlast]

theorem transaction_nil : Transaction t cwd workDir nonces [] := by
  refine Or.inl ⟨⟨[], rfl, fun e he => absurd he List.not_mem_nil⟩, fun loc => ?_⟩
  exact EditedAll.nil (fileAt t loc)

/-- A call whose plans are made is a transaction exactly if its spellings are settled. -/
theorem Committed.atomic_iff (hroot : canonicalRoot t cwd workDir = .ok root)
    (hdone : Done (applyEdits cwd workDir nonces edits ⟨t, []⟩).1 ↔
      reached root [] (spellings edits) = spellings edits)
    (h : Committed t (applyEdits cwd workDir nonces edits ⟨t, []⟩).2.node root edits) :
    Transaction t cwd workDir nonces edits ↔ Settled (fileAt t) root edits := by
  rw [Transaction, hdone, hroot]
  by_cases hall : reached root [] (spellings edits) = spellings edits
  · rw [or_iff_left fun hpart => hpart.1 hall, and_iff_right hall]
    constructor
    · intro hfiles
      refine ⟨fun _ loc path after hlast hafter => ?_, fun hpart => absurd hall hpart⟩
      rw [hafter.det (h.written loc path (hall.symm ▸ hlast))]
      exact hfiles loc
    · intro hsettled loc
      cases hlast : lastFor root loc (spellings edits) with
      | none =>
        rw [h.kept loc (hall.symm ▸ hlast)]
        change EditedAll (opsAt (some root) edits loc) _ _
        rw [opsAt_unnamed hlast]
        exact EditedAll.nil (fileAt t loc)
      | some path => exact hsettled.whole hall loc path _ hlast (h.written loc path (hall.symm ▸ hlast))
  · rw [or_iff_right fun hwhole => hall hwhole.1, and_iff_right hall]
    constructor
    · intro hfiles
      refine ⟨fun hwhole => absurd hwhole hall, fun _ loc path after hlast hafter => ?_⟩
      rw [hafter.det (h.written loc path hlast)]
      exact hfiles loc
    · intro hsettled loc
      cases hlast : lastFor root loc (reached root [] (spellings edits)) with
      | none => exact h.kept loc hlast
      | some path => exact hsettled.part hall loc path _ hlast (h.written loc path hlast)

end Results

/-- A call is a transaction exactly if its paths are refused or its operations cannot be applied, or
else if its spellings are settled. -/
theorem transaction_iff (t : Volume Char) (cwd : t.Dir) (workDir : List Char) (nonces : Nat → BitVec 128)
    (edits : List EditOp) (hplain : Plain t.node) (hfresh : Fresh t.node nonces edits) :
    Transaction t.node cwd.loc workDir nonces edits ↔
      ∀ root, canonicalRoot t.node cwd.loc workDir = .ok root →
        (∀ path ∈ spellings edits, Applicable t.node cwd.loc workDir root path (opsOf edits path)) →
        Settled (fileAt t.node) root edits := by
  by_cases hne : edits = []
  · subst hne
    refine iff_of_true transaction_nil fun root _ _ => ⟨?_, fun hpart => absurd rfl hpart⟩
    intro _ loc path after hlast
    cases hlast
  · by_cases hcompute : ∃ planned : List (EditResult × Commit),
        computeAll t.node cwd.loc workDir edits = .ok (planned.map .ok)
    · obtain ⟨planned, hcompute⟩ := hcompute
      cases hroot : canonicalRoot t.node cwd.loc workDir with
      | error e =>
        obtain ⟨root, hroot'⟩ := computeAll_root hcompute hne
        cases hroot.symm.trans hroot'
      | ok root =>
        obtain ⟨happlicable, hdone, hcommitted⟩ :=
          applyEdits_committed t.closed hplain cwd.isDir hfresh hroot hcompute hne
        rw [hcommitted.atomic_iff hroot hdone]
        constructor
        · rintro hsettled _ ⟨⟩ -
          exact hsettled
        · intro h
          exact h root rfl happlicable
    · obtain ⟨hnot, hsame⟩ := @applyEdits_unplanned _ cwd.loc workDir _ nonces hcompute
      refine iff_of_true (Or.inr ⟨hnot, fun loc => by rw [hsame]⟩) fun root hroot happlicable => ?_
      exact absurd (computeAll_some t.closed hplain cwd.isDir hroot happlicable) hcompute

def bare : Volume Char := Volume.ofEntries [(["w".toList], .dir)] (by decide)

def nested : List EditOp := [⟨"a", "", "x"⟩, ⟨"a/b", "", "y"⟩]

theorem transaction_iff_nested : Transaction bare.node [] "/w".toList (fun _ => 0) nested ↔
    ∀ root, canonicalRoot bare.node [] "/w".toList = .ok root →
      (∀ path ∈ spellings nested, Applicable bare.node [] "/w".toList root path (opsOf nested path)) →
      Settled (fileAt bare.node) root nested := by
  have hshort : ∀ name : List Char, name.length ≤ 1 → Ordinary (fun _ => 0) name := by
    intro name hname k hsuffix
    have hlength : (tmpSuffix 0).length ≤ name.length := hsuffix.length_le
    have hlong := tmpSuffix_length 0
    omega
  refine transaction_iff bare ⟨[], rfl⟩ "/w".toList (fun _ => 0) nested ?_ ⟨?_, ?_⟩
  · intro loc target hnode
    obtain ⟨-, hdir⟩ | hmem := nodeOf_some hnode
    · cases hdir
    · cases List.mem_singleton.mp hmem
  · intro loc name hne
    obtain ⟨node, hnode⟩ := Option.ne_none_iff_exists'.mp hne
    obtain ⟨hnil, -⟩ | hmem := nodeOf_some hnode
    · simp at hnil
    · obtain ⟨hloc, -⟩ := Prod.mk.inj (List.mem_singleton.mp hmem)
      obtain ⟨-, hname⟩ := List.append_inj' (hloc.trans (List.nil_append ["w".toList]).symm) rfl
      exact hshort name (by rw [List.singleton_inj.mp hname]; decide)
  · intro op hop name hname
    have hall : ∀ op ∈ nested, ∀ name ∈ pathNames op.path, name.length ≤ 1 := by decide +kernel
    exact hshort name (hall op hop name hname)

/-- The first file is written, and then the call fails. -/
theorem transaction_nested : ¬ Transaction bare.node [] "/w".toList (fun _ => 0) nested := by
  have hresult : (applyEdits [] "/w".toList (fun _ => 0) nested ⟨bare.node, []⟩).1 =
      .error (.io "/w/a/b: File exists (os error 17)") := by decide +kernel
  have hfile : fileAt (applyEdits [] "/w".toList (fun _ => 0) nested ⟨bare.node, []⟩).2.node
      ["w".toList, "a".toList] ≠ fileAt bare.node ["w".toList, "a".toList] := by decide +kernel
  rintro (⟨⟨results, hdone, -⟩, -⟩ | ⟨-, hfiles⟩)
  · rw [hresult] at hdone
    cases hdone
  · exact hfile (hfiles _)

end Cosmon.Harness.EditFile
