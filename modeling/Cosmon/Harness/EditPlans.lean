import Cosmon.Harness.EditCommits

namespace Cosmon.Harness.EditFile

open Cosmon.Harness.PathAuthority Cosmon.Lib.Checks Cosmon.Lib.FileTree Cosmon.Lib.UnixPath

def pathNames (path : String) : List (List Char) :=
  (names '/' '.' path.toList).filterMap fun
    | .normal name => some name
    | _ => none

def place (root : Loc Char) (path : String) : Loc Char := root ++ pathNames path

/-- A path that ends in a separator or in `.` asks for a directory. -/
def asksDir (path : String) : Bool := (readPath path.toList).dir

section Targets

variable {t : Nodes Char} {cwd root : Loc Char} {workDir target : List Char} {path : String} {left : Nat}

/-- What a path below the work root names. -/
structure Joined (workDir target : List Char) (path : String) : Prop where
  parts : (readPath target).parts = (readPath workDir).parts ++ (pathNames path).map .normal
  dir : (readPath target).dir = asksDir path
  none : pathNames path = [] → asksDir path = true
  slash : '/' ∈ target

theorem joined (hdir : workDir ≠ []) (h : sanitizeJoin workDir path = .ok target) : Joined workDir target path := by
  obtain ⟨ns, hns, hparts, hnone, hslash⟩ := readPath_joined hdir h
  obtain ⟨hrel, -, rfl⟩ := sanitizeJoin_ok h
  have hnames : pathNames path = ns := by
    rw [pathNames, hns, List.filterMap_map]
    exact List.filterMap_some
  have hasks : (readPath (join '/' workDir path.toList)).dir = asksDir path := by
    obtain ⟨front, hcut, -⟩ := @join_cut _ _ '/' '.' _ _ hdir hrel
    have hlast : ((front ++ '/' :: path.toList).splitOn '/').getLast? = (path.toList.splitOn '/').getLast? := by
      rw [List.splitOn_append_cons_self, List.getLast?_append_of_ne_nil _ (List.splitOn_ne_nil _ _)]
    rw [hcut, asksDir, readPath, readPath, Route.of, Route.of, hlast]
  exact ⟨hnames.symm ▸ hparts, hasks, fun h => hasks ▸ hnone (hnames ▸ h), hslash⟩

theorem probe_first {dir : Bool} {parts : List (Component Char)}
    (h : probeAncestors t cwd root target parts.reverse dir = .ok ()) :
    parts ≠ [] ∧ ((∃ node, lstat t cwd ⟨parts, dir⟩ = .ok node) ∨ lstat t cwd ⟨parts, dir⟩ = .error .noent) := by
  rcases List.eq_nil_or_concat parts with rfl | ⟨front, part, rfl⟩
  · cases h
  · refine ⟨by simp, ?_⟩
    rw [List.concat_eq_append, List.reverse_append, List.reverse_singleton, List.singleton_append, probeAncestors,
      List.reverse_cons, List.reverse_reverse] at h
    rw [List.concat_eq_append]
    cases hmeta : symlinkMetadata t cwd ⟨front ++ [part], dir⟩ with
    | ok node => exact Or.inl ⟨node, lstat_of_metadata hmeta (by rintro ⟨⟩)⟩
    | error e =>
      rw [hmeta] at h
      cases e with
      | noent => exact Or.inr (lstat_of_metadata hmeta (by rintro ⟨⟩))
      | _ => cases h

theorem lstat_notdir {parts : List (Component Char)} {dir : Bool}
    (h : (∃ node, lstat t cwd ⟨parts, dir⟩ = .ok node) ∨ lstat t cwd ⟨parts, dir⟩ = .error .noent) :
    lookup t cwd true ⟨parts, dir⟩ ≠ .error .notdir := by
  intro hlookup
  rw [lstat, hlookup] at h
  obtain ⟨node, hnode⟩ | hnoent := h
  · cases hnode
  · cases hnoent

theorem root_entered (hclosed : Closed t) (hcwd : t cwd = some .dir) {base : List (Component Char)}
    {ns : List (List Char)} {dir dir' : Bool} (hreal : realpath t cwd ⟨base, dir'⟩ = .ok root)
    (hlookup : lookup t cwd true ⟨base ++ ns.map .normal, dir⟩ ≠ .error .notdir) (hnone : ns = [] → dir = true) :
    t root = some .dir ∧ ∃ left, enter t symlinkLimit cwd base = .ok (root, left) := by
  obtain ⟨hne, left, hwalk⟩ := lookup_walk (realpath_ok.mp hreal)
  have henter := enter_of_there hclosed hcwd hwalk
  by_cases hroot : t root = some .dir
  · rw [if_pos hroot] at henter
    exact ⟨hroot, left, henter⟩
  · rw [if_neg hroot] at henter
    exfalso
    apply hlookup
    cases ns with
    | nil =>
      have hbase : base ≠ [] := hne
      rw [List.map_nil, List.append_nil, hnone rfl, lookup_eq hbase, walk_into,
        walk_of_enter_error henter (by decide)]
      rfl
    | cons name rest =>
      rw [lookup_eq (by simp), walk_append (by simp), henter]
      rfl

theorem readFile_dir (hclosed : Closed t) (hcwd : t cwd = some .dir) {parts : List (Component Char)} {dir : Bool}
    {loc : Loc Char} (hne : parts ≠ []) (henter : enter t symlinkLimit cwd parts = .ok (loc, left)) :
    readFile t cwd ⟨parts, dir⟩ = .error .isdir := by
  obtain ⟨loc', left', hwalk⟩ := walk_of_there hclosed hcwd (walk_of_enter henter) false dir fun _ => rfl
  have hentered := enter_of_there hclosed hcwd hwalk
  rw [henter] at hentered
  by_cases hdir : t loc' = some .dir
  · rw [readFile, realpath_ok.mpr (lookup_of_walk hne hwalk)]
    dsimp only
    rw [hdir]
  · rw [if_neg hdir] at hentered
    cases hentered

theorem accepted_stop (hclosed : Closed t) (hplain : Plain t) {base : List (Component Char)} {ns : List (List Char)}
    {dir : Bool} (henter : enter t symlinkLimit cwd base = .ok (root, left)) (hroot : t root = some .dir)
    (hlookup : lookup t cwd true ⟨base ++ ns.map .normal, dir⟩ ≠ .error .notdir) (hdir : t (root ++ ns) ≠ some .dir) :
    ∃ inner name rest, ns = inner ++ name :: rest ∧ t (root ++ inner) = some .dir ∧
      t (root ++ inner ++ [name]) ≠ some .dir ∧
      (t (root ++ inner ++ [name]) ≠ none → rest = [] ∧ dir = false) := by
  obtain ⟨inner, name, rest, rfl, hinner, hname⟩ := (descend hroot ns).resolve_left hdir
  refine ⟨inner, name, rest, rfl, hinner, hname, fun hsome => ?_⟩
  rw [lookup_stop hclosed henter hinner hname hplain] at hlookup
  by_contra hstop
  rw [if_neg hstop, if_pos (Option.ne_none_iff_isSome.mp hsome)] at hlookup
  exact hlookup rfl

theorem stop_clear (hclosed : Closed t) {inner rest : List (List Char)} {name : List Char} {dir : Bool}
    (hinner : t (root ++ inner) = some .dir) (hname : t (root ++ inner ++ [name]) ≠ some .dir)
    (hstop : t (root ++ inner ++ [name]) ≠ none → rest = [] ∧ dir = false) {outer : Loc Char}
    (habove : Above outer (root ++ (inner ++ name :: rest))) : fileAt t outer = none := by
  by_contra hfile
  obtain ⟨bytes, hbytes⟩ := Option.ne_none_iff_exists'.mp hfile
  have hnode := fileAt_eq.mp hbytes
  by_cases hself : outer = root ++ inner ++ [name]
  · obtain ⟨rfl, -⟩ := hstop (by rw [← hself, hnode]; exact Option.some_ne_none _)
    exact habove.2 (by rw [hself, List.append_assoc])
  · have hbegins : root ++ inner ++ [name] <+: root ++ (inner ++ name :: rest) := ⟨rest, by simp⟩
    obtain houter | hinside := List.prefix_or_prefix_of_prefix habove.1 hbegins
    · have hdir : t outer = some .dir := by
        by_cases hlast : outer = root ++ inner
        · rw [hlast, hinner]
        · have hfolder := (List.prefix_concat_iff.mp houter).resolve_left hself
          exact hclosed.above (hinner ▸ Option.some_ne_none _) hfolder hlast
      rw [hnode] at hdir
      cases hdir
    · exact hname (hclosed.above (hnode ▸ Option.some_ne_none _) hinside (Ne.symm hself))

theorem readFile_stop (hclosed : Closed t) (hplain : Plain t) {base : List (Component Char)}
    {inner rest : List (List Char)} {name : List Char} {dir : Bool}
    (henter : enter t symlinkLimit cwd base = .ok (root, left)) (hinner : t (root ++ inner) = some .dir)
    (hname : t (root ++ inner ++ [name]) ≠ some .dir)
    (hstop : t (root ++ inner ++ [name]) ≠ none → rest = [] ∧ dir = false) :
    readFile t cwd ⟨base ++ (inner ++ name :: rest).map .normal, dir⟩ =
      (fileAt t (root ++ (inner ++ name :: rest))).elim (.error .noent) .ok := by
  rw [readFile, realpath, lookup_stop hclosed henter hinner hname hplain]
  cases hnode : t (root ++ inner ++ [name]) with
  | none =>
    have hbelow : fileAt t (root ++ (inner ++ name :: rest)) = none := by
      by_contra hfile
      obtain ⟨bytes, hbytes⟩ := Option.ne_none_iff_exists'.mp hfile
      have hbegins : root ++ inner ++ [name] <+: root ++ (inner ++ name :: rest) := ⟨rest, by simp⟩
      by_cases hself : root ++ inner ++ [name] = root ++ (inner ++ name :: rest)
      · rw [← hself, fileAt_eq, hnode] at hbytes
        cases hbytes
      · exact hname (hclosed.above (fileAt_eq.mp hbytes ▸ Option.some_ne_none _) hbegins hself)
    rw [hbelow]
    by_cases hend : rest = [] ∧ dir = false
    · rw [if_pos hend]
      rfl
    · rw [if_neg hend]
      rfl
  | some node =>
    obtain ⟨rfl, rfl⟩ := hstop (hnode ▸ Option.some_ne_none node)
    rw [if_pos ⟨rfl, rfl⟩, Option.isSome_some, if_pos rfl, ← List.append_assoc, fileAt]
    dsimp only
    rw [hnode]
    cases node with
    | dir => exact absurd hnode hname
    | link link => exact absurd hnode (hplain _ link)
    | file bytes => rfl

end Targets

section Computing

variable {t : Nodes Char} {cwd root : Loc Char} {workDir target : List Char} {path : String} {ops : List EditOp}
  {original : Option (List UInt8)} {r : EditResult × List UInt8}

def Readable (content : Option (List UInt8)) : Prop :=
  ∀ bytes, content = some bytes → (String.fromUTF8? ⟨bytes.toArray⟩).isSome

theorem computeFileOps_eq (hread : readFile t cwd (readPath target) = original.elim (.error .noent) .ok)
    (htext : Readable original) : computeFileOps t cwd path target ops = (applyOps path original ops).map fun r =>
      (⟨path, lenI64 (r.1.getD []) - lenI64 (original.getD []), String.intercalate "; " r.2⟩, r.1.getD []) := by
  rw [computeFileOps, hread]
  cases original with
  | none =>
    change (applyOps path none ops >>= _) = _
    cases applyOps path none ops <;> rfl
  | some bytes =>
    dsimp only [Option.elim]
    rw [if_pos (htext bytes rfl)]
    change (applyOps path (some bytes) ops >>= _) = _
    cases applyOps path (some bytes) ops <;> rfl

theorem readable_of_compute (hread : readFile t cwd (readPath target) = original.elim (.error .noent) .ok)
    (h : computeFileOps t cwd path target ops = .ok r) : Readable original := by
  rintro bytes rfl
  rw [computeFileOps, hread] at h
  dsimp only [Option.elim] at h
  split_ifs at h with htext
  · exact htext
  · cases h

theorem computeFileOps_ok (hread : readFile t cwd (readPath target) = original.elim (.error .noent) .ok)
    (h : computeFileOps t cwd path target ops = .ok r) (hops : ops ≠ []) :
    Readable original ∧ EditedAll ops original (some r.2) := by
  have htext := readable_of_compute hread h
  rw [computeFileOps_eq hread htext] at h
  obtain ⟨⟨final, lines⟩, happly, rfl⟩ := map_ok h
  have hedited := (editedAll_iff path).mpr ⟨lines, happly⟩
  obtain ⟨bytes, rfl⟩ := hedited.some hops
  exact ⟨htext, hedited⟩

theorem computeFileOps_some {after : Option (List UInt8)}
    (hread : readFile t cwd (readPath target) = original.elim (.error .noent) .ok) (htext : Readable original)
    (hedited : EditedAll ops original after) : ∃ r, computeFileOps t cwd path target ops = .ok r := by
  obtain ⟨lines, happly⟩ := (editedAll_iff path).mp hedited
  rw [computeFileOps_eq hread htext, happly]
  exact ⟨_, rfl⟩

/-- The operations under one path can be applied to the file as it is: the path may be written to, no
directory is there, the text is readable, and each operation applies to what the ones before it leave. -/
structure Applicable (t : Nodes Char) (cwd : Loc Char) (workDir : List Char) (root : Loc Char) (path : String)
    (ops : List EditOp) : Prop where
  resolved : ∃ target, resolveWriteTarget t cwd workDir path = .ok target
  notDir : t (place root path) ≠ some .dir
  readable : Readable (fileAt t (place root path))
  edited : ∃ after, EditedAll ops (fileAt t (place root path)) after

/-- What is planned for a path: its operations are applied to the file as it is. -/
structure Planned (t : Nodes Char) (root : Loc Char) (base : List (Component Char)) (path : String)
    (ops : List EditOp) (c : Commit) : Prop where
  ready : Ready t root base c.target (pathNames path)
  dir : (readPath c.target).dir = asksDir path
  edited : EditedAll ops (fileAt t (place root path)) (some c.bytes)

/-- What an accepted target is like. -/
structure Accepted (t : Nodes Char) (cwd : Loc Char) (workDir : List Char) (root : Loc Char) (path : String)
    (target : List Char) : Prop where
  entered : t root = some .dir ∧ ∃ left, enter t symlinkLimit cwd (readPath workDir).parts = .ok (root, left)
  dir : (readPath target).dir = asksDir path
  occupied : t (place root path) = some .dir → readFile t cwd (readPath target) = .error .isdir
  ready : t (place root path) ≠ some .dir → Ready t root (readPath workDir).parts target (pathNames path)
  read : t (place root path) ≠ some .dir → readFile t cwd (readPath target) =
    (fileAt t (place root path)).elim (.error .noent) .ok

theorem accepted (hclosed : Closed t) (hplain : Plain t) (hcwd : t cwd = some .dir)
    (hroot : canonicalRoot t cwd workDir = .ok root) (hjoin : sanitizeJoin workDir path = .ok target)
    (hensure : ensureWriteTargetInside t cwd workDir target = .ok ()) : Accepted t cwd workDir root path target := by
  obtain ⟨hne, hreal⟩ := canonicalRoot_ok hroot
  obtain ⟨hparts, hdir, hnone, hslash⟩ := joined hne hjoin
  obtain ⟨hparts', hfirst⟩ := probe_first (ensure_ok hroot hensure).2
  have hpath : readPath target = ⟨(readPath workDir).parts ++ (pathNames path).map .normal, asksDir path⟩ := by
    rw [← hparts, ← hdir]
  have hlookup := lstat_notdir hfirst
  rw [hparts, hdir] at hlookup
  obtain ⟨hrootDir, left, henter⟩ := root_entered hclosed hcwd hreal hlookup hnone
  refine ⟨⟨hrootDir, left, henter⟩, hdir, fun hoccupied => ?_, fun hfree => ?_, fun hfree => ?_⟩
  · rw [hpath]
    exact readFile_dir hclosed hcwd (hparts ▸ hparts') (enter_names hclosed henter hoccupied)
  · obtain ⟨inner, name, rest, hns, hinner, hname, hstop⟩ :=
      accepted_stop hclosed hplain henter hrootDir hlookup hfree
    refine ⟨hslash, hparts, by simp [hns], fun outer houter => ?_, hfree⟩
    rw [hns] at houter
    exact stop_clear hclosed hinner hname hstop houter
  · obtain ⟨inner, name, rest, hns, hinner, hname, hstop⟩ :=
      accepted_stop hclosed hplain henter hrootDir hlookup hfree
    rw [hpath, place, hns]
    exact readFile_stop hclosed hplain henter hinner hname hstop

theorem computeGroup_ok {g : Group} {c : Commit} {result : EditResult} (hclosed : Closed t) (hplain : Plain t)
    (hcwd : t cwd = some .dir) (hroot : canonicalRoot t cwd workDir = .ok root)
    (h : computeGroup t cwd workDir g = .ok (.ok (result, c))) (hops : g.ops ≠ []) :
    Applicable t cwd workDir root g.path g.ops ∧ Planned t root (readPath workDir).parts g.path g.ops c := by
  obtain ⟨target, hjoin, h⟩ := bind_ok h
  obtain ⟨⟨⟩, hensure, h⟩ := bind_ok h
  obtain ⟨⟨_, bytes⟩, hcompute, hr⟩ := map_ok (Except.ok.inj h)
  obtain ⟨-, rfl⟩ := Prod.mk.inj hr
  have haccepted := accepted hclosed hplain hcwd hroot hjoin hensure
  have hfree : t (place root g.path) ≠ some .dir := by
    intro hoccupied
    rw [computeFileOps, haccepted.occupied hoccupied] at hcompute
    cases hcompute
  obtain ⟨htext, hedited⟩ := computeFileOps_ok (haccepted.read hfree) hcompute hops
  refine ⟨⟨⟨target, ?_⟩, hfree, htext, _, hedited⟩, haccepted.ready hfree, haccepted.dir, hedited⟩
  rw [resolveWriteTarget, hjoin]
  change (ensureWriteTargetInside t cwd workDir target >>= _) = _
  rw [hensure]
  rfl

theorem computeGroup_some {g : Group} (hclosed : Closed t) (hplain : Plain t) (hcwd : t cwd = some .dir)
    (hroot : canonicalRoot t cwd workDir = .ok root) (h : Applicable t cwd workDir root g.path g.ops) :
    ∃ r, computeGroup t cwd workDir g = .ok (.ok r) := by
  obtain ⟨target, htarget⟩ := h.resolved
  obtain ⟨joined, hjoin, htarget⟩ := bind_ok htarget
  obtain ⟨⟨⟩, hensure, htarget⟩ := bind_ok htarget
  obtain rfl := Except.ok.inj htarget
  have haccepted := accepted hclosed hplain hcwd hroot hjoin hensure
  obtain ⟨after, hedited⟩ := h.edited
  obtain ⟨r, hcompute⟩ := @computeFileOps_some _ _ _ g.path _ _ _ (haccepted.read h.notDir) h.readable hedited
  rw [computeGroup, hjoin]
  change ∃ r, (ensureWriteTargetInside t cwd workDir joined >>= _) = _
  rw [hensure]
  change ∃ r, Except.ok ((computeFileOps t cwd g.path joined g.ops).map _) = _
  rw [hcompute]
  exact ⟨_, rfl⟩

end Computing

end Cosmon.Harness.EditFile
