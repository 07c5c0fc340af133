import Cosmon.Harness.EditFile
import Cosmon.Harness.PathSites
import Cosmon.Lib.PlainFiles

namespace Cosmon.Harness.EditFile

open Cosmon.Harness.PathAuthority Cosmon.Lib.FileTree Cosmon.Lib.UnixPath

section Overwriting

variable {files : Loc Char → Option (List UInt8)} {done : List (Loc Char × List UInt8)} {loc : Loc Char}

def overwrite (files : Loc Char → Option (List UInt8)) (done : List (Loc Char × List UInt8)) :
    Loc Char → Option (List UInt8) :=
  done.foldl (fun files d => Function.update files d.1 (some d.2)) files

theorem overwrite_concat (d : Loc Char × List UInt8) :
    overwrite files (done ++ [d]) = Function.update (overwrite files done) d.1 (some d.2) := by
  rw [overwrite, List.foldl_concat, overwrite]

theorem overwrite_other (h : loc ∉ done.map Prod.fst) : overwrite files done loc = files loc := by
  induction done using List.reverseRecOn with
  | nil => rfl
  | append_singleton done d ih =>
    rw [List.map_append, List.mem_append, not_or, List.map_singleton, List.mem_singleton] at h
    rw [overwrite_concat, Function.update_of_ne h.2, ih h.1]

theorem overwrite_isSome (h : loc ∈ done.map Prod.fst) : ∃ bytes, overwrite files done loc = some bytes := by
  induction done using List.reverseRecOn with
  | nil => cases h
  | append_singleton done d ih =>
    rw [overwrite_concat]
    by_cases hd : loc = d.1
    · rw [hd, Function.update_self]
      exact ⟨d.2, rfl⟩
    · rw [Function.update_of_ne hd]
      rw [List.map_append, List.mem_append, List.map_singleton, List.mem_singleton] at h
      exact ih (h.resolve_right hd)

end Overwriting

def Ordinary (nonces : Nat → BitVec 128) (name : List Char) : Prop := ∀ k, ¬ tmpSuffix (nonces k) <:+ name

def Above (outer loc : Loc Char) : Prop := outer <+: loc ∧ outer ≠ loc

/-- A target that a text was computed for: it is below the root, where a file is or nothing, with no
file in the way. -/
structure Ready (t : Nodes Char) (root : Loc Char) (base : List (Component Char)) (target : List Char)
    (ns : List (List Char)) : Prop where
  slash : '/' ∈ target
  parts : (readPath target).parts = base ++ ns.map .normal
  ne_nil : ns ≠ []
  clear : ∀ outer, Above outer (root ++ ns) → fileAt t outer = none
  notDir : t (root ++ ns) ≠ some .dir

structure Run (t : Nodes Char) (nonces : Nat → BitVec 128) (done : List (Loc Char × List UInt8))
    (w : Lib.FileTree.World Char) :
    Prop where
  closed : Closed w.node
  plain : Plain w.node
  names : ∀ loc name, w.node (loc ++ [name]) ≠ none → Ordinary nonces name
  dirs : ∀ loc, w.node loc = some .dir ↔ t loc = some .dir ∨ ∃ d ∈ done, Above loc d.1
  files : ∀ loc, fileAt w.node loc = overwrite (fileAt t) done loc

/-- What keeps a text from being written behind the others: its path asks for a directory, or lies
above or below an earlier one. -/
def Clashes (earlier : List (Loc Char)) (dir : Bool) (loc : Loc Char) : Prop :=
  dir = true ∨ ∃ l ∈ earlier, Above l loc ∨ Above loc l

section Steps

variable {t : Nodes Char} {cwd root : Loc Char} {base : List (Component Char)} {left : Nat}
  {nonces : Nat → BitVec 128} {done : List (Loc Char × List UInt8)} {w w' : Lib.FileTree.World Char}
  {target : List Char}
  {ns above : List (List Char)} {last : List Char} {bytes : List UInt8} {nonce : BitVec 128}

theorem Run.grows (hrun : Run t nonces done w) (hplain : Plain t) : Lib.FileTree.Grows t w.node :=
  ⟨fun loc h => (hrun.dirs loc).mpr (Or.inl h), fun loc link h => absurd h (hplain loc link)⟩

theorem Run.made_names {origin : Loc Char} (hrun : Run t nonces done w) (hroot : w.node root = some .dir)
    (hmade : Made w w' origin (root ++ above)) (habove : ∀ name ∈ above, Ordinary nonces name) :
    ∀ loc name, w'.node (loc ++ [name]) ≠ none → Ordinary nonces name := by
  intro loc name hsome
  obtain hsame | ⟨hnone, -, hbegins⟩ := hmade.kept (loc ++ [name])
  · exact hrun.names loc name (hsame ▸ hsome)
  · have hout : ¬ loc ++ [name] <+: root := by
      intro hin
      by_cases hself : loc ++ [name] = root
      · rw [hself, hroot] at hnone
        cases hnone
      · rw [hrun.closed.above (hroot ▸ Option.some_ne_none _) hin hself] at hnone
        cases hnone
    have hbelow := (List.prefix_or_prefix_of_prefix hbegins (List.prefix_append root above)).resolve_left hout
    obtain ⟨below, hbelow⟩ := hbelow
    rcases List.eq_nil_or_concat below with rfl | ⟨inner, last, rfl⟩
    · rw [List.append_nil] at hbelow
      exact absurd (hbelow ▸ List.prefix_rfl) hout
    · rw [List.concat_eq_append, ← List.append_assoc] at hbelow
      obtain ⟨rfl, hlast⟩ := List.append_inj' hbelow rfl
      obtain rfl := List.singleton_inj.mp hlast
      rw [List.append_assoc, List.prefix_append_right_inj] at hbegins
      exact habove last (hbegins.subset (List.mem_append_right _ List.mem_cons_self))

theorem tmp_free {k : Nat} {loc : Loc Char} {name : List Char} {t' : Nodes Char}
    (hnames : ∀ loc name, t' (loc ++ [name]) ≠ none → Ordinary nonces name) :
    t' (loc ++ [name ++ tmpSuffix (nonces k)]) = none := by
  by_contra hsome
  exact hnames loc _ hsome k (List.suffix_append _ _)

theorem stage_dir (k : Nat) (hclosed : Closed w.node) (hplain : Plain w.node)
    (hnames : ∀ loc name, w.node (loc ++ [name]) ≠ none → Ordinary nonces name) {folder : Loc Char}
    {front : List (Component Char)} (henter : enter w.node symlinkLimit cwd front = .ok (folder, left))
    (last name : List Char) {p : Route Char} (hp : p.dir = true) :
    ∃ e w', stage cwd ⟨front ++ [.normal last] ++ [.normal (name ++ tmpSuffix (nonces k))], false⟩ p bytes w =
      (.error e, w') ∧ w'.node = w.node := by
  by_cases hdir : w.node (folder ++ [last]) = some .dir
  · have hentered : enter w.node symlinkLimit cwd (front ++ [.normal last]) = .ok (folder ++ [last], left) :=
      @enter_names _ w.node cwd folder _ left front [last] hclosed henter hdir
    exact stage_fails hentered (tmp_free hnames) (Or.inl hp)
  · have hentered : ∃ e, enter w.node symlinkLimit cwd (front ++ [.normal last]) = .error e := by
      rw [enter_append, henter]
      change ∃ e, enter w.node left folder [.normal last] = .error e
      cases hnode : w.node (folder ++ [last]) with
      | none => exact ⟨.noent, enter_none hnode⟩
      | some node =>
        cases node with
        | dir => exact absurd hnode hdir
        | link link => exact absurd hnode (hplain _ link)
        | file bytes => exact ⟨.notdir, enter_file hnode⟩
    obtain ⟨e, hentered⟩ := hentered
    exact ⟨e, w, stage_nowhere hentered, rfl⟩

theorem above_concat {folder loc : Loc Char} {name : List Char} : Above loc (folder ++ [name]) ↔ loc <+: folder := by
  constructor
  · rintro ⟨hbegins, hne⟩
    exact (List.prefix_concat_iff.mp hbegins).resolve_left hne
  · intro hbegins
    refine ⟨hbegins.trans (List.prefix_append _ _), fun heq => ?_⟩
    have hlength := hbegins.length_le
    rw [heq, List.length_append, List.length_singleton] at hlength
    omega

theorem Run.written_above (hrun : Run t nonces done w) {loc outer : Loc Char}
    (hclear : ∀ outer, Above outer loc → fileAt t outer = none) (habove : Above outer loc)
    (hfile : fileAt w.node outer = some bytes) : ∃ l ∈ done.map Prod.fst, Above l loc := by
  rw [hrun.files] at hfile
  by_cases hdone : outer ∈ done.map Prod.fst
  · exact ⟨outer, hdone, habove⟩
  · rw [overwrite_other hdone, hclear outer habove] at hfile
    cases hfile

theorem Run.dir_below (hrun : Run t nonces done w) {loc : Loc Char} (hdir : t loc ≠ some .dir) :
    w.node loc = some .dir ↔ ∃ l ∈ done.map Prod.fst, Above loc l := by
  rw [hrun.dirs, or_iff_right hdir]
  simp only [List.mem_map, exists_exists_and_eq_and]

theorem Run.put {origin folder : Loc Char} {w'' : Lib.FileTree.World Char} (hrun : Run t nonces done w)
    (hmade : Made w w' origin folder) (hnames : ∀ loc name, w'.node (loc ++ [name]) ≠ none → Ordinary nonces name)
    (hfolder : w'.node folder = some .dir) (hplace : w'.node (folder ++ [last]) ≠ some .dir)
    (hlast : Ordinary nonces last)
    (hnode : w''.node = Function.update w'.node (folder ++ [last]) (some (.file bytes))) :
    Run t nonces (done ++ [(folder ++ [last], bytes)]) w'' := by
  refine ⟨hnode ▸ closed_put hmade.closed hfolder hplace, ?_, ?_, ?_, ?_⟩
  · intro loc link
    rw [hnode, Function.update_apply]
    split
    · exact nofun
    · exact hmade.plain hrun.plain loc link
  · intro loc name hsome
    by_cases heq : loc ++ [name] = folder ++ [last]
    · obtain ⟨-, hname⟩ := List.append_inj' heq rfl
      exact List.singleton_inj.mp hname ▸ hlast
    · rw [hnode, Function.update_of_ne heq] at hsome
      exact hnames loc name hsome
  · intro loc
    simp only [hnode, List.mem_append, List.mem_singleton, or_and_right, exists_or, exists_eq_left, above_concat]
    rw [← or_assoc, ← hrun.dirs]
    by_cases heq : loc = folder ++ [last]
    · subst heq
      rw [Function.update_self]
      refine iff_of_false nofun ?_
      rintro (hdir | hbegins)
      · exact hplace (hmade.grows.dir _ hdir)
      · have hlength := hbegins.length_le
        rw [List.length_append, List.length_singleton] at hlength
        omega
    · rw [Function.update_of_ne heq]
      constructor
      · intro hdir
        obtain hsame | ⟨-, -, hbegins⟩ := hmade.kept loc
        · exact Or.inl (hsame ▸ hdir)
        · exact Or.inr hbegins
      · rintro (hdir | hbegins)
        · exact hmade.grows.dir _ hdir
        · by_cases hself : loc = folder
          · rwa [hself]
          · exact hmade.closed.above (hfolder ▸ Option.some_ne_none _) hbegins hself
  · intro loc
    rw [hnode, fileAt_update, overwrite_concat]
    by_cases heq : loc = folder ++ [last]
    · rw [heq, Function.update_self, Function.update_self]
    · rw [Function.update_of_ne heq, Function.update_of_ne heq, hmade.fileAt_eq, hrun.files]

/-- What becomes of a text whose directories are made: it is written exactly if it clashes with none. -/
theorem Run.stage {origin : Loc Char} (hrun : Run t nonces done w)
    (hnames : ∀ name ∈ above ++ [last], Ordinary nonces name)
    (hmade : Made w w' origin (root ++ above)) (hroot : w.node root = some .dir)
    (henter : enter w'.node symlinkLimit cwd (base ++ above.map .normal) = .ok (root ++ above, left))
    (hfolder : w'.node (root ++ above) = some .dir) (hready : Ready t root base target (above ++ [last]))
    (k : Nat) (bytes : List UInt8) :
    (¬ Clashes (done.map Prod.fst) (readPath target).dir (root ++ (above ++ [last])) ∧
      ∃ w'', stage cwd (tmpPath target (nonces k)) (readPath target) bytes w' = (.ok (), w'') ∧
        Run t nonces (done ++ [(root ++ (above ++ [last]), bytes)]) w'') ∨
    Clashes (done.map Prod.fst) (readPath target).dir (root ++ (above ++ [last])) ∧
      ∃ e w'', stage cwd (tmpPath target (nonces k)) (readPath target) bytes w' = (.error e, w'') ∧
        w''.node = w'.node := by
  have hmadeNames := hrun.made_names hroot hmade fun name hname => hnames name (List.mem_append_left _ hname)
  have hparts : (readPath target).parts = base ++ above.map .normal ++ [.normal last] := by
    rw [hready.parts, List.map_append, List.map_singleton, List.append_assoc]
  have hnotDir := hready.notDir
  rw [← List.append_assoc] at hnotDir ⊢
  cases hdir : (readPath target).dir with
  | true =>
    obtain ⟨name, htmp⟩ := tmpPath_dir hready.slash hdir (nonces k)
    rw [htmp, hparts]
    exact Or.inr ⟨Or.inl rfl, stage_dir k hmade.closed (hmade.plain hrun.plain) hmadeNames henter last name hdir⟩
  | false =>
    have hpath : readPath target = ⟨base ++ above.map .normal ++ [.normal last], false⟩ := by
      rw [← hparts, ← hdir]
    rw [tmpPath_name hready.slash hpath, hpath]
    by_cases hplace : w'.node (root ++ above ++ [last]) = some .dir
    · refine Or.inr ⟨Or.inr ?_, stage_fails henter (tmp_free hmadeNames) (Or.inr ⟨last, rfl, hplace⟩)⟩
      rw [hmade.last_eq] at hplace
      obtain ⟨l, hl, habove⟩ := (hrun.dir_below hnotDir).mp hplace
      exact ⟨l, hl, Or.inr habove⟩
    · refine Or.inl ⟨?_, ?_⟩
      · rintro (hfalse | ⟨l, hl, habove | hbelow⟩)
        · cases hfalse
        · obtain ⟨text, htext⟩ := @overwrite_isSome (fileAt t) done l hl
          rw [← hrun.files, ← hmade.fileAt_eq, fileAt_eq] at htext
          rw [above_concat] at habove
          have hfile : w'.node l = some .dir := by
            by_cases hself : l = root ++ above
            · rwa [hself]
            · exact hmade.closed.above (hfolder ▸ Option.some_ne_none _) habove hself
          rw [hfile] at htext
          cases htext
        · rw [hmade.last_eq] at hplace
          exact hplace ((hrun.dir_below hnotDir).mpr ⟨l, hl, hbelow⟩)
      · obtain ⟨w'', hstage, hnode⟩ := @stage_succeeds _ _ w' _ cwd left _ (last ++ tmpSuffix (nonces k)) bytes last
          henter (tmp_free hmadeNames) (name_ne_suffix last (nonces k)) hplace
        exact ⟨w'', hstage, hrun.put hmade hmadeNames hfolder hplace (hnames last (List.mem_append_right _
          (List.mem_singleton_self last))) hnode⟩

theorem Run.step (hrun : Run t nonces done w) (hplain : Plain t) (hcwd : t cwd = some .dir)
    (henter : enter t symlinkLimit cwd base = .ok (root, left)) (hready : Ready t root base target ns)
    (hnames : ∀ name ∈ ns, Ordinary nonces name) (k : Nat) (bytes : List UInt8) :
    (¬ Clashes (done.map Prod.fst) (readPath target).dir (root ++ ns) ∧
      ∃ w', writeViaRename cwd target (nonces k) bytes w = (.ok (), w') ∧
        Run t nonces (done ++ [(root ++ ns, bytes)]) w') ∨
    Clashes (done.map Prod.fst) (readPath target).dir (root ++ ns) ∧
      ∃ e w', writeViaRename cwd target (nonces k) bytes w = (.error e, w') ∧
        ∀ loc, fileAt w'.node loc = fileAt w.node loc := by
  rcases List.eq_nil_or_concat ns with rfl | ⟨above, last, rfl⟩
  · exact absurd rfl hready.ne_nil
  · rw [List.concat_eq_append] at hready hnames ⊢
    have hgrows := hrun.grows hplain
    have hentered := enter_grows hgrows henter
    have hroot : w.node root = some .dir :=
      (walk_ends hrun.closed (hgrows.dir _ hcwd) (walk_of_enter hentered)).2.1 rfl
    have hparent : (readPath target).parent.parts = base ++ above.map .normal := by
      rw [Route.parent, hready.parts, List.map_append, List.map_singleton, ← List.append_assoc]
      exact List.dropLast_concat
    rw [writeViaRename, hparent]
    obtain ⟨inner, name, rest, text, rfl, hfile, e, hmake⟩ | ⟨w', origin, hmake, hmade, hnext⟩ :=
      createDirAll_above hrun.closed hrun.plain (hgrows.dir _ hcwd) hentered hroot above
    · rw [hmake]
      have habove : Above (root ++ inner ++ [name]) (root ++ (inner ++ name :: rest ++ [last])) := by
        rw [← List.append_assoc root, above_concat]
        exact ⟨rest, by simp⟩
      obtain ⟨l, hl, hclash⟩ := hrun.written_above hready.clear habove (fileAt_eq.mpr hfile)
      exact Or.inr ⟨Or.inr ⟨l, hl, Or.inl hclash⟩, e, w, rfl, fun _ => rfl⟩
    · rw [hmake]
      have hfolder := (walk_ends hmade.closed (hmade.grows.dir _ (hgrows.dir _ hcwd)) (walk_of_enter hnext)).2.1 rfl
      obtain hwritten | ⟨hclash, e, w'', hstage, hnode⟩ :=
        hrun.stage hnames hmade hroot hnext hfolder hready k bytes
      · exact Or.inl hwritten
      · exact Or.inr ⟨hclash, e, w'', hstage, fun loc => by rw [fileAt, hnode, ← fileAt, hmade.fileAt_eq]⟩

end Steps

end Cosmon.Harness.EditFile
