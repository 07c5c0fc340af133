import Cosmon.Lib.FileTree

namespace Cosmon.Lib.FileTree

open Cosmon.Lib.UnixPath

section Calls

variable {α : Type} [DecidableEq α]

def symlinkLimit : Nat := 40

/-- Where a path leads that is read in the directory `cwd`. -/
def lookup (t : Nodes α) (cwd : Loc α) (keep : Bool) (p : Route α) : Except Errno (Found α) :=
  if p.parts = [] then .error .noent
  else (walk t keep symlinkLimit cwd p.parts p.dir).map Prod.fst

def lstat (t : Nodes α) (cwd : Loc α) (p : Route α) : Except Errno (Node α) :=
  match lookup t cwd true p with
  | .ok (.there loc) => (t loc).elim (.error .noent) .ok
  | .ok (.vacant _) => .error .noent
  | .error e => .error e

def realpath (t : Nodes α) (cwd : Loc α) (p : Route α) : Except Errno (Loc α) :=
  match lookup t cwd false p with
  | .ok (.there loc) => .ok loc
  | .ok (.vacant _) => .error .noent
  | .error e => .error e

def isDir (t : Nodes α) (cwd : Loc α) (p : Route α) : Bool :=
  match realpath t cwd p with
  | .ok loc => t loc = some .dir
  | .error _ => false

def readFile (t : Nodes α) (cwd : Loc α) (p : Route α) : Except Errno (List UInt8) :=
  match realpath t cwd p with
  | .ok loc =>
    match t loc with
    | some (.file bytes) => .ok bytes
    | _ => .error .isdir
  | .error e => .error e

structure World (α : Type) where
  node : Nodes α
  touched : List (Loc α)

def World.put (w : World α) (loc : Loc α) (node : Option (Node α)) : World α :=
  ⟨Function.update w.node loc node, w.touched ++ [loc]⟩

def mkdir (cwd : Loc α) (p : Route α) (w : World α) : Except Errno Unit × World α :=
  match lookup w.node cwd true p with
  | .ok (.there _) => (.error .exist, w)
  | .ok (.vacant loc) => (.ok (), w.put loc (some .dir))
  | .error e => (.error e, w)

/-- A directory is made, with the directories above it; the path is given from its last part on. -/
def createDirAll (cwd : Loc α) : List (Component α) → World α → Except Errno Unit × World α
  | [], w => (.ok (), w)
  | part :: front, w =>
    match mkdir cwd ⟨(part :: front).reverse, false⟩ w with
    | (.ok (), w') => (.ok (), w')
    | (.error .noent, _) =>
      match createDirAll cwd front w with
      | (.ok (), w') =>
        match mkdir cwd ⟨(part :: front).reverse, false⟩ w' with
        | (.ok (), w'') => (.ok (), w'')
        | (.error e, _) => (if isDir w'.node cwd ⟨(part :: front).reverse, false⟩ then .ok () else .error e, w')
      | (.error e, w') => (.error e, w')
    | (.error e, _) => (if isDir w.node cwd ⟨(part :: front).reverse, false⟩ then .ok () else .error e, w)

/-- Where a file is created, or emptied, when a path is opened to be written. -/
def landing (t : Nodes α) (cwd : Loc α) (p : Route α) : Except Errno (Loc α) :=
  match lookup t cwd false p with
  | .ok (.there loc) => if t loc = some .dir then .error .isdir else .ok loc
  | .ok (.vacant loc) => .ok loc
  | .error e => .error e

def writeFile (cwd : Loc α) (p : Route α) (bytes : List UInt8) (w : World α) : Except Errno Unit × World α :=
  match landing w.node cwd p with
  | .ok loc => (.ok (), w.put loc (some (.file bytes)))
  | .error e => (.error e, w)

def entry (t : Nodes α) (cwd : Loc α) (p : Route α) : Except Errno (Loc α) :=
  match lookup t cwd true p with
  | .ok (.there loc) => if t loc = some .dir then .error .isdir else .ok loc
  | .ok (.vacant _) => .error .noent
  | .error e => .error e

def slot (t : Nodes α) (cwd : Loc α) (p : Route α) : Except Errno (Loc α) :=
  if p.dir then .error .notdir
  else match lookup t cwd true p with
    | .ok (.there loc) => if t loc = some .dir then .error .isdir else .ok loc
    | .ok (.vacant loc) => .ok loc
    | .error e => .error e

/-- An entry that is no directory takes another name, in the place of what stands there. -/
def rename (cwd : Loc α) (source target : Route α) (w : World α) : Except Errno Unit × World α :=
  match entry w.node cwd source, slot w.node cwd target with
  | .ok loc, .ok loc' =>
    (.ok (), if loc = loc' then w else (w.put loc none).put loc' (w.node loc))
  | .error e, _ => (.error e, w)
  | _, .error e => (.error e, w)

def removeFile (cwd : Loc α) (p : Route α) (w : World α) : Except Errno Unit × World α :=
  match entry w.node cwd p with
  | .ok loc => (.ok (), w.put loc none)
  | .error e => (.error e, w)

/-- A file is written under a temporary path and takes its own one; the temporary one is taken away
where either fails. -/
def stage (cwd : Loc α) (tmp p : Route α) (bytes : List UInt8) (w : World α) : Except Errno Unit × World α :=
  match writeFile cwd tmp bytes w with
  | (.error e, w') => (.error e, (removeFile cwd tmp w').2)
  | (.ok (), w') =>
    match rename cwd tmp p w' with
    | (.ok (), w'') => (.ok (), w'')
    | (.error e, w'') => (.error e, (removeFile cwd tmp w'').2)

end Calls

section Worlds

variable {α : Type} {t : Nodes α} {cwd loc : Loc α} {keep : Bool} {p : Route α} {found : Found α}

theorem lookup_eq (h : p.parts ≠ []) :
    lookup t cwd keep p = (walk t keep symlinkLimit cwd p.parts p.dir).map Prod.fst := if_neg h

theorem lookup_walk (h : lookup t cwd keep p = .ok found) :
    p.parts ≠ [] ∧ ∃ left, walk t keep symlinkLimit cwd p.parts p.dir = .ok (found, left) := by
  unfold lookup at h
  split at h
  · cases h
  · rename_i hne
    refine ⟨hne, ?_⟩
    cases hwalk : walk t keep symlinkLimit cwd p.parts p.dir with
    | error e =>
      rw [hwalk] at h
      cases h
    | ok entered =>
      rw [hwalk] at h
      obtain rfl := Except.ok.inj h
      exact ⟨entered.2, rfl⟩

theorem lookup_of_walk {left : Nat} (hne : p.parts ≠ [])
    (h : walk t keep symlinkLimit cwd p.parts p.dir = .ok (found, left)) : lookup t cwd keep p = .ok found := by
  rw [lookup_eq hne, h]
  rfl

theorem lookup_ends (hclosed : Closed t) (hcwd : t cwd = some .dir) (h : lookup t cwd keep p = .ok found) :
    Ends t keep p.dir found := by
  obtain ⟨-, left, hwalk⟩ := lookup_walk h
  exact walk_ends hclosed hcwd hwalk

theorem lstat_noent (hclosed : Closed t) (hcwd : t cwd = some .dir) (h : lstat t cwd p = .error .noent) :
    (∃ loc, lookup t cwd true p = .ok (.vacant loc)) ∨ lookup t cwd true p = .error .noent := by
  unfold lstat at h
  cases hlookup : lookup t cwd true p with
  | error e =>
    rw [hlookup] at h
    exact Or.inr (congrArg _ (Except.error.inj h))
  | ok found =>
    cases found with
    | vacant loc => exact Or.inl ⟨loc, rfl⟩
    | there loc =>
      obtain ⟨node, hnode⟩ := Option.ne_none_iff_exists'.mp (lookup_ends hclosed hcwd hlookup).1
      rw [hlookup] at h
      dsimp only at h
      rw [hnode] at h
      cases h

theorem realpath_ok : realpath t cwd p = .ok loc ↔ lookup t cwd false p = .ok (.there loc) := by
  unfold realpath
  cases lookup t cwd false p with
  | error e => simp
  | ok found => cases found <;> simp

theorem lookup_concat {parts : List (Component α)} {part : Component α} {dir : Bool} :
    lookup t cwd keep ⟨parts ++ [part], dir⟩ = (enter t symlinkLimit cwd parts).bind fun entered =>
      (walk t keep entered.2 entered.1 [part] dir).map Prod.fst := by
  rw [lookup_eq (by simp), walk_append (List.cons_ne_nil _ _)]
  cases enter t symlinkLimit cwd parts <;> rfl

theorem lstat_before [DecidableEq α] (hclosed : Closed t) (hcwd : t cwd = some .dir) {parts more : List (Component α)}
    {dir dir' : Bool} (hne : parts ≠ []) (h : realpath t cwd ⟨parts ++ more, dir⟩ = .ok loc) :
    lstat t cwd ⟨parts, dir'⟩ ≠ .error .noent := by
  have hthere : ∃ dir place left, walk t false symlinkLimit cwd parts dir = .ok (.there place, left) := by
    obtain ⟨-, left, hwalk⟩ := lookup_walk (realpath_ok.mp h)
    by_cases hmore : more = []
    · rw [hmore, List.append_nil] at hwalk
      exact ⟨dir, loc, left, hwalk⟩
    · rw [walk_append hmore] at hwalk
      cases henter : enter t symlinkLimit cwd parts with
      | error e =>
        rw [henter] at hwalk
        cases hwalk
      | ok entered => exact ⟨true, entered.1, entered.2, walk_of_enter henter⟩
  obtain ⟨dir, place, left, hwalk⟩ := hthere
  intro hnoent
  have hfound : ∀ found, lookup t cwd true ⟨parts, dir'⟩ = found →
      found ≠ .error .noent ∧ ∀ loc, found ≠ .ok (.vacant loc) := by
    rintro found rfl
    rw [lookup_eq hne]
    cases dir' with
    | false =>
      obtain ⟨loc', left', hkept⟩ := walk_of_there hclosed hcwd hwalk true false nofun
      rw [hkept]
      exact ⟨nofun, nofun⟩
    | true =>
      rw [walk_into]
      rw [walk_into_there hclosed hcwd hwalk]
      split
      · exact ⟨nofun, nofun⟩
      · exact ⟨nofun, nofun⟩
  obtain ⟨loc, hvacant⟩ | herror := lstat_noent hclosed hcwd hnoent
  · exact (hfound _ rfl).2 loc hvacant
  · exact (hfound _ rfl).1 herror

section Put

variable [DecidableEq α] {w : World α} {folder : Loc α} {name : List α} {node : Option (Node α)}

@[simp] theorem World.put_touched : (w.put loc node).touched = w.touched ++ [loc] := rfl

@[simp] theorem World.put_self : (w.put loc node).node loc = node := Function.update_self _ _ _

theorem World.put_of_ne {other : Loc α} (h : other ≠ loc) : (w.put loc node).node other = w.node other :=
  Function.update_of_ne h _ _

theorem closed_put (hclosed : Closed w.node) (hfolder : w.node folder = some .dir)
    (hplace : w.node (folder ++ [name]) ≠ some .dir) : Closed (w.put (folder ++ [name]) node).node := by
  refine ⟨?_, fun outer last hne => ?_⟩
  · rw [World.put_of_ne (by simp)]
    exact hclosed.root
  · by_cases hlast : outer ++ [last] = folder ++ [name]
    · obtain ⟨rfl, -⟩ := List.append_inj' hlast rfl
      rwa [World.put_of_ne (by simp)]
    · rw [World.put_of_ne hlast] at hne
      have hdir := hclosed.parent outer last hne
      rwa [World.put_of_ne]
      rintro rfl
      exact hplace hdir

theorem grows_put (hdir : w.node loc ≠ some .dir) (hlink : ∀ target, w.node loc ≠ some (.link target)) :
    Grows w.node (w.put loc node).node := by
  refine ⟨fun other h => ?_, fun other target h => ?_⟩
  · rwa [World.put_of_ne]
    rintro rfl
    exact hdir h
  · rwa [World.put_of_ne]
    rintro rfl
    exact hlink target h

end Put

section Names

variable {front : List (Component α)} {folder : Loc α} {name : List α} {left : Nat}

theorem lookup_name (h : enter t symlinkLimit cwd front = .ok (folder, left))
    (hkeep : keep = true ∨ ∀ target, t (folder ++ [name]) ≠ some (.link target)) :
    lookup t cwd keep ⟨front ++ [.normal name], false⟩ =
      .ok (if (t (folder ++ [name])).isSome then .there (folder ++ [name]) else .vacant (folder ++ [name])) := by
  rw [lookup_concat, h]
  change (walk t keep left folder [.normal name] false).map Prod.fst = _
  cases hnode : t (folder ++ [name]) with
  | none =>
    rw [walk_none hnode]
    rfl
  | some node =>
    cases node with
    | file bytes =>
      rw [walk_file hnode]
      rfl
    | dir =>
      rw [walk_dir hnode, walk_nil]
      rfl
    | link target =>
      obtain rfl : keep = true := hkeep.resolve_right fun hno => hno target hnode
      rw [walk_link hnode]
      rfl

variable [DecidableEq α]

theorem entry_name (h : enter t symlinkLimit cwd front = .ok (folder, left)) (hsome : t (folder ++ [name]) ≠ none)
    (hdir : t (folder ++ [name]) ≠ some .dir) :
    entry t cwd ⟨front ++ [.normal name], false⟩ = .ok (folder ++ [name]) := by
  rw [entry, lookup_name h (Or.inl rfl), if_pos (Option.ne_none_iff_isSome.mp hsome)]
  exact if_neg hdir

theorem slot_ok (h : enter t symlinkLimit cwd front = .ok (folder, left)) (hdir : t (folder ++ [name]) ≠ some .dir) :
    slot t cwd ⟨front ++ [.normal name], false⟩ = .ok (folder ++ [name]) := by
  rw [slot, if_neg (by simp), lookup_name h (Or.inl rfl)]
  by_cases hsome : (t (folder ++ [name])).isSome
  · rw [if_pos hsome]
    exact if_neg hdir
  · rw [if_neg hsome]

theorem slot_dir (h : enter t symlinkLimit cwd front = .ok (folder, left)) (hdir : t (folder ++ [name]) = some .dir) :
    slot t cwd ⟨front ++ [.normal name], false⟩ = .error .isdir := by
  rw [slot, if_neg (by simp), lookup_name h (Or.inl rfl), hdir]
  exact if_pos hdir

theorem landing_name (h : enter t symlinkLimit cwd front = .ok (folder, left))
    (hdir : t (folder ++ [name]) ≠ some .dir) (hlink : ∀ target, t (folder ++ [name]) ≠ some (.link target)) :
    landing t cwd ⟨front ++ [.normal name], false⟩ = .ok (folder ++ [name]) := by
  rw [landing, lookup_name h (Or.inr hlink)]
  by_cases hsome : (t (folder ++ [name])).isSome
  · rw [if_pos hsome]
    exact if_neg hdir
  · rw [if_neg hsome]

end Names

section Making

variable [DecidableEq α] {w : World α} {front : List (Component α)} {folder : Loc α} {name : List α} {left : Nat}

theorem createDirAll_concat (front : List (Component α)) (part : Component α) (w : World α) :
    createDirAll cwd (front ++ [part]).reverse w =
      match mkdir cwd ⟨front ++ [part], false⟩ w with
      | (.ok (), w') => (.ok (), w')
      | (.error .noent, _) =>
        match createDirAll cwd front.reverse w with
        | (.ok (), w') =>
          match mkdir cwd ⟨front ++ [part], false⟩ w' with
          | (.ok (), w'') => (.ok (), w'')
          | (.error e, _) => (if isDir w'.node cwd ⟨front ++ [part], false⟩ then .ok () else .error e, w')
        | (.error e, w') => (.error e, w')
      | (.error e, _) => (if isDir w.node cwd ⟨front ++ [part], false⟩ then .ok () else .error e, w) := by
  rw [List.reverse_append, List.reverse_singleton, List.singleton_append, createDirAll, List.reverse_cons,
    List.reverse_reverse]

theorem createDirAll_entered (hclosed : Closed w.node) (hcwd : w.node cwd = some .dir)
    {parts : List (Component α)} (h : enter w.node symlinkLimit cwd parts = .ok (folder, left)) :
    createDirAll cwd parts.reverse w = (.ok (), w) := by
  rcases List.eq_nil_or_concat parts with rfl | ⟨front, part, rfl⟩
  · rfl
  · rw [List.concat_eq_append] at h ⊢
    have hne : front ++ [part] ≠ [] := by simp
    obtain ⟨loc, left', hthere⟩ := walk_of_there hclosed hcwd (walk_of_enter h) true false nofun
    obtain ⟨loc', left'', hfollow⟩ := walk_of_there hclosed hcwd (walk_of_enter h) false false nofun
    have hdir : isDir w.node cwd ⟨front ++ [part], false⟩ = true := by
      have hnode := enter_of_there hclosed hcwd hfollow
      rw [h] at hnode
      rw [isDir, realpath_ok.mpr (lookup_of_walk hne hfollow)]
      by_cases hloc : w.node loc' = some .dir
      · exact decide_eq_true hloc
      · rw [if_neg hloc] at hnode
        cases hnode
    rw [createDirAll_concat, mkdir, lookup_of_walk hne hthere]
    exact congrArg (fun r => (r, w)) (if_pos hdir)

/-- Directories were made below `folder`, on the way to `top`. -/
structure Made (w w' : World α) (folder top : Loc α) : Prop where
  closed : Closed w'.node
  kept : ∀ loc, w'.node loc = w.node loc ∨ w.node loc = none ∧ w'.node loc = some .dir ∧ loc <+: top
  touched : ∃ more, w'.touched = w.touched ++ more ∧ ∀ loc ∈ more, ∃ name below, loc = folder ++ name :: below

omit [DecidableEq α] in
theorem Made.refl (hclosed : Closed w.node) (folder top : Loc α) : Made w w folder top :=
  ⟨hclosed, fun _ => Or.inl rfl, [], (List.append_nil _).symm, fun _ hloc => absurd hloc List.not_mem_nil⟩

omit [DecidableEq α] in
theorem Made.grows {w' : World α} {top : Loc α} (h : Made w w' folder top) : Grows w.node w'.node := by
  refine ⟨fun loc hdir => ?_, fun loc target hlink => ?_⟩
  · obtain heq | ⟨hnone, -⟩ := h.kept loc
    · rwa [heq]
    · rw [hnone] at hdir
      cases hdir
  · obtain heq | ⟨hnone, -⟩ := h.kept loc
    · rwa [heq]
    · rw [hnone] at hlink
      cases hlink

theorem Made.put {w' : World α} {below : Loc α} (h : Made w w' folder (folder ++ below))
    (hdir : w'.node (folder ++ below) = some .dir) (hfree : w'.node (folder ++ below ++ [name]) = none) :
    Made w (w'.put (folder ++ below ++ [name]) (some .dir)) folder (folder ++ (below ++ [name])) := by
  refine ⟨closed_put h.closed hdir (by rw [hfree]; simp), fun loc => ?_, ?_⟩
  · by_cases heq : loc = folder ++ below ++ [name]
    · subst heq
      refine Or.inr ⟨?_, World.put_self, by rw [List.append_assoc]⟩
      obtain hsame | ⟨hnone, -⟩ := h.kept (folder ++ below ++ [name])
      · rw [← hsame, hfree]
      · exact hnone
    · rw [World.put_of_ne heq]
      refine (h.kept loc).imp_right fun hnew => ⟨hnew.1, hnew.2.1, hnew.2.2.trans ?_⟩
      rw [← List.append_assoc]
      exact List.prefix_append _ _
  · obtain ⟨more, hmore, hbelow⟩ := h.touched
    refine ⟨more ++ [folder ++ below ++ [name]], ?_, fun loc hloc => ?_⟩
    · rw [World.put_touched, hmore, List.append_assoc]
    · rw [List.mem_append, List.mem_singleton] at hloc
      obtain hloc | rfl := hloc
      · exact hbelow loc hloc
      · cases below with
        | nil => exact ⟨name, [], by simp⟩
        | cons first rest => exact ⟨first, rest ++ [name], by simp⟩

omit [DecidableEq α] in
theorem enter_free {parts : List (Component α)} (h : enter t symlinkLimit cwd front = .ok (folder, left))
    (hfree : t (folder ++ [name]) = none) :
    enter t symlinkLimit cwd (front ++ .normal name :: parts) = .error .noent := by
  rw [enter_append, h]
  exact enter_none hfree

theorem createDirAll_names (hclosed : Closed w.node) (hcwd : w.node cwd = some .dir)
    (henter : enter w.node symlinkLimit cwd front = .ok (folder, left)) (names : List (List α)) (last : List α)
    (hfree : ∀ first rest, names ++ [last] = first :: rest → w.node (folder ++ [first]) = none) :
    ∃ w', createDirAll cwd (front ++ names.map Component.normal).reverse w = (.ok (), w') ∧
      Made w w' folder (folder ++ names) ∧
      enter w'.node symlinkLimit cwd (front ++ names.map Component.normal) = .ok (folder ++ names, left) ∧
      w'.node (folder ++ names ++ [last]) = none ∧
      (names = [] ∧ w' = w ∨ ∀ other, w'.node (folder ++ names ++ [other]) = none) := by
  induction names using List.reverseRecOn generalizing last with
  | nil =>
    rw [List.map_nil, List.append_nil, List.append_nil]
    exact ⟨w, createDirAll_entered hclosed hcwd henter, Made.refl hclosed folder folder, henter, hfree last [] rfl,
      Or.inl ⟨rfl, rfl⟩⟩
  | append_singleton names next ih =>
    obtain ⟨w', hmade, hmore, hnext, hvacant, hcase⟩ := ih next (fun first rest heq =>
      hfree first (rest ++ [last]) (by rw [heq, List.cons_append]))
    have hdir : w'.node (folder ++ names) = some .dir :=
      (walk_ends hmore.closed (hmore.grows.dir _ hcwd) (walk_of_enter hnext)).2.1 rfl
    have hparts : front ++ (names ++ [next]).map Component.normal = front ++ names.map .normal ++ [.normal next] := by
      rw [List.map_append, List.map_singleton, List.append_assoc]
    have hmkdir : mkdir cwd ⟨front ++ names.map .normal ++ [.normal next], false⟩ w' =
        (.ok (), w'.put (folder ++ names ++ [next]) (some .dir)) := by
      rw [mkdir, lookup_name hnext (Or.inl rfl), hvacant]
      rfl
    have hput := hmore.put hdir hvacant
    have hbelow : ∀ other, (w'.put (folder ++ names ++ [next]) (some .dir)).node
        (folder ++ (names ++ [next]) ++ [other]) = none := by
      intro other
      rw [← List.append_assoc folder, World.put_of_ne (by simp)]
      by_contra hsome
      have hnext := hmore.closed.parent _ _ hsome
      rw [hvacant] at hnext
      cases hnext
    refine ⟨w'.put (folder ++ names ++ [next]) (some .dir), ?_, hput, ?_, hbelow last, Or.inr hbelow⟩
    · rw [hparts, createDirAll_concat]
      cases names with
      | nil =>
        obtain ⟨-, rfl⟩ | hall := hcase
        · rw [hmkdir]
        · have hsame : w' = w := by
            have hself := createDirAll_entered hclosed hcwd henter
            rw [List.map_nil, List.append_nil, hself] at hmade
            exact (congrArg Prod.snd hmade).symm
          rw [← hsame, hmkdir]
      | cons first rest =>
        have hnoent : mkdir cwd ⟨front ++ (first :: rest).map .normal ++ [.normal next], false⟩ w =
            (.error .noent, w) := by
          rw [mkdir, lookup_concat, List.map_cons, enter_free henter (hfree first (rest ++ [next] ++ [last]) rfl)]
          rfl
        rw [hnoent]
        dsimp only
        rw [hmade]
        dsimp only
        rw [hmkdir]
    · rw [hparts, enter_append, enter_grows (grows_put (by rw [hvacant]; simp) (by rw [hvacant]; simp)) hnext]
      change enter _ left (folder ++ names) [.normal next] = _
      rw [enter_dir World.put_self, enter_nil, List.append_assoc]

end Making

section Staging

variable [DecidableEq α] {w : World α} {front : List (Component α)} {folder : Loc α} {name : List α} {left : Nat}
  {bytes : List UInt8}

theorem stage_unwritten {tmp : Route α} {e : Errno} (h : landing w.node cwd tmp = .error e) :
    stage cwd tmp p bytes w = (.error e, (removeFile cwd tmp w).2) := by
  rw [stage, writeFile, h]

theorem stage_written {tmp : Route α} (h : landing w.node cwd tmp = .ok loc) :
    stage cwd tmp p bytes w = match rename cwd tmp p (w.put loc (some (.file bytes))) with
      | (.ok (), w') => (.ok (), w')
      | (.error e, w') => (.error e, (removeFile cwd tmp w').2) := by
  rw [stage, writeFile, h]

theorem stage_moved {tmp : Route α} (hland : landing w.node cwd tmp = .ok loc) {source : Loc α}
    (hentry : entry (w.put loc (some (.file bytes))).node cwd tmp = .ok source) :
    stage cwd tmp p bytes w = match slot (w.put loc (some (.file bytes))).node cwd p with
      | .ok target => (.ok (), if source = target then w.put loc (some (.file bytes))
          else ((w.put loc (some (.file bytes))).put source none).put target
            ((w.put loc (some (.file bytes))).node source))
      | .error e => (.error e, (w.put loc (some (.file bytes))).put source none) := by
  rw [stage_written hland, rename, hentry]
  cases slot (w.put loc (some (.file bytes))).node cwd p with
  | ok target => rfl
  | error e =>
    dsimp only
    rw [removeFile, hentry]

omit [DecidableEq α] in
theorem lookup_nowhere {part : Component α} {dir : Bool} {e : Errno}
    (h : enter t symlinkLimit cwd front = .error e) : lookup t cwd keep ⟨front ++ [part], dir⟩ = .error e := by
  rw [lookup_concat, h]
  rfl

theorem stage_nowhere {part : Component α} {dir : Bool} {e : Errno}
    (h : enter w.node symlinkLimit cwd front = .error e) :
    stage cwd ⟨front ++ [part], dir⟩ p bytes w = (.error e, w) := by
  have hland : landing w.node cwd ⟨front ++ [part], dir⟩ = .error e := by
    rw [landing, lookup_nowhere h]
  rw [stage_unwritten hland, removeFile, entry, lookup_nowhere h]

end Staging

end Worlds

end Cosmon.Lib.FileTree
