import Cosmon.Lib.FileCalls

namespace Cosmon.Lib.FileTree

open Cosmon.Lib.UnixPath

variable {α : Type}

def Plain (t : Nodes α) : Prop := ∀ loc target, t loc ≠ some (.link target)

def fileAt (t : Nodes α) (loc : Loc α) : Option (List UInt8) :=
  match t loc with
  | some (.file bytes) => some bytes
  | _ => none

theorem fileAt_eq {t : Nodes α} {loc : Loc α} {bytes : List UInt8} :
    fileAt t loc = some bytes ↔ t loc = some (.file bytes) := by
  unfold fileAt
  split
  · rename_i other h
    rw [h]
    simp
  · rename_i h
    exact iff_of_false nofun fun heq => h bytes heq

section Descent

variable {t : Nodes α} {here folder cwd : Loc α} {links left : Nat} {front : List (Component α)} {ns : List (List α)}

theorem enter_names (hclosed : Closed t) (henter : enter t links here front = .ok (folder, left))
    (hdir : t (folder ++ ns) = some .dir) :
    enter t links here (front ++ ns.map Component.normal) = .ok (folder ++ ns, left) := by
  induction ns using List.reverseRecOn with
  | nil =>
    rw [List.map_nil, List.append_nil, List.append_nil]
    exact henter
  | append_singleton ns last ih =>
    rw [← List.append_assoc] at hdir
    have hfolder := hclosed.parent _ _ (hdir ▸ Option.some_ne_none _)
    rw [List.map_append, List.map_singleton, ← List.append_assoc, enter_append, ih hfolder]
    change enter t left (folder ++ ns) [.normal last] = _
    rw [enter_dir hdir, enter_nil, List.append_assoc]

theorem descend (hfolder : t folder = some .dir) (ns : List (List α)) : t (folder ++ ns) = some .dir ∨
    ∃ inner name rest, ns = inner ++ name :: rest ∧ t (folder ++ inner) = some .dir ∧
      t (folder ++ inner ++ [name]) ≠ some .dir := by
  induction ns using List.reverseRecOn with
  | nil => exact Or.inl (by rwa [List.append_nil])
  | append_singleton ns last ih =>
    obtain hdir | ⟨inner, name, rest, rfl, hinner, hname⟩ := ih
    · by_cases hlast : t (folder ++ ns ++ [last]) = some .dir
      · exact Or.inl (by rwa [← List.append_assoc])
      · exact Or.inr ⟨ns, last, [], rfl, hdir, hlast⟩
    · exact Or.inr ⟨inner, name, rest ++ [last], by simp, hinner, hname⟩

theorem lookup_stop {keep dir : Bool} {inner rest : List (List α)} {name : List α} (hclosed : Closed t)
    (henter : enter t symlinkLimit cwd front = .ok (folder, left)) (hinner : t (folder ++ inner) = some .dir)
    (hname : t (folder ++ inner ++ [name]) ≠ some .dir) (hplain : Plain t) :
    lookup t cwd keep ⟨front ++ (inner ++ name :: rest).map .normal, dir⟩ =
      if rest = [] ∧ dir = false then
        .ok (if (t (folder ++ inner ++ [name])).isSome then .there (folder ++ inner ++ [name])
          else .vacant (folder ++ inner ++ [name]))
      else .error (if (t (folder ++ inner ++ [name])).isSome then .notdir else .noent) := by
  have hentered := enter_names hclosed henter hinner
  have hsplit : front ++ (inner ++ name :: rest).map Component.normal =
      front ++ inner.map .normal ++ .normal name :: rest.map .normal := by
    rw [List.map_append, List.map_cons, List.append_assoc]
  rw [hsplit, lookup_eq (by simp), walk_append (List.cons_ne_nil _ _), hentered]
  change (walk t keep left (folder ++ inner) (.normal name :: rest.map .normal) dir).map Prod.fst = _
  cases hnode : t (folder ++ inner ++ [name]) with
  | none =>
    rw [walk_none hnode]
    simp only [List.map_eq_nil_iff]
    split <;> rfl
  | some node =>
    cases node with
    | dir => exact absurd hnode hname
    | link target => exact absurd hnode (hplain _ target)
    | file bytes =>
      rw [walk_file hnode]
      simp only [List.map_eq_nil_iff]
      split <;> rfl

end Descent

section Making

variable [DecidableEq α] {w : World α} {folder cwd : Loc α} {left : Nat} {front : List (Component α)}

theorem createDirAll_blocked {inner rest : List (List α)} {name : List α} {bytes : List UInt8}
    (hclosed : Closed w.node) (hplain : Plain w.node)
    (henter : enter w.node symlinkLimit cwd front = .ok (folder, left))
    (hinner : w.node (folder ++ inner) = some .dir) (hfile : w.node (folder ++ inner ++ [name]) = some (.file bytes)) :
    ∃ e, createDirAll cwd (front ++ (inner ++ name :: rest).map Component.normal).reverse w = (.error e, w) := by
  have hlookup (keep : Bool) := @lookup_stop _ w.node folder cwd left front keep false inner rest name hclosed henter
    hinner (by rw [hfile]; simp) hplain
  rw [hfile] at hlookup
  have hdir : isDir w.node cwd ⟨front ++ (inner ++ name :: rest).map .normal, false⟩ = false := by
    rw [isDir, realpath, hlookup]
    by_cases hrest : rest = []
    · rw [if_pos ⟨hrest, rfl⟩]
      exact decide_eq_false (hfile ▸ by rintro ⟨⟩)
    · rw [if_neg fun h => hrest h.1]
  have hmkdir : ∃ e, mkdir cwd ⟨front ++ (inner ++ name :: rest).map .normal, false⟩ w = (.error e, w) ∧
      e ≠ .noent := by
    rw [mkdir, hlookup]
    by_cases hrest : rest = []
    · rw [if_pos ⟨hrest, rfl⟩]
      exact ⟨.exist, rfl, by decide⟩
    · rw [if_neg fun h => hrest h.1]
      exact ⟨.notdir, rfl, by decide⟩
  obtain ⟨e, hmkdir, hne⟩ := hmkdir
  generalize hparts : front ++ (inner ++ name :: rest).map Component.normal = parts at hdir hmkdir ⊢
  rcases List.eq_nil_or_concat parts with rfl | ⟨before, part, rfl⟩
  · simp at hparts
  · rw [List.concat_eq_append] at hdir hmkdir ⊢
    refine ⟨e, ?_⟩
    rw [createDirAll_concat, hmkdir, hdir]
    cases e with
    | noent => exact absurd rfl hne
    | _ => rfl

theorem createDirAll_above (hclosed : Closed w.node) (hplain : Plain w.node) (hcwd : w.node cwd = some .dir)
    (henter : enter w.node symlinkLimit cwd front = .ok (folder, left)) (hfolder : w.node folder = some .dir)
    (above : List (List α)) :
    (∃ inner name rest bytes, above = inner ++ name :: rest ∧
      w.node (folder ++ inner ++ [name]) = some (.file bytes) ∧
      ∃ e, createDirAll cwd (front ++ above.map Component.normal).reverse w = (.error e, w)) ∨
    ∃ w' origin, createDirAll cwd (front ++ above.map Component.normal).reverse w = (.ok (), w') ∧
      Made w w' origin (folder ++ above) ∧
      enter w'.node symlinkLimit cwd (front ++ above.map Component.normal) = .ok (folder ++ above, left) := by
  obtain hdir | ⟨inner, name, rest, rfl, hinner, hname⟩ := descend hfolder above
  · have hentered := enter_names hclosed henter hdir
    exact Or.inr ⟨w, folder, createDirAll_entered hclosed hcwd hentered, Made.refl hclosed _ _, hentered⟩
  · cases hnode : w.node (folder ++ inner ++ [name]) with
    | some node =>
      cases node with
      | dir => exact absurd hnode hname
      | link target => exact absurd hnode (hplain _ target)
      | file bytes =>
        exact Or.inl ⟨inner, name, rest, bytes, rfl, hnode, createDirAll_blocked hclosed hplain henter hinner hnode⟩
    | none =>
      have hentered := enter_names hclosed henter hinner
      obtain ⟨w', hmade, hmore, hnext, -⟩ := createDirAll_names hclosed hcwd hentered (name :: rest) name
        (fun first more heq => by
          obtain ⟨rfl, -⟩ := List.cons.inj heq
          exact hnode)
      have hsplit : front ++ (inner ++ name :: rest).map Component.normal =
          front ++ inner.map .normal ++ (name :: rest).map .normal := by
        rw [List.map_append, List.append_assoc]
      rw [hsplit, ← List.append_assoc folder]
      exact Or.inr ⟨w', folder ++ inner, hmade, hmore, hnext⟩

end Making

section Kept

variable {w w' : World α} {origin top : Loc α}

theorem Made.fileAt_eq (hmade : Made w w' origin top) (loc : Loc α) : fileAt w'.node loc = fileAt w.node loc := by
  obtain hsame | ⟨hnone, hdir, -⟩ := hmade.kept loc
  · rw [fileAt, fileAt, hsame]
  · rw [fileAt, fileAt, hnone, hdir]

theorem Made.last_eq (hmade : Made w w' origin top) (last : List α) :
    w'.node (top ++ [last]) = w.node (top ++ [last]) := by
  obtain hsame | ⟨-, -, hbegins⟩ := hmade.kept (top ++ [last])
  · exact hsame
  · have hlength := hbegins.length_le
    rw [List.length_append, List.length_singleton] at hlength
    omega

theorem Made.plain (hmade : Made w w' origin top) (hplain : Plain w.node) : Plain w'.node := by
  intro loc link hlink
  obtain hsame | ⟨-, hdir, -⟩ := hmade.kept loc
  · exact hplain loc link (hsame ▸ hlink)
  · rw [hdir] at hlink
    cases hlink

theorem fileAt_update [DecidableEq α] {t : Nodes α} (loc : Loc α) (bytes : List UInt8) :
    fileAt (Function.update t loc (some (.file bytes))) = Function.update (fileAt t) loc (some bytes) := by
  funext other
  by_cases h : other = loc
  · rw [h, Function.update_self, fileAt, Function.update_self]
  · rw [Function.update_of_ne h, fileAt, Function.update_of_ne h, fileAt]

end Kept

section Staging

variable [DecidableEq α] {w : World α} {folder cwd : Loc α} {left : Nat} {front : List (Component α)}
  {name : List α} {bytes : List UInt8}

/-- A text that was put under a free name, from where it is to be moved. -/
structure Staged (w : World α) (cwd : Loc α) (front : List (Component α)) (folder : Loc α) (left : Nat)
    (name : List α) (bytes : List UInt8) : Prop where
  landing : landing w.node cwd ⟨front ++ [.normal name], false⟩ = .ok (folder ++ [name])
  enter : enter (w.put (folder ++ [name]) (some (.file bytes))).node symlinkLimit cwd front = .ok (folder, left)
  entry : entry (w.put (folder ++ [name]) (some (.file bytes))).node cwd ⟨front ++ [.normal name], false⟩ =
    .ok (folder ++ [name])

theorem staged (henter : enter w.node symlinkLimit cwd front = .ok (folder, left))
    (hfree : w.node (folder ++ [name]) = none) (bytes : List UInt8) : Staged w cwd front folder left name bytes := by
  have hdir : w.node (folder ++ [name]) ≠ some .dir := by simp [hfree]
  have hlink : ∀ target, w.node (folder ++ [name]) ≠ some (.link target) := by simp [hfree]
  have hgrown := enter_grows (@grows_put _ _ _ w (some (.file bytes)) hdir hlink) henter
  refine ⟨landing_name henter hdir hlink, hgrown, entry_name hgrown ?_ ?_⟩
  · rw [World.put_self]
    exact nofun
  · rw [World.put_self]
    exact nofun

theorem stage_fails (henter : enter w.node symlinkLimit cwd front = .ok (folder, left))
    (hfree : w.node (folder ++ [name]) = none) {p : Route α}
    (hp : p.dir = true ∨ ∃ other, p = ⟨front ++ [.normal other], false⟩ ∧ w.node (folder ++ [other]) = some .dir) :
    ∃ e w', stage cwd ⟨front ++ [.normal name], false⟩ p bytes w = (.error e, w') ∧ w'.node = w.node := by
  have hstaged := staged henter hfree bytes
  have hslot : ∃ e, slot (w.put (folder ++ [name]) (some (.file bytes))).node cwd p = .error e := by
    obtain hpdir | ⟨other, rfl, hdir⟩ := hp
    · exact ⟨.notdir, if_pos hpdir⟩
    · refine ⟨.isdir, slot_dir hstaged.enter ?_⟩
      rwa [World.put_of_ne]
      intro heq
      rw [heq, hfree] at hdir
      cases hdir
  obtain ⟨e, hslot⟩ := hslot
  refine ⟨e, (w.put (folder ++ [name]) (some (.file bytes))).put (folder ++ [name]) none, ?_, funext fun loc => ?_⟩
  · rw [stage_moved hstaged.landing hstaged.entry, hslot]
  · by_cases hloc : loc = folder ++ [name]
    · rw [hloc, World.put_self, hfree]
    · rw [World.put_of_ne hloc, World.put_of_ne hloc]

theorem stage_succeeds {other : List α} (henter : enter w.node symlinkLimit cwd front = .ok (folder, left))
    (hfree : w.node (folder ++ [name]) = none) (hother : other ≠ name)
    (hdir : w.node (folder ++ [other]) ≠ some .dir) :
    ∃ w', stage cwd ⟨front ++ [.normal name], false⟩ ⟨front ++ [.normal other], false⟩ bytes w = (.ok (), w') ∧
      w'.node = Function.update w.node (folder ++ [other]) (some (.file bytes)) := by
  have hstaged := staged henter hfree bytes
  have hne : folder ++ [other] ≠ folder ++ [name] := fun heq =>
    hother (List.singleton_inj.mp (List.append_cancel_left heq))
  have hslot : slot (w.put (folder ++ [name]) (some (.file bytes))).node cwd ⟨front ++ [.normal other], false⟩ =
      .ok (folder ++ [other]) := slot_ok hstaged.enter (by rwa [World.put_of_ne hne])
  refine ⟨((w.put (folder ++ [name]) (some (.file bytes))).put (folder ++ [name]) none).put (folder ++ [other])
    (some (.file bytes)), ?_, funext fun loc => ?_⟩
  · rw [stage_moved hstaged.landing hstaged.entry, hslot, World.put_self]
    dsimp only
    rw [if_neg (Ne.symm hne)]
  · by_cases hloc : loc = folder ++ [other]
    · rw [hloc, World.put_self, Function.update_self]
    · rw [World.put_of_ne hloc, Function.update_of_ne hloc]
      by_cases htmp : loc = folder ++ [name]
      · rw [htmp, World.put_self, hfree]
      · rw [World.put_of_ne htmp, World.put_of_ne htmp]

end Staging

end Cosmon.Lib.FileTree
