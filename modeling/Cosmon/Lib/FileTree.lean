import Cosmon.Lib.UnixPath
import Mathlib.Data.List.Infix
import Mathlib.Logic.Function.Basic

namespace Cosmon.Lib.FileTree

open Cosmon.Lib.UnixPath

abbrev Loc (α : Type) := List (List α)

/-- A path as it is walked: what it names, and whether it ends in a separator or in `.`, so that
its last name has to be a directory. -/
structure Route (α : Type) where
  parts : List (Component α)
  dir : Bool
deriving DecidableEq

inductive Node (α : Type) where
  | file (bytes : List UInt8)
  | dir
  | link (target : Route α)
deriving DecidableEq

abbrev Nodes (α : Type) := Loc α → Option (Node α)

structure Closed {α : Type} (t : Nodes α) : Prop where
  root : t [] = some .dir
  parent : ∀ loc name, t (loc ++ [name]) ≠ none → t loc = some .dir

structure Volume (α : Type) where
  node : Nodes α
  closed : Closed node

structure Volume.Dir {α : Type} (t : Volume α) where
  loc : Loc α
  isDir : t.node loc = some .dir

section Listing

variable {α : Type} [DecidableEq α]

def nodeOf (entries : List (Loc α × Node α)) : Nodes α
  | [] => some .dir
  | loc => entries.lookup loc

theorem nodeOf_some {entries : List (Loc α × Node α)} {loc : Loc α} {node : Node α}
    (h : nodeOf entries loc = some node) : loc = [] ∧ node = .dir ∨ (loc, node) ∈ entries := by
  cases loc with
  | nil => exact Or.inl ⟨rfl, (Option.some.inj h).symm⟩
  | cons first rest =>
    obtain ⟨before, after, rfl, -⟩ := List.lookup_eq_some_iff.mp h
    exact Or.inr (List.mem_append_right before List.mem_cons_self)

theorem closed_nodeOf {entries : List (Loc α × Node α)}
    (h : ∀ e ∈ entries, nodeOf entries e.1.dropLast = some .dir) : Closed (nodeOf entries) := by
  refine ⟨rfl, fun loc name hne => ?_⟩
  obtain ⟨node, hnode⟩ := Option.ne_none_iff_exists'.mp hne
  obtain ⟨hnil, -⟩ | hmem := nodeOf_some hnode
  · simp at hnil
  · have hdir := h (loc ++ [name], node) hmem
    rwa [List.dropLast_concat] at hdir

def Volume.ofEntries (entries : List (Loc α × Node α))
    (h : ∀ e ∈ entries, nodeOf entries e.1.dropLast = some .dir) : Volume α := ⟨nodeOf entries, closed_nodeOf h⟩

end Listing

inductive Errno where
  | noent
  | notdir
  | loop
  | isdir
  | exist
  | inval
deriving DecidableEq

inductive Found (α : Type) where
  | there (loc : Loc α)
  | vacant (loc : Loc α)
deriving DecidableEq

section Reading

variable {α : Type} [DecidableEq α] (slash dot : α)

def Route.of (path : List α) : Route α :=
  ⟨components slash dot path, decide ((path.splitOn slash).getLast? = some [] ∨
    (path.splitOn slash).getLast? = some [dot])⟩

def Route.parent (p : Route α) : Route α := ⟨p.parts.dropLast, false⟩

variable {slash dot}

theorem Route.of_cut (front : List α) {last : List α} (h : slash ∉ last) :
    Route.of slash dot (front ++ slash :: last) =
      ⟨components slash dot (front ++ [slash]) ++ (component dot last).toList, decide (last = [] ∨ last = [dot])⟩ := by
  have hparts : (last.splitOn slash).filterMap (component dot) = (component dot last).toList := by
    rw [List.splitOn_eq_singleton h, List.filterMap_cons, List.filterMap_nil]
    cases component dot last <;> rfl
  have hlast : ((front ++ slash :: last).splitOn slash).getLast? = some last := by
    rw [List.splitOn_append_cons_self, List.splitOn_eq_singleton h]
    exact List.getLast?_concat
  rw [Route.of, components_append, hparts, hlast]
  simp only [Option.some.injEq]

theorem Route.of_suffix_dir {path suffix : List α} (hslash : slash ∈ path) (hsuffix : slash ∉ suffix)
    (hlong : 2 < suffix.length) (hdir : (Route.of slash dot path).dir = true) :
    ∃ last, Route.of slash dot (path ++ suffix) =
      ⟨(Route.of slash dot path).parts ++ [.normal (last ++ suffix)], false⟩ := by
  obtain hnone | ⟨front, last, rfl, hlast⟩ := @exists_last_part _ _ slash path
  · exact absurd hslash hnone
  · rw [Route.of_cut front hlast] at hdir ⊢
    have hlast' : slash ∉ last ++ suffix := fun hmem => (List.mem_append.mp hmem).elim hlast hsuffix
    have hskip : component dot last = none := if_pos (of_decide_eq_true hdir)
    have hlength : 2 < (last ++ suffix).length := by
      rw [List.length_append]
      omega
    refine ⟨last, ?_⟩
    rw [List.append_assoc, List.cons_append, Route.of_cut front hlast', hskip, component_long hlength]
    have hne : ¬ (last ++ suffix = [] ∨ last ++ suffix = [dot]) := by
      rintro (heq | heq)
      · simp [heq] at hlength
      · simp [heq] at hlength
    rw [decide_eq_false hne, Option.toList_none, List.append_nil]
    rfl

theorem Route.of_suffix_name {path suffix name : List α} {front : List (Component α)} (hslash : slash ∈ path)
    (hsuffix : slash ∉ suffix) (hlong : 2 < suffix.length) (hdir : (Route.of slash dot path).dir = false)
    (hparts : (Route.of slash dot path).parts = front ++ [.normal name]) :
    Route.of slash dot (path ++ suffix) = ⟨front ++ [.normal (name ++ suffix)], false⟩ := by
  obtain hnone | ⟨before, last, rfl, hlast⟩ := @exists_last_part _ _ slash path
  · exact absurd hslash hnone
  · rw [Route.of_cut before hlast] at hdir hparts
    have hlast' : slash ∉ last ++ suffix := fun hmem => (List.mem_append.mp hmem).elim hlast hsuffix
    have hlength : 2 < (last ++ suffix).length := by
      rw [List.length_append]
      omega
    have hne : ¬ (last ++ suffix = [] ∨ last ++ suffix = [dot]) := by
      rintro (heq | heq)
      · simp [heq] at hlength
      · simp [heq] at hlength
    have hkept : component dot last ≠ none := by
      have hno : ¬ (last = [] ∨ last = [dot]) := of_decide_eq_false hdir
      rw [component, if_neg hno]
      split <;> simp
    obtain ⟨part, hpart⟩ := Option.ne_none_iff_exists'.mp hkept
    rw [hpart] at hparts
    obtain ⟨hfront, hname⟩ := List.append_inj' hparts rfl
    obtain rfl := List.singleton_inj.mp hname
    obtain ⟨rfl, -⟩ := component_normal hpart
    rw [List.append_assoc, List.cons_append, Route.of_cut before hlast', component_long hlength, hfront,
      decide_eq_false hne]
    rfl

end Reading

section Walking

variable {α : Type} (t : Nodes α)

/-- Go on in a directory; behind a link `again` goes on. A link at the end is followed, too,
unless `keep` is set and the path does not ask for a directory. -/
def walkWith (keep : Bool) (links : Nat)
    (again : Loc α → List (Component α) → Bool → Except Errno (Found α × Nat)) :
    Loc α → List (Component α) → Bool → Except Errno (Found α × Nat)
  | here, [], _ => .ok (.there here, links)
  | _, .rootDir :: rest, dir => walkWith keep links again [] rest dir
  | here, .curDir :: rest, dir => walkWith keep links again here rest dir
  | here, .parentDir :: rest, dir => walkWith keep links again here.dropLast rest dir
  | here, .normal name :: rest, dir =>
    match t (here ++ [name]) with
    | none => if rest = [] ∧ dir = false then .ok (.vacant (here ++ [name]), links) else .error .noent
    | some .dir => walkWith keep links again (here ++ [name]) rest dir
    | some (.file _) => if rest = [] ∧ dir = false then .ok (.there (here ++ [name]), links) else .error .notdir
    | some (.link target) =>
      if rest = [] ∧ dir = false ∧ keep = true then .ok (.there (here ++ [name]), links)
      else again here (target.parts ++ rest) (if rest = [] then target.dir || dir else dir)

/-- The walk of a path, which follows no more than `links` links. -/
def walk (keep : Bool) : Nat → Loc α → List (Component α) → Bool → Except Errno (Found α × Nat)
  | 0 => walkWith t keep 0 fun _ _ _ => .error .loop
  | links + 1 => walkWith t keep (links + 1) (walk keep links)

def again (keep : Bool) : Nat → Loc α → List (Component α) → Bool → Except Errno (Found α × Nat)
  | 0, _, _, _ => .error .loop
  | links + 1, here, parts, dir => walk t keep links here parts dir

variable {t} {keep : Bool} {links : Nat} {here : Loc α} {rest : List (Component α)} {dir : Bool}

theorem walk_eq : walk t keep links = walkWith t keep links (again t keep links) := by
  cases links <;> rfl

section Steps

attribute [local simp] walkWith

@[simp] theorem walk_nil : walk t keep links here [] dir = .ok (.there here, links) := by
  simp [walk_eq]

@[simp] theorem walk_root : walk t keep links here (.rootDir :: rest) dir = walk t keep links [] rest dir := by
  simp [walk_eq]

@[simp] theorem walk_cur : walk t keep links here (.curDir :: rest) dir = walk t keep links here rest dir := by
  simp [walk_eq]

@[simp] theorem walk_parent :
    walk t keep links here (.parentDir :: rest) dir = walk t keep links here.dropLast rest dir := by
  simp [walk_eq]

section Normal

variable {name : List α}

theorem walk_none (h : t (here ++ [name]) = none) : walk t keep links here (.normal name :: rest) dir =
    if rest = [] ∧ dir = false then .ok (.vacant (here ++ [name]), links) else .error .noent := by
  simp [walk_eq, h]

theorem walk_dir (h : t (here ++ [name]) = some .dir) :
    walk t keep links here (.normal name :: rest) dir = walk t keep links (here ++ [name]) rest dir := by
  simp [walk_eq, h]

theorem walk_file {bytes : List UInt8} (h : t (here ++ [name]) = some (.file bytes)) :
    walk t keep links here (.normal name :: rest) dir =
      if rest = [] ∧ dir = false then .ok (.there (here ++ [name]), links) else .error .notdir := by
  simp [walk_eq, h]

theorem walk_link {target : Route α} (h : t (here ++ [name]) = some (.link target)) :
    walk t keep links here (.normal name :: rest) dir =
      if rest = [] ∧ dir = false ∧ keep = true then .ok (.there (here ++ [name]), links)
      else again t keep links here (target.parts ++ rest) (if rest = [] then target.dir || dir else dir) := by
  simp [walk_eq, h]

end Normal

end Steps

@[elab_as_elim]
theorem walk_induct (t : Nodes α) {P : Nat → Loc α → List (Component α) → Prop}
    (nil : ∀ links here, P links here [])
    (rootDir : ∀ links here rest, P links [] rest → P links here (.rootDir :: rest))
    (curDir : ∀ links here rest, P links here rest → P links here (.curDir :: rest))
    (parentDir : ∀ links here rest, P links here.dropLast rest → P links here (.parentDir :: rest))
    (normal : ∀ links here name rest, (t (here ++ [name]) = some .dir → P links (here ++ [name]) rest) →
      (∀ target fewer, t (here ++ [name]) = some (.link target) → links = fewer + 1 →
        P fewer here (target.parts ++ rest)) → P links here (.normal name :: rest))
    (links : Nat) (here : Loc α) (parts : List (Component α)) : P links here parts := by
  induction links generalizing here parts with
  | zero =>
    induction parts generalizing here with
    | nil => exact nil 0 here
    | cons part rest ih =>
      cases part with
      | rootDir => exact rootDir 0 here rest (ih [])
      | curDir => exact curDir 0 here rest (ih here)
      | parentDir => exact parentDir 0 here rest (ih here.dropLast)
      | normal name => exact normal 0 here name rest (fun _ => ih _) fun _ _ _ h => by cases h
  | succ links ihLinks =>
    induction parts generalizing here with
    | nil => exact nil _ here
    | cons part rest ih =>
      cases part with
      | rootDir => exact rootDir _ here rest (ih [])
      | curDir => exact curDir _ here rest (ih here)
      | parentDir => exact parentDir _ here rest (ih here.dropLast)
      | normal name =>
        refine normal _ here name rest (fun _ => ih _) fun target fewer _ h => ?_
        obtain rfl := Nat.succ.inj h
        exact ihLinks here _

def enter (t : Nodes α) (links : Nat) (here : Loc α) (parts : List (Component α)) : Except Errno (Loc α × Nat) :=
  match walk t false links here parts true with
  | .ok (.there loc, left) => .ok (loc, left)
  | .ok (.vacant _, _) => .error .noent
  | .error e => .error e

section Entering

variable {name : List α} {target : Route α} {loc : Loc α} {left : Nat} {keep' : Bool}

theorem walk_of_enter {parts : List (Component α)} (h : enter t links here parts = .ok (loc, left)) :
    walk t false links here parts true = .ok (.there loc, left) := by
  unfold enter at h
  cases hwalk : walk t false links here parts true with
  | error e =>
    rw [hwalk] at h
    cases h
  | ok entered =>
    rw [hwalk] at h
    obtain ⟨found, more⟩ := entered
    cases found with
    | vacant place => cases h
    | there place =>
      cases h
      rfl

@[simp] theorem enter_nil : enter t links here [] = .ok (here, links) := by
  rw [enter, walk_nil]

theorem enter_root : enter t links here (.rootDir :: rest) = enter t links [] rest := by
  rw [enter, walk_root, enter]

theorem enter_cur : enter t links here (.curDir :: rest) = enter t links here rest := by
  rw [enter, walk_cur, enter]

theorem enter_parent : enter t links here (.parentDir :: rest) = enter t links here.dropLast rest := by
  rw [enter, walk_parent, enter]

theorem enter_none (h : t (here ++ [name]) = none) : enter t links here (.normal name :: rest) = .error .noent := by
  rw [enter, walk_none h, if_neg (by simp)]

theorem enter_dir (h : t (here ++ [name]) = some .dir) :
    enter t links here (.normal name :: rest) = enter t links (here ++ [name]) rest := by
  rw [enter, walk_dir h, enter]

theorem enter_file {bytes : List UInt8} (h : t (here ++ [name]) = some (.file bytes)) :
    enter t links here (.normal name :: rest) = .error .notdir := by
  rw [enter, walk_file h, if_neg (by simp)]

theorem enter_link_zero (h : t (here ++ [name]) = some (.link target)) :
    enter t 0 here (.normal name :: rest) = .error .loop := by
  rw [enter, walk_link h, if_neg (by simp), again]

theorem enter_link (h : t (here ++ [name]) = some (.link target)) :
    enter t (links + 1) here (.normal name :: rest) = enter t links here (target.parts ++ rest) := by
  rw [enter, walk_link h, if_neg (by simp), again, enter]
  simp

theorem walk_append {more : List (Component α)} (hmore : more ≠ []) (parts : List (Component α)) :
    walk t keep links here (parts ++ more) dir =
      (enter t links here parts).bind fun entered => walk t keep entered.2 entered.1 more dir := by
  induction links, here, parts using walk_induct t with
  | nil links here =>
    rw [enter_nil]
    rfl
  | rootDir links here rest ih => rw [List.cons_append, walk_root, ih, enter_root]
  | curDir links here rest ih => rw [List.cons_append, walk_cur, ih, enter_cur]
  | parentDir links here rest ih => rw [List.cons_append, walk_parent, ih, enter_parent]
  | normal links here name rest ihDir ihLink =>
    have hlast : ∀ p : Prop, ¬ (rest ++ more = [] ∧ p) := fun p h => hmore (List.append_eq_nil_iff.mp h.1).2
    rw [List.cons_append]
    cases hnode : t (here ++ [name]) with
    | none =>
      rw [walk_none hnode, if_neg (hlast _), enter_none hnode]
      rfl
    | some node =>
      cases node with
      | dir => rw [walk_dir hnode, ihDir hnode, enter_dir hnode]
      | file bytes =>
        rw [walk_file hnode, if_neg (hlast _), enter_file hnode]
        rfl
      | link target =>
        rw [walk_link hnode, if_neg (hlast _), if_neg fun h => hlast True ⟨h, trivial⟩]
        cases links with
        | zero =>
          rw [enter_link_zero hnode]
          rfl
        | succ fewer => rw [again, ← List.append_assoc, ihLink target fewer hnode rfl, enter_link hnode]

theorem enter_append (parts more : List (Component α)) : enter t links here (parts ++ more) =
    (enter t links here parts).bind fun entered => enter t entered.2 entered.1 more := by
  by_cases hmore : more = []
  · subst hmore
    rw [List.append_nil]
    cases enter t links here parts with
    | error e => rfl
    | ok entered => exact enter_nil.symm
  · rw [enter, walk_append hmore]
    cases enter t links here parts with
    | error e => rfl
    | ok entered => rfl

theorem Closed.dropLast (hclosed : Closed t) (h : t here = some .dir) : t here.dropLast = some .dir := by
  rcases List.eq_nil_or_concat here with rfl | ⟨front, name, rfl⟩
  · exact h
  · rw [List.concat_eq_append] at h ⊢
    rw [List.dropLast_concat]
    exact hclosed.parent front name (h ▸ Option.some_ne_none _)

theorem Closed.above (hclosed : Closed t) {outer : Loc α} (h : t here ≠ none) (hbegins : outer <+: here)
    (hne : outer ≠ here) : t outer = some .dir := by
  obtain ⟨below, rfl⟩ := hbegins
  induction below using List.reverseRecOn with
  | nil => exact absurd (List.append_nil outer).symm hne
  | append_singleton below name ih =>
    rw [← List.append_assoc] at h
    have hdir := hclosed.parent _ _ h
    by_cases hbelow : below = []
    · rwa [hbelow, List.append_nil] at hdir
    · exact ih (hdir ▸ Option.some_ne_none _) fun heq => hbelow (List.self_eq_append_right.mp heq)

def Ends (t : Nodes α) (keep dir : Bool) : Found α → Prop
  | .there loc =>
    t loc ≠ none ∧ (dir = true → t loc = some .dir) ∧ (keep = false → ∀ target, t loc ≠ some (.link target))
  | .vacant loc => dir = false ∧ t loc = none ∧ ∃ folder name, loc = folder ++ [name] ∧ t folder = some .dir

theorem Ends.mono {found : Found α} {dir' : Bool} (h : Ends t keep dir found) (hdir : dir' = true → dir = true) :
    Ends t keep dir' found := by
  cases found with
  | there loc => exact ⟨h.1, fun htrue => h.2.1 (hdir htrue), h.2.2⟩
  | vacant loc =>
    refine ⟨Bool.eq_false_iff.mpr fun htrue => ?_, h.2⟩
    rw [h.1] at hdir
    exact absurd (hdir htrue) (by decide)

theorem walk_ends (hclosed : Closed t) (hhere : t here = some .dir) {parts : List (Component α)} {found : Found α}
    (h : walk t keep links here parts dir = .ok (found, left)) : Ends t keep dir found := by
  induction links, here, parts using walk_induct t generalizing dir with
  | nil links here =>
    rw [walk_nil] at h
    cases h
    rw [Ends, hhere]
    exact ⟨Option.some_ne_none _, fun _ => rfl, fun _ _ heq => by cases heq⟩
  | rootDir links here rest ih => exact ih hclosed.root (walk_root ▸ h)
  | curDir links here rest ih => exact ih hhere (walk_cur ▸ h)
  | parentDir links here rest ih => exact ih (hclosed.dropLast hhere) (walk_parent ▸ h)
  | normal links here name rest ihDir ihLink =>
    cases hnode : t (here ++ [name]) with
    | none =>
      rw [walk_none hnode] at h
      split at h
      · rename_i hend
        cases h
        exact ⟨hend.2, hnode, here, name, rfl, hhere⟩
      · cases h
    | some node =>
      cases node with
      | dir => exact ihDir hnode hnode (walk_dir hnode ▸ h)
      | file bytes =>
        rw [walk_file hnode] at h
        split at h
        · rename_i hend
          cases h
          rw [Ends, hnode, hend.2]
          exact ⟨Option.some_ne_none _, fun htrue => (by cases htrue), fun _ _ heq => by cases heq⟩
        · cases h
      | link target =>
        rw [walk_link hnode] at h
        split at h
        · rename_i hend
          cases h
          rw [Ends, hnode, hend.2.1, hend.2.2]
          exact ⟨Option.some_ne_none _, fun htrue => (by cases htrue), fun hkeep => by cases hkeep⟩
        · cases links with
          | zero => cases h
          | succ fewer =>
            apply (ihLink target fewer hnode rfl hhere h).mono
            rintro rfl
            simp

theorem enter_of_there [DecidableEq α] (hclosed : Closed t) (hhere : t here = some .dir) {parts : List (Component α)}
    (h : walk t false links here parts dir = .ok (.there loc, left)) :
    enter t links here parts = if t loc = some .dir then .ok (loc, left) else .error .notdir := by
  induction links, here, parts using walk_induct t generalizing dir with
  | nil links here =>
    rw [walk_nil] at h
    cases h
    rw [enter_nil, if_pos hhere]
  | rootDir links here rest ih => rw [enter_root, ih hclosed.root (walk_root ▸ h)]
  | curDir links here rest ih => rw [enter_cur, ih hhere (walk_cur ▸ h)]
  | parentDir links here rest ih => rw [enter_parent, ih (hclosed.dropLast hhere) (walk_parent ▸ h)]
  | normal links here name rest ihDir ihLink =>
    cases hnode : t (here ++ [name]) with
    | none =>
      rw [walk_none hnode] at h
      split at h
      · cases h
      · cases h
    | some node =>
      cases node with
      | dir => rw [enter_dir hnode, ihDir hnode hnode (walk_dir hnode ▸ h)]
      | file bytes =>
        rw [walk_file hnode] at h
        split at h
        · cases h
          rw [enter_file hnode, hnode, if_neg (by simp)]
        · cases h
      | link target =>
        rw [walk_link hnode, if_neg fun hkeep => absurd hkeep.2.2 (by decide)] at h
        cases links with
        | zero => cases h
        | succ fewer => rw [enter_link hnode, ihLink target fewer hnode rfl hhere h]

theorem walk_of_enter_error {parts : List (Component α)} {e : Errno} (h : enter t links here parts = .error e)
    (hfound : e ≠ .noent) : walk t false links here parts true = .error e := by
  unfold enter at h
  cases hwalk : walk t false links here parts true with
  | error e' =>
    rw [hwalk] at h
    exact congrArg _ (Except.error.inj h)
  | ok entered =>
    rw [hwalk] at h
    obtain ⟨found, more⟩ := entered
    cases found with
    | there place => cases h
    | vacant place => exact absurd (Except.error.inj h).symm hfound

theorem walk_into_there [DecidableEq α] (hclosed : Closed t) (hhere : t here = some .dir)
    {parts : List (Component α)} (h : walk t false links here parts dir = .ok (.there loc, left)) :
    walk t false links here parts true = if t loc = some .dir then .ok (.there loc, left) else .error .notdir := by
  have henter := enter_of_there hclosed hhere h
  by_cases hdir : t loc = some .dir
  · rw [if_pos hdir] at henter ⊢
    exact walk_of_enter henter
  · rw [if_neg hdir] at henter ⊢
    exact walk_of_enter_error henter (by decide)

/-- A path that leads to an entry leads to one, too, where its last link is kept or no directory is asked for. -/
theorem walk_of_there (hclosed : Closed t) (hhere : t here = some .dir) {parts : List (Component α)}
    (h : walk t false links here parts dir = .ok (.there loc, left)) (keep' dir' : Bool)
    (hdir : dir' = true → dir = true) :
    ∃ loc' left', walk t keep' links here parts dir' = .ok (.there loc', left') := by
  induction links, here, parts using walk_induct t generalizing dir dir' with
  | nil links here => exact ⟨_, _, walk_nil⟩
  | rootDir links here rest ih =>
    rw [walk_root] at h ⊢
    exact ih hclosed.root h dir' hdir
  | curDir links here rest ih =>
    rw [walk_cur] at h ⊢
    exact ih hhere h dir' hdir
  | parentDir links here rest ih =>
    rw [walk_parent] at h ⊢
    exact ih (hclosed.dropLast hhere) h dir' hdir
  | normal links here name rest ihDir ihLink =>
    have hflag : dir = false → dir' = false := fun hfalse => by
      rw [hfalse] at hdir
      exact Bool.eq_false_iff.mpr fun htrue => absurd (hdir htrue) (by decide)
    cases hnode : t (here ++ [name]) with
    | none =>
      rw [walk_none hnode] at h
      split at h
      · cases h
      · cases h
    | some node =>
      cases node with
      | dir =>
        rw [walk_dir hnode] at h ⊢
        exact ihDir hnode hnode h dir' hdir
      | file bytes =>
        rw [walk_file hnode] at h ⊢
        split at h
        · rename_i hend
          exact ⟨_, _, if_pos ⟨hend.1, hflag hend.2⟩⟩
        · cases h
      | link target =>
        rw [walk_link hnode, if_neg fun hkeep => absurd hkeep.2.2 (by decide)] at h
        rw [walk_link hnode]
        split
        · exact ⟨_, _, rfl⟩
        · cases links with
          | zero => cases h
          | succ fewer =>
            refine ihLink target fewer hnode rfl hhere h _ ?_
            split
            · cases target.dir with
              | false => exact hdir
              | true => exact fun _ => rfl
            · exact hdir

theorem walk_into (keep : Bool) (parts : List (Component α)) :
    walk t keep links here parts true = walk t false links here parts true := by
  induction links, here, parts using walk_induct t with
  | nil links here => rw [walk_nil, walk_nil]
  | rootDir links here rest ih => rw [walk_root, walk_root, ih]
  | curDir links here rest ih => rw [walk_cur, walk_cur, ih]
  | parentDir links here rest ih => rw [walk_parent, walk_parent, ih]
  | normal links here name rest ihDir ihLink =>
    cases hnode : t (here ++ [name]) with
    | none => rw [walk_none hnode, walk_none hnode]
    | some node =>
      cases node with
      | dir => rw [walk_dir hnode, walk_dir hnode, ihDir hnode]
      | file bytes => rw [walk_file hnode, walk_file hnode]
      | link target =>
        have hgo : ∀ k, ¬ (rest = [] ∧ true = false ∧ k = true) := fun k h => absurd h.2.1 (by decide)
        rw [walk_link hnode, walk_link hnode, if_neg (hgo keep), if_neg (hgo false)]
        cases links with
        | zero => rfl
        | succ fewer =>
          rw [again, again]
          simpa using ihLink target fewer hnode rfl

structure Grows (t t' : Nodes α) : Prop where
  dir : ∀ loc, t loc = some .dir → t' loc = some .dir
  link : ∀ loc target, t loc = some (.link target) → t' loc = some (.link target)

theorem enter_grows {t' : Nodes α} (hgrows : Grows t t') {parts : List (Component α)}
    (h : enter t links here parts = .ok (loc, left)) : enter t' links here parts = .ok (loc, left) := by
  induction links, here, parts using walk_induct t with
  | nil links here =>
    rw [enter_nil] at h ⊢
    exact h
  | rootDir links here rest ih => rw [enter_root, ih (enter_root ▸ h)]
  | curDir links here rest ih => rw [enter_cur, ih (enter_cur ▸ h)]
  | parentDir links here rest ih => rw [enter_parent, ih (enter_parent ▸ h)]
  | normal links here name rest ihDir ihLink =>
    cases hnode : t (here ++ [name]) with
    | none =>
      rw [enter_none hnode] at h
      cases h
    | some node =>
      cases node with
      | dir => rw [enter_dir (hgrows.dir _ hnode), ihDir hnode (enter_dir hnode ▸ h)]
      | file bytes =>
        rw [enter_file hnode] at h
        cases h
      | link target =>
        cases links with
        | zero =>
          rw [enter_link_zero hnode] at h
          cases h
        | succ fewer =>
          rw [enter_link (hgrows.link _ _ hnode), ihLink target fewer hnode rfl (enter_link hnode ▸ h)]

end Entering

end Walking

end Cosmon.Lib.FileTree
