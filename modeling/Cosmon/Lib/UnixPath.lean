import Mathlib.Data.List.Basic

namespace Cosmon.Lib.UnixPath

inductive Component (α : Type) where
  | rootDir
  | curDir
  | parentDir
  | normal (name : List α)
deriving DecidableEq

section Components

variable {α : Type} [DecidableEq α] (slash dot : α)

/-- A part between two separators; a repeated separator and a `.` inside a path are skipped. -/
def component (part : List α) : Option (Component α) :=
  if part = [] ∨ part = [dot] then none
  else if part = [dot, dot] then some .parentDir
  else some (.normal part)

def isAbsolute (path : List α) : Bool := path.head? = some slash

/-- What a path begins with besides its names: the root, or a `.` of a relative path. -/
def leading (path : List α) : List (Component α) :=
  if path.head? = some slash then [.rootDir]
  else if (path.splitOn slash).head? = some [dot] then [.curDir]
  else []

def names (path : List α) : List (Component α) := (path.splitOn slash).filterMap (component dot)

def components (path : List α) : List (Component α) :=
  leading slash dot path ++ (path.splitOn slash).filterMap (component dot)

/-- `Path::join`: an absolute path takes the place of the base. -/
def join (base path : List α) : List α :=
  if isAbsolute slash path then path
  else if base = [] ∨ base.getLast? = some slash then base ++ path
  else base ++ slash :: path

/-- `Path::file_stem`: what stands before the last dot of a name, unless that is its first character. -/
def fileStem (name : List α) : List α :=
  match name.reverse.dropWhile (· ≠ dot) with
  | _ :: c :: before => (c :: before).reverse
  | _ => name

def withExtension (name ext : List α) : List α := fileStem dot name ++ dot :: ext

def Plain (name : List α) : Prop := name ≠ [] ∧ slash ∉ name ∧ name ≠ [dot] ∧ name ≠ [dot, dot]

instance (name : List α) : Decidable (Plain slash dot name) := inferInstanceAs (Decidable (_ ∧ _ ∧ _ ∧ _))

end Components

section Joining

variable {α : Type} [DecidableEq α] {slash dot : α}

omit [DecidableEq α] in
theorem plain_of_chars {name : List α} (hne : name ≠ []) (h : ∀ c ∈ name, c ≠ slash ∧ c ≠ dot) :
    Plain slash dot name := by
  refine ⟨hne, fun hmem => (h _ hmem).1 rfl, ?_, ?_⟩
  · rintro rfl
    exact (h dot List.mem_cons_self).2 rfl
  · rintro rfl
    exact (h dot List.mem_cons_self).2 rfl

omit [DecidableEq α] in
theorem Plain.suffix {name suffix : List α} (h : Plain slash dot name) (hslash : slash ∉ suffix)
    (hlong : 2 < suffix.length) : Plain slash dot (name ++ suffix) := by
  have hlength : 2 < (name ++ suffix).length := by
    rw [List.length_append]
    omega
  refine ⟨fun heq => ?_, fun hmem => ?_, fun heq => ?_, fun heq => ?_⟩
  · simp [heq] at hlength
  · exact (List.mem_append.mp hmem).elim h.2.1 hslash
  · simp [heq] at hlength
  · simp [heq] at hlength

theorem component_plain {name : List α} (h : Plain slash dot name) : component dot name = some (.normal name) := by
  rw [component, if_neg (not_or.mpr ⟨h.1, h.2.2.1⟩), if_neg h.2.2.2]

theorem component_normal {part name : List α} (h : component dot part = some (.normal name)) :
    part = name ∧ part ≠ [] ∧ part ≠ [dot] ∧ part ≠ [dot, dot] := by
  by_cases hskip : part = [] ∨ part = [dot]
  · rw [component, if_pos hskip] at h
    cases h
  · by_cases hparent : part = [dot, dot]
    · rw [component, if_neg hskip, if_pos hparent] at h
      cases h
    · rw [component, if_neg hskip, if_neg hparent] at h
      cases h
      rw [not_or] at hskip
      exact ⟨rfl, hskip.1, hskip.2, hparent⟩

theorem not_mem_splitOn {path part : List α} (h : part ∈ path.splitOn slash) : slash ∉ part := by
  induction path generalizing part with
  | nil =>
    rw [List.splitOn_nil, List.mem_singleton] at h
    exact h ▸ List.not_mem_nil
  | cons c rest ih =>
    obtain ⟨first, more, hrest⟩ := List.exists_cons_of_ne_nil (List.splitOn_ne_nil slash rest)
    rw [List.splitOn_cons_eq_if_modifyHead] at h
    split at h
    · obtain rfl | h := List.mem_cons.mp h
      · exact List.not_mem_nil
      · exact ih h
    · rename_i hc
      rw [hrest] at ih h
      obtain rfl | h := List.mem_cons.mp h
      · apply List.not_mem_cons_of_ne_of_not_mem ?_ (ih List.mem_cons_self)
        exact fun heq => hc (beq_iff_eq.mpr heq.symm)
      · exact ih (List.mem_cons_of_mem first h)

theorem components_plain {name : List α} (h : Plain slash dot name) : components slash dot name = [.normal name] := by
  have hhead : name.head? ≠ some slash := fun hslash => h.2.1 (List.mem_of_head? hslash)
  rw [components, leading, if_neg hhead, List.splitOn_eq_singleton h.2.1, List.head?_cons,
    if_neg (fun heq => h.2.2.1 (Option.some.inj heq)), List.filterMap_cons_some (component_plain h)]
  rfl

theorem components_eq_normal {path : List α} : components slash dot path = [.normal path] ↔ Plain slash dot path := by
  refine ⟨fun h => ?_, components_plain⟩
  have hmem : Component.normal path ∈ components slash dot path := h ▸ List.mem_singleton_self _
  rw [components, List.mem_append] at hmem
  obtain hlead | hmem := hmem
  · unfold leading at hlead
    split_ifs at hlead <;> simp at hlead
  · obtain ⟨part, hpart, hcomponent⟩ := List.mem_filterMap.mp hmem
    obtain ⟨rfl, hne, hdot, hdots⟩ := component_normal hcomponent
    exact ⟨hne, not_mem_splitOn hpart, hdot, hdots⟩

theorem splitOn_head (front rest : List α) :
    ((front ++ slash :: rest).splitOn slash).head? = (front.splitOn slash).head? := by
  rw [List.splitOn_append_cons_self, List.head?_append_of_ne_nil _ (List.splitOn_ne_nil slash front)]

theorem leading_append (front rest : List α) :
    leading slash dot (front ++ slash :: rest) = leading slash dot (front ++ [slash]) := by
  rw [leading, leading, splitOn_head, splitOn_head]
  cases front with
  | nil => rfl
  | cons c front => rfl

theorem components_append (front rest : List α) :
    components slash dot (front ++ slash :: rest) =
      components slash dot (front ++ [slash]) ++ (rest.splitOn slash).filterMap (component dot) := by
  rw [components, components, leading_append front rest, List.splitOn_append_cons_self,
    List.splitOn_append_cons_self, List.filterMap_append, List.filterMap_append, List.splitOn_nil]
  simp [component]

theorem components_concat {front : List α} (h : front ≠ []) :
    components slash dot (front ++ [slash]) = components slash dot front := by
  obtain ⟨c, rest, rfl⟩ := List.exists_cons_of_ne_nil h
  have hleading : leading slash dot (c :: rest ++ [slash]) = leading slash dot (c :: rest) := by
    rw [leading, leading, splitOn_head]
    rfl
  rw [components, components, hleading, List.splitOn_append_cons_self, List.filterMap_append, List.splitOn_nil]
  simp [component]

theorem components_join {name : List α} (h : Plain slash dot name) (base : List α) :
    components slash dot (join slash base name) = components slash dot base ++ [.normal name] := by
  have hname : (name.splitOn slash).filterMap (component dot) = [.normal name] := by
    rw [List.splitOn_eq_singleton h.2.1, List.filterMap_cons_some (component_plain h)]
    rfl
  have habs : ¬ isAbsolute slash name = true := fun hslash =>
    h.2.1 (List.mem_of_head? (of_decide_eq_true hslash))
  rw [join, if_neg habs]
  split
  · rename_i hend
    obtain rfl | hend := hend
    · exact components_plain h
    · obtain ⟨front, rfl⟩ := List.getLast?_eq_some_iff.mp hend
      rw [List.append_assoc, List.singleton_append, components_append, hname]
  · rename_i hend
    rw [components_append, hname, components_concat (not_or.mp hend).1]

theorem components_join_relative {base path : List α} (hbase : base ≠ []) (hpath : isAbsolute slash path = false) :
    components slash dot (join slash base path) = components slash dot base ++ names slash dot path := by
  rw [join, if_neg (Bool.eq_false_iff.mp hpath)]
  split
  · rename_i hend
    obtain ⟨front, rfl⟩ := List.getLast?_eq_some_iff.mp (hend.resolve_left hbase)
    rw [List.append_assoc, List.singleton_append, components_append]
    rfl
  · rw [components_append, components_concat hbase]
    rfl

theorem join_cut {base path : List α} (hbase : base ≠ []) (hpath : isAbsolute slash path = false) :
    ∃ front, join slash base path = front ++ slash :: path ∧
      components slash dot (front ++ [slash]) = components slash dot base := by
  rw [join, if_neg (Bool.eq_false_iff.mp hpath)]
  split
  · rename_i hend
    obtain ⟨front, rfl⟩ := List.getLast?_eq_some_iff.mp (hend.resolve_left hbase)
    exact ⟨front, List.append_assoc front [slash] path, rfl⟩
  · exact ⟨base, rfl, components_concat hbase⟩

theorem filterMap_normal {parts : List (List α)} (h : .parentDir ∉ parts.filterMap (component dot)) :
    ∃ ns : List (List α), parts.filterMap (component dot) = ns.map .normal := by
  induction parts with
  | nil => exact ⟨[], rfl⟩
  | cons part rest ih =>
    cases hpart : component dot part with
    | none =>
      rw [List.filterMap_cons_none hpart] at h ⊢
      exact ih h
    | some first =>
      rw [List.filterMap_cons_some hpart, List.mem_cons, not_or] at h
      obtain ⟨ns, hns⟩ := ih h.2
      rw [List.filterMap_cons_some hpart, hns]
      rw [component] at hpart
      split_ifs at hpart
      · exact absurd (Option.some.inj hpart) h.1
      · exact ⟨part :: ns, congrArg (· :: _) (Option.some.inj hpart).symm⟩

theorem names_normal {path : List α} (h : .parentDir ∉ components slash dot path) :
    ∃ ns : List (List α), names slash dot path = ns.map .normal := by
  rw [components, List.mem_append, not_or] at h
  exact filterMap_normal h.2

theorem last_of_names_nil {path : List α} (h : names slash dot path = []) :
    (path.splitOn slash).getLast? = some [] ∨ (path.splitOn slash).getLast? = some [dot] := by
  have hne := List.splitOn_ne_nil slash path
  have hlast := List.getLast?_eq_some_getLast hne
  have hskip := List.filterMap_eq_nil_iff.mp h _ (List.getLast_mem hne)
  rw [component] at hskip
  split_ifs at hskip with hempty
  rw [hlast]
  exact hempty.imp (congrArg some) (congrArg some)

theorem isAbsolute_join {base : List α} (hbase : base ≠ []) (path : List α) :
    isAbsolute slash (join slash base path) = (isAbsolute slash base || isAbsolute slash path) := by
  obtain ⟨c, rest, rfl⟩ := List.exists_cons_of_ne_nil hbase
  rw [join]
  split
  · rename_i habs
    rw [habs, Bool.or_true]
  · rename_i hrel
    rw [Bool.eq_false_iff.mpr hrel, Bool.or_false]
    split
    · rfl
    · rfl

theorem join_ne_nil {base : List α} (hbase : base ≠ []) (path : List α) : join slash base path ≠ [] := by
  rw [join]
  split
  · rename_i habs
    rintro rfl
    cases of_decide_eq_true habs
  · split
    · exact List.append_ne_nil_of_left_ne_nil hbase path
    · exact List.append_ne_nil_of_left_ne_nil hbase _

theorem exists_last_part (path : List α) :
    slash ∉ path ∨ ∃ front last, path = front ++ slash :: last ∧ slash ∉ last := by
  induction path with
  | nil => exact Or.inl List.not_mem_nil
  | cons c rest ih =>
    rcases ih with hnone | ⟨front, last, rfl, hlast⟩
    · by_cases hc : c = slash
      · exact Or.inr ⟨[], rest, by rw [hc]; rfl, hnone⟩
      · exact Or.inl (List.not_mem_cons_of_ne_of_not_mem (Ne.symm hc) hnone)
    · exact Or.inr ⟨c :: front, last, rfl, hlast⟩

theorem splitOn_suffix (path : List α) {suffix : List α} (h : slash ∉ suffix) :
    (path ++ suffix).splitOn slash =
      (path.splitOn slash).dropLast ++ [((path.splitOn slash).getLast?.getD []) ++ suffix] := by
  rcases @exists_last_part _ _ slash path with hnone | ⟨front, last, rfl, hlast⟩
  · have hboth : slash ∉ path ++ suffix := fun hmem => (List.mem_append.mp hmem).elim hnone h
    rw [List.splitOn_eq_singleton hboth, List.splitOn_eq_singleton hnone]
    rfl
  · have hboth : slash ∉ last ++ suffix := fun hmem => (List.mem_append.mp hmem).elim hlast h
    rw [List.append_assoc, List.cons_append, List.splitOn_append_cons_self, List.splitOn_append_cons_self,
      List.splitOn_eq_singleton hboth, List.splitOn_eq_singleton hlast, List.dropLast_concat,
      List.getLast?_append_of_ne_nil _ (List.cons_ne_nil _ _)]
    rfl

theorem component_long {name : List α} (h : 2 < name.length) : component dot name = some (.normal name) := by
  rw [component, if_neg, if_neg]
  · rintro rfl
    simp at h
  · rintro (rfl | rfl)
    · simp at h
    · simp at h

theorem names_suffix (path : List α) {suffix : List α} (h : slash ∉ suffix) (hlong : 2 < suffix.length) :
    names slash dot (path ++ suffix) =
      (path.splitOn slash).dropLast.filterMap (component dot) ++
        [.normal ((path.splitOn slash).getLast?.getD [] ++ suffix)] := by
  have hlast : component dot ((path.splitOn slash).getLast?.getD [] ++ suffix) =
      some (.normal ((path.splitOn slash).getLast?.getD [] ++ suffix)) := by
    apply component_long
    rw [List.length_append]
    omega
  rw [names, splitOn_suffix path h, List.filterMap_append, List.filterMap_cons_some hlast, List.filterMap_nil]

theorem parentDir_mem {parts : List (List α)} :
    Component.parentDir ∈ parts.filterMap (component dot) ↔ [dot, dot] ∈ parts := by
  rw [List.mem_filterMap]
  constructor
  · rintro ⟨part, hpart, hcomponent⟩
    by_cases hskip : part = [] ∨ part = [dot]
    · rw [component, if_pos hskip] at hcomponent
      cases hcomponent
    · by_cases hdots : part = [dot, dot]
      · exact hdots ▸ hpart
      · rw [component, if_neg hskip, if_neg hdots] at hcomponent
        cases hcomponent
  · intro h
    refine ⟨[dot, dot], h, ?_⟩
    rw [component, if_neg (by simp), if_pos rfl]

end Joining

end Cosmon.Lib.UnixPath
