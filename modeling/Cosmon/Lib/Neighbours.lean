import Mathlib.Data.List.Destutter
import Mathlib.Data.List.Nodup
import Mathlib.Data.List.Sort

namespace Cosmon.Lib.Neighbours

variable {α κ : Type} [DecidableEq κ]

def collapse (key : α → κ) (l : List α) : List α := l.destutter fun a b => key a ≠ key b

section Collapse

theorem mem_destutter'_ne {x a : κ} {l : List κ} : x ∈ l.destutter' (· ≠ ·) a ↔ x = a ∨ x ∈ l := by
  induction l generalizing a with
  | nil => rw [List.destutter'_nil, List.mem_singleton, or_iff_left List.not_mem_nil]
  | cons b l ih =>
    by_cases hab : a = b
    · subst hab
      rw [List.destutter'_cons_neg _ (not_not.mpr rfl), ih, List.mem_cons, ← or_assoc, or_self]
    · rw [List.destutter'_cons_pos _ hab, List.mem_cons, ih, List.mem_cons]

theorem map_collapse (key : α → κ) (l : List α) :
    (collapse key l).map key = (l.map key).destutter (· ≠ ·) :=
  List.map_destutter fun _ _ _ _ => Iff.rfl

theorem mem_map_collapse {key : α → κ} {l : List α} {k : κ} :
    k ∈ (collapse key l).map key ↔ k ∈ l.map key := by
  rw [map_collapse]
  cases l with
  | nil => rfl
  | cons a l => rw [List.map_cons, List.destutter_cons', mem_destutter'_ne, List.mem_cons]

theorem map_collapse_map {β : Type} (key : α → κ) (f : β → α) (l : List β) :
    (collapse key (l.map f)).map key = (collapse (fun b => key (f b)) l).map fun b => key (f b) := by
  rw [map_collapse, map_collapse, List.map_map]
  rfl

def Returns (l : List κ) : Prop := ∃ x y, x ≠ y ∧ [x, y, x].Sublist l

omit [DecidableEq κ] in
theorem returns_cons {a : κ} {l : List κ} : Returns (a :: l) ↔
    Returns l ∨ ∃ y, a ≠ y ∧ [y, a].Sublist l := by
  constructor
  · rintro ⟨x, y, hne, hsub⟩
    obtain hsub | ⟨rest, heq, hrest⟩ := List.sublist_cons_iff.mp hsub
    · exact Or.inl ⟨x, y, hne, hsub⟩
    · obtain ⟨rfl, rfl⟩ := List.cons.inj heq
      exact Or.inr ⟨y, hne, hrest⟩
  · rintro (⟨x, y, hne, hsub⟩ | ⟨y, hne, hsub⟩)
    · exact ⟨x, y, hne, hsub.cons a⟩
    · exact ⟨a, y, hne, hsub.cons_cons a⟩

omit [DecidableEq κ] in
theorem returns_cons_self {a : κ} {l : List κ} : Returns (a :: a :: l) ↔ Returns (a :: l) := by
  rw [returns_cons]
  refine or_iff_left_of_imp ?_
  rintro ⟨y, hne, hsub⟩
  obtain hsub | ⟨rest, heq, hrest⟩ := List.sublist_cons_iff.mp hsub
  · exact returns_cons.mpr (Or.inr ⟨y, hne, hsub⟩)
  · exact absurd (List.cons.inj heq).1.symm hne

omit [DecidableEq κ] in
theorem returns_cons_ne {a b : κ} {l : List κ} (h : a ≠ b) :
    Returns (a :: b :: l) ↔ a ∈ l ∨ Returns (b :: l) := by
  rw [returns_cons, or_comm]
  refine or_congr_left' fun _ => ⟨?_, fun hmem => ⟨b, h, (List.singleton_sublist.mpr hmem).cons_cons b⟩⟩
  rintro ⟨y, _, hsub⟩
  have hmem := hsub.subset (List.mem_cons_of_mem y (List.mem_singleton_self a))
  exact (List.mem_cons.mp hmem).resolve_left h

omit [DecidableEq κ] in
theorem returns_iff {l : List κ} : Returns l ↔ ∃ x y, x ≠ y ∧ [x, y].Sublist l ∧ [y, x].Sublist l := by
  constructor
  · rintro ⟨x, y, hne, hsub⟩
    have hfirst : [x, y].Sublist [x, y, x] := ((List.nil_sublist [x]).cons_cons y).cons_cons x
    exact ⟨x, y, hne, hfirst.trans hsub, (List.sublist_cons_self x [y, x]).trans hsub⟩
  · rintro ⟨x, y, hne, hxy, hyx⟩
    induction l with
    | nil => cases hxy
    | cons a l ih =>
      rw [returns_cons]
      obtain hfirst | ⟨_, heq, _⟩ := List.sublist_cons_iff.mp hxy
      · obtain hsecond | ⟨_, heq, _⟩ := List.sublist_cons_iff.mp hyx
        · exact Or.inl (ih hfirst hsecond)
        · obtain ⟨rfl, -⟩ := List.cons.inj heq
          exact Or.inr ⟨x, Ne.symm hne, hfirst⟩
      · obtain ⟨rfl, -⟩ := List.cons.inj heq
        obtain hsecond | ⟨_, heq, _⟩ := List.sublist_cons_iff.mp hyx
        · exact Or.inr ⟨y, hne, hsecond⟩
        · exact absurd (List.cons.inj heq).1.symm hne

theorem nodup_destutter'_ne {a : κ} {l : List κ} :
    (l.destutter' (· ≠ ·) a).Nodup ↔ ¬Returns (a :: l) := by
  induction l generalizing a with
  | nil =>
    rw [List.destutter'_nil]
    refine iff_of_true (List.nodup_singleton a) ?_
    rintro ⟨x, y, _, hsub⟩
    have hlength := hsub.length_le
    simp only [List.length_cons, List.length_nil] at hlength
    omega
  | cons b l ih =>
    by_cases hab : a = b
    · subst hab
      rw [List.destutter'_cons_neg _ (not_not.mpr rfl), ih, returns_cons_self]
    · rw [List.destutter'_cons_pos _ hab, List.nodup_cons, ih, mem_destutter'_ne, returns_cons_ne hab,
        or_iff_right hab, not_or]

theorem nodup_collapse_iff {key : α → κ} {l : List α} :
    ((collapse key l).map key).Nodup ↔ ¬Returns (l.map key) := by
  rw [map_collapse]
  cases l with
  | nil =>
    refine iff_of_true List.nodup_nil ?_
    rintro ⟨x, y, _, hsub⟩
    cases hsub
  | cons a l => rw [List.map_cons, List.destutter_cons', nodup_destutter'_ne]

end Collapse

section Sorting

variable (rank : α → Nat)

def notAfter (a b : α) : Bool := decide (rank a ≤ rank b)

def sortByRank (l : List α) : List α := l.mergeSort (notAfter rank)

variable {rank}

theorem notAfter_trans (a b c : α) (hab : notAfter rank a b) (hbc : notAfter rank b c) : notAfter rank a c :=
  decide_eq_true (le_trans (of_decide_eq_true hab) (of_decide_eq_true hbc))

theorem notAfter_total (a b : α) : notAfter rank a b || notAfter rank b a := by
  rw [Bool.or_eq_true, notAfter, notAfter, decide_eq_true_eq, decide_eq_true_eq]
  exact le_total (rank a) (rank b)

theorem sortByRank_perm (l : List α) : (sortByRank rank l).Perm l := List.mergeSort_perm l _

theorem sortByRank_pairwise (l : List α) : (sortByRank rank l).Pairwise fun a b => rank a ≤ rank b :=
  (List.pairwise_mergeSort notAfter_trans notAfter_total l).imp fun h => of_decide_eq_true h

theorem sortByRank_map {β : Type} (f : β → α) (l : List β) :
    sortByRank rank (l.map f) = (sortByRank (fun b => rank (f b)) l).map f :=
  (List.map_mergeSort (f := f) fun _ _ _ _ => rfl).symm

theorem filter_sortByRank (r : Nat) (l : List α) :
    (sortByRank rank l).filter (fun a => rank a = r) = l.filter fun a => rank a = r := by
  have hsub : (l.filter fun a => rank a = r).Sublist (sortByRank rank l) := by
    refine List.sublist_mergeSort notAfter_trans notAfter_total ?_ List.filter_sublist
    apply List.pairwise_of_forall_mem_list
    intro a ha b hb
    have hranks := (of_decide_eq_true (List.mem_filter.mp ha).2).trans
      (of_decide_eq_true (List.mem_filter.mp hb).2).symm
    exact decide_eq_true (le_of_eq hranks)
  have hfilter := hsub.filter fun a => rank a = r
  rw [List.filter_filter] at hfilter
  simp only [Bool.and_self] at hfilter
  refine (hfilter.eq_of_length ?_).symm
  exact ((sortByRank_perm l).filter _).length_eq.symm

end Sorting

section CollapseSorted

variable {key : α → κ} {rank : α → Nat} {l : List α} {a b : α}

def Ahead (rank : α → Nat) (l : List α) (a b : α) : Prop :=
  (rank a < rank b ∧ a ∈ l ∧ b ∈ l) ∨ (rank a = rank b ∧ [a, b].Sublist l)

theorem pair_sublist_total (ha : a ∈ l) (hb : b ∈ l) (hne : a ≠ b) :
    [a, b].Sublist l ∨ [b, a].Sublist l := by
  obtain ⟨before, after, rfl⟩ := List.append_of_mem ha
  obtain hb | hb := List.mem_append.mp hb
  · right
    exact (List.singleton_sublist.mpr hb).append (List.singleton_sublist.mpr List.mem_cons_self)
  · left
    have hafter := (List.mem_cons.mp hb).resolve_left (Ne.symm hne)
    exact ((List.singleton_sublist.mpr hafter).cons_cons a).trans (List.sublist_append_right before _)

theorem pair_sublist_sortByRank : [a, b].Sublist (sortByRank rank l) ↔ Ahead rank l a b := by
  constructor
  · intro hsub
    have hmem {x : α} (hx : x ∈ [a, b]) : x ∈ l := (sortByRank_perm l).subset (hsub.subset hx)
    have hle := List.rel_of_pairwise_cons ((sortByRank_pairwise l).sublist hsub) List.mem_cons_self
    obtain hlt | heq := Nat.lt_or_eq_of_le hle
    · exact Or.inl ⟨hlt, hmem List.mem_cons_self, hmem (List.mem_cons_of_mem a List.mem_cons_self)⟩
    · refine Or.inr ⟨heq, ?_⟩
      have hfilter := hsub.filter fun x => decide (rank x = rank b)
      have hpair : [a, b].filter (fun x => decide (rank x = rank b)) = [a, b] :=
        List.filter_eq_self.mpr (by simp [heq])
      rw [filter_sortByRank, hpair] at hfilter
      exact hfilter.trans List.filter_sublist
  · rintro (⟨hlt, ha, hb⟩ | ⟨heq, hsub⟩)
    · have hne : a ≠ b := fun h => absurd hlt (h ▸ lt_irrefl _)
      refine (pair_sublist_total ((sortByRank_perm l).mem_iff.mpr ha)
        ((sortByRank_perm l).mem_iff.mpr hb) hne).resolve_right ?_
      intro hsub
      have hle := List.rel_of_pairwise_cons ((sortByRank_pairwise l).sublist hsub) List.mem_cons_self
      omega
    · refine List.sublist_mergeSort notAfter_trans notAfter_total ?_ hsub
      exact List.pairwise_pair.mpr (decide_eq_true (le_of_eq heq))

omit [DecidableEq κ] in
theorem pair_sublist_map {x y : κ} {m : List α} :
    [x, y].Sublist (m.map key) ↔ ∃ a b, [a, b].Sublist m ∧ key a = x ∧ key b = y := by
  constructor
  · intro hsub
    obtain ⟨pair, hpair, hkeys⟩ := List.sublist_map_iff.mp hsub
    obtain ⟨a, _, rfl, hx, hrest⟩ := List.map_eq_cons_iff.mp hkeys.symm
    obtain ⟨b, _, rfl, hy, hrest⟩ := List.map_eq_cons_iff.mp hrest
    obtain rfl := List.map_eq_nil_iff.mp hrest
    exact ⟨a, b, hpair, hx, hy⟩
  · rintro ⟨a, b, hsub, rfl, rfl⟩
    exact hsub.map key

/-- A list that is sorted by rank and collapsed has every key once when no two keys each
have an element ahead of one of the other. -/
theorem nodup_collapse_sortByRank : ((collapse key (sortByRank rank l)).map key).Nodup ↔
    ∀ a b c d, Ahead rank l a b → Ahead rank l c d → key a = key d → key b = key c → key a = key b := by
  rw [nodup_collapse_iff, returns_iff]
  constructor
  · intro h a b c d hab hcd had hbc
    by_contra hne
    exact h ⟨key a, key b, hne,
      pair_sublist_map.mpr ⟨a, b, pair_sublist_sortByRank.mpr hab, rfl, rfl⟩,
      pair_sublist_map.mpr ⟨c, d, pair_sublist_sortByRank.mpr hcd, hbc.symm, had.symm⟩⟩
  · rintro h ⟨x, y, hne, hxy, hyx⟩
    obtain ⟨a, b, hab, rfl, rfl⟩ := pair_sublist_map.mp hxy
    obtain ⟨c, d, hcd, hc, hd⟩ := pair_sublist_map.mp hyx
    exact hne (h a b c d (pair_sublist_sortByRank.mp hab) (pair_sublist_sortByRank.mp hcd) hd.symm hc.symm)

end CollapseSorted

end Cosmon.Lib.Neighbours
