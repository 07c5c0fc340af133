import Mathlib.Data.List.Infix

namespace Cosmon.Lib.Occurrences

variable {α : Type} [DecidableEq α]

/-- At how many positions a pattern stands in a text; two of them may overlap. -/
def occurrences (pat text : List α) : Nat :=
  (List.range (text.length + 1 - pat.length)).countP fun i => (text.drop i).take pat.length = pat

def positions (pat text : List α) : List Nat :=
  (List.range (text.length + 1 - pat.length)).filter fun i => (text.drop i).take pat.length = pat

def replaceFirst (pat new : List α) : List α → List α
  | [] => if pat = [] then new else []
  | c :: rest => if pat <+: c :: rest then new ++ (c :: rest).drop pat.length else c :: replaceFirst pat new rest

/-- The pattern stands in the text behind `front` and nowhere else. -/
def Sole (pat front text : List α) : Prop :=
  front ++ pat <+: text ∧ ∀ front', front' ++ pat <+: text → front' = front

variable {pat text front : List α}

omit [DecidableEq α] in
theorem take_drop_of_begins (h : front ++ pat <+: text) : (text.drop front.length).take pat.length = pat := by
  obtain ⟨back, rfl⟩ := h
  rw [List.append_assoc, List.drop_left, List.take_left]

omit [DecidableEq α] in
theorem prefix_of_take_drop {i : Nat} (h : (text.drop i).take pat.length = pat) : text.take i ++ pat <+: text := by
  refine ⟨(text.drop i).drop pat.length, ?_⟩
  rw [List.append_assoc]
  nth_rewrite 1 [← h]
  rw [List.take_append_drop, List.take_append_drop]

omit [DecidableEq α] in
theorem front_of_prefix (h : front ++ pat <+: text) : text.take front.length = front := by
  obtain ⟨back, rfl⟩ := h
  rw [List.append_assoc, List.take_left]

theorem mem_positions {i : Nat} (hpat : pat ≠ []) :
    i ∈ (List.range (text.length + 1 - pat.length)).filter (fun i => (text.drop i).take pat.length = pat) ↔
      (text.drop i).take pat.length = pat := by
  rw [List.mem_filter, decide_eq_true_eq, List.mem_range, and_iff_right_of_imp]
  intro h
  have hlength := congrArg List.length h
  have hpos := List.length_pos_iff.mpr hpat
  rw [List.length_take, List.length_drop] at hlength
  omega

theorem positions_nil (hpat : pat ≠ []) : positions pat [] = [] := by
  have hpos := List.length_pos_iff.mpr hpat
  have hnone : ([] : List α).length + 1 - pat.length = 0 := Nat.sub_eq_zero_of_le hpos
  rw [positions, hnone]
  rfl

theorem positions_sorted : (positions pat text).Pairwise (· < ·) :=
  List.pairwise_lt_range.filter _

theorem positions_concat (hpat : pat ≠ []) (c : α) :
    positions pat (text ++ [c]) =
      positions pat text ++ if pat <:+ text ++ [c] then [text.length + 1 - pat.length] else [] := by
  have hpos := List.length_pos_iff.mpr hpat
  have hlength : (text ++ [c]).length = text.length + 1 := List.length_append
  by_cases hlong : pat.length ≤ text.length + 1
  · have hrange : text.length + 1 + 1 - pat.length = (text.length + 1 - pat.length) + 1 := by omega
    have hearlier : ∀ i ∈ List.range (text.length + 1 - pat.length),
        decide (((text ++ [c]).drop i).take pat.length = pat) = decide ((text.drop i).take pat.length = pat) := by
      intro i hi
      have hi := List.mem_range.mp hi
      rw [List.drop_append_of_le_length (by omega), List.take_append_of_le_length]
      rw [List.length_drop]
      omega
    have hlast : ((text ++ [c]).drop (text.length + 1 - pat.length)).take pat.length = pat ↔ pat <:+ text ++ [c] := by
      rw [List.take_of_length_le, List.suffix_iff_eq_drop, hlength, eq_comm]
      rw [List.length_drop, hlength]
      omega
    rw [positions, positions, hlength, hrange, List.range_succ, List.filter_append, List.filter_congr hearlier,
      List.filter_singleton]
    simp only [hlast, cond_eq_ite, decide_eq_true_eq]
  · have hshort : ¬ pat <:+ text ++ [c] := fun h => hlong (hlength ▸ h.length_le)
    have hnone : text.length + 1 + 1 - pat.length = 0 := by omega
    have hrest : text.length + 1 - pat.length = 0 := by omega
    rw [positions, positions, hlength, hnone, hrest, if_neg hshort]
    rfl

omit [DecidableEq α] in
theorem eq_singleton {a : α} {xs : List α} (hmem : a ∈ xs) (hnodup : xs.Nodup) (hall : ∀ x ∈ xs, x = a) :
    xs = [a] := by
  cases xs with
  | nil => cases hmem
  | cons x rest =>
    obtain rfl := hall x List.mem_cons_self
    cases rest with
    | nil => rfl
    | cons y more =>
      obtain rfl := hall y (List.mem_cons_of_mem _ List.mem_cons_self)
      exact absurd List.mem_cons_self (List.nodup_cons.mp hnodup).1

theorem occurrences_eq_one (hpat : pat ≠ []) : occurrences pat text = 1 ↔ ∃ front, Sole pat front text := by
  rw [occurrences, List.countP_eq_length_filter, List.length_eq_one_iff]
  constructor
  · rintro ⟨i, hi⟩
    have hself : (text.drop i).take pat.length = pat := (mem_positions hpat).mp (hi ▸ List.mem_singleton_self i)
    refine ⟨text.take i, prefix_of_take_drop hself, fun front' h => ?_⟩
    have hmem := (mem_positions hpat).mpr (take_drop_of_begins h)
    rw [hi, List.mem_singleton] at hmem
    rw [← hmem, front_of_prefix h]
  · rintro ⟨front, hfront, honly⟩
    refine ⟨front.length, eq_singleton ((mem_positions hpat).mpr (take_drop_of_begins hfront))
      (List.nodup_range.filter _) fun i hi => ?_⟩
    have hat := (mem_positions hpat).mp hi
    have hsame := congrArg List.length (honly _ (prefix_of_take_drop hat))
    rw [List.mem_filter, List.mem_range] at hi
    rw [List.length_take] at hsame
    omega

theorem occurrences_cons (hpat : pat ≠ []) (c : α) (rest : List α) :
    occurrences pat (c :: rest) = (if pat <+: c :: rest then 1 else 0) + occurrences pat rest := by
  have hpos := List.length_pos_iff.mpr hpat
  rw [occurrences, occurrences, List.length_cons]
  by_cases hlong : pat.length ≤ rest.length + 1
  · have hrange : rest.length + 1 + 1 - pat.length = (rest.length + 1 - pat.length) + 1 := by omega
    have hfirst : (c :: rest).take pat.length = pat ↔ pat <+: c :: rest := by
      rw [List.prefix_iff_eq_take, eq_comm]
    rw [hrange, List.range_succ_eq_map, List.countP_cons, List.countP_map, Nat.add_comm]
    simp only [List.drop_zero, decide_eq_true_eq, hfirst]
    rfl
  · have hshort : ¬ pat <+: c :: rest := fun h => hlong h.length_le
    have hnone : rest.length + 1 + 1 - pat.length = 0 := by omega
    have hrest : rest.length + 1 - pat.length = 0 := by omega
    rw [if_neg hshort, hnone, hrest]
    rfl

theorem occurrences_nil (hpat : pat ≠ []) : occurrences pat [] = 0 := by
  have hpos := List.length_pos_iff.mpr hpat
  have hnone : ([] : List α).length + 1 - pat.length = 0 := Nat.sub_eq_zero_of_le hpos
  rw [occurrences, hnone]
  rfl

theorem occurrences_eq_zero (hpat : pat ≠ []) : occurrences pat text = 0 ↔ ¬ pat <:+: text := by
  induction text with
  | nil => exact iff_of_true (occurrences_nil hpat) fun h => hpat (List.infix_nil.mp h)
  | cons c rest ih =>
    rw [occurrences_cons hpat, List.infix_cons_iff, not_or, ← ih, Nat.add_eq_zero_iff]
    by_cases h : pat <+: c :: rest
    · simp [h]
    · simp [h]

omit [DecidableEq α] in
theorem prefix_cut {c : α} (hc : c ∉ pat) (front back : List α) : pat <+: front ++ c :: back ↔ pat <+: front := by
  refine ⟨fun h => ?_, fun h => h.trans (List.prefix_append front _)⟩
  obtain h | ⟨more, rfl⟩ := List.prefix_or_prefix_of_prefix h (List.prefix_append front (c :: back))
  · exact h
  · cases more with
    | nil => rw [List.append_nil]
    | cons first more =>
      rw [List.prefix_append_right_inj] at h
      obtain ⟨rfl, -⟩ := List.cons_prefix_cons.mp h
      exact absurd (List.mem_append_right front List.mem_cons_self) hc

theorem occurrences_cut {c : α} (hpat : pat ≠ []) (hc : c ∉ pat) (front back : List α) :
    occurrences pat (front ++ c :: back) = occurrences pat front + occurrences pat back := by
  induction front with
  | nil =>
    have hno : ¬ pat <+: c :: back := fun h => hpat (List.prefix_nil.mp ((prefix_cut hc [] back).mp h))
    rw [List.nil_append, occurrences_cons hpat, if_neg hno, occurrences_nil hpat]
  | cons first front ih =>
    have hsame : pat <+: first :: (front ++ c :: back) ↔ pat <+: first :: front := prefix_cut hc (first :: front) back
    rw [List.cons_append, occurrences_cons hpat, occurrences_cons hpat, ih, if_congr hsame rfl rfl, Nat.add_assoc]

theorem occurrences_lacking {c : α} {more : List α} (h : c ∉ text) : occurrences (c :: more) text = 0 :=
  (occurrences_eq_zero (List.cons_ne_nil c more)).mpr fun hoccurs => h (hoccurs.subset List.mem_cons_self)

theorem replaceFirst_sole {back : List α} (hpat : pat ≠ []) (h : Sole pat front (front ++ pat ++ back))
    (new : List α) : replaceFirst pat new (front ++ pat ++ back) = front ++ new ++ back := by
  induction front with
  | nil =>
    obtain ⟨c, rest, rfl⟩ := List.exists_cons_of_ne_nil hpat
    have hbegins : c :: rest <+: c :: (rest ++ back) := List.prefix_append (c :: rest) back
    rw [List.nil_append, List.cons_append, replaceFirst, if_pos hbegins, ← List.cons_append, List.drop_left,
      List.nil_append]
  | cons c front ih =>
    have hlater : ¬ pat <+: c :: (front ++ pat ++ back) := by
      intro hbegins
      cases h.2 [] hbegins
    have hrest : Sole pat front (front ++ pat ++ back) := by
      refine ⟨List.prefix_append _ back, fun front' hbegins => ?_⟩
      exact (List.cons.inj (h.2 (c :: front') ((List.prefix_cons_inj c).mpr hbegins))).2
    rw [List.cons_append, List.cons_append, replaceFirst, if_neg hlater, ih hrest, List.cons_append, List.cons_append]

end Cosmon.Lib.Occurrences
