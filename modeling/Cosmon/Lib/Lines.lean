import Mathlib.Algebra.GroupWithZero.Nat
import Mathlib.Data.List.Basic

namespace Cosmon.Lib.Lines

variable {α : Type}

def span (lines : List (List α)) : Nat := (lines.map fun l => l.length + 1).sum

@[simp] theorem span_nil : span ([] : List (List α)) = 0 := rfl

@[simp] theorem span_cons (l : List α) (ls : List (List α)) :
    span (l :: ls) = l.length + 1 + span ls := rfl

theorem length_join (nl : α) (lines : List (List α)) :
    (lines.map fun l => l ++ [nl]).flatten.length = span lines := by
  induction lines with
  | nil => rfl
  | cons l ls ih =>
    rw [List.map_cons, List.flatten_cons, List.length_append, ih, span_cons, List.length_append]
    rfl

variable [DecidableEq α]

/-- Cut a text into its complete lines, each ended by `nl`, and the partial
line that is left. -/
def splitLines (nl : α) : List α → List (List α) × List α
  | [] => ([], [])
  | b :: bs =>
    let rest := splitLines nl bs
    if b = nl then ([] :: rest.1, rest.2)
    else
      match rest.1 with
      | [] => ([], b :: rest.2)
      | l :: ls => ((b :: l) :: ls, rest.2)

attribute [local simp] splitLines

def completeLines (nl : α) (text : List α) : List (List α) := (splitLines nl text).1

def consumed (nl : α) (text : List α) : Nat := text.length - (splitLines nl text).2.length

/-- A text is closed when it ends with a complete line, or is empty. -/
def Closed (nl : α) (text : List α) : Prop := (splitLines nl text).2 = []

instance (nl : α) (text : List α) : Decidable (Closed nl text) :=
  inferInstanceAs (Decidable (_ = _))

theorem closed_nil (nl : α) : Closed nl [] := rfl

theorem splitLines_append {nl : α} {xs : List α} (h : Closed nl xs) (ys : List α) :
    splitLines nl (xs ++ ys) =
      (completeLines nl xs ++ completeLines nl ys, (splitLines nl ys).2) := by
  induction xs with
  | nil => rfl
  | cons b xs ih =>
    simp only [Closed, splitLines, completeLines] at h ih ⊢
    by_cases hb : b = nl
    · simp only [hb, if_true] at h
      simp only [List.cons_append, splitLines, hb, if_true, ih h]
    · simp only [hb, if_false] at h
      simp only [List.cons_append, splitLines, hb, if_false]
      cases hl : (splitLines nl xs).1 with
      | nil =>
        rw [hl] at h
        cases h
      | cons l ls =>
        rw [hl] at h
        rw [ih h, hl]
        rfl

theorem completeLines_append {nl : α} {xs : List α} (h : Closed nl xs) (ys : List α) :
    completeLines nl (xs ++ ys) = completeLines nl xs ++ completeLines nl ys := by
  rw [completeLines, splitLines_append h]

theorem closed_append {nl : α} {xs ys : List α} (hx : Closed nl xs) (hy : Closed nl ys) :
    Closed nl (xs ++ ys) := by
  rw [Closed, splitLines_append hx]
  exact hy

theorem splitLines_line {nl : α} {l : List α} (h : nl ∉ l) : splitLines nl (l ++ [nl]) = ([l], []) := by
  induction l with
  | nil => simp
  | cons b l ih =>
    obtain ⟨hb, hl⟩ := not_or.mp (mt List.mem_cons.mpr h)
    simp only [List.cons_append, splitLines, Ne.symm hb, if_false, ih hl]

theorem closed_line {nl : α} {l : List α} (h : nl ∉ l) : Closed nl (l ++ [nl]) := by
  rw [Closed, splitLines_line h]

theorem completeLines_line {nl : α} {l : List α} (h : nl ∉ l) : completeLines nl (l ++ [nl]) = [l] := by
  rw [completeLines, splitLines_line h]

theorem splitLines_join (nl : α) (text : List α) :
    ((completeLines nl text).map fun l => l ++ [nl]).flatten ++ (splitLines nl text).2 = text := by
  induction text with
  | nil => rfl
  | cons b text ih =>
    simp only [completeLines, splitLines] at ih ⊢
    by_cases hb : b = nl
    · subst hb
      simpa using ih
    · simp only [hb, if_false]
      cases hl : (splitLines nl text).1 with
      | nil =>
        rw [hl] at ih
        simpa using ih
      | cons l ls =>
        rw [hl] at ih
        simpa using ih

theorem not_mem_unfinished (nl : α) (text : List α) : nl ∉ (splitLines nl text).2 := by
  induction text with
  | nil => exact List.not_mem_nil
  | cons b text ih =>
    simp only [splitLines]
    by_cases hb : b = nl
    · rw [if_pos hb]
      exact ih
    · rw [if_neg hb]
      cases (splitLines nl text).1 with
      | nil => exact mt List.mem_cons.mp (not_or.mpr ⟨Ne.symm hb, ih⟩)
      | cons l ls => exact ih

theorem splitLines_of_not_mem {nl : α} {text : List α} (h : nl ∉ text) :
    splitLines nl text = ([], text) := by
  induction text with
  | nil => rfl
  | cons b text ih =>
    obtain ⟨hb, htext⟩ := not_or.mp (mt List.mem_cons.mpr h)
    simp only [splitLines, Ne.symm hb, if_false, ih htext]

theorem completeLines_cons {nl : α} {l : List α} (h : nl ∉ l) (rest : List α) :
    completeLines nl (l ++ nl :: rest) = l :: completeLines nl rest := by
  rw [List.append_cons, completeLines_append (closed_line h), completeLines_line h]
  rfl

theorem length_completeLines (nl : α) (text : List α) :
    (completeLines nl text).length = text.countP (fun b => b = nl) := by
  induction text with
  | nil => rfl
  | cons b text ih =>
    simp only [completeLines, splitLines] at ih ⊢
    by_cases hb : b = nl
    · simp only [hb, if_true, List.length_cons, List.countP_cons, decide_true, ih]
    · simp only [hb, if_false, List.countP_cons, decide_false, ← ih]
      cases (splitLines nl text).1 with
      | nil => rfl
      | cons l ls => rfl

theorem closed_iff {nl : α} {text : List α} :
    Closed nl text ↔ text = [] ∨ text.getLast? = some nl := by
  induction text with
  | nil => simp [closed_nil]
  | cons b text ih =>
    cases text with
    | nil =>
      by_cases hb : b = nl
      · simp [Closed, hb]
      · simp [Closed, hb]
    | cons c text =>
      rw [List.getLast?_cons_cons]
      have hrest : Closed nl (b :: c :: text) ↔ Closed nl (c :: text) := by
        by_cases hb : b = nl
        · rw [Closed, splitLines, if_pos hb]
          exact Iff.rfl
        · have hjoin := splitLines_join nl (c :: text)
          rw [Closed, splitLines, if_neg hb]
          simp only [Closed, completeLines] at hjoin ⊢
          cases hl : (splitLines nl (c :: text)).1 with
          | nil =>
            rw [hl] at hjoin
            constructor
            · intro h
              cases h
            · intro h
              rw [h] at hjoin
              cases hjoin
          | cons l ls => exact Iff.rfl
      rw [hrest, ih]
      simp

theorem mem_line {nl : α} {text l : List α} (h : l ∈ completeLines nl text) : nl ∉ l := by
  induction text generalizing l with
  | nil => cases h
  | cons b text ih =>
    simp only [completeLines, splitLines] at ih h
    by_cases hb : b = nl
    · simp only [hb, if_true, List.mem_cons] at h
      cases h with
      | inl h => rw [h]; exact List.not_mem_nil
      | inr h => exact ih h
    · simp only [hb, if_false] at h
      cases hl : (splitLines nl text).1 with
      | nil => rw [hl] at h; cases h
      | cons a ls =>
        rw [hl] at h ih
        cases List.mem_cons.mp h with
        | inl h =>
          rw [h]
          exact mt List.mem_cons.mp (not_or.mpr ⟨Ne.symm hb, ih List.mem_cons_self⟩)
        | inr h => exact ih (List.mem_cons_of_mem _ h)

theorem splitLines_of_join {nl : α} {lines : List (List α)} (h : ∀ l ∈ lines, nl ∉ l) :
    splitLines nl (lines.map fun l => l ++ [nl]).flatten = (lines, []) := by
  induction lines with
  | nil => rfl
  | cons l ls ih =>
    have hl := h l List.mem_cons_self
    have hrest := ih fun a ha => h a (List.mem_cons_of_mem _ ha)
    rw [List.map_cons, List.flatten_cons, splitLines_append (closed_line hl), hrest,
      completeLines_line hl, completeLines, hrest]
    rfl

theorem splitLines_append_line {nl : α} {l : List α} (h : nl ∉ l) (text : List α) :
    splitLines nl (text ++ (l ++ [nl])) = (completeLines nl text ++ [(splitLines nl text).2 ++ l], []) := by
  have hjoin := splitLines_join nl text
  have hlines (l : List α) (hl : l ∈ completeLines nl text) : nl ∉ l := mem_line hl
  have hsplit := splitLines_of_join hlines
  have hline : nl ∉ (splitLines nl text).2 ++ l :=
    mt List.mem_append.mp (not_or.mpr ⟨not_mem_unfinished nl text, h⟩)
  have hclosed : Closed nl ((completeLines nl text).map fun l => l ++ [nl]).flatten := by
    rw [Closed, hsplit]
  have htext : ((completeLines nl text).map fun l => l ++ [nl]).flatten ++
      (((splitLines nl text).2 ++ l) ++ [nl]) = text ++ (l ++ [nl]) := by
    rw [List.append_assoc (splitLines nl text).2, ← List.append_assoc _ (splitLines nl text).2, hjoin]
  rw [← htext, splitLines_append hclosed, completeLines_line hline, splitLines_line hline, completeLines, hsplit]

theorem take_span (nl : α) (text : List α) (n : Nat) :
    span ((completeLines nl text).take n) ≤ text.length ∧
      Closed nl (text.take (span ((completeLines nl text).take n))) ∧
      completeLines nl (text.take (span ((completeLines nl text).take n))) =
        (completeLines nl text).take n := by
  have hjoin := splitLines_join nl text
  rw [← List.take_append_drop n (completeLines nl text), List.map_append, List.flatten_append,
    List.append_assoc] at hjoin
  have hlen := length_join nl ((completeLines nl text).take n)
  have htake : text.take (span ((completeLines nl text).take n)) =
      (((completeLines nl text).take n).map fun l => l ++ [nl]).flatten := by
    refine Eq.trans (congrArg (List.take (span ((completeLines nl text).take n))) hjoin.symm) ?_
    rw [← hlen]
    exact List.take_left
  have hfree : ∀ l ∈ (completeLines nl text).take n, nl ∉ l :=
    fun l hl => mem_line (List.mem_of_mem_take hl)
  have hsplit := splitLines_of_join hfree
  refine ⟨?_, ?_, ?_⟩
  · rw [← hlen, ← htake]
    exact List.length_take_le' _ _
  · rw [htake, Closed, hsplit]
  · rw [htake, completeLines, hsplit]

theorem consumed_eq_span (nl : α) (text : List α) : consumed nl text = span (completeLines nl text) := by
  have hlen := congrArg List.length (splitLines_join nl text)
  rw [List.length_append, length_join] at hlen
  rw [consumed]
  omega

theorem take_consumed (nl : α) (text : List α) :
    consumed nl text ≤ text.length ∧ Closed nl (text.take (consumed nl text)) ∧
      completeLines nl (text.take (consumed nl text)) = completeLines nl text := by
  have h := take_span nl text (completeLines nl text).length
  rw [List.take_length] at h
  rw [consumed_eq_span]
  exact h

theorem consumed_of_closed {nl : α} {text : List α} (h : Closed nl text) :
    consumed nl text = text.length := by
  rw [consumed, h, List.length_nil, Nat.sub_zero]

theorem completeLines_prefix (nl : α) (text more : List α) :
    completeLines nl text <+: completeLines nl (text ++ more) := by
  obtain ⟨-, hclosed, hlines⟩ := take_consumed nl text
  rw [← hlines, ← List.take_append_drop (consumed nl text) text, List.append_assoc,
    completeLines_append hclosed, List.take_append_drop]
  exact List.prefix_append _ _

end Cosmon.Lib.Lines
