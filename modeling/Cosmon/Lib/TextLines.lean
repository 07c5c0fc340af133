import Cosmon.Lib.Lines
import Cosmon.Lib.Text
import Mathlib.Data.List.Infix
import Mathlib.Data.List.TakeWhile

namespace Cosmon.Lib.TextLines

open Cosmon.Lib.Lines Cosmon.Lib.Text

def stripCr (line : List Char) : List Char := if line.getLast? = some '\r' then line.dropLast else line

/-- `str::lines`: what follows the last line end is a line if it is not empty. -/
def textLines (text : List Char) : List (List Char) :=
  (completeLines '\n' text).map stripCr ++
    if (splitLines '\n' text).2 = [] then [] else [(splitLines '\n' text).2]

def joinLines (lines : List (List Char)) : List Char := (lines.map fun l => l ++ ['\n']).flatten

def dropCr : List Char → List Char
  | [] => []
  | c :: rest => if c = '\r' ∧ rest.head? = some '\n' then dropCr rest else c :: dropCr rest

section CarriageReturns

variable {a b l text : List Char} {lines : List (List Char)}

theorem dropCr_append (h : ¬(a.getLast? = some '\r' ∧ b.head? = some '\n')) :
    dropCr (a ++ b) = dropCr a ++ dropCr b := by
  induction a with
  | nil => rfl
  | cons c a ih =>
    cases a with
    | nil =>
      have hfirst : ¬(c = '\r' ∧ b.head? = some '\n') := fun hc => h ⟨congrArg some hc.1, hc.2⟩
      rw [List.singleton_append, dropCr, if_neg hfirst]
      simp [dropCr]
    | cons d a =>
      rw [List.getLast?_cons_cons] at h
      rw [List.cons_append, dropCr, dropCr, ih h]
      by_cases hc : c = '\r' ∧ d = '\n' <;> simp [hc]

theorem dropCr_of_free (h : '\n' ∉ l) : dropCr l = l := by
  induction l with
  | nil => rfl
  | cons c l ih =>
    rw [List.mem_cons, not_or] at h
    rw [dropCr, if_neg, ih h.2]
    rintro ⟨-, hhead⟩
    exact h.2 (List.mem_of_head? hhead)

theorem dropCr_line (h : '\n' ∉ l) : dropCr (l ++ ['\n']) = stripCr l ++ ['\n'] := by
  rw [stripCr]
  by_cases hlast : l.getLast? = some '\r'
  · obtain ⟨front, rfl⟩ := List.getLast?_eq_some_iff.mp hlast
    have hfront : '\n' ∉ front := mt (List.mem_append_left _) h
    rw [if_pos hlast, List.dropLast_concat, List.append_assoc, dropCr_append (by simp), dropCr_of_free hfront]
    rfl
  · rw [if_neg hlast, dropCr_append fun hboth => hlast hboth.1, dropCr_of_free h]
    rfl

theorem dropCr_join (h : ∀ l ∈ lines, '\n' ∉ l) : dropCr (joinLines lines) = joinLines (lines.map stripCr) := by
  induction lines with
  | nil => rfl
  | cons l lines ih =>
    rw [List.forall_mem_cons] at h
    rw [joinLines, List.map_cons, List.flatten_cons, dropCr_append (by simp), dropCr_line h.1, ← joinLines, ih h.2]
    rfl

theorem dropCr_length_le (text : List Char) : (dropCr text).length ≤ text.length := by
  induction text with
  | nil => exact Nat.le_refl 0
  | cons c rest ih =>
    rw [dropCr]
    split
    · exact Nat.le_succ_of_le ih
    · exact Nat.succ_le_succ ih

theorem dropCr_eq_self : dropCr text = text ↔ ¬ ['\r', '\n'] <:+: text := by
  induction text with
  | nil => simp [dropCr]
  | cons c rest ih =>
    have hbegins : ['\r', '\n'] <+: c :: rest ↔ c = '\r' ∧ rest.head? = some '\n' := by
      cases rest <;> simp [eq_comm]
    rw [List.infix_cons_iff, hbegins, not_or, dropCr]
    by_cases hc : c = '\r' ∧ rest.head? = some '\n'
    · rw [if_pos hc]
      refine iff_of_false (fun heq => ?_) fun h => h.1 hc
      have hlength := dropCr_length_le rest
      rw [heq, List.length_cons] at hlength
      omega
    · rw [if_neg hc, List.cons_inj_right, ih, and_iff_right hc]

theorem dropCr_subset {c : Char} (h : c ∈ dropCr text) : c ∈ text := by
  induction text with
  | nil => exact h
  | cons d rest ih =>
    rw [dropCr] at h
    split at h
    · exact List.mem_cons_of_mem d (ih h)
    · rw [List.mem_cons] at h ⊢
      exact h.imp_right ih

end CarriageReturns

section Lines

variable {x y text : List Char} {lines : List (List Char)}

theorem completeLines_free (l : List Char) (h : l ∈ completeLines '\n' text) : '\n' ∉ l := mem_line h

theorem textLines_closed (h : Closed '\n' text) : textLines text = (completeLines '\n' text).map stripCr := by
  rw [textLines, if_pos (show (splitLines '\n' text).2 = [] from h), List.append_nil]

theorem textLines_append (h : Closed '\n' x) (hy : Closed '\n' y) :
    textLines (x ++ y) = textLines x ++ textLines y := by
  rw [textLines_closed h, textLines_closed hy, textLines_closed (closed_append h hy), completeLines_append h,
    List.map_append]

theorem closed_join (h : ∀ l ∈ lines, '\n' ∉ l) : Closed '\n' (joinLines lines) := by
  rw [Closed, joinLines, splitLines_of_join h]

theorem textLines_join (h : ∀ l ∈ lines, '\n' ∉ l) : textLines (joinLines lines) = lines.map stripCr := by
  rw [textLines_closed (closed_join h), completeLines, joinLines, splitLines_of_join h]

theorem join_textLines (h : Closed '\n' text) : joinLines (textLines text) = dropCr text := by
  have hjoin := splitLines_join '\n' text
  rw [show (splitLines '\n' text).2 = [] from h, List.append_nil] at hjoin
  rw [textLines_closed h, ← dropCr_join completeLines_free, joinLines, hjoin]

end Lines

section Trimming

variable {c : Char} {a b text : List Char}

theorem trim_cons (h : isWhiteSpace c = true) (text : List Char) : trim (c :: text) = trim text := by
  rw [trim, List.dropWhile_cons_of_pos h, ← trim]

theorem trim_snoc (h : isWhiteSpace c = true) (text : List Char) : trim (text ++ [c]) = trim text := by
  rw [trim, List.dropWhile_append, trim]
  split
  · rename_i hempty
    rw [List.isEmpty_iff.mp hempty, List.dropWhile_cons_of_pos h]
    rfl
  · rw [List.reverse_append, List.reverse_singleton, List.singleton_append, List.dropWhile_cons_of_pos h]

/-- What white space at either end does not change is so for a text with white space around it. -/
theorem around_induction {P : List Char → Prop} (hcons : ∀ {c t}, isWhiteSpace c = true → P t → P (c :: t))
    (hsnoc : ∀ {c t}, isWhiteSpace c = true → P t → P (t ++ [c])) (h : P text)
    (ha : ∀ c ∈ a, isWhiteSpace c = true) (hb : ∀ c ∈ b, isWhiteSpace c = true) : P (a ++ text ++ b) := by
  induction a with
  | nil =>
    induction b using List.reverseRecOn with
    | nil => rwa [List.nil_append, List.append_nil]
    | append_singleton b c ih =>
      rw [List.forall_mem_append] at hb
      rw [← List.append_assoc]
      exact hsnoc (hb.2 c List.mem_cons_self) (ih hb.1)
  | cons c a ih =>
    rw [List.forall_mem_cons] at ha
    exact hcons ha.1 (ih ha.2)

theorem trim_around (ha : ∀ c ∈ a, isWhiteSpace c = true) (hb : ∀ c ∈ b, isWhiteSpace c = true) :
    trim (a ++ text ++ b) = trim text :=
  @around_induction _ _ _ (fun t => trim t = trim text) (fun hc h => (trim_cons hc _).trans h)
    (fun hc h => (trim_snoc hc _).trans h) rfl ha hb

theorem exists_trim (text : List Char) :
    ∃ a b, text = a ++ trim text ++ b ∧ (∀ c ∈ a, isWhiteSpace c = true) ∧ ∀ c ∈ b, isWhiteSpace c = true := by
  refine ⟨text.takeWhile isWhiteSpace, ((text.dropWhile isWhiteSpace).reverse.takeWhile isWhiteSpace).reverse, ?_,
    fun c hc => List.mem_takeWhile_imp hc, fun c hc => List.mem_takeWhile_imp (List.mem_reverse.mp hc)⟩
  rw [trim, List.append_assoc, ← List.reverse_append, List.takeWhile_append_dropWhile, List.reverse_reverse,
    List.takeWhile_append_dropWhile]

theorem trim_getLast (h : (trim text).getLast? = some c) : isWhiteSpace c = false := by
  rw [trim, List.getLast?_reverse] at h
  have hnot := List.head?_dropWhile_not isWhiteSpace (text.dropWhile isWhiteSpace).reverse
  rw [h] at hnot
  simpa using hnot

theorem trim_head (h : (trim text).head? = some c) : isWhiteSpace c = false := by
  have hbegins : trim text <+: text.dropWhile isWhiteSpace := by
    rw [trim, ← List.reverse_suffix, List.reverse_reverse]
    exact List.dropWhile_suffix _
  obtain ⟨rest, hrest⟩ := hbegins
  have hnot := List.head?_dropWhile_not isWhiteSpace text
  rw [← hrest, List.head?_append, h] at hnot
  simpa using hnot

theorem trim_fixed (hhead : ∀ c, text.head? = some c → isWhiteSpace c = false)
    (hlast : ∀ c, text.getLast? = some c → isWhiteSpace c = false) : trim text = text := by
  have hdrop {text : List Char} (h : ∀ c, text.head? = some c → isWhiteSpace c = false) :
      text.dropWhile isWhiteSpace = text := by
    cases text with
    | nil => rfl
    | cons c rest => exact List.dropWhile_cons_of_neg (by simp [h c rfl])
  rw [trim, hdrop hhead, hdrop, List.reverse_reverse]
  exact fun c hc => hlast c (List.head?_reverse ▸ hc)

theorem trim_trim (text : List Char) : trim (trim text) = trim text :=
  trim_fixed (fun _ => trim_head) fun _ => trim_getLast

/-- The line ends inside a text lose their carriage returns, and those around it are cut off either way. -/
theorem trim_dropCr (text : List Char) : trim (dropCr text) = dropCr (trim text) := by
  obtain ⟨a, b, htext, ha, hb⟩ := exists_trim text
  have hhead {c : Char} := @trim_head c text
  have hlast {c : Char} := @trim_getLast c text
  generalize trim text = core at htext hhead hlast ⊢
  have hfirst : dropCr (a ++ (core ++ b)) = dropCr a ++ dropCr (core ++ b) ∨ core = [] := by
    cases core with
    | nil => exact .inr rfl
    | cons c rest =>
      refine .inl (dropCr_append fun hboth => ?_)
      obtain rfl := Option.some_inj.mp hboth.2
      cases hhead rfl
  have hsecond : dropCr (core ++ b) = dropCr core ++ dropCr b := by
    refine dropCr_append fun hboth => ?_
    cases hlast hboth.1
  obtain hfirst | rfl := hfirst
  · rw [htext, List.append_assoc, hfirst, hsecond, ← List.append_assoc,
      trim_around (fun c hc => ha c (dropCr_subset hc)) fun c hc => hb c (dropCr_subset hc)]
    apply trim_fixed
    · intro c hc
      cases core with
      | nil => cases hc
      | cons d rest =>
        have hd := hhead rfl
        rw [dropCr, if_neg] at hc
        · exact Option.some_inj.mp hc ▸ hd
        · rintro ⟨rfl, -⟩
          cases hd
    · intro c hc
      rcases List.eq_nil_or_concat core with rfl | ⟨front, d, rfl⟩
      · cases hc
      · rw [List.concat_eq_append] at hlast hc
        have hd : isWhiteSpace d = false := hlast List.getLast?_concat
        rw [dropCr_append] at hc
        · simp only [dropCr, List.head?_nil, reduceCtorEq, and_false, if_false, List.getLast?_concat] at hc
          exact Option.some_inj.mp hc ▸ hd
        · rintro ⟨-, hfeed⟩
          obtain rfl := Option.some_inj.mp hfeed
          cases hd
  · rw [List.append_nil] at htext
    have hblank : ∀ c ∈ dropCr text, isWhiteSpace c = true := fun c hc =>
      (List.mem_append.mp (htext ▸ dropCr_subset hc)).elim (ha c) (hb c)
    have hnone := @trim_around [] _ [] (fun c hc => nomatch hc) hblank
    rwa [List.nil_append, List.nil_append] at hnone

end Trimming

section AnyLine

variable {p : List Char → Bool} {c : Char} {last text : List Char} {lines : List (List Char)}

structure OfTrim (p : List Char → Bool) : Prop where
  trimmed : ∀ l, p (trim l) = p l
  blank : p [] = false

def anyPart (p : List Char → Bool) (text : List Char) : Bool :=
  (completeLines '\n' text).any p || p (splitLines '\n' text).2

theorem anyPart_join (hlines : ∀ l ∈ lines, '\n' ∉ l) (hlast : '\n' ∉ last) :
    anyPart p (joinLines lines ++ last) = (lines.any p || p last) := by
  have hsplit : splitLines '\n' (joinLines lines ++ last) = (lines, last) := by
    rw [splitLines_append (closed_join hlines), splitLines_of_not_mem hlast, completeLines, completeLines, joinLines,
      splitLines_of_join hlines, splitLines_of_not_mem hlast, List.append_nil]
  rw [anyPart, completeLines, hsplit]

theorem exists_join (text : List Char) : ∃ lines last, text = joinLines lines ++ last ∧ (∀ l ∈ lines, '\n' ∉ l) ∧
    '\n' ∉ last :=
  ⟨_, _, (splitLines_join '\n' text).symm, completeLines_free, not_mem_unfinished '\n' text⟩

theorem OfTrim.stripCr (hp : OfTrim p) (l : List Char) : p (stripCr l) = p l := by
  rw [TextLines.stripCr]
  split
  · rename_i hlast
    obtain ⟨front, rfl⟩ := List.getLast?_eq_some_iff.mp hlast
    rw [List.dropLast_concat, ← hp.trimmed front, ← hp.trimmed (front ++ _), trim_snoc (by decide)]
  · rfl

theorem OfTrim.textLines (hp : OfTrim p) (text : List Char) : (textLines text).any p = anyPart p text := by
  have hmap : ((completeLines '\n' text).map TextLines.stripCr).any p = (completeLines '\n' text).any p := by
    rw [List.any_map]
    exact congrArg (List.any _) (funext hp.stripCr)
  rw [TextLines.textLines, List.any_append, hmap, anyPart]
  split
  · rename_i hnone
    rw [hnone, hp.blank, List.any_nil]
  · rw [List.any_cons, List.any_nil, Bool.or_false]

theorem OfTrim.cons (hp : OfTrim p) (hc : isWhiteSpace c = true) (text : List Char) :
    anyPart p (c :: text) = anyPart p text := by
  obtain ⟨lines, last, rfl, hlines, hlast⟩ := exists_join text
  have hsame (l : List Char) : p (c :: l) = p l := by rw [← hp.trimmed, trim_cons hc, hp.trimmed]
  rw [anyPart_join hlines hlast]
  by_cases hfeed : c = '\n'
  · subst hfeed
    have hcons : ∀ l ∈ [] :: lines, '\n' ∉ l := List.forall_mem_cons.mpr ⟨List.not_mem_nil, hlines⟩
    exact (anyPart_join hcons hlast).trans (by rw [List.any_cons, hp.blank, Bool.false_or])
  · cases lines with
    | nil =>
      have hcons : '\n' ∉ c :: last := List.not_mem_cons_of_ne_of_not_mem (Ne.symm hfeed) hlast
      exact (@anyPart_join p _ [] (fun _ h => nomatch h) hcons).trans (by rw [hsame])
    | cons l lines =>
      rw [List.forall_mem_cons] at hlines
      have hcons : ∀ l' ∈ (c :: l) :: lines, '\n' ∉ l' := List.forall_mem_cons.mpr
        ⟨List.not_mem_cons_of_ne_of_not_mem (Ne.symm hfeed) hlines.1, hlines.2⟩
      exact (anyPart_join hcons hlast).trans (by rw [List.any_cons, List.any_cons, hsame])

theorem OfTrim.snoc (hp : OfTrim p) (hc : isWhiteSpace c = true) (text : List Char) :
    anyPart p (text ++ [c]) = anyPart p text := by
  obtain ⟨lines, last, rfl, hlines, hlast⟩ := exists_join text
  rw [anyPart_join hlines hlast]
  by_cases hfeed : c = '\n'
  · subst hfeed
    have hmore : ∀ l ∈ lines ++ [last], '\n' ∉ l :=
      List.forall_mem_append.mpr ⟨hlines, List.forall_mem_singleton.mpr hlast⟩
    have hjoin : joinLines lines ++ last ++ ['\n'] = joinLines (lines ++ [last]) ++ [] := by simp [joinLines]
    rw [hjoin, anyPart_join hmore List.not_mem_nil, hp.blank, List.any_append, Bool.or_false, List.any_cons,
      List.any_nil, Bool.or_false]
  · have hmore : '\n' ∉ last ++ [c] := by simpa using ⟨hlast, Ne.symm hfeed⟩
    rw [List.append_assoc, anyPart_join hlines hmore, ← hp.trimmed (last ++ [c]), trim_snoc hc, hp.trimmed]

theorem OfTrim.trim (hp : OfTrim p) (text : List Char) : anyPart p (trim text) = anyPart p text := by
  obtain ⟨a, b, htext, ha, hb⟩ := exists_trim text
  have haround := @around_induction _ _ _ (fun t => anyPart p t = anyPart p (Text.trim text))
    (fun hc h => (hp.cons hc _).trans h) (fun hc h => (hp.snoc hc _).trans h) rfl ha hb
  rw [← htext] at haround
  exact haround.symm

theorem OfTrim.dropCr (hp : OfTrim p) (h : Closed '\n' text) : anyPart p (dropCr text) = anyPart p text := by
  have hlines : ∀ l ∈ TextLines.textLines text, '\n' ∉ l := by
    rw [textLines_closed h]
    intro l hl hfeed
    obtain ⟨l, hmem, rfl⟩ := List.mem_map.mp hl
    rw [TextLines.stripCr] at hfeed
    split at hfeed
    · exact completeLines_free l hmem (List.mem_of_mem_dropLast hfeed)
    · exact completeLines_free l hmem hfeed
  have hjoin := @anyPart_join p _ _ hlines List.not_mem_nil
  rwa [List.append_nil, hp.blank, Bool.or_false, join_textLines h, hp.textLines] at hjoin

end AnyLine

end Cosmon.Lib.TextLines
