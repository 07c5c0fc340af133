import Mathlib.Data.List.Basic
import Mathlib.Data.String.Basic

namespace Cosmon.Lib.Text

/-- The Unicode `White_Space` characters. -/
def isWhiteSpace (c : Char) : Bool :=
  c.toNat ∈ [9, 10, 11, 12, 13, 32, 0x85, 0xA0, 0x1680, 0x2028, 0x2029, 0x202F, 0x205F, 0x3000] ||
    (0x2000 ≤ c.toNat && c.toNat ≤ 0x200A)

def trim (text : List Char) : List Char :=
  ((text.dropWhile isWhiteSpace).reverse.dropWhile isWhiteSpace).reverse

def splitOnce (sep : Char) : List Char → Option (List Char × List Char)
  | [] => none
  | c :: rest =>
    if c = sep then some ([], rest)
    else (splitOnce sep rest).map (fun parts => (c :: parts.1, parts.2))

/-- An unsigned number of `width` bits in decimal, with at most one plus sign
before it. -/
def parseUnsigned (width : Nat) (text : List Char) : Option Nat :=
  let digits := if text.head? = some '+' then text.tail else text
  if digits ≠ [] ∧ (digits.all Char.isDigit) = true ∧ Nat.ofDigitChars 10 digits 0 < 2 ^ width then
    some (Nat.ofDigitChars 10 digits 0)
  else none

def isStampChar (c : Char) : Bool := c.isDigit || c ∈ ['-', '+', ':', '.', 'T']

theorem dropWhile_of_none {p : Char → Bool} {text : List Char} (h : ∀ c ∈ text, p c = false) :
    text.dropWhile p = text := by
  cases text with
  | nil => rfl
  | cons c rest => exact List.dropWhile_cons_of_neg (by simp [h c List.mem_cons_self])

theorem trim_of_none {text : List Char} (h : ∀ c ∈ text, isWhiteSpace c = false) : trim text = text := by
  rw [trim, dropWhile_of_none h, dropWhile_of_none (fun c hc => h c (List.mem_reverse.mp hc)),
    List.reverse_reverse]

theorem trim_of_ends {first last : Char} (hfirst : isWhiteSpace first = false)
    (hlast : isWhiteSpace last = false) (middle : List Char) :
    trim (first :: (middle ++ [last])) = first :: (middle ++ [last]) := by
  rw [trim, List.dropWhile_cons_of_neg (by simp [hfirst]), List.reverse_cons, List.reverse_append,
    List.reverse_singleton, List.singleton_append, List.cons_append,
    List.dropWhile_cons_of_neg (by simp [hlast]), List.reverse_cons, List.reverse_append, List.reverse_reverse,
    List.reverse_singleton, List.singleton_append, List.cons_append]

theorem trim_concat {text : List Char} (h : ∀ c ∈ text, isWhiteSpace c = false) {last : Char}
    (hlast : isWhiteSpace last = true) : trim (text ++ [last]) = text := by
  cases text with
  | nil => simp [trim, hlast]
  | cons c rest =>
    rw [trim, List.cons_append, List.dropWhile_cons_of_neg (by simp [h c List.mem_cons_self]),
      ← List.cons_append, List.reverse_append, List.reverse_singleton, List.singleton_append,
      List.dropWhile_cons_of_pos hlast,
      dropWhile_of_none (fun c hc => h c (List.mem_reverse.mp hc)), List.reverse_reverse]

theorem splitOnce_of_none {sep : Char} {front rest : List Char} (h : sep ∉ front) :
    splitOnce sep (front ++ sep :: rest) = some (front, rest) := by
  induction front with
  | nil => simp [splitOnce]
  | cons c front ih =>
    obtain ⟨hc, hfront⟩ := not_or.mp (mt List.mem_cons.mpr h)
    rw [List.cons_append, splitOnce, if_neg (Ne.symm hc), ih hfront]
    rfl

theorem splitOnce_some {sep : Char} {text front rest : List Char}
    (h : splitOnce sep text = some (front, rest)) : text = front ++ sep :: rest ∧ sep ∉ front := by
  induction text generalizing front with
  | nil => cases h
  | cons c text ih =>
    rw [splitOnce] at h
    split at h
    · rename_i hc
      cases h
      exact ⟨congrArg (· :: rest) hc, List.not_mem_nil⟩
    · rename_i hc
      obtain ⟨parts, hparts, heq⟩ := Option.map_eq_some_iff.mp h
      cases heq
      obtain ⟨htext, hfront⟩ := ih hparts
      exact ⟨congrArg (c :: ·) htext, List.not_mem_cons_of_ne_of_not_mem (Ne.symm hc) hfront⟩

theorem splitOnce_eq_none {sep : Char} {text : List Char} : splitOnce sep text = none ↔ sep ∉ text := by
  refine ⟨fun h hmem => ?_, fun h => ?_⟩
  · obtain ⟨front, rest, rfl, hfront⟩ := List.eq_append_cons_of_mem hmem
    rw [splitOnce_of_none hfront] at h
    cases h
  · cases hsplit : splitOnce sep text with
    | none => rfl
    | some parts =>
      obtain ⟨rfl, -⟩ := @splitOnce_some sep text parts.1 parts.2 hsplit
      exact absurd (List.mem_append_right _ List.mem_cons_self) h

theorem append_sep_inj {sep : Char} {a b x y : List Char} (ha : sep ∉ a) (hb : sep ∉ b)
    (h : a ++ sep :: x = b ++ sep :: y) : a = b ∧ x = y := by
  have hsplit := congrArg (splitOnce sep) h
  rw [splitOnce_of_none ha, splitOnce_of_none hb] at hsplit
  cases hsplit
  exact ⟨rfl, rfl⟩

theorem append_sep_inj_right {sep : Char} {a b x y : List Char} (ha : sep ∉ a) (hb : sep ∉ b)
    (h : x ++ sep :: a = y ++ sep :: b) : x = y ∧ a = b := by
  have hreverse := congrArg List.reverse h
  simp only [List.reverse_append, List.reverse_cons, List.append_assoc, List.singleton_append] at hreverse
  obtain ⟨hab, hxy⟩ := append_sep_inj (mt List.mem_reverse.mp ha) (mt List.mem_reverse.mp hb) hreverse
  exact ⟨List.reverse_inj.mp hxy, List.reverse_inj.mp hab⟩

theorem isDigit_toDigits {c : Char} {n : Nat} (h : c ∈ Nat.toDigits 10 n) : c.isDigit :=
  Nat.isDigit_of_mem_toDigits (by decide) (by decide) h

theorem parseUnsigned_toDigits {width n : Nat} (h : n < 2 ^ width) :
    parseUnsigned width (Nat.toDigits 10 n) = some n := by
  have hhead : (Nat.toDigits 10 n).head? ≠ some '+' := by
    intro hplus
    have := isDigit_toDigits (List.mem_of_head? hplus)
    revert this
    decide
  have hall : (Nat.toDigits 10 n).all Char.isDigit = true :=
    List.all_eq_true.mpr (fun c hc => isDigit_toDigits hc)
  simp only [parseUnsigned, if_neg hhead, Nat.ofDigitChars_ten_toDigits]
  exact if_pos ⟨Nat.toDigits_ne_nil, hall, h⟩

theorem append_repr_injective {s : String} {m n : Nat} (h : s ++ m.repr = s ++ n.repr) : m = n := by
  have hlist := congrArg String.toList h
  simp only [String.toList_append, Nat.toList_repr] at hlist
  have hdigits := congrArg (fun digits => Nat.ofDigitChars 10 digits 0) (List.append_cancel_left hlist)
  simpa using hdigits

theorem isWhiteSpace_of_printable {c : Char} (hlow : 33 ≤ c.toNat) (hhigh : c.toNat ≤ 126) :
    isWhiteSpace c = false := by
  simp only [isWhiteSpace, List.mem_cons, List.not_mem_nil, or_false, Bool.or_eq_false_iff,
    decide_eq_false_iff_not, Bool.and_eq_false_iff]
  omega

theorem isWhiteSpace_of_isDigit {c : Char} (h : c.isDigit = true) : isWhiteSpace c = false := by
  obtain ⟨hlow, hhigh⟩ := Char.isDigit_iff_toNat.mp h
  exact isWhiteSpace_of_printable (le_trans (by decide) hlow) (le_trans hhigh (by decide))

end Cosmon.Lib.Text
