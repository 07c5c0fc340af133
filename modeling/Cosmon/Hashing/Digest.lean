import Cosmon.Lib.Bytes
import Mathlib.Data.List.DropRight
import Mathlib.Data.List.Infix

namespace Cosmon.Hashing.Digest

open Cosmon.Lib.Bytes

structure Hash where
  bytes : List UInt8
  size : bytes.length = 32
deriving DecidableEq

def Hash.toHex (h : Hash) : String := String.ofList (hexText h.bytes)

theorem Hash.toHex_injective {a b : Hash} (h : a.toHex = b.toHex) : a = b := by
  cases a with
  | mk as _ =>
    cases b with
    | mk bs _ =>
      obtain rfl : as = bs := hexText_injective (String.ofList_injective h)
      rfl

theorem Hash.toHex_digits (h : Hash) :
    h.toHex.toList.length = 64 ∧ ∀ c ∈ h.toHex.toList, isHexDigit c = true := by
  rw [Hash.toHex, String.toList_ofList, hexText_length, h.size]
  exact ⟨rfl, fun c => isHexDigit_hexText⟩

end Cosmon.Hashing.Digest

namespace Cosmon.Hashing.CanonicalText

open Cosmon.Lib.Bytes

def lf : Char := '\n'

def cr : Char := '\r'

def bom : Char := '\uFEFF'

/-- Step 2: one byte order mark at the start is cut off. -/
def stripBom (text : List Char) : List Char := if text.head? = some bom then text.tail else text

/-- Step 4: a carriage return with the line feed after it, or alone, becomes one line feed. -/
def foldEndings : List Char → List Char
  | [] => []
  | [c] => if c = cr then [lf] else [c]
  | c :: d :: rest =>
    if c = cr then if d = lf then lf :: foldEndings rest else lf :: foldEndings (d :: rest)
    else c :: foldEndings (d :: rest)

/-- `while out.ends_with("\n\n") pop`, over the reversed text. -/
def popFeeds : List Char → List Char
  | [] => []
  | c :: rest => if c = lf ∧ rest.head? = some lf then popFeeds rest else c :: rest

/-- Step 5: one line feed at the end. -/
def finish (out : List Char) : List Char :=
  let out := (popFeeds out.reverse).reverse
  if out.getLast? = some lf then out else out ++ [lf]

/-- The recipe, over the normal form C `nfc` of a text. -/
def canonicalText (nfc : List Char → List Char) (text : String) : String :=
  String.ofList (finish (foldEndings (nfc (stripBom text.toList))))

def canonicalTextBytes (nfc : List Char → List Char) (text : String) : List UInt8 := utf8 (canonicalText nfc text)

inductive CanonicalTextError where
  | invalidUtf8
deriving DecidableEq

def canonicalTextFromBytes (nfc : List Char → List Char) (bytes : List UInt8) :
    Except CanonicalTextError (List UInt8) :=
  match String.fromUTF8? ⟨bytes.toArray⟩ with
  | none => .error .invalidUtf8
  | some text => .ok (canonicalTextBytes nfc text)

/-- What stands on its own in a normal form: the line endings and the byte order mark. -/
def Apart (c : Char) : Prop := c = cr ∨ c = lf ∨ c = bom

/-- What is relied on of the normalisation: it is idempotent, empties no text, and leaves these
characters alone, so that a text is normalised on either side of them. -/
structure Normalizes (nfc : List Char → List Char) : Prop where
  idempotent : ∀ s, nfc (nfc s) = nfc s
  empty : ∀ s, nfc s = [] ↔ s = []
  around : ∀ c, Apart c → ∀ front back, nfc (front ++ c :: back) = nfc front ++ c :: nfc back
  fresh : ∀ c, Apart c → ∀ s, c ∈ nfc s → c ∈ s

/-- Line feeds of a text written as a carriage return with a line feed, or as a carriage return that
no line feed follows. The flag says whether a carriage return of the text comes before: a line feed
after one is a part of that line ending, and stays. -/
inductive Respelled : Bool → List Char → List Char → Prop where
  | nil (afterCr : Bool) : Respelled afterCr [] []
  | keep (afterCr : Bool) (c : Char) {text text' : List Char} :
      Respelled (decide (c = cr)) text text' → Respelled afterCr (c :: text) (c :: text')
  | crlf {text text' : List Char} : Respelled false text text' → Respelled false (lf :: text) (cr :: lf :: text')
  | lone {text text' : List Char} : Respelled false text text' → text'.head? ≠ some lf →
      Respelled false (lf :: text) (cr :: text')

section Finishing

def Canonical (out : List Char) : Prop :=
  cr ∉ out ∧ ∃ body, out = body ++ [lf] ∧ body.getLast? ≠ some lf

theorem Canonical.tail {c : Char} {rest : List Char} (h : Canonical (c :: rest)) (hc : c ≠ lf) : Canonical rest := by
  obtain ⟨hcr, body, heq, hlast⟩ := h
  cases body with
  | nil => exact absurd (List.cons.inj heq).1 hc
  | cons d body =>
    obtain ⟨rfl, rfl⟩ := List.cons.inj heq
    refine ⟨mt (List.mem_cons_of_mem c) hcr, body, rfl, fun hlf => hlast ?_⟩
    rw [List.getLast?_cons, hlf]
    rfl

theorem popFeeds_eq (text : List Char) :
    popFeeds text = (if text.head? = some lf then [lf] else []) ++ text.dropWhile (· = lf) := by
  induction text with
  | nil => rfl
  | cons c rest ih =>
    rw [popFeeds]
    by_cases hc : c = lf
    · have hdrop : (c :: rest).dropWhile (· = lf) = rest.dropWhile (· = lf) :=
        List.dropWhile_cons_of_pos (decide_eq_true hc)
      rw [hdrop, List.head?_cons, hc, if_pos rfl]
      by_cases hrest : rest.head? = some lf
      · rw [if_pos ⟨rfl, hrest⟩, ih, if_pos hrest]
      · have hkeep : rest.dropWhile (· = lf) = rest := by
          cases rest with
          | nil => rfl
          | cons d rest =>
            apply List.dropWhile_cons_of_neg
            rw [decide_eq_true_eq]
            exact fun hd => hrest (congrArg some hd)
        rw [if_neg (fun h => hrest h.2), hkeep]
        rfl
    · have hdrop : (c :: rest).dropWhile (· = lf) = c :: rest :=
        List.dropWhile_cons_of_neg (by rwa [decide_eq_true_eq])
      rw [if_neg (fun h => hc h.1), hdrop, List.head?_cons, if_neg (fun h => hc (Option.some.inj h))]
      rfl

theorem rdropWhile_last (out : List Char) : (out.rdropWhile (· = lf)).getLast? ≠ some lf := by
  intro h
  have hne : out.rdropWhile (· = lf) ≠ [] := by
    intro hnil
    rw [hnil] at h
    cases h
  rw [List.getLast?_eq_some_getLast hne] at h
  exact List.rdropWhile_last_not (· = lf) out hne (decide_eq_true (Option.some.inj h))

theorem finish_eq (out : List Char) : finish out = out.rdropWhile (· = lf) ++ [lf] := by
  rw [finish, popFeeds_eq, List.reverse_append, ← List.rdropWhile]
  split
  · exact if_pos List.getLast?_concat
  · rw [List.reverse_nil, List.append_nil]
    exact if_neg (rdropWhile_last out)

theorem finish_canonical {out : List Char} (h : cr ∉ out) : Canonical (finish out) := by
  rw [finish_eq]
  refine ⟨?_, _, rfl, rdropWhile_last out⟩
  rw [List.mem_append, List.mem_singleton, not_or]
  exact ⟨fun hmem => h ((List.rdropWhile_prefix (· = lf) out).subset hmem), by decide⟩

theorem finish_of_canonical {out : List Char} (h : Canonical out) : finish out = out := by
  obtain ⟨-, body, rfl, hlast⟩ := h
  have hbody : body.rdropWhile (· = lf) = body := by
    rw [List.rdropWhile_eq_self_iff]
    intro hne hlf
    apply hlast
    rw [List.getLast?_eq_some_getLast hne, of_decide_eq_true hlf]
  have hpos : (body ++ [lf]).rdropWhile (· = lf) = body.rdropWhile (· = lf) :=
    List.rdropWhile_concat_pos _ _ _ (decide_eq_true rfl)
  rw [finish_eq, hpos, hbody]

attribute [local simp] foldEndings

theorem foldEndings_no_cr (text : List Char) : cr ∉ foldEndings text := by
  fun_induction foldEndings text with
  | case1 => exact List.not_mem_nil
  | case2 => decide
  | case3 c h => exact fun hmem => h (List.mem_singleton.mp hmem).symm
  | case4 rest ih => exact List.not_mem_cons_of_ne_of_not_mem (by decide) ih
  | case5 d rest _ ih => exact List.not_mem_cons_of_ne_of_not_mem (by decide) ih
  | case6 c d rest h ih => exact List.not_mem_cons_of_ne_of_not_mem (Ne.symm h) ih

theorem foldEndings_cons {c : Char} (h : c ≠ cr) (rest : List Char) :
    foldEndings (c :: rest) = c :: foldEndings rest := by
  cases rest with
  | nil => exact if_neg h
  | cons d rest => simp [h]

theorem foldEndings_crlf (rest : List Char) : foldEndings (cr :: lf :: rest) = lf :: foldEndings rest := by
  simp

theorem foldEndings_cr {rest : List Char} (h : rest.head? ≠ some lf) :
    foldEndings (cr :: rest) = lf :: foldEndings rest := by
  cases rest with
  | nil => rfl
  | cons d rest => rw [foldEndings, if_pos rfl, if_neg fun hd => h (congrArg some hd)]

theorem foldEndings_append {front : List Char} (h : cr ∉ front) (rest : List Char) :
    foldEndings (front ++ rest) = front ++ foldEndings rest := by
  induction front with
  | nil => rfl
  | cons c front ih =>
    rw [List.mem_cons, not_or] at h
    rw [List.cons_append, foldEndings_cons (Ne.symm h.1), ih h.2, List.cons_append]

theorem foldEndings_of_no_cr {text : List Char} (h : cr ∉ text) : foldEndings text = text := by
  have happend := foldEndings_append h []
  rwa [List.append_nil, foldEndings, List.append_nil] at happend

end Finishing

section Normal

variable {nfc : List Char → List Char}

theorem first_apart (text : List Char) :
    (∀ c ∈ text, ¬ Apart c) ∨ ∃ front c back, text = front ++ c :: back ∧ Apart c ∧ ∀ d ∈ front, ¬ Apart d := by
  induction text with
  | nil => exact Or.inl fun c hc => absurd hc List.not_mem_nil
  | cons a text ih =>
    by_cases ha : Apart a
    · exact Or.inr ⟨[], a, text, rfl, ha, fun d hd => absurd hd List.not_mem_nil⟩
    · obtain hnone | ⟨front, c, back, rfl, hc, hfront⟩ := ih
      · exact Or.inl (List.forall_mem_cons.mpr ⟨ha, hnone⟩)
      · exact Or.inr ⟨a :: front, c, back, rfl, hc, List.forall_mem_cons.mpr ⟨ha, hfront⟩⟩

theorem append_apart_inj {a b x y : List Char} {c d : Char} (hc : Apart c) (hd : Apart d) (ha : ∀ e ∈ a, ¬ Apart e)
    (hb : ∀ e ∈ b, ¬ Apart e) (h : a ++ c :: x = b ++ d :: y) : a = b ∧ c = d ∧ x = y := by
  induction a generalizing b with
  | nil =>
    cases b with
    | nil =>
      cases h
      exact ⟨rfl, rfl, rfl⟩
    | cons e b =>
      obtain ⟨rfl, -⟩ := List.cons.inj h
      exact absurd hc (hb c List.mem_cons_self)
  | cons e a ih =>
    rw [List.forall_mem_cons] at ha
    cases b with
    | nil =>
      obtain ⟨rfl, -⟩ := List.cons.inj h
      exact absurd hd ha.1
    | cons e' b =>
      rw [List.forall_mem_cons] at hb
      obtain ⟨rfl, hrest⟩ := List.cons.inj h
      obtain ⟨rfl, hcd, hxy⟩ := ih ha.2 hb.2 hrest
      exact ⟨rfl, hcd, hxy⟩

theorem Normalizes.plain (hnfc : Normalizes nfc) {text : List Char} (h : ∀ c ∈ text, ¬ Apart c) :
    ∀ c ∈ nfc text, ¬ Apart c := fun c hc happart => h c (hnfc.fresh c happart text hc) happart

theorem Normalizes.normal_append (hnfc : Normalizes nfc) {c : Char} (hc : Apart c) (front back : List Char) :
    nfc (front ++ c :: back) = front ++ c :: back ↔ nfc front = front ∧ nfc back = back := by
  constructor
  · intro h
    induction hlength : front.length using Nat.strongRecOn generalizing front with
    | ind n ih =>
      subst hlength
      obtain hnone | ⟨before, d, after, rfl, hd, hbefore⟩ := first_apart front
      · rw [hnfc.around c hc] at h
        obtain ⟨hfront, -, hback⟩ := append_apart_inj hc hc (hnfc.plain hnone) hnone h
        exact ⟨hfront, hback⟩
      · rw [List.append_assoc, List.cons_append, hnfc.around d hd] at h
        obtain ⟨hbefore', -, hrest⟩ := append_apart_inj hd hd (hnfc.plain hbefore) hbefore h
        have hshort : after.length < (before ++ d :: after).length := by
          rw [List.length_append, List.length_cons]
          omega
        obtain ⟨hafter, hback⟩ := ih after.length hshort after hrest rfl
        exact ⟨by rw [hnfc.around d hd, hbefore', hafter], hback⟩
  · rintro ⟨hfront, hback⟩
    rw [hnfc.around c hc, hfront, hback]

theorem apart_lf : Apart lf := Or.inr (Or.inl rfl)

theorem apart_cr : Apart cr := Or.inl rfl

theorem apart_bom : Apart bom := Or.inr (Or.inr rfl)

theorem normal_foldEndings (hnfc : Normalizes nfc) {text : List Char} (h : nfc text = text) :
    nfc (foldEndings text) = foldEndings text := by
  induction hlength : text.length using Nat.strongRecOn generalizing text with
  | ind n ih =>
    subst hlength
    obtain hnone | ⟨front, c, back, rfl, hc, hfront⟩ := first_apart text
    · rwa [foldEndings_of_no_cr fun hmem => hnone cr hmem apart_cr]
    · obtain ⟨hnormal, hback⟩ := (hnfc.normal_append hc front back).mp h
      have hshort : back.length < (front ++ c :: back).length := by
        rw [List.length_append, List.length_cons]
        omega
      rw [foldEndings_append (fun hmem => hfront cr hmem apart_cr)]
      by_cases hcr : c = cr
      · subst hcr
        cases back with
        | nil => exact (hnfc.normal_append apart_lf front []).mpr ⟨hnormal, hback⟩
        | cons d back =>
          by_cases hd : d = lf
          · subst hd
            have hrest := ((hnfc.normal_append apart_lf [] back).mp hback).2
            rw [foldEndings_crlf]
            exact (hnfc.normal_append apart_lf front _).mpr
              ⟨hnormal, ih back.length (lt_trans (Nat.lt_succ_self _) hshort) hrest rfl⟩
          · have hnext : (d :: back).head? ≠ some lf := fun hlf => hd (Option.some.inj hlf)
            rw [foldEndings_cr hnext]
            exact (hnfc.normal_append apart_lf front _).mpr ⟨hnormal, ih _ hshort hback rfl⟩
      · rw [foldEndings_cons hcr]
        exact (hnfc.normal_append hc front _).mpr ⟨hnormal, ih _ hshort hback rfl⟩

theorem normal_finish (hnfc : Normalizes nfc) {text : List Char} (h : nfc text = text) :
    nfc (finish text) = finish text := by
  have hbody : nfc (text.rdropWhile (· = lf)) = text.rdropWhile (· = lf) := by
    induction text using List.reverseRecOn with
    | nil => exact h
    | append_singleton text c ih =>
      by_cases hc : c = lf
      · subst hc
        have hpos : (text ++ [lf]).rdropWhile (· = lf) = text.rdropWhile (· = lf) :=
          List.rdropWhile_concat_pos _ _ _ (decide_eq_true rfl)
        rw [hpos]
        exact ih ((hnfc.normal_append apart_lf text []).mp h).1
      · rwa [List.rdropWhile_concat_neg _ _ _ (by rwa [decide_eq_true_eq])]
  rw [finish_eq]
  exact (hnfc.normal_append apart_lf _ []).mpr ⟨hbody, (hnfc.empty []).mpr rfl⟩

end Normal

section Heads

variable {nfc : List Char → List Char}

theorem Normalizes.head_iff (hnfc : Normalizes nfc) {c : Char} (hc : Apart c) (text : List Char) :
    (nfc text).head? = some c ↔ text.head? = some c := by
  have hnil : nfc [] = [] := (hnfc.empty []).mpr rfl
  constructor
  · intro h
    obtain ⟨rest, hrest⟩ := List.head?_eq_some_iff.mp h
    obtain hnone | ⟨front, d, back, rfl, hd, hfront⟩ := first_apart text
    · exact absurd hc (hnfc.plain hnone c (hrest ▸ List.mem_cons_self))
    · rw [hnfc.around d hd] at hrest
      obtain ⟨hempty, rfl, -⟩ := append_apart_inj hd hc (hnfc.plain hfront)
        (fun e he => absurd he List.not_mem_nil) (hrest.trans (List.nil_append (c :: rest)).symm)
      rw [(hnfc.empty front).mp hempty]
      rfl
  · intro h
    obtain ⟨rest, rfl⟩ := List.head?_eq_some_iff.mp h
    have haround := hnfc.around c hc [] rest
    rw [hnil, List.nil_append, List.nil_append] at haround
    rw [haround]
    rfl

theorem foldEndings_head (text : List Char) : (foldEndings text).head? = some bom ↔ text.head? = some bom := by
  cases text with
  | nil => exact Iff.rfl
  | cons c rest =>
    by_cases hc : c = cr
    · have hfold : (foldEndings (c :: rest)).head? = some lf := by
        subst hc
        by_cases hlf : rest.head? = some lf
        · obtain ⟨rest, rfl⟩ := List.head?_eq_some_iff.mp hlf
          rw [foldEndings_crlf]
          rfl
        · rw [foldEndings_cr hlf]
          rfl
      rw [hfold, hc]
      exact iff_of_false (by decide) fun h => absurd (Option.some.inj h) (by decide)
    · rw [foldEndings_cons hc]
      exact Iff.rfl

theorem finish_head (text : List Char) : (finish text).head? = some bom ↔ text.head? = some bom := by
  rw [finish_eq]
  cases hbody : text.rdropWhile (· = lf) with
  | nil =>
    have hall := List.rdropWhile_eq_nil_iff.mp hbody
    refine iff_of_false (by decide) fun h => ?_
    have hbom := hall bom (List.mem_of_head? h)
    exact absurd hbom (by decide)
  | cons c rest =>
    obtain ⟨after, hafter⟩ := List.rdropWhile_prefix (· = lf) text
    rw [hbody] at hafter
    rw [← hafter]
    exact Iff.rfl

theorem stripBom_head (text : List Char) : (stripBom text).head? = some bom ↔ [bom, bom] <+: text := by
  unfold stripBom
  split
  · rename_i h
    obtain ⟨rest, rfl⟩ := List.head?_eq_some_iff.mp h
    cases rest with
    | nil => exact iff_of_false (by simp) (by simp)
    | cons c rest => simp [eq_comm]
  · rename_i h
    refine iff_of_false h fun hprefix => h ?_
    obtain ⟨rest, rfl⟩ := hprefix
    rfl

end Heads

section Idempotence

variable {nfc : List Char → List Char}

def recipe (nfc : List Char → List Char) (text : List Char) : List Char :=
  finish (foldEndings (nfc (stripBom text)))

theorem recipe_canonical (text : List Char) : Canonical (recipe nfc text) :=
  finish_canonical (foldEndings_no_cr _)

theorem recipe_normal (hnfc : Normalizes nfc) (text : List Char) : nfc (recipe nfc text) = recipe nfc text :=
  normal_finish hnfc (normal_foldEndings hnfc (hnfc.idempotent _))

theorem recipe_head (hnfc : Normalizes nfc) (text : List Char) :
    (recipe nfc text).head? = some bom ↔ [bom, bom] <+: text := by
  rw [recipe, finish_head, foldEndings_head, hnfc.head_iff apart_bom, stripBom_head]

theorem recipe_of_canonical {text : List Char} (hnormal : nfc (stripBom text) = stripBom text)
    (h : Canonical (stripBom text)) : recipe nfc text = stripBom text := by
  rw [recipe, hnormal, foldEndings_of_no_cr h.1, finish_of_canonical h]

theorem recipe_recipe_iff (hnfc : Normalizes nfc) (text : List Char) :
    recipe nfc (recipe nfc text) = recipe nfc text ↔ ¬ [bom, bom] <+: text := by
  have hcanonical : Canonical (recipe nfc text) := recipe_canonical text
  have hnormal := recipe_normal hnfc text
  rw [← recipe_head hnfc]
  by_cases hhead : (recipe nfc text).head? = some bom
  · refine iff_of_false (fun h => ?_) (not_not.mpr hhead)
    obtain ⟨rest, hrest⟩ := List.head?_eq_some_iff.mp hhead
    rw [hrest] at h hnormal hcanonical
    have hstrip : stripBom (bom :: rest) = rest := rfl
    have hrestnormal : nfc rest = rest := ((hnfc.normal_append apart_bom [] rest).mp hnormal).2
    have hrestcanonical : Canonical rest := hcanonical.tail (by decide)
    have hrecipe : recipe nfc (bom :: rest) = rest := recipe_of_canonical hrestnormal hrestcanonical
    rw [hrecipe] at h
    exact List.cons_ne_self bom rest h.symm
  · have hstrip : stripBom (recipe nfc text) = recipe nfc text := if_neg hhead
    refine iff_of_true ?_ hhead
    rw [recipe_of_canonical (by rwa [hstrip]) (by rwa [hstrip]), hstrip]

end Idempotence

section Respelling

variable {nfc : List Char → List Char}

theorem fold_crlf (hnfc : Normalizes nfc) {front : List Char} (h : cr ∉ front) (back : List Char) :
    foldEndings (nfc (front ++ cr :: lf :: back)) = nfc front ++ lf :: foldEndings (nfc back) := by
  have hback : nfc (lf :: back) = lf :: nfc back := by
    have haround := hnfc.around lf apart_lf [] back
    rwa [(hnfc.empty []).mpr rfl, List.nil_append, List.nil_append] at haround
  rw [hnfc.around cr apart_cr, foldEndings_append (mt (hnfc.fresh cr apart_cr front) h), hback, foldEndings_crlf]

theorem fold_cr (hnfc : Normalizes nfc) {front back : List Char} (h : cr ∉ front) (hback : back.head? ≠ some lf) :
    foldEndings (nfc (front ++ cr :: back)) = nfc front ++ lf :: foldEndings (nfc back) := by
  rw [hnfc.around cr apart_cr, foldEndings_append (mt (hnfc.fresh cr apart_cr front) h),
    foldEndings_cr (mt (hnfc.head_iff apart_lf back).mp hback)]

theorem fold_lf (hnfc : Normalizes nfc) {front : List Char} (h : cr ∉ front) (back : List Char) :
    foldEndings (nfc (front ++ lf :: back)) = nfc front ++ lf :: foldEndings (nfc back) := by
  rw [hnfc.around lf apart_lf, foldEndings_append (mt (hnfc.fresh cr apart_cr front) h),
    foldEndings_cons (by decide)]

theorem Respelled.fold_eq (hnfc : Normalizes nfc) {afterCr : Bool} {text text' : List Char}
    (h : Respelled afterCr text text') {front : List Char} (hfront : cr ∉ front) :
    foldEndings (nfc (front ++ ((if afterCr then [cr] else []) ++ text))) =
      foldEndings (nfc (front ++ ((if afterCr then [cr] else []) ++ text'))) := by
  induction h generalizing front with
  | nil => rfl
  | @keep afterCr c text text' h ih =>
    -- the next line ending starts with `c` itself, or `c` is passed over
    have hnext : ∀ {front : List Char}, cr ∉ front →
        foldEndings (nfc (front ++ c :: text)) = foldEndings (nfc (front ++ c :: text')) := by
      intro front hfront
      by_cases hc : c = cr
      · have hrest := ih hfront
        rw [decide_eq_true hc, if_pos rfl] at hrest
        rw [hc]
        exact hrest
      · have hrest : foldEndings (nfc ((front ++ [c]) ++ ([] ++ text))) =
            foldEndings (nfc ((front ++ [c]) ++ ([] ++ text'))) := by
          have happend : cr ∉ front ++ [c] := by
            rw [List.mem_append, List.mem_singleton, not_or]
            exact ⟨hfront, Ne.symm hc⟩
          have hrest := ih happend
          rwa [decide_eq_false hc] at hrest
        simpa only [List.nil_append, List.append_assoc, List.singleton_append] using hrest
    cases afterCr with
    | false => exact hnext hfront
    | true =>
      have hempty := hnext (List.not_mem_nil (a := cr))
      change foldEndings (nfc (front ++ cr :: c :: text)) = foldEndings (nfc (front ++ cr :: c :: text'))
      by_cases hc : c = lf
      · have hrest := ih (List.not_mem_nil (a := cr))
        subst hc
        rw [fold_crlf hnfc hfront, fold_crlf hnfc hfront]
        exact congrArg (fun tail => nfc front ++ lf :: tail) hrest
      · have hhead : ∀ rest : List Char, (c :: rest).head? ≠ some lf := fun rest hlf => hc (Option.some.inj hlf)
        rw [fold_cr hnfc hfront (hhead text), fold_cr hnfc hfront (hhead text')]
        exact congrArg (fun tail => nfc front ++ lf :: tail) hempty
  | @crlf text text' h ih =>
    change foldEndings (nfc (front ++ lf :: text)) = foldEndings (nfc (front ++ cr :: lf :: text'))
    rw [fold_lf hnfc hfront, fold_crlf hnfc hfront]
    exact congrArg (fun tail => nfc front ++ lf :: tail) (ih (List.not_mem_nil (a := cr)))
  | @lone text text' h hhead ih =>
    change foldEndings (nfc (front ++ lf :: text)) = foldEndings (nfc (front ++ cr :: text'))
    rw [fold_lf hnfc hfront, fold_cr hnfc hfront hhead]
    exact congrArg (fun tail => nfc front ++ lf :: tail) (ih (List.not_mem_nil (a := cr)))

theorem Respelled.stripBom {text text' : List Char} (h : Respelled false text text') :
    Respelled false (stripBom text) (CanonicalText.stripBom text') := by
  cases h with
  | nil => exact Respelled.nil false
  | @keep _ c text text' h =>
    by_cases hc : c = bom
    · subst hc
      exact h
    · have hhead : ∀ rest : List Char, CanonicalText.stripBom (c :: rest) = c :: rest :=
        fun rest => if_neg fun heq => hc (Option.some.inj heq)
      rw [hhead, hhead]
      exact Respelled.keep false c h
  | crlf h => exact Respelled.crlf h
  | lone h hhead => exact Respelled.lone h hhead

theorem recipe_respelled (hnfc : Normalizes nfc) {text text' : List Char} (h : Respelled false text text') :
    recipe nfc text = recipe nfc text' := by
  rw [recipe, recipe]
  exact congrArg finish (h.stripBom.fold_eq hnfc (List.not_mem_nil (a := cr)))

end Respelling

section Recipe

variable {nfc : List Char → List Char}

theorem fromBytes_utf8 (text : String) :
    canonicalTextFromBytes nfc (utf8 text) = .ok (canonicalTextBytes nfc text) := by
  have hdecode : String.fromUTF8? ⟨(utf8 text).toArray⟩ = some text := dif_pos text.isValidUTF8
  rw [canonicalTextFromBytes, hdecode]

theorem canonicalText_toList (text : String) : (canonicalText nfc text).toList = recipe nfc text.toList :=
  String.toList_ofList

/-- The recipe gives one spelling of the line endings, whichever they were, and its own output back
exactly where the text does not begin with two byte order marks. -/
theorem canonicalText_canonical (hnfc : Normalizes nfc) (text : String) :
    Canonical (canonicalText nfc text).toList ∧
      (∀ text' : String, Respelled false text.toList text'.toList →
        canonicalTextBytes nfc text = canonicalTextBytes nfc text') ∧
      (canonicalTextFromBytes nfc (canonicalTextBytes nfc text) = .ok (canonicalTextBytes nfc text) ↔
        ¬ [bom, bom] <+: text.toList) := by
  refine ⟨?_, fun text' h => ?_, ?_⟩
  · rw [canonicalText_toList]
    exact recipe_canonical text.toList
  · have hrecipe := recipe_respelled hnfc h
    rw [recipe, recipe] at hrecipe
    rw [canonicalTextBytes, canonicalTextBytes, canonicalText, canonicalText, hrecipe]
  · rw [canonicalTextBytes, fromBytes_utf8, canonicalTextBytes, ← recipe_recipe_iff hnfc, ← canonicalText_toList,
      ← canonicalText_toList]
    constructor
    · intro h
      exact congrArg String.toList (utf8_injective (Except.ok.inj h))
    · intro h
      exact congrArg (fun text => Except.ok (utf8 text)) (String.toList_inj.mp h)

theorem normalizes_id : Normalizes id where
  idempotent := fun _ => rfl
  empty := fun _ => Iff.rfl
  around := fun _ _ _ _ => rfl
  fresh := fun _ _ _ h => h

theorem canonicalText_canonical_crlf :
    Normalizes id ∧ Canonical (canonicalText id "one\ntwo").toList ∧
      canonicalTextBytes id "one\ntwo" = canonicalTextBytes id "one\r\ntwo" := by
  obtain ⟨hcanonical, hspelling, -⟩ := canonicalText_canonical normalizes_id "one\ntwo"
  refine ⟨normalizes_id, hcanonical, hspelling "one\r\ntwo" ?_⟩
  have htwo : Respelled false "two".toList "two".toList :=
    Respelled.keep _ 't' (Respelled.keep _ 'w' (Respelled.keep _ 'o' (Respelled.nil _)))
  exact Respelled.keep _ 'o' (Respelled.keep _ 'n' (Respelled.keep _ 'e' (Respelled.crlf htwo)))

/-- A line feed after a carriage return does not stand for a line ending of its own; and of two
byte order marks one is left, for the next pass to take. -/
theorem canonicalText_seams :
    canonicalTextBytes id (String.ofList ("a\r".toList ++ [lf] ++ "b".toList)) ≠
        canonicalTextBytes id (String.ofList ("a\r".toList ++ [cr, lf] ++ "b".toList)) ∧
      canonicalTextFromBytes id (canonicalTextBytes id "\uFEFF\uFEFFx") ≠
        .ok (canonicalTextBytes id "\uFEFF\uFEFFx") := by
  refine ⟨by decide +kernel, ?_⟩
  rw [canonicalTextBytes, fromBytes_utf8]
  decide +kernel

end Recipe

end Cosmon.Hashing.CanonicalText
