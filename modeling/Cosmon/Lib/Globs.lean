import Cosmon.Lib.Bytes
import Mathlib.Data.List.Infix

namespace Cosmon.Lib.Globs

variable {α β : Type}

inductive Expands (star : α) : List α → List α → Prop
  | nil : Expands star [] []
  | star {p t : List α} (gap : List α) (h : Expands star p t) : Expands star (star :: p) (gap ++ t)
  | letter {c : α} {p t : List α} (hc : c ≠ star) (h : Expands star p t) : Expands star (c :: p) (c :: t)

variable {star c : α} {p t : List α}

theorem expands_nil : Expands star [] t ↔ t = [] := by
  constructor
  · rintro ⟨⟩
    rfl
  · rintro rfl
    exact .nil

theorem expands_star : Expands star (star :: p) t ↔ ∃ rest, rest <:+ t ∧ Expands star p rest := by
  constructor
  · rintro (_ | ⟨gap, h⟩ | ⟨hc, _⟩)
    · exact ⟨_, List.suffix_append gap _, h⟩
    · exact absurd rfl hc
  · rintro ⟨rest, ⟨gap, rfl⟩, h⟩
    exact .star gap h

theorem expands_letter (hc : c ≠ star) : Expands star (c :: p) t ↔ ∃ rest, t = c :: rest ∧ Expands star p rest := by
  constructor
  · rintro (_ | _ | ⟨_, h⟩)
    · exact absurd rfl hc
    · exact ⟨_, rfl, h⟩
  · rintro ⟨rest, rfl, h⟩
    exact .letter hc h

theorem expands_last : Expands star [star] t :=
  expands_star.mpr ⟨[], List.nil_suffix, .nil⟩

theorem expands_star_star : Expands star (star :: star :: p) t ↔ Expands star (star :: p) t := by
  rw [expands_star]
  constructor
  · rintro ⟨rest, hrest, h⟩
    obtain ⟨last, hlast, h⟩ := expands_star.mp h
    exact expands_star.mpr ⟨last, hlast.trans hrest, h⟩
  · exact fun h => ⟨t, List.suffix_rfl, h⟩

/-- A code whose words are told apart by their beginnings, and whose word ends can be found from any place. -/
structure Synchronised (enc : α → List β) (lead : β → Prop) : Prop where
  head : ∀ c, ∃ b rest, enc c = b :: rest ∧ lead b ∧ ∀ b ∈ rest, ¬ lead b
  decodes : ∀ c d x y, enc c ++ x = enc d ++ y → c = d

variable {enc : α → List β} {lead : β → Prop} {b point : β} {word rest q r : List β}

theorem Synchronised.suffix (h : Synchronised enc lead) (hb : lead b) (hsuffix : b :: rest <:+ t.flatMap enc) :
    ∃ last, last <:+ t ∧ b :: rest = last.flatMap enc := by
  induction t with
  | nil => cases List.suffix_nil.mp hsuffix
  | cons c t ih =>
    obtain ⟨first, more, hfirst, -, hmore⟩ := h.head c
    rw [List.flatMap_cons, hfirst, List.cons_append, List.suffix_cons_iff] at hsuffix
    obtain hwhole | ⟨gap, hgap⟩ := hsuffix
    · exact ⟨c :: t, List.suffix_rfl, by rw [hwhole, List.flatMap_cons, hfirst, List.cons_append]⟩
    · have hlater : b :: rest <:+ t.flatMap enc := by
        obtain ⟨inner, rfl, hinner⟩ | ⟨inner, -, hinner⟩ := List.append_eq_append_iff.mp hgap
        · cases inner with
          | nil => exact hinner ▸ List.suffix_rfl
          | cons first inner =>
            obtain ⟨rfl, -⟩ := List.cons.inj hinner
            exact absurd hb (hmore b (List.mem_append_right gap List.mem_cons_self))
        · exact ⟨inner, hinner.symm⟩
      obtain ⟨last, hlast, heq⟩ := ih hlater
      exact ⟨last, hlast.trans (List.suffix_cons c t), heq⟩

theorem Synchronised.point_free (h : Synchronised enc lead) (hstar : enc star = [point]) (hc : c ≠ star) :
    ∀ b ∈ enc c, b ≠ point := by
  rintro b hmem rfl
  obtain ⟨first, more, hfirst, -, hmore⟩ := h.head c
  rw [hfirst, List.mem_cons] at hmem
  obtain rfl | hmem := hmem
  · exact hc (h.decodes c star [] more (by rw [List.append_nil, hfirst, hstar, List.singleton_append]))
  · obtain ⟨lone, none, hlone, hlead, -⟩ := h.head star
    rw [hstar, List.cons.injEq] at hlone
    exact hmore b hmem (hlone.1 ▸ hlead)

theorem expands_word (hword : ∀ b ∈ word, b ≠ point) :
    Expands point (word ++ q) r ↔ ∃ rest, r = word ++ rest ∧ Expands point q rest := by
  induction word generalizing r with
  | nil => exact ⟨fun h => ⟨r, rfl, h⟩, fun ⟨_, heq, h⟩ => heq ▸ h⟩
  | cons b word ih =>
    rw [List.forall_mem_cons] at hword
    rw [List.cons_append, expands_letter hword.1]
    simp only [ih hword.2]
    constructor
    · rintro ⟨_, rfl, rest, rfl, h⟩
      exact ⟨rest, rfl, h⟩
    · rintro ⟨rest, rfl, h⟩
      exact ⟨_, rfl, rest, rfl, h⟩

/-- By induction on the pattern: what stands for a star need not end where a code word does, unless a word follows. -/
theorem Synchronised.expands_of_coded (h : Synchronised enc lead) (hstar : enc star = [point]) :
    (∀ t, Expands point (p.flatMap enc) (t.flatMap enc) → Expands star p t) ∧
      ∀ t r, r <:+ t.flatMap enc → Expands point (p.flatMap enc) r → Expands star (star :: p) t := by
  induction p with
  | nil =>
    refine ⟨fun t hcoded => ?_, fun t _ _ _ => expands_last⟩
    cases t with
    | nil => exact .nil
    | cons c t =>
      obtain ⟨first, more, hfirst, -⟩ := h.head c
      cases List.append_eq_nil_iff.mp (expands_nil.mp hcoded) |>.1 ▸ hfirst
  | cons c p ih =>
    rw [List.flatMap_cons]
    by_cases hc : c = star
    · subst hc
      rw [hstar, List.singleton_append]
      refine ⟨fun t hcoded => ?_, fun t r hr hcoded => ?_⟩
      · obtain ⟨r, hr, hcoded⟩ := expands_star.mp hcoded
        exact ih.2 t r hr hcoded
      · obtain ⟨last, hlast, hcoded⟩ := expands_star.mp hcoded
        exact expands_star_star.mpr (ih.2 t last (hlast.trans hr) hcoded)
    · have hword := h.point_free hstar hc
      obtain ⟨first, more, hfirst, hlead, -⟩ := h.head c
      have hwhole : ∀ t, Expands point (enc c ++ p.flatMap enc) (t.flatMap enc) → Expands star (c :: p) t := by
        intro t hcoded
        obtain ⟨rest, hrest, hcoded⟩ := (expands_word hword).mp hcoded
        cases t with
        | nil =>
          rw [hfirst] at hrest
          cases hrest
        | cons d t =>
          rw [List.flatMap_cons] at hrest
          obtain rfl := h.decodes d c _ _ hrest
          obtain rfl := List.append_cancel_left hrest
          exact .letter hc (ih.1 t hcoded)
      refine ⟨hwhole, fun t r hr hcoded => ?_⟩
      obtain ⟨rest, rfl, -⟩ := (expands_word hword).mp hcoded
      have hbegins : enc c ++ rest = first :: (more ++ rest) := by rw [hfirst, List.cons_append]
      obtain ⟨last, hlast, heq⟩ := h.suffix hlead (hbegins ▸ hr)
      exact expands_star.mpr ⟨last, hlast, hwhole last (heq ▸ hbegins ▸ hcoded)⟩

theorem Synchronised.expands_iff (h : Synchronised enc lead) (hstar : enc star = [point]) :
    Expands point (p.flatMap enc) (t.flatMap enc) ↔ Expands star p t := by
  refine ⟨(h.expands_of_coded hstar).1 t, fun hexpands => ?_⟩
  induction hexpands with
  | nil => exact .nil
  | star gap _ ih =>
    rw [List.flatMap_cons, List.flatMap_append, hstar]
    exact .star _ ih
  | letter hc _ ih =>
    rw [List.flatMap_cons, List.flatMap_cons]
    exact (expands_word (h.point_free hstar hc)).mpr ⟨_, rfl, ih⟩

open Cosmon.Lib.Bytes

theorem utf8_eq_flatMap (text : String) : utf8 text = text.toList.flatMap String.utf8EncodeChar := by
  have h : text.toByteArray = text.toList.utf8Encode := (String.utf8Encode_toList (b := text)).symm
  rw [utf8, h, List.utf8Encode]
  simp

theorem utf8_synchronised : Synchronised String.utf8EncodeChar UInt8.IsUTF8FirstByte where
  head c := by
    have hall (i : Nat) (hi : i < (String.utf8EncodeChar c).length) :=
      @UInt8.isUTF8FirstByte_getElem_utf8EncodeChar c i hi
    have hpos : 0 < (String.utf8EncodeChar c).length := by
      rw [String.length_utf8EncodeChar]
      exact c.utf8Size_pos
    cases hword : String.utf8EncodeChar c with
    | nil =>
      rw [hword] at hpos
      cases hpos
    | cons b rest =>
      simp only [hword] at hall
      refine ⟨b, rest, rfl, (hall 0 (by simp)).mpr rfl, fun b' hmem hlead => ?_⟩
      obtain ⟨i, hi, rfl⟩ := List.getElem_of_mem hmem
      exact absurd ((hall (i + 1) (Nat.succ_lt_succ hi)).mp hlead) (Nat.succ_ne_zero i)
  decodes c d x y h := by
    have hbytes := congrArg List.toByteArray h
    rw [List.toByteArray_append, List.toByteArray_append] at hbytes
    have hdecode := congrArg (ByteArray.utf8DecodeChar? · 0) hbytes
    simp only [ByteArray.utf8DecodeChar?_utf8EncodeChar_append] at hdecode
    exact Option.some_inj.mp hdecode

end Cosmon.Lib.Globs
