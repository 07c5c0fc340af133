import Mathlib.Data.List.Infix

namespace Cosmon.Lib.Replace

variable {α : Type} [DecidableEq α]

/-- Go through a text that is known up to its first `skip` letters: these are left out, and every
occurrence of `pat` after them, from left to right and none overlapping another, becomes `new`. -/
def replaceFrom (pat new : List α) : Nat → List α → List α
  | _, [] => []
  | skip + 1, _ :: rest => replaceFrom pat new skip rest
  | 0, c :: rest =>
    if pat <+: c :: rest then new ++ replaceFrom pat new (pat.length - 1) rest
    else c :: replaceFrom pat new 0 rest

def replaceAll (pat new text : List α) : List α := replaceFrom pat new 0 text

inductive Replaced (pat new : List α) : List α → List α → Prop where
  | nil : Replaced pat new [] []
  | hit {rest out : List α} : Replaced pat new rest out → Replaced pat new (pat ++ rest) (new ++ out)
  | miss {c : α} {rest out : List α} : ¬ pat <+: c :: rest → Replaced pat new rest out →
      Replaced pat new (c :: rest) (c :: out)

section Reading

variable {pat new : List α}

theorem replaceFrom_eq (skip : Nat) (text : List α) :
    replaceFrom pat new skip text = replaceFrom pat new 0 (text.drop skip) := by
  induction text generalizing skip with
  | nil => simp [replaceFrom]
  | cons c rest ih =>
    cases skip with
    | zero => rfl
    | succ skip => rw [replaceFrom, ih, List.drop_succ_cons]

theorem replaceAll_hit (hpat : pat ≠ []) (rest : List α) :
    replaceAll pat new (pat ++ rest) = new ++ replaceAll pat new rest := by
  obtain ⟨c, tail, rfl⟩ := List.exists_cons_of_ne_nil hpat
  have hprefix : c :: tail <+: c :: (tail ++ rest) := List.prefix_append (c :: tail) rest
  rw [replaceAll, List.cons_append, replaceFrom, if_pos hprefix, replaceFrom_eq]
  simp [replaceAll]

theorem replaceAll_miss {c : α} {rest : List α} (h : ¬ pat <+: c :: rest) :
    replaceAll pat new (c :: rest) = c :: replaceAll pat new rest := by
  rw [replaceAll, replaceFrom, if_neg h, replaceAll]

theorem replaced_replaceAll (hpat : pat ≠ []) (new text : List α) :
    Replaced pat new text (replaceAll pat new text) := by
  induction hlength : text.length using Nat.strongRecOn generalizing text with
  | ind n ih =>
    subst hlength
    by_cases hprefix : pat <+: text
    · obtain ⟨rest, rfl⟩ := hprefix
      rw [replaceAll_hit hpat]
      apply Replaced.hit
      apply ih rest.length ?_ rest rfl
      rw [List.length_append]
      exact Nat.lt_add_of_pos_left (List.length_pos_iff.mpr hpat)
    · cases text with
      | nil => exact Replaced.nil
      | cons c rest =>
        rw [replaceAll_miss hprefix]
        exact Replaced.miss hprefix (ih rest.length (Nat.lt_succ_self _) rest rfl)

theorem replaceAll_of_absent {text : List α} (h : ¬ pat <:+: text) : replaceAll pat new text = text := by
  induction text with
  | nil => rfl
  | cons c rest ih =>
    rw [List.infix_cons_iff, not_or] at h
    rw [replaceAll_miss h.1, ih h.2]

end Reading

section Seams

variable {head stop : α} {body tail pat text out : List α}

omit [DecidableEq α] in
/-- What the result begins with was there before, as long as it leaves out the letter that the
new text begins with. -/
theorem Replaced.prefix_of (h : Replaced pat (stop :: tail) text out) {q : List α} (hq : stop ∉ q)
    (hout : q <+: out) : q <+: text := by
  induction h generalizing q with
  | nil => exact hout
  | hit _ _ =>
    cases q with
    | nil => exact List.nil_prefix
    | cons c q =>
      obtain ⟨rfl, -⟩ := List.cons_prefix_cons.mp hout
      exact absurd List.mem_cons_self hq
  | miss _ _ ih =>
    cases q with
    | nil => exact List.nil_prefix
    | cons c q =>
      obtain ⟨rfl, hrest⟩ := List.cons_prefix_cons.mp hout
      exact List.cons_prefix_cons.mpr ⟨rfl, ih (mt (List.mem_cons_of_mem c) hq) hrest⟩

omit [DecidableEq α] in
/-- What the text begins with stays there, as long as it leaves out the letter that the pattern
begins with. -/
theorem Replaced.prefix_out {new : List α} (h : Replaced (head :: body) new text out) {q : List α} (hq : head ∉ q)
    (htext : q <+: text) : q <+: out := by
  induction h generalizing q with
  | nil => exact htext
  | hit _ _ =>
    cases q with
    | nil => exact List.nil_prefix
    | cons c q =>
      obtain ⟨rfl, -⟩ := List.cons_prefix_cons.mp htext
      exact absurd List.mem_cons_self hq
  | miss _ _ ih =>
    cases q with
    | nil => exact List.nil_prefix
    | cons c q =>
      obtain ⟨rfl, hrest⟩ := List.cons_prefix_cons.mp htext
      exact List.cons_prefix_cons.mpr ⟨rfl, ih (mt (List.mem_cons_of_mem c) hq) hrest⟩

omit [DecidableEq α] in
theorem infix_hit {t rest : List α} (hbody : head ∉ body) :
    head :: t <:+: head :: body ++ rest ↔ head :: t <+: head :: body ++ rest ∨ head :: t <:+: rest := by
  rw [List.cons_append, List.infix_cons_iff]
  apply or_congr_right
  constructor
  · intro h
    rw [List.infix_append_iff_ne_nil] at h
    obtain h | h | ⟨l, r, hl, -, heq, hsuffix, -⟩ := h
    · exact absurd (h.subset List.mem_cons_self) hbody
    · exact h
    · cases l with
      | nil => exact absurd rfl hl
      | cons c l =>
        cases heq
        exact absurd (hsuffix.subset List.mem_cons_self) hbody
  · exact List.infix_append_of_infix_right

omit [DecidableEq α] in
/-- Where an occurrence in the result comes from: the new text alone, the end of a new text with
what followed the pattern, or the text itself. -/
theorem Replaced.infix_of (h : Replaced pat (stop :: tail) text out) {t : List α} (ht : t ≠ []) (hstop : stop ∉ t)
    (hout : t <:+: out) :
    t <:+: stop :: tail ∨
      (∃ p q, p ≠ [] ∧ q ≠ [] ∧ p ++ q = t ∧ p <:+ stop :: tail ∧ pat ++ q <:+: text) ∨
        (t ≠ pat ∧ t <:+: text) := by
  induction h with
  | nil => exact absurd (List.infix_nil.mp hout) ht
  | hit hrest ih =>
    have hlater : ∀ {q rest : List α}, q <:+: rest → q <:+: pat ++ rest := List.infix_append_of_infix_right
    rw [List.infix_append_iff_ne_nil] at hout
    obtain hnew | hout | ⟨p, q, hp, hq, rfl, hsuffix, hprefix⟩ := hout
    · exact Or.inl hnew
    · obtain hnew | ⟨p, q, hp, hq, heq, hsuffix, hinfix⟩ | ⟨hne, hinfix⟩ := ih hout
      · exact Or.inl hnew
      · exact Or.inr (Or.inl ⟨p, q, hp, hq, heq, hsuffix, hlater hinfix⟩)
      · exact Or.inr (Or.inr ⟨hne, hlater hinfix⟩)
    · refine Or.inr (Or.inl ⟨p, q, hp, hq, rfl, hsuffix, ?_⟩)
      have hq' := hrest.prefix_of (mt (List.mem_append_right p) hstop) hprefix
      exact ((List.prefix_append_right_inj pat).mpr hq').isInfix
  | @miss c rest out hmiss hrest ih =>
    rw [List.infix_cons_iff] at hout
    obtain hprefix | hout := hout
    · have htext := (Replaced.miss hmiss hrest).prefix_of hstop hprefix
      refine Or.inr (Or.inr ⟨?_, htext.isInfix⟩)
      rintro rfl
      exact hmiss htext
    · obtain hnew | ⟨p, q, hp, hq, heq, hsuffix, hinfix⟩ | ⟨hne, hinfix⟩ := ih hout
      · exact Or.inl hnew
      · exact Or.inr (Or.inl ⟨p, q, hp, hq, heq, hsuffix, List.infix_cons hinfix⟩)
      · exact Or.inr (Or.inr ⟨hne, List.infix_cons hinfix⟩)

omit [DecidableEq α] in
theorem Replaced.infix_seam {new p q : List α} (h : Replaced (head :: body) new text out) (hbody : head ∉ body)
    (hp : p <:+ new) (hq : head ∉ q) (htext : head :: body ++ q <:+: text) : p ++ q <:+: out := by
  induction h with
  | nil => cases List.infix_nil.mp htext
  | hit hrest ih =>
    rw [List.cons_append, infix_hit hbody] at htext
    obtain hprefix | hlater := htext
    · have hqout := hrest.prefix_out hq ((List.prefix_append_right_inj (head :: body)).mp hprefix)
      exact List.infix_append_iff.mpr (Or.inr (Or.inr ⟨p, q, rfl, hp, hqout⟩))
    · exact List.infix_append_of_infix_right (ih hlater)
  | miss hmiss _ ih =>
    rw [List.infix_cons_iff] at htext
    obtain hprefix | hlater := htext
    · exact absurd ((List.prefix_append (head :: body) q).trans hprefix) hmiss
    · exact List.infix_cons (ih hlater)

omit [DecidableEq α] in
theorem Replaced.infix_stays {new other : List α} (h : Replaced (head :: body) new text out) (hbody : head ∉ body)
    (hother : head ∉ other) (hleft : ¬ other <+: body) (hright : ¬ body <+: other)
    (htext : head :: other <:+: text) : head :: other <:+: out := by
  induction h with
  | nil => cases List.infix_nil.mp htext
  | @hit rest out _ ih =>
    rw [infix_hit hbody] at htext
    obtain hprefix | hlater := htext
    · have hshort := (List.cons_prefix_cons.mp hprefix).2
      exact absurd (List.prefix_or_prefix_of_prefix hshort (List.prefix_append body rest)) (by simp [hleft, hright])
    · exact List.infix_append_of_infix_right (ih hlater)
  | miss hmiss hrest ih =>
    rw [List.infix_cons_iff] at htext
    obtain hprefix | hlater := htext
    · obtain ⟨rfl, hotherprefix⟩ := List.cons_prefix_cons.mp hprefix
      exact (List.cons_prefix_cons.mpr ⟨rfl, hrest.prefix_out hother hotherprefix⟩).isInfix
    · exact List.infix_cons (ih hlater)

end Seams

section Fronts

variable {head : α} {t front rest : List α}

omit [DecidableEq α] in
theorem infix_of_front (h : head ∉ front) (ht : head :: t <:+: front ++ rest) : head :: t <:+: rest := by
  rw [List.infix_append_iff_ne_nil] at ht
  obtain hfront | hrest | ⟨p, q, hp, -, heq, hsuffix, -⟩ := ht
  · exact absurd (hfront.subset List.mem_cons_self) h
  · exact hrest
  · cases p with
    | nil => exact absurd rfl hp
    | cons c p =>
      cases heq
      exact absurd (hsuffix.subset List.mem_cons_self) h

omit [DecidableEq α] in
theorem suffix_of_front (h : head ∉ front) (ht : head :: t <:+ front ++ rest) : head :: t <:+ rest := by
  obtain ⟨before, heq⟩ := ht
  obtain ⟨shared, rfl, hrest⟩ | ⟨shared, hbefore, hrest⟩ := List.append_eq_append_iff.mp heq
  · cases shared with
    | nil => exact hrest ▸ List.suffix_rfl
    | cons c shared =>
      cases hrest
      exact absurd (List.mem_append_right before List.mem_cons_self) h
  · exact ⟨shared, hrest.symm⟩

end Fronts

end Cosmon.Lib.Replace
