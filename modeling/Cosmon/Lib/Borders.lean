import Mathlib.Data.List.Infix

namespace Cosmon.Lib.Borders

variable {α : Type}

/-- Of the prefixes of a pattern with at most `r` letters, the one of length `k` is the longest in which a text ends. -/
structure Longest (pat : List α) (r : Nat) (text : List α) (k : Nat) : Prop where
  le : k ≤ r
  ends : pat.take k <:+ text
  greatest : ∀ j ≤ r, pat.take j <:+ text → j ≤ k

/-- A letter is to be read: the prefixes that it prolongs have at most `k` letters. -/
structure Within (pat : List α) (r : Nat) (text : List α) (b : α) (k : Nat) : Prop where
  le : k ≤ r
  ends : pat.take k <:+ text
  bound : ∀ j ≤ r, pat.take j <:+ text → pat[j]? = some b → j ≤ k

variable {pat text : List α} {b : α} {r k f : Nat}

theorem take_succ_suffix (hk : k < pat.length) :
    pat.take (k + 1) <:+ text ++ [b] ↔ pat.take k <:+ text ∧ pat[k]? = some b := by
  rw [List.take_add_one, List.getElem?_eq_getElem hk, Option.toList_some, List.suffix_concat_iff, Option.some_inj]
  constructor
  · rintro (hnil | ⟨front, hfront, hsuffix⟩)
    · cases List.append_eq_nil_iff.mp hnil |>.2
    · obtain ⟨rfl, hlast⟩ := List.append_inj' hfront rfl
      exact ⟨hsuffix, List.singleton_inj.mp hlast⟩
  · rintro ⟨hsuffix, rfl⟩
    exact .inr ⟨_, rfl, hsuffix⟩

theorem Longest.empty (hr : r ≤ pat.length) : Longest pat r [] 0 := by
  refine ⟨Nat.zero_le r, List.suffix_rfl, fun j hj hsuffix => ?_⟩
  have hlength := hsuffix.length_le
  rw [List.length_take, List.length_nil] at hlength
  omega

theorem Longest.within (h : Longest pat r text k) (b : α) : Within pat r text b k :=
  ⟨h.le, h.ends, fun j hj hsuffix _ => h.greatest j hj hsuffix⟩

/-- The shorter prefixes in which the text ends are those in which the prefix of length `k + 1` ends. -/
theorem Within.retreat (h : Within pat r text b (k + 1)) (hr : r ≤ pat.length) (hmiss : pat[k + 1]? ≠ some b)
    (hborder : Longest pat k (pat.take (k + 1)) f) : Within pat r text b f := by
  refine ⟨Nat.le_trans hborder.le (Nat.le_of_succ_le h.le), hborder.ends.trans h.ends, fun j hj hsuffix hb => ?_⟩
  have hle := h.bound j hj hsuffix hb
  have hne : j ≠ k + 1 := by
    rintro rfl
    exact hmiss hb
  apply hborder.greatest j (by omega)
  apply List.suffix_of_suffix_length_le hsuffix h.ends
  rw [List.length_take, List.length_take]
  omega

theorem Within.hit (h : Within pat r text b k) (hr : r < pat.length) (hb : pat[k]? = some b) :
    Longest pat (r + 1) (text ++ [b]) (k + 1) := by
  have hk := Nat.lt_of_le_of_lt h.le hr
  refine ⟨Nat.succ_le_succ h.le, (take_succ_suffix hk).mpr ⟨h.ends, hb⟩, fun j hj hsuffix => ?_⟩
  cases j with
  | zero => exact Nat.zero_le _
  | succ j =>
    obtain ⟨hbefore, hlast⟩ := (take_succ_suffix (Nat.lt_of_lt_of_le hj hr)).mp hsuffix
    exact Nat.succ_le_succ (h.bound j (Nat.le_of_succ_le_succ hj) hbefore hlast)

theorem Within.miss (h : Within pat r text b 0) (hr : r < pat.length) (hb : pat[0]? ≠ some b) :
    Longest pat (r + 1) (text ++ [b]) 0 := by
  refine ⟨Nat.zero_le _, List.nil_suffix, fun j hj hsuffix => ?_⟩
  cases j with
  | zero => exact Nat.le_refl 0
  | succ j =>
    obtain ⟨hbefore, hlast⟩ := (take_succ_suffix (Nat.lt_of_lt_of_le hj hr)).mp hsuffix
    obtain rfl := Nat.le_zero.mp (h.bound j (Nat.le_of_succ_le_succ hj) hbefore hlast)
    exact absurd hlast hb

theorem Longest.below (h : Longest pat (r + 1) text k) (hk : k ≤ r) : Longest pat r text k :=
  ⟨hk, h.ends, fun j hj hsuffix => h.greatest j (Nat.le_succ_of_le hj) hsuffix⟩

theorem Longest.border (h : Longest pat (r + 1) text (r + 1)) (hborder : Longest pat r (pat.take (r + 1)) f) :
    Longest pat r text f := by
  refine ⟨hborder.le, hborder.ends.trans h.ends, fun j hj hsuffix => hborder.greatest j hj ?_⟩
  apply List.suffix_of_suffix_length_le hsuffix h.ends
  rw [List.length_take, List.length_take]
  omega

theorem Longest.eq_length_iff (h : Longest pat pat.length text k) : k = pat.length ↔ pat <:+ text := by
  have hwhole : pat.take pat.length = pat := List.take_length
  constructor
  · rintro rfl
    exact hwhole ▸ h.ends
  · intro hsuffix
    apply Nat.le_antisymm h.le (h.greatest _ (Nat.le_refl _) _)
    rwa [hwhole]

end Cosmon.Lib.Borders
