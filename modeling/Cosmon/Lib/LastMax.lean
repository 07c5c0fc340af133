import Mathlib.Order.Basic
import Mathlib.Order.Lattice
import Mathlib.Data.List.Induction
import Mathlib.Data.List.Nodup

namespace Cosmon.Lib.LastMax

variable {α κ : Type} [LinearOrder κ] (key : α → κ)

def later (best : Option α) (a : α) : Option α :=
  match best with
  | none => some a
  | some b => if key a < key b then some b else some a

/-- The element with the greatest key, and the last one where several have it. -/
def lastMax (l : List α) : Option α := l.foldl (later key) none

theorem lastMax_concat (l : List α) (a : α) :
    lastMax key (l ++ [a]) = later key (lastMax key l) a := by
  rw [lastMax, List.foldl_append, List.foldl_cons, List.foldl_nil, lastMax]

variable {key}

theorem lastMax_mem {l : List α} {m : α} (h : lastMax key l = some m) : m ∈ l := by
  induction l using List.reverseRecOn generalizing m with
  | nil => cases h
  | append_singleton l a ih =>
    rw [lastMax_concat] at h
    cases hl : lastMax key l with
    | none =>
      rw [hl] at h
      cases h
      exact List.mem_append_right l (List.mem_singleton_self a)
    | some b =>
      rw [hl, later] at h
      split at h
      · cases h
        exact List.mem_append_left _ (ih hl)
      · cases h
        exact List.mem_append_right l (List.mem_singleton_self a)

theorem lastMax_append (l r : List α) :
    lastMax key (l ++ r) = match lastMax key r with
      | none => lastMax key l
      | some b => later key (lastMax key l) b := by
  induction r using List.reverseRecOn with
  | nil => rw [List.append_nil]; rfl
  | append_singleton r a ih =>
    rw [← List.append_assoc, lastMax_concat, ih, lastMax_concat]
    cases lastMax key r with
    | none => rfl
    | some b =>
      cases lastMax key l with
      | none =>
        simp only [later]
        split <;> rfl
      | some c =>
        simp only [later]
        by_cases hbc : key b < key c
        · by_cases hab : key a < key b
          · simp only [if_pos hbc, if_pos hab, if_pos (hab.trans hbc)]
          · simp only [if_pos hbc, if_neg hab]
        · by_cases hab : key a < key b
          · simp only [if_neg hbc, if_pos hab]
          · have hac : ¬ key a < key c := fun hac => hbc (lt_of_le_of_lt (not_lt.mp hab) hac)
            simp only [if_neg hbc, if_neg hab, if_neg hac]

end Cosmon.Lib.LastMax
