import Mathlib.Data.Finset.Basic
import Mathlib.Data.List.Sort

namespace Cosmon.Lib.Enumerate

theorem nodup_eraseDups {α : Type} [BEq α] [LawfulBEq α] (xs : List α) : xs.eraseDups.Nodup := by
  induction hn : xs.length using Nat.strong_induction_on generalizing xs with
  | _ n ih =>
    cases xs with
    | nil => exact List.nodup_nil
    | cons x xs =>
      rw [List.eraseDups_cons, List.nodup_cons]
      constructor
      · rw [List.mem_eraseDups, List.mem_filter]
        simp
      · have hle := List.length_filter_le (fun b => !b == x) xs
        rw [List.length_cons] at hn
        apply ih _ _ _ rfl
        omega

variable {α : Type} [LinearOrder α]

theorem insertionSort_eq_of_perm {xs ys : List α} (h : xs.Perm ys) :
    xs.insertionSort (· ≤ ·) = ys.insertionSort (· ≤ ·) := by
  have hx := List.perm_insertionSort (· ≤ ·) xs
  have hy := List.perm_insertionSort (· ≤ ·) ys
  exact (hx.trans (h.trans hy.symm)).eq_of_pairwise'
    (List.pairwise_insertionSort _ xs) (List.pairwise_insertionSort _ ys)

/-- The elements of a finite set in ascending order. Unlike `Finset.sort`
it reduces in the kernel, so closed sets can be enumerated by `decide`. -/
def enumerate (s : Finset α) : List α :=
  Quot.liftOn s.val (fun xs => xs.insertionSort (· ≤ ·)) (fun _ _ h => insertionSort_eq_of_perm h)

theorem enumerate_perm (s : Finset α) : (enumerate s : Multiset α) = s.val := by
  obtain ⟨m, hm⟩ := s
  induction m using Quot.inductionOn with
  | h xs => exact Quot.sound (List.perm_insertionSort _ xs)

@[simp] theorem mem_enumerate {s : Finset α} {a : α} : a ∈ enumerate s ↔ a ∈ s := by
  rw [← Multiset.mem_coe, enumerate_perm, Finset.mem_val]

theorem enumerate_nodup (s : Finset α) : (enumerate s).Nodup := by
  rw [← Multiset.coe_nodup, enumerate_perm]
  exact s.nodup

example : enumerate ({3, 1, 2} : Finset Nat) = [1, 2, 3] := by decide

end Cosmon.Lib.Enumerate
