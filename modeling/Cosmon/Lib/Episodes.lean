import Mathlib.Data.List.Basic
import Mathlib.Order.Lattice

namespace Cosmon.Lib.Episodes

section Histories

variable {τ : Type} [LinearOrder τ]

/-- What is left of a history once the part before `lo` is dropped. -/
def since (lo : τ) (history : List τ) : List τ := history.filter fun t => lo ≤ t

theorem since_since {lo hi : τ} (h : lo ≤ hi) (history : List τ) :
    since hi (since lo history) = since hi history := by
  rw [since, since, since, List.filter_filter]
  apply List.filter_congr
  intro t _
  simpa only [Bool.and_eq_left_iff_imp, decide_eq_true_eq] using fun ht => le_trans h ht

theorem since_append (lo : τ) (xs ys : List τ) : since lo (xs ++ ys) = since lo xs ++ since lo ys :=
  List.filter_append ..

theorem since_singleton {lo t : τ} (h : lo ≤ t) : since lo [t] = [t] :=
  List.filter_cons_of_pos (decide_eq_true h)

/-- Of a history that ends at `hi`, this is what lies between the two bounds. -/
theorem since_window {lo hi : τ} {history : List τ} (h : ∀ t ∈ history, t ≤ hi) :
    since lo history = history.filter fun t => lo ≤ t ∧ t ≤ hi := by
  apply List.filter_congr
  intro t ht
  rw [decide_eq_decide]
  exact ⟨fun hlo => ⟨hlo, h t ht⟩, fun hboth => hboth.1⟩

end Histories

section Runs

variable (loud : Nat → Prop)

def Onset (i : Nat) : Prop := loud i ∧ ∀ j, j + 1 = i → ¬loud j

/-- A stretch that is loud, and longest so. -/
structure Episode (first last : Nat) : Prop where
  le : first ≤ last
  during : ∀ i, first ≤ i → i ≤ last → loud i
  before : ∀ i, i + 1 = first → ¬loud i
  after : ¬loud (last + 1)

variable {loud}

theorem onset_congr {loud' : Nat → Prop} {i : Nat} (h : ∀ j ≤ i, loud j ↔ loud' j) :
    Onset loud i ↔ Onset loud' i := by
  unfold Onset
  rw [h i (Nat.le_refl i)]
  refine and_congr_right fun _ => forall_congr' fun j => ?_
  constructor
  · intro hj heq
    rw [← h j (by omega)]
    exact hj heq
  · intro hj heq
    rw [h j (by omega)]
    exact hj heq

theorem exists_onset {i : Nat} (h : loud i) : ∃ j ≤ i, Onset loud j ∧ ∀ k, j ≤ k → k ≤ i → loud k := by
  induction i with
  | zero =>
    refine ⟨0, Nat.le_refl 0, ⟨h, fun j hj => by omega⟩, fun k _ hk => ?_⟩
    obtain rfl : k = 0 := by omega
    exact h
  | succ i ih =>
    by_cases hbefore : loud i
    · obtain ⟨j, hle, hj, hall⟩ := ih hbefore
      refine ⟨j, by omega, hj, fun k hjk hk => ?_⟩
      obtain rfl | hlt := Nat.eq_or_lt_of_le hk
      · exact h
      · exact hall k hjk (by omega)
    · refine ⟨i + 1, Nat.le_refl _, ⟨h, fun j hj => ?_⟩, fun k hjk hk => ?_⟩
      · obtain rfl : j = i := by omega
        exact hbefore
      · obtain rfl : k = i + 1 := by omega
        exact h

/-- What fires at the onsets fires when it is loud and has not fired since it was last quiet. -/
theorem fires_iff {fires : Nat → Prop} (h : ∀ i, fires i ↔ Onset loud i) (i : Nat) :
    fires i ↔ loud i ∧ ∀ j < i, fires j → ∃ k, j < k ∧ k < i ∧ ¬loud k := by
  rw [h i]
  constructor
  · rintro ⟨hloud, hbefore⟩
    refine ⟨hloud, fun j hj hfires => ⟨i - 1, ?_, by omega, hbefore _ (by omega)⟩⟩
    -- `j` is loud itself
    have hne : j ≠ i - 1 := fun heq => hbefore j (by omega) ((h j).mp hfires).1
    omega
  · rintro ⟨hloud, hquiet⟩
    refine ⟨hloud, fun j hj hjloud => ?_⟩
    obtain ⟨k, hk, honset, hall⟩ := exists_onset hjloud
    obtain ⟨m, hkm, hmi, hm⟩ := hquiet k (by omega) ((h k).mpr honset)
    exact hm (hall m (by omega) (by omega))

theorem Episode.onset {first last : Nat} (h : Episode loud first last) :
    ∃! i, first ≤ i ∧ i ≤ last ∧ Onset loud i := by
  refine ⟨first, ⟨Nat.le_refl _, h.le, h.during first (Nat.le_refl _) h.le, h.before⟩, ?_⟩
  rintro i ⟨hfirst, hlast, -, hbefore⟩
  by_contra hne
  exact hbefore (i - 1) (by omega) (h.during (i - 1) (by omega) (by omega))

end Runs

end Cosmon.Lib.Episodes
