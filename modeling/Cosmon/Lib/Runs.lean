import Mathlib.Data.Nat.Init
import Mathlib.Data.List.Basic
import Mathlib.Data.List.Induction

namespace Cosmon.Lib.Runs

variable {σ α : Type} (step : σ → α → σ)

/-- The state a run is in before its `n`-th action. -/
def stateAt (s : σ) (ops : List α) (n : Nat) : σ := (ops.take n).foldl step s

theorem stateAt_succ {ops : List α} {n : Nat} {op : α} (h : ops[n]? = some op) (s : σ) :
    stateAt step s ops (n + 1) = step (stateAt step s ops n) op := by
  simp only [stateAt, List.take_add_one, h, Option.toList_some, List.foldl_append, List.foldl_cons,
    List.foldl_nil]

theorem stateAt_none {ops : List α} {n : Nat} (h : ops[n]? = none) (s : σ) :
    stateAt step s ops (n + 1) = stateAt step s ops n := by
  simp only [stateAt, List.take_add_one, h, Option.toList_none, List.append_nil]

theorem stateAt_length (s : σ) (ops : List α) : stateAt step s ops ops.length = ops.foldl step s := by
  rw [stateAt, List.take_length]

variable {step}

theorem stateAt_preserves {P : σ → Prop} {ops : List α} (s : σ)
    (hstep : ∀ n op, ops[n]? = some op → P (stateAt step s ops n) → P (step (stateAt step s ops n) op))
    {i j : Nat} (hij : i ≤ j) (hi : P (stateAt step s ops i)) : P (stateAt step s ops j) := by
  induction j, hij using Nat.le_induction with
  | base => exact hi
  | succ j _ ih =>
    cases h : ops[j]? with
    | none =>
      rw [stateAt_none step h]
      exact ih
    | some op =>
      rw [stateAt_succ step h]
      exact hstep j op h ih

theorem forall_stateAt_nil {P : σ → Prop} {s : σ} (hs : P s) (n : Nat) : P (stateAt step s [] n) := by
  rw [stateAt, List.take_nil]
  exact hs

theorem forall_stateAt_cons {P : σ → Prop} {s : σ} {op : α} {ops : List α} (hs : P s)
    (hops : ∀ n, P (stateAt step (step s op) ops n)) (n : Nat) : P (stateAt step s (op :: ops) n) := by
  cases n with
  | zero => exact hs
  | succ n => exact hops n

theorem forall_stateAt_append {P : σ → Prop} {s : σ} {ops ops' : List α}
    (hops : ∀ n, P (stateAt step s ops n)) (hops' : ∀ n, P (stateAt step (ops.foldl step s) ops' n))
    (n : Nat) : P (stateAt step s (ops ++ ops') n) := by
  rw [stateAt, List.take_append, List.foldl_append]
  obtain hle | hgt := Nat.le_total ops.length n
  · rw [List.take_of_length_le hle]
    exact hops' _
  · rw [Nat.sub_eq_zero_of_le hgt, List.take_zero]
    exact hops n

theorem forall_actions_cons {Q : σ → α → Prop} {s : σ} {op : α} {ops : List α} :
    (∀ n a, (op :: ops)[n]? = some a → Q (stateAt step s (op :: ops) n) a) ↔
      Q s op ∧ ∀ n a, ops[n]? = some a → Q (stateAt step (step s op) ops n) a := by
  constructor
  · intro h
    exact ⟨h 0 op rfl, fun n a ha => h (n + 1) a ha⟩
  · rintro ⟨hfirst, hrest⟩ n a ha
    cases n with
    | zero =>
      cases ha
      exact hfirst
    | succ n => exact hrest n a ha

/-- Every event of a history has the property against what was before it. -/
def EachAfter (Q : List α → α → Prop) (history : List α) : Prop :=
  ∀ before a after, history = before ++ a :: after → Q before a

theorem eachAfter_nil {Q : List α → α → Prop} : EachAfter Q [] := by
  intro before a after h
  cases before <;> cases h

theorem eachAfter_concat {Q : List α → α → Prop} {history : List α} {a : α} (h : EachAfter Q history)
    (ha : Q history a) : EachAfter Q (history ++ [a]) := by
  intro before b after heq
  obtain rfl | ⟨after', c, rfl⟩ := List.eq_nil_or_concat after
  · obtain ⟨rfl, hb⟩ := List.append_inj' heq rfl
    cases hb
    exact ha
  · rw [List.concat_eq_append, ← List.cons_append, ← List.append_assoc] at heq
    exact h before b after' (List.append_inj' heq rfl).1

theorem eachAfter_append {Q : List α → α → Prop} {history batch : List α} (h : EachAfter Q history)
    (hbatch : ∀ front a back, batch = front ++ a :: back → Q (history ++ front) a) :
    EachAfter Q (history ++ batch) := by
  induction batch using List.reverseRecOn with
  | nil =>
    rw [List.append_nil]
    exact h
  | append_singleton batch last ih =>
    rw [← List.append_assoc]
    refine eachAfter_concat (ih fun front a back heq => ?_) (hbatch batch last [] rfl)
    refine hbatch front a (back ++ [last]) ?_
    rw [heq, List.append_assoc, List.cons_append]

end Cosmon.Lib.Runs
