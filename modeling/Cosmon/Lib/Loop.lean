import Mathlib.Logic.Relation

namespace Cosmon.Lib.Loop

open Relation

variable {σ ρ : Type} (turn : σ → σ ⊕ ρ)

def run : Nat → σ → Option ρ
  | 0, _ => none
  | fuel + 1, s =>
    match turn s with
    | .inl next => run fuel next
    | .inr result => some result

def Turns (s next : σ) : Prop := turn s = .inl next

variable {turn} {s t : σ} {r : ρ}

theorem run_again (h : turn s = .inl t) (fuel : Nat) : run turn (fuel + 1) s = run turn fuel t := by
  rw [run, h]

theorem run_return (h : turn s = .inr r) (fuel : Nat) : run turn (fuel + 1) s = some r := by
  rw [run, h]

theorem run_some_iff : (∃ fuel, run turn fuel s = some r) ↔ ∃ t, ReflTransGen (Turns turn) s t ∧ turn t = .inr r := by
  constructor
  · rintro ⟨fuel, h⟩
    induction fuel generalizing s with
    | zero => cases h
    | succ fuel ih =>
      cases hturn : turn s with
      | inl next =>
        rw [run_again hturn] at h
        obtain ⟨t, hreach, ht⟩ := ih h
        exact ⟨t, .head hturn hreach, ht⟩
      | inr result =>
        rw [run_return hturn, Option.some_inj] at h
        subst h
        exact ⟨s, .refl, hturn⟩
  · rintro ⟨t, hreach, ht⟩
    induction hreach using ReflTransGen.head_induction_on with
    | refl => exact ⟨1, run_return ht 0⟩
    | head hturn _ ih =>
      obtain ⟨fuel, hfuel⟩ := ih
      exact ⟨fuel + 1, (run_again hturn fuel).trans hfuel⟩

theorem run_ends (m : σ → Nat) (h : ∀ t next, ReflTransGen (Turns turn) s t → turn t = .inl next → m next < m t) :
    ∃ fuel r, run turn fuel s = some r := by
  induction hm : m s using Nat.strongRecOn generalizing s with
  | ind n ih =>
    cases hturn : turn s with
    | inr result => exact ⟨1, result, run_return hturn 0⟩
    | inl next =>
      have hless : m next < n := hm ▸ h s next .refl hturn
      obtain ⟨fuel, r, hrun⟩ := ih (m next) hless (fun t u hreach => h t u (.head hturn hreach)) rfl
      exact ⟨fuel + 1, r, (run_again hturn fuel).trans hrun⟩

end Cosmon.Lib.Loop
