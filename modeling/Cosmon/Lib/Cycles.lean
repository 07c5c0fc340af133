import Mathlib.Data.Finset.Max
import Mathlib.Logic.Relation

namespace Cosmon.Lib.Cycles

open Relation

variable {α : Type} {r : α → α → Prop} {s : Finset α}

theorem rank_lt {rank : α → Nat} (hrank : ∀ a b, r a b → rank a < rank b) {a b : α}
    (h : TransGen r a b) : rank a < rank b := by
  induction h with
  | single h => exact hrank _ _ h
  | tail _ h ih => exact ih.trans (hrank _ _ h)

/-- A relation without cycles whose edges start in a finite set has such a
numbering: count what leads to a node. -/
theorem exists_rank (hs : ∀ a b, r a b → a ∈ s) (hacyclic : ∀ a, ¬TransGen r a a) :
    ∃ rank : α → Nat, ∀ a b, r a b → rank a < rank b := by
  classical
  refine ⟨fun b => (s.filter (fun a => TransGen r a b)).card, fun a b hab => ?_⟩
  apply Finset.card_lt_card
  rw [Finset.ssubset_iff_of_subset]
  · refine ⟨a, ?_, ?_⟩
    · exact Finset.mem_filter.mpr ⟨hs a b hab, .single hab⟩
    · exact fun ha => hacyclic a (Finset.mem_filter.mp ha).2
  · intro c hc
    obtain ⟨hcs, hca⟩ := Finset.mem_filter.mp hc
    exact Finset.mem_filter.mpr ⟨hcs, hca.tail hab⟩

theorem acyclic_iff_rank (hs : ∀ a b, r a b → a ∈ s) :
    (∀ a, ¬TransGen r a a) ↔ ∃ rank : α → Nat, ∀ a b, r a b → rank a < rank b :=
  ⟨exists_rank hs, fun ⟨_, hrank⟩ _ h => Nat.lt_irrefl _ (rank_lt hrank h)⟩

theorem reached_from_cycle (hpred : ∀ b ∈ s, ∃ a ∈ s, r a b) {b : α} (hb : b ∈ s) :
    ∃ c, TransGen r c c ∧ ReflTransGen r c b := by
  classical
  by_contra hnone
  -- the edges among the nodes of `s` that lead to `b`
  let r' : α → α → Prop := fun a c => (a ∈ s ∧ ReflTransGen r a b) ∧ r a c
  have hlift : TransGen r' ≤ TransGen r := TransGen.mono (fun _ _ hac => hac.2)
  have hacyclic : ∀ a, ¬TransGen r' a a := by
    intro a ha
    obtain ⟨_, hstep, _⟩ := TransGen.head'_iff.mp ha
    exact hnone ⟨a, hlift a a ha, hstep.1.2⟩
  obtain ⟨rank, hrank⟩ := exists_rank (s := s) (fun a c h => h.1.1) hacyclic
  obtain ⟨m, hm, hmin⟩ := Finset.exists_min_image (s.filter (fun a => ReflTransGen r a b)) rank
    ⟨b, Finset.mem_filter.mpr ⟨hb, .refl⟩⟩
  obtain ⟨hms, hmb⟩ := Finset.mem_filter.mp hm
  obtain ⟨a, has, ham⟩ := hpred m hms
  have hab : ReflTransGen r a b := .head ham hmb
  have hlt := hrank a m ⟨⟨has, hab⟩, ham⟩
  exact Nat.not_lt.mpr (hmin a (Finset.mem_filter.mpr ⟨has, hab⟩)) hlt

end Cosmon.Lib.Cycles
