import Cosmon.Lib.Enumerate
import Mathlib.Data.List.Perm.Basic

namespace Cosmon.Graph.Affinity

open Cosmon.Lib.Enumerate

variable {N M : Type} [LinearOrder M]

def bucket (frontier : List N) (modelOf : N → Option M) (model : M) : List N :=
  frontier.filter (fun node => modelOf node = some model)

def models (frontier : List N) (modelOf : N → Option M) : List M :=
  enumerate (frontier.filterMap modelOf).toFinset

/-- The order in which the buckets drain: the resident model first. -/
def drainOrder (keys : List M) : Option M → List M
  | none => keys
  | some res => if res ∈ keys then res :: keys.erase res else keys

/-- A stable partition of the frontier by model, unbound nodes last. -/
def affinityOrder (frontier : List N) (modelOf : N → Option M) (resident : Option M) : List N :=
  (drainOrder (models frontier modelOf) resident).flatMap (bucket frontier modelOf) ++
    frontier.filter (fun node => (modelOf node).isNone)

/-- The number of model loads an order costs. An unbound node runs on
whatever is loaded. -/
def modelSwitchCount (modelOf : N → Option M) : List N → Option M → Nat
  | [], _ => 0
  | node :: order, current =>
    match modelOf node with
    | none => modelSwitchCount modelOf order current
    | some model =>
      if current = some model then modelSwitchCount modelOf order current
      else modelSwitchCount modelOf order (some model) + 1

theorem drainOrder_perm (keys : List M) (resident : Option M) : (drainOrder keys resident).Perm keys := by
  cases resident with
  | none => exact .refl _
  | some res =>
    simp only [drainOrder]
    split
    · next h => exact (List.perm_cons_erase h).symm
    · exact .refl _

theorem flatMap_bucket_perm (frontier : List N) (modelOf : N → Option M) (keys : List M)
    (hk : keys.Nodup) :
    (keys.flatMap (bucket frontier modelOf)).Perm
      (frontier.filter (fun node => ∃ k ∈ keys, modelOf node = some k)) := by
  induction keys with
  | nil => simp
  | cons k keys ih =>
    obtain ⟨hnot, hnd⟩ := List.nodup_cons.mp hk
    have hsplit := List.filter_append_perm (fun node => decide (modelOf node = some k))
      (frontier.filter (fun node => ∃ a ∈ k :: keys, modelOf node = some a))
    rw [List.filter_filter, List.filter_filter] at hsplit
    refine List.Perm.trans ?_ hsplit
    rw [List.flatMap_cons]
    apply List.Perm.append
    · apply List.Perm.of_eq
      apply List.filter_congr
      intro node _
      by_cases h : modelOf node = some k <;> simp [h]
    · refine (ih hnd).trans (List.Perm.of_eq (List.filter_congr ?_))
      intro node _
      by_cases h : modelOf node = some k
      · simp [h, hnot]
      · simp [h]

/-- The reorder is a permutation: what the frontier declared ready is still
dispatched. -/
theorem affinityOrder_perm (frontier : List N) (modelOf : N → Option M) (resident : Option M) :
    (affinityOrder frontier modelOf resident).Perm frontier := by
  have hnd : (drainOrder (models frontier modelOf) resident).Nodup :=
    (drainOrder_perm _ resident).nodup_iff.mpr (enumerate_nodup _)
  have hsplit := List.filter_append_perm (fun node => (modelOf node).isSome) frontier
  refine List.Perm.trans ?_ hsplit
  apply List.Perm.append
  · refine (flatMap_bucket_perm frontier modelOf _ hnd).trans (List.Perm.of_eq (List.filter_congr ?_))
    intro node hn
    cases h : modelOf node with
    | none => simp
    | some m =>
      have hm : m ∈ drainOrder (models frontier modelOf) resident := by
        rw [(drainOrder_perm _ resident).mem_iff, models, mem_enumerate, List.mem_toFinset]
        exact List.mem_filterMap.mpr ⟨node, hn, h⟩
      simp [hm]
  · apply List.Perm.of_eq
    apply List.filter_congr
    intro node _
    cases modelOf node <;> rfl

example : affinityOrder ["m1", "m2", "m3", "m4"]
    (fun n => if n ∈ ["m1", "m3"] then some 1 else some 2) (some 2) = ["m2", "m4", "m1", "m3"] := by
  decide

end Cosmon.Graph.Affinity
