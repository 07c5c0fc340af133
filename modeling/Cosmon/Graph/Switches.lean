import Cosmon.Graph.Affinity
import Mathlib.Data.Finset.Card
import Mathlib.Data.Finset.Filter

namespace Cosmon.Graph.Switches

open Cosmon.Lib.Enumerate
open Cosmon.Graph.Affinity

variable {N M : Type} [LinearOrder M] (modelOf : N → Option M)

def toLoad (order : List N) (current : Option M) : Finset M :=
  (order.filterMap modelOf).toFinset.filter (fun m => current ≠ some m)

theorem mem_toLoad {order : List N} {current : Option M} {m : M} :
    m ∈ toLoad modelOf order current ↔ (∃ n ∈ order, modelOf n = some m) ∧ current ≠ some m := by
  simp [toLoad]

theorem toLoad_perm {order order' : List N} (h : order.Perm order') (current : Option M) :
    toLoad modelOf order current = toLoad modelOf order' current := by
  ext m
  simp only [mem_toLoad, h.mem_iff]

theorem toLoad_le_switches (order : List N) (current : Option M) :
    (toLoad modelOf order current).card ≤ modelSwitchCount modelOf order current := by
  induction order generalizing current with
  | nil => simp [toLoad, modelSwitchCount]
  | cons node order ih =>
    cases hm : modelOf node with
    | none =>
      have hsame : toLoad modelOf (node :: order) current = toLoad modelOf order current := by
        simp only [toLoad, List.filterMap_cons, hm]
      simpa only [modelSwitchCount, hm, hsame] using ih current
    | some model =>
      by_cases hcur : current = some model
      · subst hcur
        have hsame : toLoad modelOf (node :: order) (some model) = toLoad modelOf order (some model) := by
          simp [toLoad, hm, Finset.filter_insert]
        simpa only [modelSwitchCount, hm, if_true, hsame] using ih (some model)
      · have hsub : toLoad modelOf (node :: order) current ⊆
            insert model (toLoad modelOf order (some model)) := by
          intro m
          by_cases hne : m = model
          · simp [hne]
          · simp only [mem_toLoad, List.exists_mem_cons_iff, hm, Finset.mem_insert, Option.some.injEq]
            rintro ⟨heq | hex, _⟩
            · exact absurd heq.symm hne
            · exact .inr ⟨hex, fun heq => hne (Option.some.inj heq).symm⟩
        have hcard := (Finset.card_le_card hsub).trans (Finset.card_insert_le _ _)
        have hrest := ih (some model)
        simp only [modelSwitchCount, hm, if_neg hcur]
        omega

theorem switches_bucket (nodes rest : List N) {model : M} (current : Option M)
    (hall : ∀ n ∈ nodes, modelOf n = some model) (hne : nodes ≠ []) :
    modelSwitchCount modelOf (nodes ++ rest) current =
      modelSwitchCount modelOf rest (some model) + if current = some model then 0 else 1 := by
  have hwarm : ∀ nodes : List N, (∀ n ∈ nodes, modelOf n = some model) →
      modelSwitchCount modelOf (nodes ++ rest) (some model) = modelSwitchCount modelOf rest (some model) := by
    intro nodes hall
    induction nodes with
    | nil => rfl
    | cons n nodes ih =>
      have hn := hall n List.mem_cons_self
      simpa only [List.cons_append, modelSwitchCount, hn, if_true] using
        ih fun n hn => hall n (List.mem_cons_of_mem _ hn)
  obtain ⟨n, nodes, rfl⟩ := List.exists_cons_of_ne_nil hne
  have hn := hall n List.mem_cons_self
  have hrest := hwarm nodes fun n hn => hall n (List.mem_cons_of_mem _ hn)
  by_cases hcur : current = some model
  · simp only [List.cons_append, modelSwitchCount, hn, hcur, if_true, hrest, Nat.add_zero]
  · simp only [List.cons_append, modelSwitchCount, hn, if_neg hcur, hrest]

theorem switches_unbound (rest : List N) (current : Option M) (hall : ∀ n ∈ rest, modelOf n = none) :
    modelSwitchCount modelOf rest current = 0 := by
  induction rest with
  | nil => rfl
  | cons n rest ih =>
    have hn := hall n List.mem_cons_self
    simpa only [modelSwitchCount, hn] using ih fun n hn => hall n (List.mem_cons_of_mem _ hn)

/-- Draining one bucket after another, none of them for the loaded model, loads a model for
each. -/
theorem switches_buckets (frontier unbound : List N) (hunbound : ∀ n ∈ unbound, modelOf n = none)
    (keys : List M) (hkeys : ∀ k ∈ keys, bucket frontier modelOf k ≠ []) (hnd : keys.Nodup)
    (current : Option M) (hcur : ∀ k ∈ keys, current ≠ some k) :
    modelSwitchCount modelOf (keys.flatMap (bucket frontier modelOf) ++ unbound) current = keys.length := by
  induction keys generalizing current with
  | nil => exact switches_unbound modelOf unbound current hunbound
  | cons k keys ih =>
    obtain ⟨hk, hnd⟩ := List.nodup_cons.mp hnd
    have hall : ∀ n ∈ bucket frontier modelOf k, modelOf n = some k := by simp [bucket]
    rw [List.flatMap_cons, List.append_assoc,
      switches_bucket modelOf _ _ current hall (hkeys k List.mem_cons_self),
      if_neg (hcur k List.mem_cons_self), List.length_cons]
    congr 1
    apply ih
    · exact fun k' hk' => hkeys k' (List.mem_cons_of_mem _ hk')
    · exact hnd
    · rintro k' hk' heq
      cases heq
      exact hk hk'

theorem bucket_ne_nil {frontier : List N} {k : M} (hk : k ∈ models frontier modelOf) :
    bucket frontier modelOf k ≠ [] := by
  rw [models, mem_enumerate, List.mem_toFinset] at hk
  obtain ⟨n, hn, hnk⟩ := List.mem_filterMap.mp hk
  apply List.ne_nil_of_mem (a := n)
  simp [bucket, hn, hnk]

theorem toLoad_card (frontier : List N) (current : Option M) :
    (toLoad modelOf frontier current).card =
      ((models frontier modelOf).filter (fun m => current ≠ some m)).length := by
  have hkeys : toLoad modelOf frontier current =
      ((models frontier modelOf).filter (fun m => current ≠ some m)).toFinset := by
    ext m
    simp [toLoad, models]
  have hnd : (models frontier modelOf).Nodup := enumerate_nodup _
  rw [hkeys, List.toFinset_card_of_nodup (hnd.filter _)]

theorem switches_affinityOrder (frontier : List N) (resident : Option M) :
    modelSwitchCount modelOf (affinityOrder frontier modelOf resident) resident =
      (toLoad modelOf frontier resident).card := by
  have hnd : (models frontier modelOf).Nodup := enumerate_nodup _
  have hunbound : ∀ n ∈ frontier.filter (fun node => (modelOf node).isNone), modelOf n = none := by
    simp
  have hbuckets : ∀ k ∈ models frontier modelOf, bucket frontier modelOf k ≠ [] :=
    fun k hk => bucket_ne_nil modelOf hk
  have hcold : (∀ k ∈ models frontier modelOf, resident ≠ some k) →
      modelSwitchCount modelOf ((models frontier modelOf).flatMap (bucket frontier modelOf) ++
        frontier.filter (fun node => (modelOf node).isNone)) resident = (toLoad modelOf frontier resident).card := by
    intro hcur
    rw [switches_buckets modelOf frontier _ hunbound _ hbuckets hnd resident hcur, toLoad_card,
      List.filter_eq_self.mpr fun k hk => decide_eq_true (hcur k hk)]
  rw [affinityOrder]
  cases resident with
  | none => exact hcold (by simp)
  | some res =>
    simp only [drainOrder]
    by_cases hres : res ∈ models frontier modelOf
    · -- the bucket of the loaded model drains first and costs nothing
      have hall : ∀ n ∈ bucket frontier modelOf res, modelOf n = some res := by simp [bucket]
      rw [if_pos hres, List.flatMap_cons, List.append_assoc,
        switches_bucket modelOf _ _ _ hall (hbuckets res hres), if_pos rfl, Nat.add_zero,
        switches_buckets modelOf frontier _ hunbound, toLoad_card, hnd.erase_eq_filter]
      · congr 2
        funext m
        rw [Bool.eq_iff_iff, bne_iff_ne, ne_comm]
        simp
      · exact fun k hk => hbuckets k (List.mem_of_mem_erase hk)
      · exact hnd.erase res
      · rintro k hk heq
        cases heq
        exact hnd.not_mem_erase hk
    · rw [if_neg hres]
      apply hcold
      rintro k hk heq
      cases heq
      exact hres hk

/-- The affinity order permutes the frontier, and no other permutation needs fewer loads. -/
theorem affinityOrder_minimal (frontier : List N) (resident : Option M) :
    (affinityOrder frontier modelOf resident).Perm frontier ∧
    ∀ order, order.Perm frontier →
      modelSwitchCount modelOf (affinityOrder frontier modelOf resident) resident ≤
        modelSwitchCount modelOf order resident := by
  refine ⟨affinityOrder_perm frontier modelOf resident, fun order hperm => ?_⟩
  rw [switches_affinityOrder, ← toLoad_perm modelOf hperm]
  exact toLoad_le_switches modelOf order resident

end Cosmon.Graph.Switches
