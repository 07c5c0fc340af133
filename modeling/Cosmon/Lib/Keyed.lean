import Mathlib.Data.List.Induction
import Mathlib.Data.List.Nodup
import Mathlib.Data.List.Perm.Basic
import Mathlib.Data.List.Sort
import Mathlib.Data.Set.Function
import Mathlib.Order.Defs.LinearOrder

namespace Cosmon.Lib.Keyed

variable {κ α β : Type} [DecidableEq κ] (key : α → κ)

def get (k : κ) (l : List α) : Option α := l.find? fun a => key a = k

def insert [LT κ] [DecidableLT κ] (a : α) : List α → List α
  | [] => [a]
  | b :: rest =>
    if key a < key b then a :: b :: rest
    else if key a = key b then a :: rest
    else b :: insert a rest

def set (a : α) (l : List α) : List α := l.map fun b => if key b = key a then a else b

variable {key}

theorem get_none {k : κ} {l : List α} : get key k l = none ↔ k ∉ l.map key := by
  rw [get, List.find?_eq_none, List.mem_map]
  constructor
  · rintro h ⟨a, ha, rfl⟩
    exact h a ha (decide_eq_true rfl)
  · intro h a ha hk
    exact h ⟨a, ha, of_decide_eq_true hk⟩

theorem get_mem {k : κ} {l : List α} {a : α} (h : get key k l = some a) : a ∈ l ∧ key a = k := by
  rw [get] at h
  have hkey := List.find?_some h
  exact ⟨List.mem_of_find?_eq_some h, of_decide_eq_true hkey⟩

theorem get_iff {k : κ} {l : List α} {a : α} (hl : (l.map key).Nodup) :
    get key k l = some a ↔ a ∈ l ∧ key a = k := by
  refine ⟨get_mem, ?_⟩
  rintro ⟨ha, rfl⟩
  cases h : get key (key a) l with
  | none => exact absurd (List.mem_map_of_mem ha) (get_none.mp h)
  | some b =>
    obtain ⟨hb, hkey⟩ := get_mem h
    rw [List.inj_on_of_nodup_map hl hb ha hkey]

theorem insert_perm [LT κ] [DecidableLT κ] {a : α} {l : List α} (h : key a ∉ l.map key) :
    (insert key a l).Perm (a :: l) := by
  induction l with
  | nil => exact List.Perm.refl _
  | cons b rest ih =>
    rw [List.map_cons, List.mem_cons, not_or] at h
    rw [insert, if_neg h.1]
    split
    · exact List.Perm.refl _
    · exact ((ih h.2).cons b).trans (List.Perm.swap a b rest)

theorem get_insert [LT κ] [DecidableLT κ] (a : α) (k : κ) (l : List α) :
    get key k (insert key a l) = if key a = k then some a else get key k l := by
  have hhead : ∀ rest, get key k (a :: rest) = if key a = k then some a else get key k rest := by
    intro rest
    unfold get
    rw [List.find?_cons]
    by_cases hk : key a = k
    · simp [hk]
    · simp [hk]
  induction l with
  | nil => exact hhead []
  | cons b rest ih =>
    rw [insert]
    split
    · exact hhead (b :: rest)
    · split
      · rename_i hab
        rw [hhead]
        split
        · rfl
        · rename_i hk
          rw [hab] at hk
          exact (List.find?_cons_of_neg (by simpa using hk)).symm
      · rename_i hab
        unfold get at ih ⊢
        rw [List.find?_cons, List.find?_cons, ih]
        by_cases hk : key b = k
        · subst hk
          simp [hab]
        · simp [hk]

theorem foldl_insert_perm [LT κ] [DecidableLT κ] (key : α → κ) (f : β → α) (xs : List β)
    (h : ((xs.map f).map key).Nodup) :
    (xs.foldl (fun l x => insert key (f x) l) []).Perm (xs.map f) := by
  induction xs using List.reverseRecOn with
  | nil => exact List.Perm.refl _
  | append_singleton xs x ih =>
    rw [List.map_append, List.map_append, List.nodup_append] at h
    obtain ⟨hxs, _, hdisjoint⟩ := h
    have hperm := ih hxs
    rw [List.foldl_append, List.foldl_cons, List.foldl_nil, List.map_append, List.map_singleton]
    refine (insert_perm fun hmem => ?_).trans
      ((hperm.cons (f x)).trans (List.perm_append_singleton (f x) _).symm)
    exact hdisjoint _ ((hperm.map key).subset hmem) _ (List.mem_singleton_self _) rfl

omit [DecidableEq κ] in
theorem nodup_append {l : List α} (hl : (l.map key).Nodup) {a : α} (h : key a ∉ l.map key) :
    ((l ++ [a]).map key).Nodup := by
  rw [List.map_append, List.map_singleton, List.nodup_append]
  refine ⟨hl, List.nodup_singleton _, fun k hk last hlast heq => h ?_⟩
  rw [List.mem_singleton] at hlast
  rwa [← hlast, ← heq]

theorem keys_set {a : α} {l : List α} : (set key a l).map key = l.map key := by
  rw [set, List.map_map]
  refine List.map_congr_left fun b _ => ?_
  dsimp only [Function.comp_apply]
  split
  · rename_i h
    exact h.symm
  · rfl

theorem mem_set {a b : α} {l : List α} (h : b ∈ set key a l) :
    (b = a ∧ key a ∈ l.map key) ∨ (b ∈ l ∧ key b ≠ key a) := by
  obtain ⟨c, hc, rfl⟩ := List.mem_map.mp h
  split
  · rename_i hkey
    exact Or.inl ⟨rfl, hkey ▸ List.mem_map_of_mem hc⟩
  · rename_i hkey
    exact Or.inr ⟨hc, hkey⟩

theorem mem_set_iff {a b : α} {l : List α} (h : key a ∈ l.map key) :
    b ∈ set key a l ↔ b = a ∨ (b ∈ l ∧ key b ≠ key a) := by
  constructor
  · intro hb
    exact (mem_set hb).imp_left And.left
  · rintro (rfl | ⟨hb, hne⟩)
    · obtain ⟨c, hc, heq⟩ := List.mem_map.mp h
      exact List.mem_map.mpr ⟨c, hc, if_pos heq⟩
    · exact List.mem_map.mpr ⟨b, hb, if_neg hne⟩

theorem get_set_of_ne {a : α} {k : κ} (h : key a ≠ k) (l : List α) : get key k (set key a l) = get key k l := by
  unfold get set
  induction l with
  | nil => rfl
  | cons b rest ih =>
    rw [List.map_cons]
    by_cases hb : key b = key a
    · rw [if_pos hb, List.find?_cons_of_neg (by rwa [decide_eq_true_eq]),
        List.find?_cons_of_neg (by rwa [decide_eq_true_eq, hb]), ih]
    · rw [if_neg hb, List.find?_cons, List.find?_cons, ih]

theorem get_eq_head (k : κ) (l : List α) : get key k l = (l.filter fun a => key a = k).head? := by
  rw [get, List.head?_filter]

theorem filter_set {a : α} {k : κ} (h : key a = k) (l : List α) :
    ((set key a l).filter fun b => key b = k) = (l.filter fun b => key b = k).map fun _ => a := by
  unfold set
  induction l with
  | nil => rfl
  | cons b rest ih =>
    rw [List.map_cons, h]
    rw [h] at ih
    by_cases hb : key b = k
    · rw [if_pos hb, List.filter_cons_of_pos (by rwa [decide_eq_true_eq]),
        List.filter_cons_of_pos (by rwa [decide_eq_true_eq]), List.map_cons, ih]
    · rw [if_neg hb, List.filter_cons_of_neg (by rwa [decide_eq_true_eq]),
        List.filter_cons_of_neg (by rwa [decide_eq_true_eq]), ih]

theorem filter_set_of_ne {a : α} {k : κ} (h : key a ≠ k) (l : List α) :
    ((set key a l).filter fun b => key b = k) = l.filter fun b => key b = k := by
  unfold set
  induction l with
  | nil => rfl
  | cons b rest ih =>
    rw [List.map_cons]
    by_cases hb : key b = key a
    · rw [if_pos hb, List.filter_cons_of_neg (by rwa [decide_eq_true_eq]),
        List.filter_cons_of_neg (by rwa [decide_eq_true_eq, hb]), ih]
    · rw [if_neg hb, List.filter_cons, List.filter_cons, ih]

theorem update_some {f : κ → Option β} {k j : κ} {a b : β} (h : Function.update f k (some a) j = some b) :
    (j = k ∧ b = a) ∨ (j ≠ k ∧ f j = some b) := by
  rw [Function.update_apply] at h
  split at h
  · rename_i hj
    exact Or.inl ⟨hj, (Option.some.inj h).symm⟩
  · rename_i hj
    exact Or.inr ⟨hj, h⟩

end Cosmon.Lib.Keyed

namespace Cosmon.Lib.KeyedSort

variable {α β κ : Type} [LinearOrder κ] (key : α → κ)

/-- A stable sort by a key. -/
def sortBy (l : List α) : List α := l.insertionSort fun a b => key a ≤ key b

theorem sortBy_perm (l : List α) : (sortBy key l).Perm l := List.perm_insertionSort _ l

theorem sortBy_pairwise (l : List α) : (sortBy key l).Pairwise fun a b => key a ≤ key b :=
  List.pairwise_insertionSort _ l

theorem sortBy_eq_of_perm {l l' : List α} (h : l.Perm l') (hkeys : ∀ a ∈ l, ∀ b ∈ l, key a = key b → a = b) :
    sortBy key l = sortBy key l' := by
  have hl := sortBy_perm key l
  have hl' := sortBy_perm key l'
  refine List.Perm.eq_of_pairwise ?_ (sortBy_pairwise key l) (sortBy_pairwise key l') (hl.trans (h.trans hl'.symm))
  intro a b ha hb hab hba
  exact hkeys a (hl.mem_iff.mp ha) b (h.mem_iff.mpr (hl'.mem_iff.mp hb)) (le_antisymm hab hba)

theorem filter_sortBy (k : κ) (l : List α) :
    (sortBy key l).filter (fun a => key a = k) = l.filter fun a => key a = k := by
  have hsame : (l.filter fun a => key a = k).Pairwise fun a b => key a ≤ key b := by
    refine List.pairwise_of_forall_mem_list fun a ha b hb => ?_
    rw [decide_eq_true_iff.mp (List.mem_filter.mp ha).2, decide_eq_true_iff.mp (List.mem_filter.mp hb).2]
  have hsub := (List.sublist_insertionSort hsame List.filter_sublist).filter fun a => decide (key a = k)
  rw [List.filter_filter] at hsub
  simp only [Bool.and_self] at hsub
  exact (hsub.eq_of_length ((sortBy_perm key l).filter _).length_eq.symm).symm

theorem eq_of_sortBy_swap {a b : α} {l : List α} (hkey : key a = key b)
    (h : sortBy key (a :: b :: l) = sortBy key (b :: a :: l)) : a = b := by
  have hfilter := congrArg (List.filter fun x => decide (key x = key b)) h
  rw [filter_sortBy, filter_sortBy] at hfilter
  simp only [List.filter_cons, hkey, decide_true, if_true, List.cons.injEq] at hfilter
  exact hfilter.1

theorem perm_of_map_perm {f : α → β} {l l' : List α} {s : Set α} (hf : Set.InjOn f s) (hl : ∀ a ∈ l, a ∈ s)
    (hl' : ∀ a ∈ l', a ∈ s) (h : (l.map f).Perm (l'.map f)) : l.Perm l' := by
  cases l with
  | nil =>
    rw [List.map_nil, List.nil_perm, List.map_eq_nil_iff] at h
    rw [h]
  | cons a rest =>
    have : Nonempty α := ⟨a⟩
    have hback : ∀ xs : List α, (∀ x ∈ xs, x ∈ s) → (xs.map f).map (Function.invFunOn f s) = xs := by
      intro xs hxs
      rw [List.map_map]
      exact (List.map_congr_left fun x hx => hf.leftInvOn_invFunOn (hxs x hx)).trans (List.map_id xs)
    rw [← hback _ hl, ← hback l' hl']
    exact h.map _

end Cosmon.Lib.KeyedSort

namespace Cosmon.Lib.Buckets

open Cosmon.Lib.Keyed

section Ordered

variable {κ α : Type} [LinearOrder κ] {key : α → κ}

def Ordered (key : α → κ) (l : List α) : Prop := l.Pairwise fun a b => key a < key b

theorem Ordered.nodup {l : List α} (h : Ordered key l) : (l.map key).Nodup := by
  rw [List.Nodup, List.pairwise_map]
  exact List.Pairwise.imp (fun hlt => ne_of_lt hlt) h

theorem mem_insert_key {a b : α} {l : List α} (h : b ∈ Keyed.insert key a l) : b = a ∨ b ∈ l := by
  induction l with
  | nil => exact Or.inl (List.mem_singleton.mp h)
  | cons c rest ih =>
    rw [Keyed.insert] at h
    split_ifs at h
    · exact List.mem_cons.mp h
    · exact (List.mem_cons.mp h).imp_right (List.mem_cons_of_mem c)
    · obtain rfl | h := List.mem_cons.mp h
      · exact Or.inr List.mem_cons_self
      · exact (ih h).imp_right (List.mem_cons_of_mem c)

theorem Ordered.insert {l : List α} (h : Ordered key l) (a : α) : Ordered key (Keyed.insert key a l) := by
  induction l with
  | nil => exact List.pairwise_singleton _ a
  | cons b rest ih =>
    obtain ⟨hb, hrest⟩ := List.pairwise_cons.mp h
    rw [Keyed.insert]
    split_ifs with hlt heq
    · refine List.pairwise_cons.mpr ⟨fun c hc => ?_, h⟩
      obtain rfl | hc := List.mem_cons.mp hc
      · exact hlt
      · exact lt_trans hlt (hb c hc)
    · exact List.pairwise_cons.mpr ⟨fun c hc => heq ▸ hb c hc, hrest⟩
    · refine List.pairwise_cons.mpr ⟨fun c hc => ?_, ih hrest⟩
      obtain rfl | hc := mem_insert_key hc
      · exact lt_of_le_of_ne (not_lt.mp hlt) fun h => heq h.symm
      · exact hb c hc

theorem Ordered.ext {l l' : List α} (h : Ordered key l) (h' : Ordered key l') (hget : ∀ k, get key k l = get key k l') :
    l = l' := by
  have hmem : ∀ a, a ∈ l ↔ a ∈ l' := by
    intro a
    have hfound := hget (key a)
    rw [← and_iff_left (a := a ∈ l) (rfl : key a = key a), ← and_iff_left (a := a ∈ l') (rfl : key a = key a),
      ← get_iff h.nodup, ← get_iff h'.nodup, hfound]
  have hperm : l.Perm l' :=
    (List.perm_ext_iff_of_nodup (List.Nodup.of_map key h.nodup) (List.Nodup.of_map key h'.nodup)).mpr hmem
  exact hperm.eq_of_pairwise (fun a b _ _ hab hba => absurd hab (lt_asymm hba)) h h'

end Ordered

section Buckets

variable {κ α β : Type} [LinearOrder κ] (idx : α → κ) (step : β → α → β) (init : β)

def put (m : List (κ × β)) (x : α) : List (κ × β) :=
  Keyed.insert Prod.fst (idx x, step (((get Prod.fst (idx x) m).map Prod.snd).getD init) x) m

def buckets (xs : List α) : List (κ × β) := xs.foldl (put idx step init) []

variable {idx step init}

theorem buckets_concat (xs : List α) (x : α) :
    buckets idx step init (xs ++ [x]) = put idx step init (buckets idx step init xs) x := List.foldl_concat ..

theorem buckets_ordered (xs : List α) : Ordered Prod.fst (buckets idx step init xs) := by
  induction xs using List.reverseRecOn with
  | nil => exact List.Pairwise.nil
  | append_singleton xs x ih =>
    rw [buckets_concat]
    exact ih.insert _

theorem get_buckets (k : κ) (xs : List α) : get Prod.fst k (buckets idx step init xs) =
    if xs.filter (fun x => idx x = k) = [] then none
    else some (k, (xs.filter fun x => idx x = k).foldl step init) := by
  induction xs using List.reverseRecOn generalizing k with
  | nil => rfl
  | append_singleton xs x ih =>
    rw [buckets_concat, put, get_insert, List.filter_append]
    by_cases hk : idx x = k
    · subst hk
      have hbefore : ((get Prod.fst (idx x) (buckets idx step init xs)).map Prod.snd).getD init =
          (xs.filter fun y => idx y = idx x).foldl step init := by
        rw [ih]
        split_ifs with hnone
        · rw [hnone]
          rfl
        · rfl
      have hself : [x].filter (fun y => idx y = idx x) = [x] := List.filter_cons_of_pos (decide_eq_true rfl)
      rw [if_pos rfl, hbefore, hself, if_neg (by simp), List.foldl_concat]
    · rw [if_neg hk, List.filter_cons_of_neg (by simpa using hk), List.filter_nil, List.append_nil, ih]

theorem buckets_congr {xs ys : List α}
    (h : ∀ k, xs.filter (fun x => idx x = k) = ys.filter fun x => idx x = k) :
    buckets idx step init xs = buckets idx step init ys := by
  refine (buckets_ordered xs).ext (buckets_ordered ys) fun k => ?_
  rw [get_buckets, get_buckets, h]

theorem mem_buckets {k : κ} {b : β} {xs : List α} : (k, b) ∈ buckets idx step init xs ↔
    xs.filter (fun x => idx x = k) ≠ [] ∧ b = (xs.filter fun x => idx x = k).foldl step init := by
  have hget := @get_iff _ _ _ Prod.fst k _ (k, b) (@buckets_ordered _ _ _ _ idx step init xs).nodup
  rw [and_iff_left rfl] at hget
  rw [← hget, get_buckets]
  split_ifs with hnone
  · exact iff_of_false nofun fun h => h.1 hnone
  · rw [and_iff_right hnone, Option.some.injEq, Prod.mk.injEq, and_iff_right rfl, eq_comm]

end Buckets

end Cosmon.Lib.Buckets
