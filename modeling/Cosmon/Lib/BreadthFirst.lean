import Mathlib.Data.Finset.Card
import Mathlib.Data.Finset.SDiff
import Mathlib.Data.List.Nodup
import Mathlib.Logic.Relation

namespace Cosmon.Lib.BreadthFirst

open Relation

variable {α : Type} [DecidableEq α]

structure Search (α : Type) where
  visited : Finset α
  queue : List α

def Search.visit (s : Search α) (a : α) : Search α :=
  if a ∈ s.visited then s else ⟨insert a s.visited, s.queue ++ [a]⟩

def Search.discover (s : Search α) (found : List α) : Search α := found.foldl Search.visit s

/-- The nodes in the order in which they are popped from the queue. -/
def search (next : α → List α) : Nat → Search α → List α
  | 0, _ => []
  | fuel + 1, s =>
    match s.queue with
    | [] => []
    | a :: rest => a :: search next fuel (Search.discover ⟨s.visited, rest⟩ (next a))

theorem discover_spec (found : List α) (s : Search α) :
    (∀ a, a ∈ (s.discover found).visited ↔ a ∈ s.visited ∨ a ∈ found) ∧
    ∃ fresh, (s.discover found).queue = s.queue ++ fresh ∧ fresh.Nodup ∧
      ∀ a, a ∈ fresh ↔ a ∈ found ∧ a ∉ s.visited := by
  induction found generalizing s with
  | nil => exact ⟨fun a => by simp [Search.discover], [], by simp [Search.discover]⟩
  | cons b found ih =>
    obtain ⟨hvisited, fresh, hqueue, hnodup, hfresh⟩ := ih (s.visit b)
    have hstep : s.discover (b :: found) = (s.visit b).discover found := rfl
    rw [hstep]
    by_cases hb : b ∈ s.visited
    · have hskip : s.visit b = s := if_pos hb
      rw [hskip] at hvisited hqueue hfresh ⊢
      refine ⟨fun a => ?_, fresh, hqueue, hnodup, fun a => ?_⟩
      · rw [hvisited, List.mem_cons]
        constructor
        · exact Or.imp_right .inr
        · rintro (h | rfl | h)
          · exact .inl h
          · exact .inl hb
          · exact .inr h
      · rw [hfresh, List.mem_cons]
        constructor
        · exact And.imp_left .inr
        · rintro ⟨rfl | h, hn⟩
          · exact absurd hb hn
          · exact ⟨h, hn⟩
    · have hadd : s.visit b = ⟨insert b s.visited, s.queue ++ [b]⟩ := if_neg hb
      rw [hadd] at hvisited hqueue hfresh ⊢
      simp only [Finset.mem_insert] at hvisited hfresh
      refine ⟨fun a => ?_, b :: fresh, ?_, ?_, fun a => ?_⟩
      · rw [hvisited, List.mem_cons, or_assoc, or_left_comm]
      · rw [hqueue, List.append_assoc, List.singleton_append]
      · exact List.nodup_cons.mpr ⟨fun hm => ((hfresh b).mp hm).2 (.inl rfl), hnodup⟩
      · rw [List.mem_cons, List.mem_cons, hfresh]
        by_cases hab : a = b
        · subst hab
          simp [hb]
        · simp [hab]

def pending (u : Finset α) (s : Search α) : Nat := (u \ s.visited).card + s.queue.length

theorem visit_pending {u : Finset α} {s : Search α} {a : α} (h : a ∈ u) :
    pending u (s.visit a) = pending u s := by
  unfold Search.visit
  split
  · rfl
  · next hv =>
    have hm : a ∈ u \ s.visited := Finset.mem_sdiff.mpr ⟨h, hv⟩
    have hpos : 0 < (u \ s.visited).card := Finset.card_pos.mpr ⟨a, hm⟩
    simp only [pending, Finset.sdiff_insert, Finset.card_erase_of_mem hm, List.length_append,
      List.length_singleton]
    omega

theorem discover_pending {u : Finset α} (found : List α) (s : Search α) (h : ∀ a ∈ found, a ∈ u) :
    pending u (s.discover found) = pending u s := by
  induction found generalizing s with
  | nil => rfl
  | cons a found ih =>
    have hstep : s.discover (a :: found) = (s.visit a).discover found := rfl
    rw [hstep, ih _ (fun b hb => h b (List.mem_cons_of_mem _ hb)), visit_pending (h a List.mem_cons_self)]

theorem discover_within {u : Finset α} {found : List α} {s : Search α} (hqueue : ∀ a ∈ s.queue, a ∈ u)
    (hfound : ∀ a ∈ found, a ∈ u) : ∀ a ∈ (s.discover found).queue, a ∈ u := by
  obtain ⟨-, fresh, hsplit, -, hfresh⟩ := discover_spec found s
  intro a ha
  rw [hsplit, List.mem_append] at ha
  rcases ha with ha | ha
  · exact hqueue a ha
  · exact hfound a ((hfresh a).mp ha).1

theorem queue_of_pending {u : Finset α} {s : Search α} (h : pending u s ≤ 0) : s.queue = [] := by
  simp only [pending] at h
  exact List.length_eq_zero_iff.mp (by omega)

theorem pop_pending {u : Finset α} {s : Search α} {a : α} {rest found : List α} {fuel : Nat}
    (hq : s.queue = a :: rest) (hfound : ∀ b ∈ found, b ∈ u) (h : pending u s ≤ fuel + 1) :
    pending u (Search.discover ⟨s.visited, rest⟩ found) ≤ fuel := by
  rw [discover_pending _ _ hfound]
  simp only [pending, hq, List.length_cons] at h ⊢
  omega

theorem expanded_pending {u : Finset α} {a : α} {found : List α} {fuel : Nat} (hfound : ∀ b ∈ found, b ∈ u)
    (h : u.card ≤ fuel) : pending u (Search.discover ⟨{a}, []⟩ found) ≤ fuel := by
  rw [discover_pending _ _ hfound]
  simp only [pending, List.length_nil, Nat.add_zero]
  exact (Finset.card_le_card Finset.sdiff_subset).trans h

/-- The queue lists visited nodes once, and whatever else was visited has been expanded. -/
structure Inv (next : α → List α) (s : Search α) : Prop where
  nodup : s.queue.Nodup
  visited : ∀ a ∈ s.queue, a ∈ s.visited
  expanded : ∀ a ∈ s.visited, a ∉ s.queue → ∀ b ∈ next a, b ∈ s.visited

theorem inv_start (next : α → List α) (seeds : List α) : Inv next (Search.discover ⟨∅, []⟩ seeds) := by
  obtain ⟨hvisited, fresh, hqueue, hnodup, hfresh⟩ := discover_spec seeds (⟨∅, []⟩ : Search α)
  rw [List.nil_append] at hqueue
  refine ⟨by rwa [hqueue], fun a ha => ?_, fun a ha hout => ?_⟩
  · rw [hqueue, hfresh] at ha
    exact (hvisited a).mpr (.inr ha.1)
  · rw [hqueue, hfresh] at hout
    rw [hvisited] at ha
    exact absurd ⟨ha.resolve_left (Finset.notMem_empty a), Finset.notMem_empty a⟩ hout

theorem inv_expanded (next : α → List α) (a : α) : Inv next (Search.discover ⟨{a}, []⟩ (next a)) := by
  obtain ⟨hvisited, fresh, hqueue, hnodup, hfresh⟩ := discover_spec (next a) (⟨{a}, []⟩ : Search α)
  rw [List.nil_append] at hqueue
  refine ⟨by rwa [hqueue], fun b hb => ?_, fun b hb hout => ?_⟩
  · rw [hqueue, hfresh] at hb
    exact (hvisited b).mpr (.inr hb.1)
  · rw [hqueue, hfresh] at hout
    have hba : b = a := by
      rcases (hvisited b).mp hb with h | h
      · exact Finset.mem_singleton.mp h
      · by_contra hne
        exact hout ⟨h, fun hs => hne (Finset.mem_singleton.mp hs)⟩
    subst hba
    exact fun c hc => (hvisited c).mpr (.inr hc)

theorem pop_inv {next : α → List α} {s : Search α} (h : Inv next s) {a : α} {rest : List α}
    (hq : s.queue = a :: rest) : Inv next (Search.discover ⟨s.visited, rest⟩ (next a)) := by
  obtain ⟨hvisited, fresh, hqueue, hnodup, hfresh⟩ := discover_spec (next a) (⟨s.visited, rest⟩ : Search α)
  have hsplit := h.nodup
  rw [hq, List.nodup_cons] at hsplit
  have hrest : ∀ b ∈ rest, b ∈ s.visited := fun b hb => h.visited b (hq ▸ List.mem_cons_of_mem _ hb)
  refine ⟨?_, fun b hb => ?_, fun b hb hout => ?_⟩
  · rw [hqueue, List.nodup_append]
    refine ⟨hsplit.2, hnodup, ?_⟩
    rintro b hb _ hc rfl
    exact ((hfresh b).mp hc).2 (hrest b hb)
  · rw [hqueue, List.mem_append] at hb
    rw [hvisited]
    exact hb.imp (hrest b) (fun hf => ((hfresh b).mp hf).1)
  · rw [hqueue, List.mem_append, not_or, hfresh] at hout
    rw [hvisited] at hb
    have hold : b ∈ s.visited := by
      by_contra hn
      exact hout.2 ⟨hb.resolve_left hn, hn⟩
    intro c hc
    rw [hvisited]
    by_cases hba : b = a
    · subst hba
      exact .inr hc
    · refine .inl (h.expanded b hold ?_ c hc)
      rw [hq, List.mem_cons]
      exact not_or.mpr ⟨hba, hout.1⟩

/-- What the search of a state should pop: each queued and each newly found node once. -/
structure Pops (next : α → List α) (s : Search α) (popped : List α) : Prop where
  nodup : popped.Nodup
  queued : ∀ a ∈ s.queue, a ∈ popped
  fresh : ∀ b ∈ popped, b ∈ s.queue ∨ b ∉ s.visited
  reached : ∀ b ∈ popped, ∃ a ∈ s.queue, ReflTransGen (fun a b => b ∈ next a) a b
  closed : ∀ a, a ∈ s.visited ∨ a ∈ popped → ∀ b ∈ next a, b ∈ s.visited ∨ b ∈ popped

omit [DecidableEq α] in
theorem pops_nil {next : α → List α} {s : Search α} (hs : Inv next s) (hq : s.queue = []) : Pops next s [] where
  nodup := List.nodup_nil
  queued a ha := hq ▸ ha
  fresh b hb := absurd hb List.not_mem_nil
  reached b hb := absurd hb List.not_mem_nil
  closed a ha b hb := by
    refine .inl (hs.expanded a (ha.resolve_right List.not_mem_nil) ?_ b hb)
    rw [hq]
    exact List.not_mem_nil

theorem pops_cons {next : α → List α} {s : Search α} (hs : Inv next s) {a : α} {rest popped : List α}
    (hq : s.queue = a :: rest) (h : Pops next (Search.discover ⟨s.visited, rest⟩ (next a)) popped) :
    Pops next s (a :: popped) := by
  obtain ⟨hvisited, fresh, hqueue, -, hfresh⟩ := discover_spec (next a) (⟨s.visited, rest⟩ : Search α)
  obtain ⟨hnodup, hqueued, hnew, hreached, hclosed⟩ := h
  simp only [hqueue, hvisited, List.mem_append, hfresh] at hqueued hnew hreached hclosed
  have hsplit := hs.nodup
  rw [hq, List.nodup_cons] at hsplit
  have hav : a ∈ s.visited := hs.visited a (hq ▸ List.mem_cons_self)
  constructor
  case nodup =>
    refine List.nodup_cons.mpr ⟨fun hm => ?_, hnodup⟩
    rcases hnew a hm with (h | h) | h
    · exact hsplit.1 h
    · exact h.2 hav
    · exact h (.inl hav)
  case queued =>
    intro b hb
    rw [hq] at hb
    rcases List.mem_cons.mp hb with rfl | hb
    · exact List.mem_cons_self
    · exact List.mem_cons_of_mem _ (hqueued b (.inl hb))
  case fresh =>
    intro b hb
    rw [hq]
    rcases List.mem_cons.mp hb with rfl | hb
    · exact .inl List.mem_cons_self
    · rcases hnew b hb with (h | h) | h
      · exact .inl (List.mem_cons_of_mem _ h)
      · exact .inr h.2
      · exact .inr fun hv => h (.inl hv)
  case reached =>
    intro b hb
    rw [hq]
    rcases List.mem_cons.mp hb with rfl | hb
    · exact ⟨b, List.mem_cons_self, .refl⟩
    · obtain ⟨c, hc | hc, hreach⟩ := hreached b hb
      · exact ⟨c, List.mem_cons_of_mem _ hc, hreach⟩
      · exact ⟨a, List.mem_cons_self, .head hc.1 hreach⟩
  case closed =>
    intro c hc b hb
    have hseen : (c ∈ s.visited ∨ c ∈ next a) ∨ c ∈ popped := by
      rcases hc with hc | hc
      · exact .inl (.inl hc)
      · rcases List.mem_cons.mp hc with rfl | hc
        · exact .inl (.inl hav)
        · exact .inr hc
    by_cases hv : b ∈ s.visited
    · exact .inl hv
    · refine .inr (List.mem_cons_of_mem _ ?_)
      rcases hclosed c hseen b hb with (h | h) | h
      · exact absurd h hv
      · exact hqueued b (.inr ⟨h, hv⟩)
      · exact h

theorem search_pops {next : α → List α} {u : Finset α} (hu : ∀ a ∈ u, ∀ b ∈ next a, b ∈ u) (fuel : Nat)
    {s : Search α} (hin : ∀ a ∈ s.queue, a ∈ u) (hs : Inv next s) (hfuel : pending u s ≤ fuel) :
    Pops next s (search next fuel s) := by
  induction fuel generalizing s with
  | zero => exact pops_nil hs (queue_of_pending hfuel)
  | succ fuel ih =>
    cases hq : s.queue with
    | nil =>
      simp only [search, hq]
      exact pops_nil hs hq
    | cons a rest =>
      have hau : a ∈ u := hin a (hq ▸ List.mem_cons_self)
      have hrest : ∀ b ∈ rest, b ∈ u := fun b hb => hin b (hq ▸ List.mem_cons_of_mem _ hb)
      simp only [search, hq]
      apply pops_cons hs hq
      exact ih (discover_within hrest (hu a hau)) (pop_inv hs hq) (pop_pending hq (hu a hau) hfuel)

/-- With enough fuel the search ends because its queue is empty: more fuel changes nothing. -/
theorem search_enough {next : α → List α} {u : Finset α} (hu : ∀ a ∈ u, ∀ b ∈ next a, b ∈ u) (fuel more : Nat)
    {s : Search α} (hin : ∀ a ∈ s.queue, a ∈ u) (hfuel : pending u s ≤ fuel) :
    search next (fuel + more) s = search next fuel s := by
  induction fuel generalizing s with
  | zero =>
    have hempty : s.queue = [] := queue_of_pending hfuel
    cases more with
    | zero => rfl
    | succ more => simp only [search, hempty]
  | succ fuel ih =>
    rw [Nat.add_right_comm]
    simp only [search]
    cases hq : s.queue with
    | nil => rfl
    | cons a rest =>
      have hau : a ∈ u := hin a (hq ▸ List.mem_cons_self)
      have hrest : ∀ b ∈ rest, b ∈ u := fun b hb => hin b (hq ▸ List.mem_cons_of_mem _ hb)
      dsimp only
      rw [ih]
      · exact discover_within hrest (hu a hau)
      · exact pop_pending hq (hu a hau) hfuel

section Reachable

variable {next : α → List α} {u : Finset α}

theorem search_seeds (hu : ∀ a ∈ u, ∀ b ∈ next a, b ∈ u) {seeds : List α} (hseeds : ∀ a ∈ seeds, a ∈ u)
    {fuel : Nat} (hfuel : u.card ≤ fuel) :
    (search next fuel (Search.discover ⟨∅, []⟩ seeds)).Nodup ∧
      ∀ b, b ∈ search next fuel (Search.discover ⟨∅, []⟩ seeds) ↔
        ∃ a ∈ seeds, ReflTransGen (fun a b => b ∈ next a) a b := by
  obtain ⟨hvisited, fresh, hqueue, -, hfresh⟩ := discover_spec seeds (⟨∅, []⟩ : Search α)
  simp only [List.nil_append, Finset.notMem_empty, false_or, not_false_eq_true, and_true] at hvisited hqueue hfresh
  have hpending : pending u (Search.discover ⟨∅, []⟩ seeds) ≤ fuel := by
    rw [discover_pending _ _ hseeds]
    simpa [pending] using hfuel
  obtain ⟨hnodup, hqueued, -, hreached, hclosed⟩ := search_pops hu fuel
    (discover_within (List.forall_mem_nil _) hseeds) (inv_start next seeds) hpending
  simp only [hqueue, hvisited, hfresh] at hqueued hreached hclosed
  refine ⟨hnodup, fun b => ⟨hreached b, ?_⟩⟩
  rintro ⟨a, ha, hreach⟩
  induction hreach with
  | refl => exact hqueued a ha
  | tail _ hstep ih => exact (hclosed _ (.inr ih) _ hstep).elim (hqueued _) id

theorem search_from (hu : ∀ a ∈ u, ∀ b ∈ next a, b ∈ u) {a : α} (ha : a ∈ u) {fuel : Nat}
    (hfuel : u.card ≤ fuel) :
    (search next fuel (Search.discover ⟨{a}, []⟩ (next a))).Nodup ∧
      ∀ b, b ∈ search next fuel (Search.discover ⟨{a}, []⟩ (next a)) ↔
        b ≠ a ∧ ReflTransGen (fun a b => b ∈ next a) a b := by
  obtain ⟨hvisited, fresh, hqueue, -, hfresh⟩ := discover_spec (next a) (⟨{a}, []⟩ : Search α)
  simp only [List.nil_append, Finset.mem_singleton] at hvisited hqueue hfresh
  obtain ⟨hnodup, hqueued, hnew, hreached, hclosed⟩ := search_pops hu fuel
    (discover_within (List.forall_mem_nil _) (hu a ha)) (inv_expanded next a) (expanded_pending (hu a ha) hfuel)
  simp only [hqueue, hvisited, hfresh] at hqueued hnew hreached hclosed
  refine ⟨hnodup, fun b => ⟨fun hb => ?_, ?_⟩⟩
  · obtain ⟨c, hc, hreach⟩ := hreached b hb
    refine ⟨?_, .head hc.1 hreach⟩
    rcases hnew b hb with h | h
    · exact h.2
    · exact fun hba => h (.inl hba)
  · rintro ⟨hne, hreach⟩
    have hseen : (b = a ∨ b ∈ next a) ∨ b ∈ search next fuel (Search.discover ⟨{a}, []⟩ (next a)) := by
      clear hne
      induction hreach with
      | refl => exact .inl (.inl rfl)
      | tail _ hstep ih => exact hclosed _ ih _ hstep
    rcases hseen with (h | h) | h
    · exact absurd h hne
    · exact hqueued b ⟨h, hne⟩
    · exact h

theorem search_from_enough (hu : ∀ a ∈ u, ∀ b ∈ next a, b ∈ u) {a : α} (ha : a ∈ u) {fuel : Nat}
    (hfuel : u.card ≤ fuel) (more : Nat) :
    search next (fuel + more) (Search.discover ⟨{a}, []⟩ (next a)) =
      search next fuel (Search.discover ⟨{a}, []⟩ (next a)) := by
  apply search_enough hu
  · exact discover_within (List.forall_mem_nil _) (hu a ha)
  · exact expanded_pending (hu a ha) hfuel

end Reachable

end Cosmon.Lib.BreadthFirst
