import Mathlib.Data.Finset.Card
import Mathlib.Data.Finset.SDiff
import Mathlib.Data.List.Nodup
import Mathlib.Logic.Relation

namespace Cosmon.Lib.DepthFirst

open Relation

structure Graph (α ε : Type) where
  next : α → Except ε (List α)
  nodes : Finset α
  mem_nodes : ∀ a l, next a = .ok l → a ∈ nodes

/-- A node stands on the stack unmarked before it is entered, and marked until it is left. -/
structure State (α σ : Type) where
  stack : List (α × Bool)
  active : Finset α
  finished : Finset α
  acc : σ

variable {α ε σ : Type}

def start (root : α) (init : σ) : State α σ := ⟨[(root, false)], ∅, ∅, init⟩

def push (l : List α) (stack : List (α × Bool)) : List (α × Bool) := l.reverse.map (·, false) ++ stack

section Search

variable [DecidableEq α]

def search (g : Graph α ε) (cycle : ε) (note : α → List α → σ → σ) (s : State α σ) : Except ε σ :=
  match _ : s.stack with
  | [] => .ok s.acc
  | (a, true) :: rest => search g cycle note ⟨rest, s.active.erase a, insert a s.finished, s.acc⟩
  | (a, false) :: rest =>
    if a ∈ s.finished then search g cycle note { s with stack := rest }
    else if a ∈ s.active then .error cycle
    else
      match _ : g.next a with
      | .error e => .error e
      | .ok l =>
        if ∃ b ∈ l, b ∈ insert a s.active then .error cycle
        else search g cycle note
          ⟨push l ((a, true) :: rest), insert a s.active, s.finished, note a l s.acc⟩
termination_by ((g.nodes \ (s.active ∪ s.finished)).card, s.stack.length)
decreasing_by
  · rename_i hstack
    refine Prod.Lex.right' _ (Finset.card_le_card (Finset.sdiff_subset_sdiff le_rfl fun b hb => ?_)) (by simp [hstack])
    by_cases hba : b = a
    · simp [hba]
    · simpa [hba] using hb
  · rename_i hstack _
    exact Prod.Lex.right' _ le_rfl (by simp [hstack])
  · rename_i hfinished hactive hnext _
    refine Prod.Lex.left _ _ (Finset.card_lt_card ?_)
    rw [Finset.insert_union, Finset.sdiff_insert]
    exact Finset.erase_ssubset (by simp [g.mem_nodes a l hnext, hactive, hfinished])

end Search

variable (g : Graph α ε) (root : α)

def Edge (a b : α) : Prop := ∃ l, g.next a = .ok l ∧ b ∈ l

def Sound : Prop :=
  ∀ a, ReflTransGen (Edge g) root a → (∃ l, g.next a = .ok l) ∧ ¬ TransGen (Edge g) a a

def kids (a : α) : List α := (g.next a).toOption.getD []

def noted (note : α → List α → σ → σ) (init : σ) (order : List α) : σ :=
  order.foldl (fun acc a => note a (kids g a) acc) init

def marks (stack : List (α × Bool)) : List α := (stack.filter Prod.snd).map Prod.fst

/-- A node on the stack was found from the nearest mark below it. -/
def Bracketed : List (α × Bool) → Prop
  | [] => True
  | p :: rest => (marks rest = [] → p.1 = root) ∧ (∀ b ∈ (marks rest).head?, Edge g b p.1) ∧ Bracketed rest

def Awaited (finished : Finset α) : List (α × Bool) → List α → Prop
  | [], _ => True
  | p :: rest, above =>
    (p.2 = true → ∀ b, Edge g p.1 b → b ∈ finished ∨ b ∈ above) ∧ Awaited finished rest (p.1 :: above)

def Left : List α → Prop
  | [] => True
  | a :: before => a ∉ before ∧ (∃ l, g.next a = .ok l) ∧ (∀ b, Edge g a b → b ∈ before) ∧ Left before

structure Inv [DecidableEq α] (note : α → List α → σ → σ) (init : σ) (s : State α σ) : Prop where
  bracketed : Bracketed g root s.stack
  active : s.active = (marks s.stack).toFinset
  nodup : (marks s.stack).Nodup
  awaited : Awaited g s.finished s.stack []
  found : root ∈ s.finished ∨ root ∈ s.stack.map Prod.fst
  reached : ∀ a ∈ s.finished, ReflTransGen (Edge g) root a
  readable : ∀ a ∈ s.active, ∃ l, g.next a = .ok l
  left_ : ∃ before, Left g before ∧ s.finished = before.toFinset ∧ ∀ a ∈ before, a ∉ s.active
  acc : ∃ order, order.Nodup ∧ (∀ a, a ∈ order ↔ a ∈ s.active ∨ a ∈ s.finished) ∧ s.acc = noted g note init order

variable {g root}

section Stacks

variable {finished finished' : Finset α} {stack rest : List (α × Bool)} {above above' l : List α} {a b : α}

@[simp] theorem marks_false : marks ((a, false) :: rest) = marks rest := rfl

@[simp] theorem marks_true : marks ((a, true) :: rest) = a :: marks rest := rfl

@[simp] theorem marks_push : marks (push l stack) = marks stack := by
  simp [marks, push]

theorem Awaited.mono (h : Awaited g finished stack above)
    (hmore : ∀ b, b ∈ finished ∨ b ∈ above → b ∈ finished' ∨ b ∈ above') : Awaited g finished' stack above' := by
  induction stack generalizing above above' with
  | nil => trivial
  | cons p rest ih =>
    refine ⟨fun hp b hb => hmore b (h.1 hp b hb), ih h.2 fun b hb => ?_⟩
    obtain hb | hb := hb
    · exact (hmore b (.inl hb)).imp_right (List.mem_cons_of_mem _)
    · obtain rfl | hb := List.mem_cons.mp hb
      · exact .inr List.mem_cons_self
      · exact (hmore b (.inr hb)).imp_right (List.mem_cons_of_mem _)

theorem awaited_push (h : Awaited g finished stack (l ++ above)) : Awaited g finished (push l stack) above := by
  induction l generalizing above stack with
  | nil => exact h
  | cons a l ih =>
    have hpush : push (a :: l) stack = push l ((a, false) :: stack) := by simp [push]
    rw [hpush]
    exact ih ⟨by simp, h⟩

theorem bracketed_push (h : Bracketed g root stack) (ha : (marks stack).head? = some a) (hl : ∀ b ∈ l, Edge g a b) :
    Bracketed g root (push l stack) := by
  induction l generalizing stack with
  | nil => exact h
  | cons b l ih =>
    have hpush : push (b :: l) stack = push l ((b, false) :: stack) := by simp [push]
    rw [List.forall_mem_cons] at hl
    rw [hpush]
    refine ih ⟨fun hnone => ?_, fun c hc => ?_, h⟩ ha hl.2
    · rw [hnone] at ha
      cases ha
    · cases ha.symm.trans hc
      exact hl.1

theorem Bracketed.reach (h : Bracketed g root stack) : ∀ p ∈ stack, ReflTransGen (Edge g) root p.1 := by
  induction stack with
  | nil => exact List.forall_mem_nil _
  | cons p rest ih =>
    refine List.forall_mem_cons.mpr ⟨?_, ih h.2.2⟩
    cases hmarks : marks rest with
    | nil => rw [h.1 hmarks]
    | cons b below =>
      have hb : b ∈ marks rest := hmarks ▸ List.mem_cons_self
      obtain ⟨q, hq, rfl⟩ := List.mem_map.mp hb
      exact (ih h.2.2 q (List.mem_of_mem_filter hq)).tail (h.2.1 q.1 (by rw [hmarks]; rfl))

theorem Bracketed.chain (h : Bracketed g root stack) (hb : b ∈ marks stack) (ha : (marks stack).head? = some a) :
    ReflTransGen (Edge g) b a := by
  induction stack generalizing a with
  | nil => cases ha
  | cons p rest ih =>
    obtain ⟨c, _ | _⟩ := p
    · exact ih h.2.2 hb ha
    · cases ha
      rw [marks_true, List.mem_cons] at hb
      obtain rfl | hb := hb
      · exact .refl
      · cases hmarks : marks rest with
        | nil => exact absurd hb (hmarks ▸ List.not_mem_nil)
        | cons d below =>
          exact (ih h.2.2 hb (by rw [hmarks]; rfl)).tail (h.2.1 d (by rw [hmarks]; rfl))

end Stacks

section Orders

variable {before : List α} {a b : α}

theorem Left.edge (h : Left g before) (ha : a ∈ before) (hab : Edge g a b) : b ∈ before := by
  induction before with
  | nil => cases ha
  | cons c before ih =>
    obtain rfl | ha := List.mem_cons.mp ha
    · exact List.mem_cons_of_mem _ (h.2.2.1 b hab)
    · exact List.mem_cons_of_mem _ (ih h.2.2.2 ha)

theorem Left.closed (h : Left g before) (ha : a ∈ before) (hab : ReflTransGen (Edge g) a b) : b ∈ before := by
  induction hab with
  | refl => exact ha
  | tail _ hbc ih => exact h.edge ih hbc

theorem Left.sound (h : Left g before) (ha : a ∈ before) : (∃ l, g.next a = .ok l) ∧ ¬ TransGen (Edge g) a a := by
  induction before with
  | nil => cases ha
  | cons c before ih =>
    obtain rfl | ha := List.mem_cons.mp ha
    · refine ⟨h.2.1, fun hcycle => ?_⟩
      obtain ⟨b, hab, hba⟩ := TransGen.head'_iff.mp hcycle
      exact h.1 (h.2.2.2.closed (h.2.2.1 b hab) hba)
    · exact ih h.2.2.2 ha

end Orders

section Steps

variable [DecidableEq α] {note : α → List α → σ → σ} {init : σ} {s : State α σ} {rest : List (α × Bool)} {a : α}

theorem inv_start : Inv g root note init (start root init) where
  bracketed := ⟨fun _ => rfl, by simp [marks], trivial⟩
  active := rfl
  nodup := List.nodup_nil
  awaited := ⟨by simp, trivial⟩
  found := .inr List.mem_cons_self
  reached := by simp [start]
  readable := by simp [start]
  left_ := ⟨[], trivial, rfl, by simp⟩
  acc := ⟨[], List.nodup_nil, by simp [start], rfl⟩

theorem Inv.leave (h : Inv g root note init s) (hstack : s.stack = (a, true) :: rest) :
    Inv g root note init ⟨rest, s.active.erase a, insert a s.finished, s.acc⟩ := by
  obtain ⟨hbracketed, hactive, hnodup, hawaited, hroot, hreached, hreadable,
    ⟨before, hleft, hfinished, hbefore⟩, order, horder,
    hmem, hacc⟩ := h
  rw [hstack] at hbracketed hactive hnodup hawaited hroot
  rw [marks_true] at hactive hnodup
  obtain ⟨ha, hnodup⟩ := List.nodup_cons.mp hnodup
  have hin : a ∈ s.active := by rw [hactive]; simp
  exact {
    bracketed := hbracketed.2.2
    active := by rw [hactive, List.toFinset_cons, Finset.erase_insert (mt List.mem_toFinset.mp ha)]
    nodup := hnodup
    awaited := hawaited.2.mono fun b hb => by
      rw [Finset.mem_insert, List.mem_singleton] at *
      tauto
    found := by
      rw [Finset.mem_insert, List.map_cons, List.mem_cons] at *
      tauto
    reached := (Finset.forall_mem_insert _ _ _).mpr ⟨hbracketed.reach _ List.mem_cons_self, hreached⟩
    readable := fun b hb => hreadable b (Finset.mem_of_mem_erase hb)
    left_ := by
      refine ⟨a :: before, ⟨fun hmem => hbefore a hmem hin, hreadable a hin, fun b hb => ?_, hleft⟩, ?_, ?_⟩
      · have hb := hawaited.1 rfl b hb
        rw [hfinished, List.mem_toFinset] at hb
        exact hb.resolve_right List.not_mem_nil
      · rw [List.toFinset_cons, hfinished]
      · refine List.forall_mem_cons.mpr ⟨Finset.notMem_erase a _, fun b hb hmem => ?_⟩
        exact hbefore b hb (Finset.mem_of_mem_erase hmem)
    acc := by
      refine ⟨order, horder, fun b => (hmem b).trans ?_, hacc⟩
      by_cases hba : b = a <;> simp [hba, hin] }

theorem Inv.skip (h : Inv g root note init s) (hstack : s.stack = (a, false) :: rest) (ha : a ∈ s.finished) :
    Inv g root note init { s with stack := rest } := by
  obtain ⟨hbracketed, hactive, hnodup, hawaited, hroot, hreached, hreadable, hleft, hacc⟩ := h
  rw [hstack] at hbracketed hactive hnodup hawaited hroot
  refine ⟨hbracketed.2.2, hactive, hnodup, hawaited.2.mono fun b hb => ?_, ?_, hreached, hreadable, hleft, hacc⟩
  · obtain hb | hb := hb
    · exact .inl hb
    · exact .inl (List.mem_singleton.mp hb ▸ ha)
  · obtain hroot | hroot := hroot
    · exact .inl hroot
    · obtain rfl | hroot := List.mem_cons.mp hroot
      · exact .inl ha
      · exact .inr hroot

theorem Inv.enter (h : Inv g root note init s) (hstack : s.stack = (a, false) :: rest) (hfresh : a ∉ s.finished)
    (hidle : a ∉ s.active) {l : List α} (hnext : g.next a = .ok l) :
    Inv g root note init ⟨push l ((a, true) :: rest), insert a s.active, s.finished, note a l s.acc⟩ := by
  obtain ⟨hbracketed, hactive, hnodup, hawaited, hroot, hreached, hreadable,
    ⟨before, hleft, hfinished, hbefore⟩, order, horder,
    hmem, hacc⟩ := h
  rw [hstack] at hbracketed hactive hnodup hawaited hroot
  have hedge {b : α} (hb : Edge g a b) : b ∈ l := by
    obtain ⟨_, hnext', hb⟩ := hb
    cases hnext.symm.trans hnext'
    exact hb
  have ha : a ∉ marks rest := fun hmem => hidle (hactive ▸ List.mem_toFinset.mpr hmem)
  exact {
    bracketed := @bracketed_push _ _ g root ((a, true) :: rest) l a hbracketed rfl fun b hb => ⟨l, hnext, hb⟩
    active := by rw [hactive, marks_push, marks_true, List.toFinset_cons]; rfl
    nodup := by rw [marks_push, marks_true]; exact List.nodup_cons.mpr ⟨ha, hnodup⟩
    awaited := awaited_push ⟨fun _ b hb => .inr (List.mem_append_left _ (hedge hb)), hawaited.2.mono fun b hb => by
      obtain hb | hb := hb
      · exact .inl hb
      · exact .inr (List.mem_singleton.mp hb ▸ List.mem_cons_self)⟩
    found := by
      refine hroot.imp_right fun hroot => ?_
      rw [push, List.map_append]
      exact List.mem_append_right _ hroot
    reached := hreached
    readable := (Finset.forall_mem_insert _ _ _).mpr ⟨⟨l, hnext⟩, hreadable⟩
    left_ := by
      refine ⟨before, hleft, hfinished, fun b hb hmem => ?_⟩
      obtain rfl | hmem := Finset.mem_insert.mp hmem
      · exact hfresh (by rw [hfinished]; simpa using hb)
      · exact hbefore b hb hmem
    acc := by
      refine ⟨order ++ [a], ?_, fun b => ?_, ?_⟩
      · rw [List.nodup_append]
        refine ⟨horder, List.nodup_singleton a, fun b hb c hc hbc => ?_⟩
        rw [List.mem_singleton.mp hc] at hbc
        exact ((hmem b).mp hb).elim (hbc ▸ hidle) (hbc ▸ hfresh)
      · rw [List.mem_append, hmem, Finset.mem_insert, List.mem_singleton]
        tauto
      · have hkids : kids g a = l := by rw [kids, hnext]; rfl
        rw [noted, List.foldl_append, List.foldl_cons, List.foldl_nil, hkids, hacc, noted] }

theorem Inv.back (h : Inv g root note init s) (hstack : s.stack = (a, false) :: rest) {b : α} (hb : b ∈ s.active) :
    TransGen (Edge g) b a := by
  have hbracketed := h.bracketed
  rw [hstack] at hbracketed
  rw [h.active, hstack, marks_false, List.mem_toFinset] at hb
  cases hmarks : marks rest with
  | nil => exact absurd hb (hmarks ▸ List.not_mem_nil)
  | cons c below =>
    have hhead : (marks rest).head? = some c := by rw [hmarks]; rfl
    exact TransGen.tail' (hbracketed.2.2.chain hb hhead) (hbracketed.2.1 c hhead)

theorem Inv.reach (h : Inv g root note init s) {p : α × Bool} (hstack : s.stack = p :: rest) :
    ReflTransGen (Edge g) root p.1 :=
  h.bracketed.reach p (hstack ▸ List.mem_cons_self)

def Outcome (g : Graph α ε) (root : α) (note : α → List α → σ → σ) (init : σ) : Except ε σ → Prop
  | .error _ => ¬ Sound g root
  | .ok acc => Sound g root ∧ ∃ order, order.Nodup ∧ (∀ a, a ∈ order ↔ ReflTransGen (Edge g) root a) ∧
      acc = noted g note init order

end Steps

end Cosmon.Lib.DepthFirst
