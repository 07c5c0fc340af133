import Cosmon.Graph.Affinity
import Cosmon.Graph.Cycles

namespace Cosmon.Graph.Scc

section Search

variable {V : Type} [DecidableEq V]

structure Frame (V : Type) where
  v : V
  next : Nat

/-- The variables of the search. The top of the stack and of the frames comes first. -/
structure Search (V : Type) where
  index : Nat
  indices : V → Option Nat
  lowlinks : V → Nat
  onStack : V → Bool
  stack : List V
  sccs : List (List V)
  work : List (Frame V)

def empty : Search V where
  index := 0
  indices := fun _ => none
  lowlinks := fun _ => 0
  onStack := fun _ => false
  stack := []
  sccs := []
  work := []

def discover (w : V) (s : Search V) : Search V :=
  { s with
    index := s.index + 1
    indices := Function.update s.indices w (some s.index)
    lowlinks := Function.update s.lowlinks w s.index
    onStack := Function.update s.onStack w true
    stack := w :: s.stack
    work := ⟨w, 0⟩ :: s.work }

/-- Pop the stack down to `v`: the component, the rest of the stack and the flags. -/
def popTo (v : V) : List V → (V → Bool) → List V × List V × (V → Bool)
  | [], onStack => ([], [], onStack)
  | w :: stack, onStack =>
    let onStack := Function.update onStack w false
    if w = v then ([w], stack, onStack)
    else
      let popped := popTo v stack onStack
      (w :: popped.1, popped.2)

def emit (v : V) (s : Search V) : Search V :=
  let popped := popTo v s.stack s.onStack
  { s with sccs := s.sccs ++ [popped.1], stack := popped.2.1, onStack := popped.2.2 }

def foldLow (v : V) (work : List (Frame V)) (lowlinks : V → Nat) : V → Nat :=
  match work with
  | [] => lowlinks
  | parent :: _ =>
    if lowlinks v < lowlinks parent.v then Function.update lowlinks parent.v (lowlinks v) else lowlinks

variable (adj : V → List V)

/-- One turn of the inner loop. The error is the failure of `expect` on a vertex that was
never numbered. -/
def step (s : Search V) : Except String (Search V) :=
  match s.work with
  | [] => .ok s
  | frame :: rest =>
    let v := frame.v
    match (adj v)[frame.next]? with
    | some w =>
      let s := { s with work := ⟨v, frame.next + 1⟩ :: rest }
      match s.indices w with
      | none => .ok (discover w s)
      | some wi =>
        if s.onStack w ∧ wi < s.lowlinks v then .ok { s with lowlinks := Function.update s.lowlinks v wi }
        else .ok s
    | none =>
      match s.indices v with
      | none => .error "visited"
      | some vIdx =>
        let s := if s.lowlinks v = vIdx then emit v s else s
        .ok { s with work := rest, lowlinks := foldLow v rest s.lowlinks }

def loop : Nat → Search V → Except String (Search V)
  | 0, s => .ok s
  | fuel + 1, s =>
    match s.work with
    | [] => .ok s
    | _ :: _ =>
      match step adj s with
      | .error e => .error e
      | .ok s => loop fuel s

def visit (fuel : Nat) (s : Search V) (start : V) : Except String (Search V) :=
  if (s.indices start).isSome then .ok s else loop adj fuel (discover start s)

def visitAll (fuel : Nat) (s : Search V) : List V → Except String (Search V)
  | [] => .ok s
  | start :: starts =>
    match visit adj fuel s start with
    | .error e => .error e
    | .ok s => visitAll fuel s starts

/-- Tarjan's algorithm. A turn walks an edge or finishes a vertex, which bounds the turns
(`loop_finishes`). -/
def findSccs (vertices : List V) : Except String (List (List V)) :=
  match visitAll adj (vertices.length + (vertices.flatMap adj).length) empty vertices with
  | .error e => .error e
  | .ok s => .ok s.sccs

end Search

section Intern

variable {N : Type} [DecidableEq N]

def intern (nodes : List N) (n : N) : List N := if n ∈ nodes then nodes else nodes ++ [n]

def internAll (vertices : List N) (edges : List (N × N)) : List N :=
  edges.foldl (fun nodes e => intern (intern nodes e.1) e.2) (vertices.foldl intern [])

def isLivelock (selfLoops comp : List N) : Bool :=
  2 ≤ comp.length ∨ comp.length = 1 ∧ comp.head?.any (fun n => n ∈ selfLoops)

end Intern

variable {N : Type} [LinearOrder N]

def idxOf (nodes : List N) (n : N) : Option (Fin nodes.length) :=
  (List.finRange nodes.length).find? (fun i => nodes.get i = n)

/-- Drop an element that equals the one after it. -/
def dedup {α : Type} [DecidableEq α] : List α → List α
  | [] => []
  | [a] => [a]
  | a :: b :: rest => if a = b then dedup (b :: rest) else a :: dedup (b :: rest)

/-- The neighbours of an index in ascending order, each once. -/
def adjacency (nodes : List N) (edges : List (N × N)) (i : Fin nodes.length) : List (Fin nodes.length) :=
  dedup (((edges.filter (fun e => e.1 = nodes.get i)).filterMap (fun e => idxOf nodes e.2)).insertionSort (· ≤ ·))

/-- The order of components: by their first vertex. No component is empty (`Partition.nonempty`). -/
def headLe : List N → List N → Prop
  | [], _ => True
  | _ :: _, [] => False
  | a :: _, b :: _ => a ≤ b

instance : DecidableRel (headLe (N := N))
  | [], _ => inferInstanceAs (Decidable True)
  | _ :: _, [] => inferInstanceAs (Decidable False)
  | a :: _, b :: _ => inferInstanceAs (Decidable (a ≤ b))

def materialise (nodes : List N) (sccs : List (List (Fin nodes.length))) : List (List N) :=
  (sccs.map (fun ixs => (ixs.map nodes.get).insertionSort (· ≤ ·))).insertionSort headLe

def tarjanScc (vertices : List N) (edges : List (N × N)) : Except String (List (List N)) :=
  let nodes := internAll vertices edges
  match findSccs (adjacency nodes edges) (List.finRange nodes.length) with
  | .error e => .error e
  | .ok sccs => .ok (materialise nodes sccs)

def nonTrivialSccs (vertices : List N) (edges : List (N × N)) : Except String (List (List N)) :=
  let selfLoops := (edges.filter (fun e => e.1 = e.2)).map Prod.fst
  match tarjanScc vertices edges with
  | .error e => .error e
  | .ok sccs => .ok (sccs.filter (isLivelock selfLoops))

example : tarjanScc [3, 4] [(2, 1), (1, 2), (2, 3)] = .ok [[1, 2], [3], [4]] := by decide

end Cosmon.Graph.Scc

namespace Cosmon.Graph.Scc

open Relation

variable {V : Type} {adj : V → List V} {s s' : Search V}

abbrev Reach (adj : V → List V) (a b : V) : Prop := ReflTransGen (fun a b => b ∈ adj a) a b

/-- A vertex that is numbered and, as long as it is on the stack, not below the bound. -/
def Known (s : Search V) (bound : Nat) (w : V) : Prop :=
  ∃ i, s.indices w = some i ∧ (s.onStack w = true → bound ≤ i)

def Above (s : Search V) (a b : V) : Prop :=
  ∃ i j, s.indices a = some i ∧ s.indices b = some j ∧ j < i

/-- The stretch of the stack that belongs to one frame: its vertex and, above it, the finished
vertices of its subtree that are not emitted yet. Those are in its component, and the low-link
covers every edge walked so far. -/
structure Layer (adj : V → List V) (s : Search V) (frame : Frame V) (parents : List (Frame V))
    (finished rest : List V) : Prop where
  finished : ∀ u ∈ finished, Reach adj frame.v u ∧ Reach adj u frame.v ∧
    ∀ w ∈ adj u, Known s (s.lowlinks frame.v) w
  walked : ∀ w ∈ (adj frame.v).take frame.next, Known s (s.lowlinks frame.v) w
  low : ∃ w ∈ frame.v :: rest, s.indices w = some (s.lowlinks frame.v) ∧ Reach adj frame.v w
  parent : ∀ p ∈ parents.head?, frame.v ∈ adj p.v

inductive Layers (adj : V → List V) (s : Search V) : List (Frame V) → List V → Prop where
  | nil : Layers adj s [] []
  | cons {frame : Frame V} {parents : List (Frame V)} {finished rest : List V}
      (below : Layers adj s parents rest) (top : Layer adj s frame parents finished rest) :
      Layers adj s (frame :: parents) (finished ++ frame.v :: rest)

theorem Layers.top {frame : Frame V} {parents : List (Frame V)} {stack : List V}
    (h : Layers adj s (frame :: parents) stack) :
    ∃ finished rest, stack = finished ++ frame.v :: rest ∧ Layers adj s parents rest ∧
      Layer adj s frame parents finished rest := by
  cases h with
  | cons below top => exact ⟨_, _, rfl, below, top⟩

theorem Layers.stack_nil {stack : List V} (h : Layers adj s [] stack) : stack = [] := by
  cases h
  rfl

theorem Layers.mem {work : List (Frame V)} {stack : List V} (h : Layers adj s work stack) :
    ∀ f ∈ work, f.v ∈ stack := by
  induction h with
  | nil => simp
  | @cons frame parents finished rest below top ih =>
    intro f hf
    cases hf with
    | head => exact List.mem_append_right _ List.mem_cons_self
    | tail _ hf => exact List.mem_append_right _ (List.mem_cons_of_mem _ (ih f hf))

theorem Layers.reach_top {work : List (Frame V)} {stack : List V} (h : Layers adj s work stack) :
    ∀ f ∈ work.head?, ∀ w ∈ stack, Reach adj w f.v := by
  induction h with
  | nil => simp
  | @cons frame parents finished rest below top ih =>
    rintro _ ⟨⟩ w hw
    obtain hw | hw := List.mem_append.mp hw
    · exact (top.finished w hw).2.1
    · cases hw with
      | head => exact .refl
      | tail _ hw =>
        cases parents with
        | nil =>
          rw [below.stack_nil] at hw
          cases hw
        | cons p parents => exact (ih p rfl w hw).tail (top.parent p rfl)

theorem Above.lt {a b : V} {i j : Nat} (h : Above s a b) (ha : s.indices a = some i)
    (hb : s.indices b = some j) : j < i := by
  obtain ⟨i', j', ha', hb', hlt⟩ := h
  cases ha.symm.trans ha'
  cases hb.symm.trans hb'
  exact hlt

theorem Above.irrefl (a : V) : ¬Above s a a := by
  rintro ⟨i, j, hi, hj, hlt⟩
  cases hi.symm.trans hj
  exact Nat.lt_irrefl _ hlt

section Sorted

variable {v w : V} {finished rest : List V} {i j : Nat} (hsorted : (finished ++ v :: rest).Pairwise (Above s))

include hsorted

theorem above_finished (hw : w ∈ finished) : Above s w v :=
  (List.pairwise_append.mp hsorted).2.2 w hw v List.mem_cons_self

theorem above_rest (hw : w ∈ rest) : Above s v w :=
  (List.pairwise_cons.mp (List.pairwise_append.mp hsorted).2.1).1 w hw

theorem notMem_layers : v ∉ finished ∧ v ∉ rest :=
  ⟨fun hv => (above_finished hsorted hv).irrefl, fun hv => (above_rest hsorted hv).irrefl⟩

theorem index_le (hw : w ∈ v :: rest) (hi : s.indices v = some i) (hj : s.indices w = some j) : j ≤ i := by
  cases hw with
  | head =>
    cases hi.symm.trans hj
    exact Nat.le_refl _
  | tail _ hw => exact ((above_rest hsorted hw).lt hi hj).le

theorem mem_rest (hw : w ∈ finished ++ v :: rest) (hi : s.indices v = some i) (hj : s.indices w = some j)
    (hlt : j < i) : w ∈ rest := by
  obtain hw | hw := List.mem_append.mp hw
  · exact absurd ((above_finished hsorted hw).lt hj hi) hlt.le.not_gt
  · cases hw with
    | head =>
      cases hi.symm.trans hj
      exact absurd hlt (Nat.lt_irrefl _)
    | tail _ hw => exact hw

theorem mem_layer (hw : w ∈ finished ++ v :: rest) (hi : s.indices v = some i) (hj : s.indices w = some j)
    (hle : i ≤ j) : w ∈ finished ++ [v] := by
  rw [List.append_cons] at hw
  obtain hw | hw := List.mem_append.mp hw
  · exact hw
  · exact absurd ((above_rest hsorted hw).lt hi hj) hle.not_gt

end Sorted

/-- What one state knows of the numbered vertices, a later one knows too. -/
structure Extends (s s' : Search V) : Prop where
  indices : ∀ x i, s.indices x = some i → s'.indices x = some i
  onStack : ∀ x i, s.indices x = some i → s'.onStack x = true → s.onStack x = true

theorem Known.mono {bound bound' : Nat} {w : V} (h : Known s bound w) (he : Extends s s')
    (hle : bound' ≤ bound) : Known s' bound' w := by
  obtain ⟨i, hi, hon⟩ := h
  exact ⟨i, he.indices w i hi, fun hw => hle.trans (hon (he.onStack w i hi hw))⟩

theorem Layers.mono {work : List (Frame V)} {stack : List V} (h : Layers adj s work stack)
    (he : Extends s s') (hlow : ∀ f ∈ work, s'.lowlinks f.v = s.lowlinks f.v) : Layers adj s' work stack := by
  induction h with
  | nil => exact .nil
  | @cons frame parents finished rest below top ih =>
    have hframe := hlow frame List.mem_cons_self
    refine .cons (ih fun f hf => hlow f (List.mem_cons_of_mem _ hf)) ⟨?_, ?_, ?_, top.parent⟩
    · intro u hu
      obtain ⟨hdown, hup, hknown⟩ := top.finished u hu
      exact ⟨hdown, hup, fun w hw => (hknown w hw).mono he hframe.le⟩
    · exact fun w hw => (top.walked w hw).mono he hframe.le
    · obtain ⟨w, hw, hi, hreach⟩ := top.low
      rw [hframe]
      exact ⟨w, hw, he.indices w _ hi, hreach⟩

theorem Layers.advance {v w : V} {next : Nat} {parents : List (Frame V)} {stack : List V}
    (h : Layers adj s (⟨v, next⟩ :: parents) stack) (hedge : (adj v)[next]? = some w)
    (hw : Known s (s.lowlinks v) w) : Layers adj s (⟨v, next + 1⟩ :: parents) stack := by
  obtain ⟨finished, rest, rfl, below, top⟩ := h.top
  suffices top' : Layer adj s ⟨v, next + 1⟩ parents finished rest by
    have h := below.cons top'
    exact h
  refine ⟨top.finished, ?_, top.low, top.parent⟩
  intro x hx
  simp only [List.take_add_one, hedge, Option.toList_some] at hx
  obtain hx | hx := List.mem_append.mp hx
  · exact top.walked x hx
  · rw [List.mem_singleton.mp hx]
    exact hw

theorem Layer.low_le {frame : Frame V} {parents : List (Frame V)} {finished rest above : List V}
    (h : Layer adj s frame parents finished rest)
    (hsorted : (above ++ frame.v :: rest).Pairwise (Above s)) {i : Nat} (hi : s.indices frame.v = some i) :
    s.lowlinks frame.v ≤ i := by
  obtain ⟨w, hw, hj, _⟩ := h.low
  exact index_le hsorted hw hi hj

section Turns

variable {v : V} {next : Nat} {parents : List (Frame V)} {stack : List V} {i : Nat}

theorem Layers.below_mono {finished rest : List V} (h : Layers adj s parents rest)
    (hsorted : (finished ++ v :: rest).Pairwise (Above s)) (he : Extends s s')
    (hlow : ∀ x, x ≠ v → s'.lowlinks x = s.lowlinks x) : Layers adj s' parents rest := by
  refine h.mono he fun f hf => hlow f.v ?_
  rintro rfl
  exact (notMem_layers hsorted).2 (h.mem f hf)

theorem Layers.lower (h : Layers adj s (⟨v, next⟩ :: parents) stack) (hsorted : stack.Pairwise (Above s))
    (he : Extends s s') (hlow : ∀ x, x ≠ v → s'.lowlinks x = s.lowlinks x) (hi : s.indices v = some i)
    {w : V} {bound : Nat} (hv : s'.lowlinks v = bound) (hw : s.indices w = some bound) (hon : w ∈ stack)
    (hlt : bound < s.lowlinks v) (hreach : Reach adj v w) : Layers adj s' (⟨v, next⟩ :: parents) stack := by
  obtain ⟨finished, rest, rfl, below, top⟩ := h.top
  have hbound := top.low_le hsorted hi
  suffices top' : Layer adj s' ⟨v, next⟩ parents finished rest by
    have h := (below.below_mono hsorted he hlow).cons top'
    exact h
  refine ⟨?_, ?_, ?_, top.parent⟩
  · intro u hu
    obtain ⟨hdown, hup, hknown⟩ := top.finished u hu
    exact ⟨hdown, hup, fun w hw => (hknown w hw).mono he (hv ▸ hlt.le)⟩
  · exact fun w hw => (top.walked w hw).mono he (hv ▸ hlt.le)
  · have hdeep := mem_rest hsorted hon hi hw (hlt.trans_le hbound)
    exact ⟨w, List.mem_cons_of_mem _ hdeep, hv ▸ he.indices w _ hw, hreach⟩

/-- A finished vertex whose low-link is another vertex's number is in the component of its
parent, into whose layer its own one goes. -/
theorem Layers.merge {p : Frame V} (h : Layers adj s (⟨v, next⟩ :: p :: parents) stack)
    (hsorted : stack.Pairwise (Above s)) (he : Extends s s')
    (hlow : ∀ x, x ≠ p.v → s'.lowlinks x = s.lowlinks x)
    (hp : s'.lowlinks p.v = min (s.lowlinks p.v) (s.lowlinks v)) (hdone : (adj v)[next]? = none)
    (hi : s.indices v = some i) (hne : s.lowlinks v ≠ i) {j : Nat} (hj : s.indices p.v = some j) :
    Layers adj s' (p :: parents) stack := by
  obtain ⟨finished, rest, rfl, below, top⟩ := h.top
  obtain ⟨finished', rest', rfl, below', top'⟩ := below.top
  have hwhole : finished ++ v :: (finished' ++ p.v :: rest') = (finished ++ v :: finished') ++ p.v :: rest' := by
    rw [List.append_assoc, List.cons_append]
  have hsorted' : ((finished ++ v :: finished') ++ p.v :: rest').Pairwise (Above s) := hwhole ▸ hsorted
  have hdown : Reach adj p.v v := .single (top.parent p rfl)
  obtain ⟨w, hw, hwi, hvw⟩ := top.low
  -- the low-link leads below `v`, and from there back to the parent
  have hwrest : w ∈ finished' ++ p.v :: rest' := by
    cases hw with
    | head => exact absurd (Option.some.inj (hwi.symm.trans hi)) hne
    | tail _ hw => exact hw
  have hup : Reach adj v p.v := hvw.trans (below.reach_top p rfl w hwrest)
  have hall : ∀ x ∈ adj v, Known s (s.lowlinks v) x := by
    intro x hx
    apply top.walked x
    rwa [List.take_of_length_le (List.getElem?_eq_none_iff.mp hdone)]
  have hle : s'.lowlinks p.v ≤ s.lowlinks v := hp ▸ Nat.min_le_right _ _
  have hle' : s'.lowlinks p.v ≤ s.lowlinks p.v := hp ▸ Nat.min_le_left _ _
  rw [hwhole]
  refine .cons (below'.below_mono hsorted' he hlow) ⟨?_, ?_, ?_, top'.parent⟩
  · intro u hu
    obtain hu | hu := List.mem_append.mp hu
    · obtain ⟨hd, hu, hknown⟩ := top.finished u hu
      exact ⟨hdown.trans hd, hu.trans hup, fun x hx => (hknown x hx).mono he hle⟩
    · cases hu with
      | head => exact ⟨hdown, hup, fun x hx => (hall x hx).mono he hle⟩
      | tail _ hu =>
        obtain ⟨hd, hu, hknown⟩ := top'.finished u hu
        exact ⟨hd, hu, fun x hx => (hknown x hx).mono he hle'⟩
  · exact fun x hx => (top'.walked x hx).mono he hle'
  · rw [hp]
    by_cases hlt : s.lowlinks v < s.lowlinks p.v
    · have hbound := top'.low_le (List.pairwise_append.mp (List.append_cons _ _ _ ▸ hsorted)).2.1 hj
      rw [Nat.min_eq_right hlt.le]
      have hdeep : w ∈ rest' := mem_rest hsorted' (List.mem_append.mpr (by
        obtain hw | hw := List.mem_append.mp hwrest
        · exact .inl (List.mem_append_right _ (List.mem_cons_of_mem _ hw))
        · exact .inr hw)) hj hwi (hlt.trans_le hbound)
      exact ⟨w, List.mem_cons_of_mem _ hdeep, he.indices w _ hwi, hdown.trans hvw⟩
    · rw [Nat.min_eq_left (Nat.le_of_not_lt hlt)]
      obtain ⟨w, hw, hwi, hreach⟩ := top'.low
      exact ⟨w, hw, he.indices w _ hwi, hreach⟩

end Turns

end Cosmon.Graph.Scc
