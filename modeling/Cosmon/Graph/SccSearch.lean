import Cosmon.Graph.Scc

namespace Cosmon.Graph.Scc

open Relation

variable {V : Type} {adj : V → List V} {s s' : Search V}

/-- What holds before every turn: the vertices numbered so far are on the stack, latest first,
or emitted in whole components that no edge leaves for a vertex outside. -/
structure Inv (adj : V → List V) (s : Search V) : Prop where
  bounded : ∀ v i, s.indices v = some i → i < s.index
  onStack : ∀ v, s.onStack v = true ↔ v ∈ s.stack
  numbered : ∀ v ∈ s.stack, ∃ i, s.indices v = some i
  sorted : s.stack.Pairwise (Above s)
  layers : Layers adj s s.work s.stack
  emitted : ∀ v, v ∈ s.sccs.flatten ↔ (∃ i, s.indices v = some i) ∧ v ∉ s.stack
  closed : ∀ v ∈ s.sccs.flatten, ∀ w ∈ adj v, w ∈ s.sccs.flatten
  nodup : s.sccs.flatten.Nodup
  classes : ∀ comp ∈ s.sccs, ∃ r ∈ comp, ∀ u, u ∈ comp ↔ Reach adj r u ∧ Reach adj u r

theorem empty_inv : Inv adj (empty (V := V)) where
  bounded := by simp [empty]
  onStack := by simp [empty]
  numbered := by simp [empty]
  sorted := .nil
  layers := .nil
  emitted := by simp [empty]
  closed := by simp [empty]
  nodup := .nil
  classes := by simp [empty]

theorem Inv.closed_reach (h : Inv adj s) {a b : V} (ha : a ∈ s.sccs.flatten) (hab : Reach adj a b) :
    b ∈ s.sccs.flatten := by
  induction hab with
  | refl => exact ha
  | tail _ hbc ih => exact h.closed _ ih _ hbc

theorem Above.mono {a b : V} (h : Above s a b) (hindices : ∀ x i, s.indices x = some i → s'.indices x = some i) :
    Above s' a b := by
  obtain ⟨i, j, hi, hj, hlt⟩ := h
  exact ⟨i, j, hindices a i hi, hindices b j hj, hlt⟩

theorem Inv.stack_nodup (h : Inv adj s) : s.stack.Nodup :=
  h.sorted.imp (by rintro a _ hab rfl; exact hab.irrefl)

theorem Inv.top_numbered (h : Inv adj s) {f : Frame V} {parents : List (Frame V)} (hwork : s.work = f :: parents) :
    ∃ i, s.indices f.v = some i :=
  h.numbered f.v (h.layers.mem f (hwork ▸ List.mem_cons_self))

variable [DecidableEq V] {v w : V}

theorem discover_indices (hw : s.indices w = none) (x : V) (i : Nat) (hx : s.indices x = some i) :
    x ≠ w ∧ (discover w s).indices x = some i := by
  have hne : x ≠ w := by
    rintro rfl
    cases hw.symm.trans hx
  exact ⟨hne, (Function.update_of_ne hne _ _).trans hx⟩

theorem discover_extends (hw : s.indices w = none) : Extends s (discover w s) := by
  refine ⟨fun x i hx => (discover_indices hw x i hx).2, fun x i hx hon => ?_⟩
  exact (Function.update_of_ne (discover_indices hw x i hx).1 _ _).symm.trans hon

theorem discover_inv {work : List (Frame V)} (h : Inv adj s) (hw : s.indices w = none)
    (hlayers : Layers adj (discover w { s with work := work }) work s.stack)
    (hparent : ∀ p ∈ work.head?, w ∈ adj p.v) : Inv adj (discover w { s with work := work }) := by
  have hindices := discover_indices (s := { s with work := work }) hw
  let s' := discover w { s with work := work }
  have hnew : s'.indices w = some s.index := Function.update_self ..
  have hlow : s'.lowlinks w = s.index := Function.update_self ..
  constructor
  case bounded =>
    intro x i hx
    change i < s.index + 1
    by_cases heq : x = w
    · subst heq
      cases hnew.symm.trans hx
      exact Nat.lt_succ_self _
    · have hx : s.indices x = some i := (Function.update_of_ne heq _ _).symm.trans hx
      exact (h.bounded x i hx).trans (Nat.lt_succ_self _)
  case onStack =>
    intro x
    change Function.update s.onStack w true x = true ↔ x ∈ w :: s.stack
    by_cases heq : x = w
    · simp [heq]
    · simp [heq, h.onStack]
  case numbered =>
    exact List.forall_mem_cons.mpr
      ⟨⟨_, hnew⟩, fun x hx => (h.numbered x hx).imp fun i hi => (hindices x i hi).2⟩
  case sorted =>
    refine List.pairwise_cons.mpr ⟨fun x hx => ?_, ?_⟩
    · obtain ⟨i, hi⟩ := h.numbered x hx
      exact ⟨s.index, i, hnew, (hindices x i hi).2, h.bounded x i hi⟩
    · exact h.sorted.imp fun hab => hab.mono fun x i hi => (hindices x i hi).2
  case layers =>
    have top : Layer adj s' ⟨w, 0⟩ work [] s.stack :=
      ⟨by simp, by simp, ⟨w, List.mem_cons_self, hnew.trans (congrArg some hlow.symm), .refl⟩, hparent⟩
    have h := Layers.cons hlayers top
    exact h
  case emitted =>
    intro x
    refine (h.emitted x).trans ?_
    change _ ↔ (∃ i, Function.update s.indices w (some s.index) x = some i) ∧ x ∉ w :: s.stack
    by_cases heq : x = w
    · subst heq
      simp [hw]
    · simp [heq]
  case closed => exact h.closed
  case nodup => exact h.nodup
  case classes => exact h.classes

theorem popTo_layer {finished : List V} (rest : List V) (hv : v ∉ finished) (onStack : V → Bool) :
    (popTo v (finished ++ v :: rest) onStack).1 = finished ++ [v] ∧
    (popTo v (finished ++ v :: rest) onStack).2.1 = rest ∧
    ∀ x, (popTo v (finished ++ v :: rest) onStack).2.2 x = true ↔ onStack x = true ∧ x ∉ finished ++ [v] := by
  induction finished generalizing onStack with
  | nil =>
    refine ⟨by simp [popTo], by simp [popTo], fun x => ?_⟩
    by_cases heq : x = v <;> simp [popTo, heq]
  | cons u finished ih =>
    obtain ⟨hne, hv⟩ := List.ne_and_not_mem_of_not_mem_cons hv
    obtain ⟨hcomp, hrest, hflags⟩ := ih hv (Function.update onStack u false)
    simp only [List.cons_append, popTo, if_neg (Ne.symm hne)]
    refine ⟨congrArg (u :: ·) hcomp, hrest, fun x => (hflags x).trans ?_⟩
    by_cases heq : x = u <;> simp [heq]

/-- With its low-link at its own number a finished vertex closes its component: its layer is
one class, which only edges into emitted components leave. -/
theorem layer_closed {finished rest : List V} {next : Nat} {parents : List (Frame V)} (h : Inv adj s)
    (hstack : s.stack = finished ++ v :: rest) (top : Layer adj s ⟨v, next⟩ parents finished rest)
    (hdone : (adj v)[next]? = none) (hv : s.indices v = some (s.lowlinks v)) {u : V}
    (hu : u ∈ finished ++ [v]) {x : V} (hx : x ∈ adj u) : x ∈ finished ++ [v] ∨ x ∈ s.sccs.flatten := by
  have hknown : Known s (s.lowlinks v) x := by
    obtain hu | hu := List.mem_append.mp hu
    · exact (top.finished u hu).2.2 x hx
    · rw [List.mem_singleton.mp hu] at hx
      apply top.walked x
      rwa [List.take_of_length_le (List.getElem?_eq_none_iff.mp hdone)]
  obtain ⟨i, hi, hon⟩ := hknown
  by_cases hin : x ∈ s.stack
  · have hle := hon ((h.onStack x).mpr hin)
    have hsorted := h.sorted
    rw [hstack] at hin hsorted
    exact .inl (mem_layer hsorted hin hv hi hle)
  · exact .inr ((h.emitted x).mpr ⟨⟨i, hi⟩, hin⟩)

theorem layer_class {finished rest : List V} {next : Nat} {parents : List (Frame V)} (h : Inv adj s)
    (hstack : s.stack = finished ++ v :: rest) (top : Layer adj s ⟨v, next⟩ parents finished rest)
    (hdone : (adj v)[next]? = none) (hv : s.indices v = some (s.lowlinks v)) (u : V) :
    u ∈ finished ++ [v] ↔ Reach adj v u ∧ Reach adj u v := by
  constructor
  · intro hu
    obtain hu | hu := List.mem_append.mp hu
    · obtain ⟨hdown, hup, _⟩ := top.finished u hu
      exact ⟨hdown, hup⟩
    · rw [List.mem_singleton.mp hu]
      exact ⟨.refl, .refl⟩
  · rintro ⟨hvu, huv⟩
    have hreached : u ∈ finished ++ [v] ∨ u ∈ s.sccs.flatten := by
      clear huv
      induction hvu with
      | refl => exact .inl (List.mem_append_right _ List.mem_cons_self)
      | tail _ hbc ih =>
        cases ih with
        | inl hin => exact layer_closed h hstack top hdone hv hin hbc
        | inr hout => exact .inr (h.closed _ hout _ hbc)
    cases hreached with
    | inl hin => exact hin
    | inr hout =>
      -- an emitted vertex cannot come back to the stack
      refine absurd ?_ ((h.emitted v).mp (h.closed_reach hout huv)).2
      rw [hstack]
      exact List.mem_append_right _ List.mem_cons_self

theorem foldLow_emitted {finished rest : List V} {parents : List (Frame V)}
    (hsorted : (finished ++ v :: rest).Pairwise (Above s)) (below : Layers adj s parents rest)
    (hv : s.indices v = some (s.lowlinks v)) : foldLow v parents s.lowlinks = s.lowlinks := by
  cases parents with
  | nil => rfl
  | cons p parents =>
    obtain ⟨finished', rest', rfl, _, top'⟩ := below.top
    have hp : p.v ∈ finished' ++ p.v :: rest' := List.mem_append_right _ List.mem_cons_self
    obtain ⟨i, j, hi, hj, hlt⟩ := above_rest hsorted hp
    cases hv.symm.trans hi
    have hsorted' : ((finished ++ v :: finished') ++ p.v :: rest').Pairwise (Above s) := by
      simpa using hsorted
    have hle := top'.low_le hsorted' hj
    exact if_neg (by omega)

/-- A component leaves the stack: it was on top, and the rest stays. -/
structure Emits (s : Search V) (v : V) (comp rest : List V) : Prop where
  stack : (emit v s).stack = rest
  sccs : (emit v s).sccs = s.sccs ++ [comp]
  onStack : ∀ x, (emit v s).onStack x = true ↔ s.onStack x = true ∧ x ∉ comp
  split : ∀ x, x ∈ s.stack ↔ x ∈ comp ∨ x ∈ rest
  nodup : comp.Nodup
  disjoint : ∀ x ∈ comp, x ∉ rest

theorem Inv.emits (h : Inv adj s) {finished rest : List V} (hstack : s.stack = finished ++ v :: rest) :
    Emits s v (finished ++ [v]) rest := by
  have hsorted := h.sorted
  have hnodup := h.stack_nodup
  rw [hstack] at hsorted hnodup
  obtain ⟨hcomp, hrest, hflags⟩ := popTo_layer rest (notMem_layers hsorted).1 s.onStack
  rw [← hstack] at hcomp hrest hflags
  rw [List.append_cons] at hnodup
  obtain ⟨hfinished, _, hdisjoint⟩ := List.nodup_append.mp hnodup
  refine ⟨hrest, congrArg (fun comp => s.sccs ++ [comp]) hcomp, hflags, fun x => ?_, hfinished,
    fun x hx hr => hdisjoint x hx x hr rfl⟩
  rw [hstack, List.append_cons, List.mem_append]

theorem Emits.flatten {comp rest : List V} (h : Emits s v comp rest) :
    (emit v s).sccs.flatten = s.sccs.flatten ++ comp := by
  rw [h.sccs, List.flatten_append, List.flatten_singleton]

theorem emit_inv {next : Nat} {parents : List (Frame V)} (h : Inv adj s) (hwork : s.work = ⟨v, next⟩ :: parents)
    (hdone : (adj v)[next]? = none) (hv : s.indices v = some (s.lowlinks v)) :
    Inv adj { emit v s with work := parents, lowlinks := foldLow v parents s.lowlinks } := by
  obtain ⟨finished, rest, hstack, below, top⟩ := (hwork ▸ h.layers).top
  have hsorted := h.sorted
  have hemits := h.emits hstack
  rw [hstack] at hsorted
  rw [foldLow_emitted hsorted below hv]
  constructor
  case bounded => exact h.bounded
  case onStack =>
    intro x
    change _ ↔ x ∈ (emit v s).stack
    rw [hemits.stack]
    refine (hemits.onStack x).trans ?_
    rw [h.onStack, hemits.split]
    constructor
    · rintro ⟨hc | hr, hout⟩
      · exact absurd hc hout
      · exact hr
    · exact fun hr => ⟨.inr hr, fun hc => hemits.disjoint x hc hr⟩
  case numbered =>
    intro x hx
    apply h.numbered
    rw [hemits.split]
    exact .inr (hemits.stack ▸ hx)
  case sorted =>
    change (emit v s).stack.Pairwise (Above s)
    rw [hemits.stack]
    exact (List.pairwise_cons.mp (List.pairwise_append.mp hsorted).2.1).2
  case layers =>
    change Layers adj _ parents (emit v s).stack
    rw [hemits.stack]
    refine below.mono ⟨fun _ _ hx => hx, fun x i _ hon => ((hemits.onStack x).mp hon).1⟩ fun _ _ => rfl
  case emitted =>
    intro x
    change x ∈ (emit v s).sccs.flatten ↔ (∃ i, s.indices x = some i) ∧ x ∉ (emit v s).stack
    rw [hemits.flatten, hemits.stack, List.mem_append, h.emitted, hemits.split]
    constructor
    · rintro (⟨hnum, hout⟩ | hc)
      · exact ⟨hnum, fun hr => hout (.inr hr)⟩
      · exact ⟨h.numbered x ((hemits.split x).mpr (.inl hc)), hemits.disjoint x hc⟩
    · rintro ⟨hnum, hout⟩
      by_cases hc : x ∈ finished ++ [v]
      · exact .inr hc
      · exact .inl ⟨hnum, fun hin => hin.elim hc hout⟩
  case closed =>
    intro x hx w hw
    change w ∈ (emit v s).sccs.flatten
    change x ∈ (emit v s).sccs.flatten at hx
    rw [hemits.flatten, List.mem_append] at hx ⊢
    cases hx with
    | inl hold => exact .inl (h.closed x hold w hw)
    | inr hc => exact (layer_closed h hstack top hdone hv hc hw).symm
  case nodup =>
    change (emit v s).sccs.flatten.Nodup
    rw [hemits.flatten]
    refine List.nodup_append.mpr ⟨h.nodup, hemits.nodup, ?_⟩
    rintro x hold _ hc rfl
    exact ((h.emitted x).mp hold).2 ((hemits.split x).mpr (.inl hc))
  case classes =>
    intro comp hc
    change comp ∈ (emit v s).sccs at hc
    rw [hemits.sccs] at hc
    obtain hold | hnew := List.mem_append.mp hc
    · exact h.classes comp hold
    · rw [List.mem_singleton.mp hnew]
      exact ⟨v, List.mem_append_right _ List.mem_cons_self, layer_class h hstack top hdone hv⟩

section Turns

variable {next : Nat} {parents : List (Frame V)}

theorem walk_new (h : Inv adj s) (hwork : s.work = ⟨v, next⟩ :: parents) (hedge : (adj v)[next]? = some w)
    (hw : s.indices w = none) : Inv adj (discover w { s with work := ⟨v, next + 1⟩ :: parents }) := by
  let s' := discover w { s with work := ⟨v, next + 1⟩ :: parents }
  have hlayers : Layers adj s (⟨v, next⟩ :: parents) s.stack := hwork ▸ h.layers
  have hne : ∀ f ∈ (⟨v, next⟩ :: parents : List (Frame V)), f.v ≠ w := by
    rintro f hf rfl
    obtain ⟨i, hi⟩ := h.numbered f.v (hlayers.mem f hf)
    cases hw.symm.trans hi
  have hlow : ∀ f ∈ (⟨v, next⟩ :: parents : List (Frame V)), s'.lowlinks f.v = s.lowlinks f.v :=
    fun f hf => Function.update_of_ne (hne f hf) _ _
  have hextends : Extends s s' := by
    have h := discover_extends (s := { s with work := ⟨v, next + 1⟩ :: parents }) hw
    exact ⟨h.indices, h.onStack⟩
  have hknown : Known s' (s'.lowlinks v) w := by
    refine ⟨s.index, Function.update_self .., fun _ => ?_⟩
    obtain ⟨_, _, _, _, top⟩ := hlayers.top
    obtain ⟨x, _, hx, _⟩ := top.low
    rw [hlow _ List.mem_cons_self]
    exact (h.bounded x _ hx).le
  apply discover_inv h hw
  · exact (hlayers.mono hextends hlow).advance hedge hknown
  · rintro p ⟨⟩
    exact List.mem_of_getElem? hedge

theorem walk_known (h : Inv adj s) (hwork : s.work = ⟨v, next⟩ :: parents) (hedge : (adj v)[next]? = some w)
    {i : Nat} (hw : s.indices w = some i) {lowlinks : V → Nat}
    (hlow : lowlinks = if s.onStack w ∧ i < s.lowlinks v then Function.update s.lowlinks v i else s.lowlinks) :
    Inv adj { s with work := ⟨v, next + 1⟩ :: parents, lowlinks := lowlinks } := by
  have hlayers : Layers adj s (⟨v, next⟩ :: parents) s.stack := hwork ▸ h.layers
  refine { h with layers := ?_ }
  by_cases hcond : s.onStack w = true ∧ i < s.lowlinks v
  · rw [if_pos hcond] at hlow
    subst hlow
    obtain ⟨j, hj⟩ := h.numbered v (hlayers.mem _ List.mem_cons_self)
    have hself : Function.update s.lowlinks v i v = i := Function.update_self ..
    apply Layers.advance _ hedge
    · exact ⟨i, hw, fun _ => hself.le⟩
    · exact hlayers.lower h.sorted ⟨fun _ _ hx => hx, fun _ _ _ hx => hx⟩
        (fun x hx => Function.update_of_ne hx _ _) hj hself hw ((h.onStack w).mp hcond.1) hcond.2
        (.single (List.mem_of_getElem? hedge))
  · rw [if_neg hcond] at hlow
    subst hlow
    apply Layers.advance _ hedge
    · exact ⟨i, hw, fun hon => Nat.le_of_not_lt fun hlt => hcond ⟨hon, hlt⟩⟩
    · exact hlayers.mono ⟨fun _ _ hx => hx, fun _ _ _ hx => hx⟩ fun _ _ => rfl

theorem finish_open (h : Inv adj s) (hwork : s.work = ⟨v, next⟩ :: parents) (hdone : (adj v)[next]? = none)
    {i : Nat} (hi : s.indices v = some i) (hne : s.lowlinks v ≠ i) :
    Inv adj { s with work := parents, lowlinks := foldLow v parents s.lowlinks } := by
  have hlayers : Layers adj s (⟨v, next⟩ :: parents) s.stack := hwork ▸ h.layers
  refine { h with layers := ?_ }
  cases parents with
  | nil =>
    -- the first vertex of a search has nothing below it to reach
    obtain ⟨finished, rest, _, below, top⟩ := hlayers.top
    obtain ⟨w, hw, hwi, _⟩ := top.low
    rw [below.stack_nil, List.mem_singleton] at hw
    rw [hw] at hwi
    exact absurd (Option.some.inj (hwi.symm.trans hi)) hne
  | cons p parents =>
    obtain ⟨_, _, _, below, _⟩ := hlayers.top
    have hp : p.v ∈ s.stack := hlayers.mem p (List.mem_cons_of_mem _ List.mem_cons_self)
    obtain ⟨j, hj⟩ := h.numbered p.v hp
    refine hlayers.merge h.sorted ⟨fun _ _ hx => hx, fun _ _ _ hx => hx⟩ ?_ ?_ hdone hi hne hj
    · intro x hx
      simp only [foldLow]
      split
      · exact Function.update_of_ne hx _ _
      · rfl
    · simp only [foldLow]
      split
      · next hlt => rw [Function.update_self, Nat.min_eq_right hlt.le]
      · next hge => rw [Nat.min_eq_left (Nat.le_of_not_lt hge)]

theorem step_cases (adj : V → List V) (hwork : s.work = ⟨v, next⟩ :: parents) {i : Nat} (hi : s.indices v = some i) :
    (∃ w, (adj v)[next]? = some w ∧ s.indices w = none ∧
      step adj s = .ok (discover w { s with work := ⟨v, next + 1⟩ :: parents })) ∨
    (∃ w j, (adj v)[next]? = some w ∧ s.indices w = some j ∧
      step adj s = .ok { s with
        work := ⟨v, next + 1⟩ :: parents
        lowlinks := if s.onStack w ∧ j < s.lowlinks v then Function.update s.lowlinks v j else s.lowlinks }) ∨
    ((adj v)[next]? = none ∧ s.lowlinks v = i ∧
      step adj s = .ok { emit v s with work := parents, lowlinks := foldLow v parents s.lowlinks }) ∨
    ((adj v)[next]? = none ∧ s.lowlinks v ≠ i ∧
      step adj s = .ok { s with work := parents, lowlinks := foldLow v parents s.lowlinks }) := by
  rw [step]
  cases hedge : (adj v)[next]? with
  | some w =>
    cases hw : s.indices w with
    | none =>
      refine .inl ⟨w, rfl, hw, ?_⟩
      simp only [hwork, hedge, hw]
    | some j =>
      refine .inr (.inl ⟨w, j, rfl, hw, ?_⟩)
      simp only [hwork, hedge, hw]
      split <;> rfl
  | none =>
    by_cases hroot : s.lowlinks v = i
    · refine .inr (.inr (.inl ⟨rfl, hroot, ?_⟩))
      simp only [hwork, hedge, hi, if_pos hroot]
      rfl
    · refine .inr (.inr (.inr ⟨rfl, hroot, ?_⟩))
      simp only [hwork, hedge, hi, if_neg hroot]

end Turns

variable (adj) (vertices : List V)

def whites (s : Search V) : List V := vertices.filter (fun x => (s.indices x).isNone)

def frameTurns : List (Frame V) → Nat
  | [] => 0
  | f :: work => (adj f.v).length - f.next + 1 + frameTurns work

def pending (s : Search V) : Nat :=
  (whites vertices s).length + ((whites vertices s).flatMap adj).length + frameTurns adj s.work

variable {adj vertices} (hall : ∀ v, v ∈ vertices) (hnodup : vertices.Nodup)

include hall hnodup

theorem pending_discover (hw : s.indices w = none) : pending adj vertices (discover w s) = pending adj vertices s := by
  have hwhites : ∀ s : Search V, (whites vertices s).Nodup := fun s => hnodup.filter _
  have hperm : (whites vertices s).Perm (w :: whites vertices (discover w s)) := by
    rw [List.perm_ext_iff_of_nodup (hwhites s)]
    · intro x
      simp only [whites, List.mem_cons, List.mem_filter, hall, true_and, discover]
      by_cases heq : x = w
      · subst heq
        simp [hw]
      · simp [heq]
    · refine List.nodup_cons.mpr ⟨?_, hwhites _⟩
      simp [whites, discover]
  have hlength := hperm.length_eq
  have hedges := (hperm.flatMap_right adj).length_eq
  simp only [List.length_cons, List.flatMap_cons, List.length_append] at hlength hedges
  simp only [pending, hlength, hedges]
  change _ + _ + ((adj w).length - 0 + 1 + frameTurns adj s.work) = _
  omega

/-- A turn on an open frame keeps the invariant, fails no `expect` and leaves a turn less. -/
theorem step_spec (h : Inv adj s) (hopen : s.work ≠ []) :
    ∃ s', step adj s = .ok s' ∧ Inv adj s' ∧ (∀ x i, s.indices x = some i → s'.indices x = some i) ∧
      pending adj vertices s' < pending adj vertices s := by
  obtain ⟨⟨v, next⟩, parents, hwork⟩ := List.exists_cons_of_ne_nil hopen
  obtain ⟨i, hi⟩ := h.top_numbered hwork
  have hturns : ∀ w, (adj v)[next]? = some w →
      frameTurns adj (⟨v, next + 1⟩ :: parents) < frameTurns adj (⟨v, next⟩ :: parents) := by
    intro w hedge
    obtain ⟨hlt, _⟩ := List.getElem?_eq_some_iff.mp hedge
    simp only [frameTurns]
    omega
  obtain ⟨w, hedge, hw, hstep⟩ | ⟨w, j, hedge, hw, hstep⟩ | ⟨hdone, hroot, hstep⟩ | ⟨hdone, hroot, hstep⟩ :=
    step_cases adj hwork hi
  · refine ⟨_, hstep, walk_new h hwork hedge hw, fun x i hx => (discover_indices hw x i hx).2, ?_⟩
    let s₁ : Search V := { s with work := ⟨v, next + 1⟩ :: parents }
    have hsame : pending adj vertices (discover w s₁) = pending adj vertices s₁ :=
      pending_discover hall hnodup hw
    refine hsame.trans_lt ?_
    rw [pending, pending, hwork]
    exact Nat.add_lt_add_left (hturns w hedge) _
  · refine ⟨_, hstep, walk_known h hwork hedge hw rfl, fun _ _ hx => hx, ?_⟩
    rw [pending, pending, hwork]
    exact Nat.add_lt_add_left (hturns w hedge) _
  · refine ⟨_, hstep, emit_inv h hwork hdone (hroot ▸ hi), fun _ _ hx => hx, ?_⟩
    rw [pending, pending, hwork]
    exact Nat.add_lt_add_left (by simp only [frameTurns]; omega) _
  · refine ⟨_, hstep, finish_open h hwork hdone hi hroot, fun _ _ hx => hx, ?_⟩
    rw [pending, pending, hwork]
    exact Nat.add_lt_add_left (by simp only [frameTurns]; omega) _

theorem loop_finishes (fuel : Nat) (h : Inv adj s) (hfuel : pending adj vertices s ≤ fuel) :
    ∃ s', loop adj fuel s = .ok s' ∧ Inv adj s' ∧ s'.work = [] ∧
      ∀ x i, s.indices x = some i → s'.indices x = some i := by
  induction fuel generalizing s with
  | zero =>
    cases hwork : s.work with
    | nil => exact ⟨s, rfl, h, hwork, fun _ _ hx => hx⟩
    | cons f work =>
      rw [pending, hwork, frameTurns] at hfuel
      omega
  | succ fuel ih =>
    cases hwork : s.work with
    | nil => exact ⟨s, by simp only [loop, hwork], h, hwork, fun _ _ hx => hx⟩
    | cons f work =>
      obtain ⟨s₁, hstep, h₁, hkept, hless⟩ := step_spec hall hnodup h (by simp [hwork])
      obtain ⟨s₂, hloop, h₂, hdone, hkept'⟩ := ih h₁ (by omega)
      refine ⟨s₂, ?_, h₂, hdone, fun x i hx => hkept' x i (hkept x i hx)⟩
      simp only [loop, hwork, hstep]
      exact hloop

end Cosmon.Graph.Scc
