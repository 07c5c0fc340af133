import Cosmon.Graph.CriticalPath
import Cosmon.Graph.Cycles
import Cosmon.Lib.Runs
import Mathlib.Data.List.Chain

namespace Cosmon.Graph.LongestPaths

open Cosmon.Lib.Runs
open Cosmon.Graph.Toposort Cosmon.Graph.CriticalPath Cosmon.Graph.Cycles

variable {N : Type} [LinearOrder N]

/-- A directed path: nodes of the graph, each with an edge to the next. -/
def IsPath (edges : List (N × N)) (path : List N) : Prop :=
  (∀ n ∈ path, n ∈ nodes edges) ∧ path.IsChain (Edge edges)

def pathWeight (weight : N → Nat) : List N → Nat
  | [] => 0
  | n :: path => weight n + pathWeight weight path

/-- `relax` with the addition of 64-bit scores. -/
def relaxU64 (dp : N → Nat) (w : Nat) (best : Nat × Option N) (pred : N) : Nat × Option N :=
  let candidate := (dp pred + w) % 2 ^ 64
  if best.1 < candidate then (candidate, some pred)
  else if candidate = best.1 ∧ best.2.any (fun cur => pred < cur) then (best.1, some pred)
  else best

def scoreU64 (edges : List (N × N)) (weight : N → Nat) (t : Tables N) (node : N) : Tables N :=
  let w := weight node
  let best := (predsOf edges node).foldl (relaxU64 t.dp w) (w, none)
  { dp := Function.update t.dp node best.1, parent := Function.update t.parent node best.2 }

def tablesU64 (edges : List (N × N)) (weight : N → Nat) (order : List N) : Tables N :=
  order.foldl (scoreU64 edges weight) { dp := fun _ => 0, parent := fun _ => none }

def criticalPathWeightedU64 (edges : List (N × N)) (weight : N → Nat) :
    Except (CycleError N) (List N) :=
  match toposort edges with
  | .error e => .error e
  | .ok order =>
    let t := tablesU64 edges weight order
    .ok (reconstruct t.parent order.length (sink t.dp order) [])

/-- The score and the parent of a node, from the scores of its dependencies: without a
parent no dependency adds anything, else the parent is the least of the best. -/
structure Best (dp : N → Nat) (w : Nat) (preds : List N) (best : Nat × Option N) : Prop where
  alone : best.2 = none → best.1 = w ∧ ∀ p ∈ preds, dp p = 0
  parent : ∀ p, best.2 = some p → p ∈ preds ∧ best.1 = dp p + w ∧ 0 < dp p ∧
    ∀ q ∈ preds, dp q ≤ dp p ∧ (dp q = dp p → p ≤ q)

theorem best_alone {dp : N → Nat} {w : Nat} {preds : List N} (hzero : ∀ p ∈ preds, dp p = 0) :
    Best dp w preds (w, none) :=
  ⟨fun _ => ⟨rfl, hzero⟩, fun _ hp => (by cases hp)⟩

theorem best_parent {dp : N → Nat} {w : Nat} {preds : List N} {p : N} (hp : p ∈ preds) (hpos : 0 < dp p)
    (hbest : ∀ q ∈ preds, dp q ≤ dp p ∧ (dp q = dp p → p ≤ q)) : Best dp w preds (dp p + w, some p) := by
  refine ⟨fun hn => (by cases hn), ?_⟩
  rintro _ ⟨⟩
  exact ⟨hp, rfl, hpos, hbest⟩

theorem relax_best {dp : N → Nat} {w : Nat} {seen : List N} {best : Nat × Option N}
    (h : Best dp w seen best) (pred : N) : Best dp w (seen ++ [pred]) (relax dp w best pred) := by
  have hall : ∀ P : N → Prop, (∀ q ∈ seen, P q) → P pred → ∀ q ∈ seen ++ [pred], P q :=
    fun P hseen hpred => List.forall_mem_append.mpr ⟨hseen, List.forall_mem_singleton.mpr hpred⟩
  have hself : pred ∈ seen ++ [pred] := List.mem_append_right _ List.mem_cons_self
  obtain ⟨score, parent⟩ := best
  simp only [relax]
  cases parent with
  | none =>
    obtain ⟨rfl, hzero⟩ := h.alone rfl
    by_cases hlt : score < dp pred + score
    · rw [if_pos hlt]
      apply best_parent hself (by omega)
      apply hall
      · intro q hq
        have := hzero q hq
        omega
      · exact ⟨Nat.le_refl _, fun _ => le_refl _⟩
    · rw [if_neg hlt, if_neg (by simp)]
      exact best_alone (hall _ hzero (by omega))
  | some cur =>
    obtain ⟨hcur, rfl, hpos, hbest⟩ := h.parent cur rfl
    by_cases hlt : dp cur + w < dp pred + w
    · rw [if_pos hlt]
      apply best_parent hself (by omega)
      apply hall
      · intro q hq
        have := (hbest q hq).1
        omega
      · exact ⟨Nat.le_refl _, fun _ => le_refl _⟩
    · rw [if_neg hlt]
      by_cases htie : dp pred + w = dp cur + w ∧ pred < cur
      · -- a tie: the smaller parent takes over
        obtain ⟨heq, hless⟩ := htie
        have hdp : dp pred = dp cur := by omega
        rw [if_pos ⟨heq, by simpa using hless⟩, ← hdp]
        apply best_parent hself (by omega)
        apply hall
        · intro q hq
          rw [hdp]
          exact ⟨(hbest q hq).1, fun h => hless.le.trans ((hbest q hq).2 h)⟩
        · exact ⟨Nat.le_refl _, fun _ => le_refl _⟩
      · rw [if_neg (by simpa using htie)]
        apply best_parent (List.mem_append_left _ hcur) hpos
        apply hall _ hbest
        exact ⟨by omega, fun heq => not_lt.mp fun hless => htie ⟨by omega, hless⟩⟩

theorem foldl_best {dp : N → Nat} {w : Nat} (preds seen : List N) {best : Nat × Option N}
    (h : Best dp w seen best) : Best dp w (seen ++ preds) (preds.foldl (relax dp w) best) := by
  induction preds generalizing seen best with
  | nil => rwa [List.append_nil]
  | cons pred preds ih =>
    rw [← List.singleton_append, ← List.append_assoc]
    exact ih (seen ++ [pred]) (relax_best h pred)

theorem Best.unique {dp : N → Nat} {w : Nat} {preds preds' : List N} {best best' : Nat × Option N}
    (h : Best dp w preds best) (h' : Best dp w preds' best') (hsame : ∀ p, p ∈ preds' ↔ p ∈ preds) :
    best' = best := by
  obtain ⟨score, parent⟩ := best
  obtain ⟨score', parent'⟩ := best'
  cases parent with
  | none =>
    obtain ⟨rfl, hzero⟩ := h.alone rfl
    cases parent' with
    | none => exact congrArg (·, none) (h'.alone rfl).1
    | some p' =>
      obtain ⟨hp', _, hpos, _⟩ := h'.parent p' rfl
      exact absurd (hzero p' ((hsame p').mp hp')) hpos.ne'
  | some p =>
    obtain ⟨hp, hscore, hpos, hbest⟩ := h.parent p rfl
    cases parent' with
    | none => exact absurd ((h'.alone rfl).2 p ((hsame p).mpr hp)) hpos.ne'
    | some p' =>
      obtain ⟨hp', hscore', _, hbest'⟩ := h'.parent p' rfl
      have hle := hbest p' ((hsame p').mp hp')
      have hge := hbest' p ((hsame p).mpr hp)
      have hdp : dp p = dp p' := Nat.le_antisymm hge.1 hle.1
      have heq : p = p' := le_antisymm (hle.2 hdp.symm) (hge.2 hdp)
      subst heq
      simp only at hscore hscore'
      rw [hscore, hscore']

theorem Best.congr {dp dp' : N → Nat} {w : Nat} {preds : List N} {best : Nat × Option N}
    (h : Best dp w preds best) (hdp : ∀ p ∈ preds, dp' p = dp p) : Best dp' w preds best := by
  constructor
  · intro hn
    obtain ⟨hw, hzero⟩ := h.alone hn
    exact ⟨hw, fun p hp => (hdp p hp).trans (hzero p hp)⟩
  · intro p hp
    obtain ⟨hmem, hscore, hpos, hbest⟩ := h.parent p hp
    rw [hdp p hmem]
    refine ⟨hmem, hscore, hpos, fun q hq => ?_⟩
    rw [hdp q hq]
    exact hbest q hq

/-- Every node of an order comes after its dependencies, and once. -/
def Ordered (edges : List (N × N)) (order : List N) : Prop :=
  EachAfter (fun before n => n ∉ before ∧ ∀ p ∈ predsOf edges n, p ∈ before) order

theorem Ordered.of_append {edges : List (N × N)} {order : List N} {last : N}
    (h : Ordered edges (order ++ [last])) : Ordered edges order := fun before n after heq =>
  h before n (after ++ [last]) (by rw [heq, List.append_assoc, List.cons_append])

theorem Ordered.closed {edges : List (N × N)} {order : List N} (h : Ordered edges order) :
    ∀ n ∈ order, ∀ p ∈ predsOf edges n, p ∈ order := by
  intro n hn p hp
  obtain ⟨before, after, rfl⟩ := List.append_of_mem hn
  exact List.mem_append_left _ ((h before n after rfl).2 p hp)

theorem score_best (dp : N → Nat) (w : Nat) (preds : List N) :
    Best dp w preds (preds.foldl (relax dp w) (w, none)) :=
  foldl_best preds [] (best_alone (by simp))

/-- Scoring along such an order settles every node: nothing it was scored from changes later. -/
theorem tables_best {edges : List (N × N)} (weight : N → Nat) {order : List N} (h : Ordered edges order) :
    ∀ n ∈ order, Best (tables edges weight order).dp (weight n) (predsOf edges n)
      ((tables edges weight order).dp n, (tables edges weight order).parent n) := by
  induction order using List.reverseRecOn with
  | nil => simp
  | append_singleton order last ih =>
    have hprefix := h.of_append
    obtain ⟨hfresh, hpreds⟩ := h order last [] rfl
    have hstep : tables edges weight (order ++ [last]) = score edges weight (tables edges weight order) last := by
      rw [tables, List.foldl_append]
      rfl
    have hne : ∀ n ∈ order, n ≠ last := fun n hn heq => hfresh (heq ▸ hn)
    have hold : ∀ n ∈ order, (tables edges weight (order ++ [last])).dp n = (tables edges weight order).dp n := by
      intro n hn
      rw [hstep]
      exact Function.update_of_ne (hne n hn) _ _
    have hbefore : ∀ n ∈ order ++ [last], ∀ p ∈ predsOf edges n, p ∈ order := by
      intro n hn p hp
      obtain hn | hn := List.mem_append.mp hn
      · exact hprefix.closed n hn p hp
      · rw [List.mem_singleton.mp hn] at hp
        exact hpreds p hp
    intro n hn
    refine Best.congr ?_ fun p hp => hold p (hbefore n hn p hp)
    · obtain hin | hlast := List.mem_append.mp hn
      · have hparent : (tables edges weight (order ++ [last])).parent n = (tables edges weight order).parent n := by
          rw [hstep]
          exact Function.update_of_ne (hne n hin) _ _
        rw [hold n hin, hparent]
        exact ih hprefix n hin
      · obtain rfl := List.mem_singleton.mp hlast
        rw [hstep]
        simp only [score, Function.update_self]
        exact score_best _ _ _

theorem toposort_eachAfter {edges : List (N × N)} {order : List N} (h : toposort edges = .ok order) :
    Ordered edges order := by
  rintro before n after rfl
  have hnodup := (toposort_nodes h).1
  have hfresh : n ∉ before :=
    fun hn => (List.nodup_append.mp hnodup).2.2 n hn n List.mem_cons_self rfl
  refine ⟨hfresh, fun p hp => ?_⟩
  have hlt := (toposort_ordered h (p, n) (mem_predsOf.mp hp)).2
  rw [List.idxOf_append_of_notMem hfresh, List.idxOf_cons_self] at hlt
  by_contra hout
  rw [List.idxOf_append_of_notMem hout] at hlt
  omega

section Scores

variable {edges : List (N × N)} {order : List N} {weight : N → Nat} {t : Tables N}
  (hbest : ∀ n ∈ order, Best t.dp (weight n) (predsOf edges n) (t.dp n, t.parent n))

include hbest

theorem weight_le_score {n : N} (hn : n ∈ order) : weight n ≤ t.dp n := by
  cases hp : t.parent n with
  | none => exact ((hbest n hn).alone hp).1.ge
  | some p =>
    have hscore : t.dp n = t.dp p + weight n := ((hbest n hn).parent p hp).2.1
    omega

theorem score_edge {m n : N} (hn : n ∈ order) (hmn : Edge edges m n) : t.dp m + weight n ≤ t.dp n := by
  have hm : m ∈ predsOf edges n := mem_predsOf.mpr hmn
  cases hp : t.parent n with
  | none =>
    have hzero := ((hbest n hn).alone hp).2 m hm
    have := weight_le_score hbest hn
    omega
  | some p =>
    obtain ⟨_, hscore, _, hmax⟩ := (hbest n hn).parent p hp
    have := (hmax m hm).1
    simp only at hscore
    omega

theorem path_le {bound : Nat} (hbound : ∀ n ∈ order, t.dp n ≤ bound) (path : List N) {a : N}
    (ha : a ∈ order) (hpath : ∀ n ∈ path, n ∈ order) (hchain : (a :: path).IsChain (Edge edges)) :
    t.dp a + pathWeight weight path ≤ bound := by
  induction path generalizing a with
  | nil => exact hbound a ha
  | cons b path ih =>
    obtain ⟨hab, hchain⟩ := List.isChain_cons_cons.mp hchain
    have hb := hpath b List.mem_cons_self
    have hrest := ih hb (fun n hn => hpath n (List.mem_cons_of_mem _ hn)) hchain
    have hedge := score_edge hbest hb hab
    rw [pathWeight]
    omega

theorem reconstruct_path (hsub : ∀ n ∈ order, n ∈ nodes edges)
    (hclosed : ∀ n ∈ order, ∀ p ∈ predsOf edges n, p ∈ order)
    {rank : N → Nat} (hrank : ∀ e ∈ edges, rank e.1 < rank e.2)
    (fuel : Nat) (cursor : Option N) (path : List N) (hcursor : ∀ n, cursor = some n → n ∈ order ∧ rank n < fuel)
    (hpath : IsPath edges path) (hlink : ∀ n ∈ cursor, ∀ m ∈ path.head?, Edge edges n m) :
    IsPath edges (reconstruct t.parent fuel cursor path) ∧
      pathWeight weight (reconstruct t.parent fuel cursor path) =
        cursor.elim 0 t.dp + pathWeight weight path := by
  induction fuel generalizing cursor path with
  | zero =>
    cases cursor with
    | none => exact ⟨hpath, (Nat.zero_add _).symm⟩
    | some n => exact absurd (hcursor n rfl).2 (Nat.not_lt_zero _)
  | succ fuel ih =>
    cases cursor with
    | none => exact ⟨hpath, (Nat.zero_add _).symm⟩
    | some n =>
      obtain ⟨hn, hfuel⟩ := hcursor n rfl
      have hparent : ∀ p, t.parent n = some p → p ∈ predsOf edges n :=
        fun p hp => ((hbest n hn).parent p hp).1
      have hgrown : IsPath edges (n :: path) := by
        refine ⟨?_, ?_⟩
        · exact List.forall_mem_cons.mpr ⟨hsub n hn, hpath.1⟩
        · exact List.isChain_cons.mpr ⟨hlink n rfl, hpath.2⟩
      have hnext : ∀ p, t.parent n = some p → p ∈ order ∧ rank p < fuel := by
        intro p hp
        have hedge : rank p < rank n := hrank (p, n) (mem_predsOf.mp (hparent p hp))
        exact ⟨hclosed n hn p (hparent p hp), by omega⟩
      have hlinked : ∀ p ∈ t.parent n, ∀ m ∈ (n :: path).head?, Edge edges p m := by
        rintro p hp _ ⟨⟩
        exact mem_predsOf.mp (hparent p hp)
      obtain ⟨hwhole, hweight⟩ := ih (t.parent n) (n :: path) hnext hgrown hlinked
      refine ⟨hwhole, hweight.trans ?_⟩
      rw [pathWeight, ← Nat.add_assoc]
      congr 1
      cases hp : t.parent n with
      | none => exact (Nat.zero_add _).trans ((hbest n hn).alone hp).1.symm
      | some p => exact ((hbest n hn).parent p hp).2.1.symm

end Scores

theorem sink_max (dp : N → Nat) {order : List N} {n : N} (h : sink dp order = some n) :
    ∀ m ∈ order, dp m ≤ dp n := by
  cases order with
  | nil => cases h
  | cons a rest =>
    cases h
    induction rest generalizing a with
    | nil => simp
    | cons b rest ih =>
      rw [List.foldl_cons]
      by_cases hb : dp a < dp b ∨ dp a = dp b ∧ b ≤ a
      · rw [if_pos hb]
        refine List.forall_mem_cons.mpr ⟨?_, ih b⟩
        have := ih b b List.mem_cons_self
        omega
      · rw [if_neg hb]
        have h := ih a
        refine List.forall_mem_cons.mpr ⟨h a List.mem_cons_self, List.forall_mem_cons.mpr ⟨?_, ?_⟩⟩
        · have := h a List.mem_cons_self
          omega
        · exact fun m hm => h m (List.mem_cons_of_mem _ hm)

/-- Every sum the scoring forms is the weight of a path, so where the paths fit in a word
the words agree with the numbers. -/
theorem tablesU64_eq {edges : List (N × N)} {weight : N → Nat} {rank : N → Nat}
    (hrank : ∀ e ∈ edges, rank e.1 < rank e.2)
    (hfit : ∀ path, IsPath edges path → pathWeight weight path < 2 ^ 64) {order : List N}
    (h : Ordered edges order) (hsub : ∀ n ∈ order, n ∈ nodes edges) :
    tablesU64 edges weight order = tables edges weight order := by
  induction order using List.reverseRecOn with
  | nil => rfl
  | append_singleton order last ih =>
    have hold := ih h.of_append fun n hn => hsub n (List.mem_append_left _ hn)
    have hlast := hsub last (List.mem_append_right _ List.mem_cons_self)
    have hsum : ∀ p ∈ predsOf edges last, (tables edges weight order).dp p + weight last < 2 ^ 64 := by
      intro p hp
      have hedge := mem_predsOf.mp hp
      have hin := (h order last [] rfl).2 p hp
      obtain ⟨hpath, hweight⟩ := reconstruct_path (tables_best weight h.of_append)
        (fun n hn => hsub n (List.mem_append_left _ hn)) h.of_append.closed hrank (rank p + 1) (some p) [last]
        (by rintro _ ⟨⟩; exact ⟨hin, Nat.lt_succ_self _⟩)
        ⟨List.forall_mem_singleton.mpr hlast, List.isChain_singleton last⟩
        (by rintro _ ⟨⟩ _ ⟨⟩; exact hedge)
      have hlt := hfit _ hpath
      rw [hweight] at hlt
      exact hlt
    have hrelax : ∀ preds : List N, (∀ p ∈ preds, p ∈ predsOf edges last) → ∀ best,
        preds.foldl (relaxU64 (tables edges weight order).dp (weight last)) best =
          preds.foldl (relax (tables edges weight order).dp (weight last)) best := by
      intro preds
      induction preds with
      | nil => exact fun _ _ => rfl
      | cons p preds ihp =>
        intro hpreds best
        have hp := hsum p (hpreds p List.mem_cons_self)
        rw [List.foldl_cons, List.foldl_cons, ihp fun q hq => hpreds q (List.mem_cons_of_mem _ hq)]
        simp only [relaxU64, relax, Nat.mod_eq_of_lt hp]
    rw [tablesU64, tables, List.foldl_append, List.foldl_append]
    change scoreU64 edges weight (tablesU64 edges weight order) last =
      score edges weight (tables edges weight order) last
    rw [hold]
    simp only [scoreU64, score, hrelax _ fun _ h => h]

theorem score_congr {edges edges' : List (N × N)} (hsame : ∀ e, e ∈ edges' ↔ e ∈ edges) (weight : N → Nat) :
    score edges' weight = score edges weight := by
  funext t node
  have hpreds : ∀ p, p ∈ predsOf edges' node ↔ p ∈ predsOf edges node := by
    intro p
    rw [mem_predsOf, mem_predsOf, hsame]
  simp only [score, (score_best t.dp (weight node) _).unique (score_best t.dp (weight node) _) hpreds]

omit [LinearOrder N] in
theorem mem_reconstruct (parent : N → Option N) (fuel : Nat) (cursor : Option N) {path : List N} {n : N}
    (hn : n ∈ path) : n ∈ reconstruct parent fuel cursor path := by
  induction fuel generalizing cursor path with
  | zero => exact hn
  | succ fuel ih =>
    cases cursor with
    | none => exact hn
    | some m => exact ih (parent m) (List.mem_cons_of_mem m hn)

theorem sink_some (dp : N → Nat) {order : List N} {a : N} (ha : a ∈ order) : ∃ n, sink dp order = some n := by
  cases order with
  | nil => cases ha
  | cons b rest => exact ⟨_, rfl⟩

theorem reconstruct_sink_ne_nil (t : Tables N) {order : List N} {a : N} (ha : a ∈ order) :
    reconstruct t.parent order.length (sink t.dp order) [] ≠ [] := by
  obtain ⟨n, hn⟩ := sink_some t.dp ha
  obtain ⟨fuel, hfuel⟩ := Nat.exists_eq_succ_of_ne_zero (List.length_pos_of_mem ha).ne'
  rw [hn, hfuel]
  exact List.ne_nil_of_mem (mem_reconstruct t.parent fuel (t.parent n) (List.mem_cons_self (a := n)))

theorem isPath_congr {edges edges' : List (N × N)} (hsame : ∀ e, e ∈ edges' ↔ e ∈ edges) :
    IsPath edges' = IsPath edges := by
  have hedge : Edge edges' = Edge edges := by
    funext a b
    exact propext (hsame (a, b))
  funext path
  rw [IsPath, IsPath, nodes_congr hsame, hedge]

theorem criticalPathWeightedU64_ok {edges : List (N × N)} {weight : N → Nat} {order : List N}
    (hfit : ∀ path, IsPath edges path → pathWeight weight path < 2 ^ 64) (ho : toposort edges = .ok order) :
    criticalPathWeightedU64 edges weight = .ok (reconstruct (tables edges weight order).parent order.length
      (sink (tables edges weight order).dp order) []) := by
  obtain ⟨rank, hrank⟩ := (toposort_ok_iff edges).mp ⟨order, ho⟩
  have hwords := tablesU64_eq hrank hfit (toposort_eachAfter ho) fun n hn => ((toposort_nodes ho).2 n).mp hn
  simp only [criticalPathWeightedU64, ho, hwords]

theorem reconstruct_heaviest {edges : List (N × N)} {order : List N} (weight : N → Nat)
    (ho : toposort edges = .ok order) {path : List N}
    (hpath : path = reconstruct (tables edges weight order).parent order.length
      (sink (tables edges weight order).dp order) []) :
    IsPath edges path ∧ ∀ other, IsPath edges other → pathWeight weight other ≤ pathWeight weight path := by
  subst hpath
  have hnodes := (toposort_nodes ho).2
  have hordered := toposort_eachAfter ho
  have hbest := tables_best weight hordered
  let t := tables edges weight order
  obtain ⟨hpath, hweight⟩ := reconstruct_path hbest (fun n hn => (hnodes n).mp hn) hordered.closed
    (fun e he => (toposort_ordered ho e he).2) order.length (sink t.dp order) []
    (fun n hn => ⟨sink_mem t.dp hn, List.idxOf_lt_length_of_mem (sink_mem t.dp hn)⟩)
    ⟨by simp, List.isChain_nil⟩ (by simp)
  refine ⟨hpath, fun other hother => ?_⟩
  cases other with
  | nil => exact Nat.zero_le _
  | cons a other =>
    have hin : ∀ n ∈ a :: other, n ∈ order := fun n hn => (hnodes n).mpr (hother.1 n hn)
    obtain ⟨ha, hrest⟩ := List.forall_mem_cons.mp hin
    obtain ⟨n, hn⟩ := sink_some t.dp ha
    have hle := path_le hbest (sink_max t.dp hn) other ha hrest hother.2
    have hfirst := weight_le_score hbest ha
    rw [hweight, hn, pathWeight]
    change weight a + pathWeight weight other ≤ t.dp n + 0
    omega

/-- On an acyclic graph whose path sums fit in a word the program finds a heaviest path, and
the same one however the edges are listed. -/
theorem critical_path_longest (edges : List (N × N)) (weight : N → Nat)
    (hacyclic : ∀ n, ¬OnCycle edges n)
    (hfit : ∀ path, IsPath edges path → pathWeight weight path < 2 ^ 64) :
    ∃ path, criticalPathWeightedU64 edges weight = .ok path ∧
      IsPath edges path ∧ (path = [] ↔ edges = []) ∧
      (∀ other, IsPath edges other → pathWeight weight other ≤ pathWeight weight path) ∧
      ∀ edges', (∀ e, e ∈ edges' ↔ e ∈ edges) → criticalPathWeightedU64 edges' weight = .ok path := by
  obtain ⟨order, ho⟩ := (toposort_ok_iff edges).mpr ((acyclic_iff edges).mpr hacyclic)
  obtain ⟨hpath, hheaviest⟩ := reconstruct_heaviest weight ho rfl
  refine ⟨_, criticalPathWeightedU64_ok hfit ho, hpath, ?_, hheaviest, ?_⟩
  · constructor
    · intro hempty
      cases edges with
      | nil => rfl
      | cons e es =>
        have hin : e.1 ∈ order := ((toposort_nodes ho).2 e.1).mpr (fst_mem_nodes List.mem_cons_self)
        exact absurd hempty (reconstruct_sink_ne_nil (tables (e :: es) weight order) hin)
    · rintro rfl
      cases ho
      rfl
  · intro edges' hsame
    have hfit' : ∀ path, IsPath edges' path → pathWeight weight path < 2 ^ 64 := by
      rw [isPath_congr hsame]
      exact hfit
    rw [criticalPathWeightedU64_ok hfit' (toposort_congr hsame ho), tables, score_congr hsame]
    rfl

theorem critical_path_longest_pair :
    ∃ path, criticalPathWeightedU64 [(1, 2)] id = .ok path ∧
      IsPath [(1, 2)] path ∧ (path = [] ↔ [(1, 2)] = []) ∧
      (∀ other, IsPath [(1, 2)] other → pathWeight id other ≤ pathWeight id path) ∧
      ∀ edges', (∀ e, e ∈ edges' ↔ e ∈ [(1, 2)]) → criticalPathWeightedU64 edges' id = .ok path := by
  refine critical_path_longest [(1, 2)] id ?_ ?_
  · exact (acyclic_iff [(1, 2)]).mp ⟨id, by simp⟩
  · rintro path ⟨hnodes, hchain⟩
    have hedge : ∀ {a b : Nat}, Edge [(1, 2)] a b → a = 1 ∧ b = 2 := by simp [Edge]
    rcases path with _ | ⟨a, _ | ⟨b, _ | ⟨c, rest⟩⟩⟩
    · decide
    · have ha := hnodes a List.mem_cons_self
      simp only [nodes, Finset.mem_insert, Finset.notMem_empty, or_false] at ha
      simp only [pathWeight, id]
      omega
    · obtain ⟨rfl, rfl⟩ := hedge (List.isChain_cons_cons.mp hchain).1
      decide
    · obtain ⟨hab, hbc⟩ := List.isChain_cons_cons.mp hchain
      have h2 := (hedge hab).2
      have h1 := (hedge (List.isChain_cons_cons.mp hbc).1).1
      omega

end Cosmon.Graph.LongestPaths
