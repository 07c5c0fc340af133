import Cosmon.Graph.Toposort

namespace Cosmon.Graph.CriticalPath

open Cosmon.Graph.Toposort

variable {N : Type} [LinearOrder N]

/-- The tables of the longest-path program. A node that has not been visited
scores `0` and has no parent. -/
structure Tables (N : Type) where
  dp : N → Nat
  parent : N → Option N

/-- One predecessor of the node being scored. A tie goes to the smaller
parent, once there is a parent at all. -/
def relax (dp : N → Nat) (w : Nat) (best : Nat × Option N) (pred : N) : Nat × Option N :=
  let candidate := dp pred + w
  if best.1 < candidate then (candidate, some pred)
  else if candidate = best.1 ∧ best.2.any (fun cur => pred < cur) then (best.1, some pred)
  else best

def predsOf (edges : List (N × N)) (node : N) : List N :=
  (edges.filter (fun e => e.2 = node)).map Prod.fst

def score (edges : List (N × N)) (weight : N → Nat) (t : Tables N) (node : N) : Tables N :=
  let w := weight node
  let best := (predsOf edges node).foldl (relax t.dp w) (w, none)
  { dp := Function.update t.dp node best.1, parent := Function.update t.parent node best.2 }

def tables (edges : List (N × N)) (weight : N → Nat) (order : List N) : Tables N :=
  order.foldl (score edges weight) { dp := fun _ => 0, parent := fun _ => none }

/-- The node of highest score; on a tie the smaller node. -/
def sink (dp : N → Nat) : List N → Option N
  | [] => none
  | a :: rest => some (rest.foldl
      (fun best b => if dp best < dp b ∨ dp best = dp b ∧ b ≤ best then b else best) a)

def reconstruct (parent : N → Option N) : Nat → Option N → List N → List N
  | 0, _, path => path
  | _, none, path => path
  | fuel + 1, some node, path => reconstruct parent fuel (parent node) (node :: path)

/-- The heaviest chain of the DAG. A path has no more nodes than the
topological order, which bounds the reconstruction (`reconstruct_order`). -/
def criticalPathWeighted (edges : List (N × N)) (weight : N → Nat) :
    Except (CycleError N) (List N) :=
  match toposort edges with
  | .error e => .error e
  | .ok order =>
    let t := tables edges weight order
    .ok (reconstruct t.parent order.length (sink t.dp order) [])

theorem mem_predsOf {edges : List (N × N)} {node p : N} :
    p ∈ predsOf edges node ↔ (p, node) ∈ edges := by
  simp [predsOf]

theorem sink_mem (dp : N → Nat) {order : List N} {n : N} (h : sink dp order = some n) :
    n ∈ order := by
  cases order with
  | nil => cases h
  | cons a rest =>
    cases h
    induction rest generalizing a with
    | nil => exact List.mem_singleton.mpr rfl
    | cons b rest ih =>
      rw [List.foldl_cons]
      split
      · exact List.mem_cons_of_mem _ (ih b)
      · cases List.mem_cons.mp (ih a) with
        | inl h => rw [h]; exact List.mem_cons_self
        | inr h => exact List.mem_cons_of_mem _ (List.mem_cons_of_mem _ h)

example : criticalPathWeighted [(1, 2), (1, 3), (2, 4), (3, 4)] (fun _ => 1) = .ok [1, 2, 4] := by
  decide

end Cosmon.Graph.CriticalPath
