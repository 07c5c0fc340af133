import Cosmon.State.Retention
import Mathlib.Algebra.Ring.Int.Defs
import Mathlib.Data.UInt

namespace Cosmon.State.Retention

open Relation
open Cosmon.State.Molecule

def ParentOf (entries : List ArchiveEntry) (a b : String) : Prop := ∃ e ∈ entries, e.moleculeId = a ∧ b ∈ e.parents

def Remains (row : PlanRow) : Prop := row.fate ≠ .delete

def AncestorOfKept (entries : List ArchiveEntry) (p : Plan) (row : PlanRow) : Prop :=
  ∃ r ∈ p.rows, Remains r ∧ TransGen (ParentOf entries) r.entry.moleculeId row.entry.moleculeId

def KindKept (policy : RetentionConfig) (row : PlanRow) : Prop := ∃ k ∈ row.entry.kind, k ∈ keepKinds policy

def Old (policy : RetentionConfig) (now : Int) (row : PlanRow) : Prop :=
  0 < policy.maxAgeDays ∧ (policy.maxAgeDays.toNat : Int) < ageInDays now row.entry.archivedAt

def ParentsKept (p : Plan) (row : PlanRow) : Prop :=
  ∀ parent ∈ row.entry.parents, ∀ r ∈ p.rows, r.entry.moleculeId = parent → Remains r

def budgetBytes (policy : RetentionConfig) : Nat := policy.maxTotalMb.toNat * 1048576

def Budgeted (policy : RetentionConfig) : Prop := policy.keepAll = false ∧ 0 < policy.maxTotalMb.toNat

/-- The guarantees of a plan, row by row. -/
structure Guaranteed (entries : List ArchiveEntry) (policy : RetentionConfig) (now : Int) (p : Plan) : Prop where
  kinds : ∀ row ∈ p.rows, KindKept policy row → Remains row
  all : policy.keepAll = true → ∀ row ∈ p.rows, Remains row
  old : policy.keepAll = false → ∀ row ∈ p.rows, Old policy now row →
    row.fate = .delete ∨ KindKept policy row ∨ AncestorOfKept entries p row
  parents : ∀ row ∈ p.rows, Remains row → ParentsKept p row
  budget : Budgeted policy → p.bytesAfter ≤ budgetBytes policy ∨
    ∀ row ∈ p.rows, Remains row → KindKept policy row ∨ AncestorOfKept entries p row

def promotedBytes (p : Plan) : Nat :=
  totalBytes ((p.rows.filter fun r => r.fate = .keptByIntegrity).map PlanRow.entry)

def Once (entries : List ArchiveEntry) (id : String) : Prop := (entries.map ArchiveEntry.moleculeId).count id = 1

/-- What a plan guarantees of the ids that occur once. The closure comes after the budget, so the budget is for what
it did not bring back. -/
structure GuaranteedOnce (entries : List ArchiveEntry) (policy : RetentionConfig) (now : Int) (p : Plan) : Prop where
  kinds : ∀ row ∈ p.rows, Once entries row.entry.moleculeId → KindKept policy row → Remains row
  all : policy.keepAll = true → ∀ row ∈ p.rows, Remains row
  old : policy.keepAll = false → ∀ row ∈ p.rows, Once entries row.entry.moleculeId → Old policy now row →
    row.fate = .delete ∨ KindKept policy row ∨ AncestorOfKept entries p row
  parents : ∀ row ∈ p.rows, Once entries row.entry.moleculeId → Remains row → ParentsKept p row
  budget : (entries.map ArchiveEntry.moleculeId).Nodup → totalBytes entries < 2 ^ 64 → Budgeted policy →
    p.bytesAfter ≤ budgetBytes policy + promotedBytes p ∨
      ∀ row ∈ p.rows, Remains row → KindKept policy row ∨ AncestorOfKept entries p row

theorem Once.eq {entries : List ArchiveEntry} {e e' : ArchiveEntry} (h : Once entries e.moleculeId)
    (he : e ∈ entries) (he' : e' ∈ entries) (hid : e'.moleculeId = e.moleculeId) : e' = e := by
  unfold Once at h
  rw [List.count, List.countP_map, List.countP_eq_length_filter, List.length_eq_one_iff] at h
  obtain ⟨x, hx⟩ := h
  have hmem : ∀ y ∈ entries, y.moleculeId = e.moleculeId → y = x := by
    intro y hy hyid
    rw [← List.mem_singleton, ← hx, List.mem_filter]
    exact ⟨hy, by simp [hyid]⟩
  rw [hmem e' he' hid, hmem e he rfl]

theorem once_of_nodup {entries : List ArchiveEntry} (h : (entries.map ArchiveEntry.moleculeId).Nodup)
    {e : ArchiveEntry} (he : e ∈ entries) : Once entries e.moleculeId :=
  List.count_eq_one_of_mem h (List.mem_map_of_mem he)

section Rows

variable {entries : List ArchiveEntry} {status : Status}

theorem planRows_entries (entries : List ArchiveEntry) (status : Status) :
    (planRows entries status).map PlanRow.entry = entries := by
  induction entries generalizing status with
  | nil => rfl
  | cons e rest ih => rw [planRows, List.map_cons, ih]

theorem exists_row {e : ArchiveEntry} (he : e ∈ entries) : ∃ row ∈ planRows entries status, row.entry = e := by
  rw [← planRows_entries entries status] at he
  exact List.mem_map.mp he

theorem row_entry {row : PlanRow} (h : row ∈ planRows entries status) : row.entry ∈ entries := by
  have hmem := List.mem_map_of_mem (f := PlanRow.entry) h
  rwa [planRows_entries] at hmem

theorem row_fate {row : PlanRow} (h : row ∈ planRows entries status) :
    row.fate = .keptByPolicy ∨ fateOf status row.entry.moleculeId = some row.fate := by
  induction entries generalizing status with
  | nil => exact absurd h List.not_mem_nil
  | cons e rest ih =>
    rcases List.mem_cons.mp h with rfl | h
    · unfold fateOf
      cases status e.moleculeId with
      | none => exact Or.inl rfl
      | some d => exact Or.inr rfl
    · refine (ih h).imp_right fun hfate => ?_
      unfold fateOf at hfate ⊢
      rw [Function.update_apply] at hfate
      split at hfate
      · cases hfate
      · exact hfate

theorem row_remains {row : PlanRow} (h : row ∈ planRows entries status)
    (hfate : fateOf status row.entry.moleculeId ≠ some .delete) : Remains row := by
  rcases row_fate h with hkept | hsome
  · rw [Remains, hkept]
    decide
  · rw [hsome] at hfate
    exact fun hdelete => hfate (congrArg some hdelete)

theorem once_row_fate {row : PlanRow} (h : row ∈ planRows entries status)
    (honce : Once entries row.entry.moleculeId) (hsome : (fateOf status row.entry.moleculeId).isSome) :
    fateOf status row.entry.moleculeId = some row.fate := by
  induction entries generalizing status with
  | nil => exact absurd h List.not_mem_nil
  | cons e rest ih =>
    rcases List.mem_cons.mp h with rfl | h
    · unfold fateOf at hsome ⊢
      cases hd : status e.moleculeId with
      | none =>
        rw [hd] at hsome
        cases hsome
      | some d => rfl
    · have hrest : row.entry.moleculeId ∈ rest.map ArchiveEntry.moleculeId := List.mem_map_of_mem (row_entry h)
      have hpos := List.count_pos_iff.mpr hrest
      unfold Once at honce
      rw [List.map_cons, List.count_cons] at honce
      have hne : row.entry.moleculeId ≠ e.moleculeId := by
        rintro heq
        rw [heq, beq_self_eq_true, if_pos rfl] at honce
        rw [heq] at hpos
        omega
      have hsame : fateOf (Function.update status e.moleculeId none) row.entry.moleculeId =
          fateOf status row.entry.moleculeId := by
        unfold fateOf
        rw [Function.update_of_ne hne]
      have honce' : Once rest row.entry.moleculeId := by
        unfold Once
        split at honce
        · omega
        · exact honce
      rw [← hsame] at hsome ⊢
      exact ih h honce' hsome

end Rows

section Swept

variable {formatMib : Nat → String} {entries : List ArchiveEntry} {policy : RetentionConfig} {now : Int}

theorem swept_fate (id : String) :
    fateOf (swept formatMib entries policy now) id = fateOf (classifyByAge policy (keepKinds policy) now entries) id ∨
      (fateOf (swept formatMib entries policy now) id = some .delete ∧ policy.keepAll = false ∧
        ∃ e ∈ entries, e.moleculeId = id ∧ kindKept (keepKinds policy) e = false) := by
  unfold swept applySizeBudget
  split
  · exact Or.inl rfl
  · rename_i hall
    split
    · exact Or.inl rfl
    · refine (evict_fate _ _ _ id).imp_right fun h => ?_
      exact ⟨h.1, Bool.eq_false_iff.mpr hall, h.2.2⟩

theorem swept_decided : Decided entries (swept formatMib entries policy now) := by
  have hdecided := decided_classified policy (keepKinds policy) now entries
  unfold swept applySizeBudget
  split
  · exact hdecided
  · split
    · exact hdecided
    · exact evict_decided hdecided _ _

theorem swept_keepAll (h : policy.keepAll = true) {e : ArchiveEntry} (he : e ∈ entries) :
    fateOf (swept formatMib entries policy now) e.moleculeId = some .keptByPolicy := by
  rcases @swept_fate formatMib entries policy now e.moleculeId
    with hsame | ⟨-, hnot, -⟩
  · obtain ⟨e', -, -, hfate⟩ := @classified policy (keepKinds policy) now _ _ he
    rw [hsame, hfate, classify_cases, h, if_neg fun hall => Bool.noConfusion hall.1]
  · rw [h] at hnot
    cases hnot

theorem swept_once {e : ArchiveEntry} (he : e ∈ entries) (honce : Once entries e.moleculeId) :
    (kindKept (keepKinds policy) e = true →
      fateOf (swept formatMib entries policy now) e.moleculeId = some .keptByPolicy) ∧
    (policy.keepAll = false → kindKept (keepKinds policy) e = false → tooOld policy now e = true →
      fateOf (swept formatMib entries policy now) e.moleculeId = some .delete) := by
  obtain ⟨e', he', hid, hfate⟩ := @classified policy (keepKinds policy) now _ _ he
  obtain rfl := honce.eq he he' hid
  rw [classify_cases] at hfate
  rcases @swept_fate formatMib entries policy now e'.moleculeId
    with hsame | ⟨hdelete, -, x, hx, hxid, hkind⟩
  · rw [hsame, hfate]
    constructor
    · intro hkept
      rw [hkept, if_neg fun hall => Bool.noConfusion hall.2.1]
    · intro hall hkind hold
      rw [if_pos ⟨hall, hkind, hold⟩]
  · obtain rfl := honce.eq he hx hxid
    refine ⟨fun hkept => ?_, fun _ _ _ => hdelete⟩
    rw [hkind] at hkept
    cases hkept

theorem swept_within (hids : (entries.map ArchiveEntry.moleculeId).Nodup) (hfits : totalBytes entries < 2 ^ 64)
    (hbudget : Budgeted policy) :
    totalBytes (live (swept formatMib entries policy now) entries) ≤ budgetBytes policy ∨
      ∀ e ∈ entries, kindKept (keepKinds policy) e = true ∨
        fateOf (swept formatMib entries policy now) e.moleculeId = some .delete := by
  obtain ⟨hall, hpos⟩ := hbudget
  have hmax : maxBytes policy ≠ 0 := by
    unfold maxBytes
    omega
  have hle : maxBytes policy ≤ budgetBytes policy := Nat.min_le_left _ _
  have hdecided := decided_classified policy (keepKinds policy) now entries
  have hsum : sumBytes (live (classifyByAge policy (keepKinds policy) now entries) entries) =
      totalBytes (live (classifyByAge policy (keepKinds policy) now entries) entries) :=
    Nat.mod_eq_of_lt ((totalBytes_live_le _ _).trans_lt hfits)
  unfold swept applySizeBudget
  rw [hall, if_neg Bool.false_ne_true, if_neg hmax, hsum]
  exact (evict_within hids (fun _ h => h) hdecided).imp_left hle.trans'

end Swept

section Kept

variable {entries : List ArchiveEntry} {status : Status} {c : Closure}
  (h : Closed (idIndex entries) status (keptIds entries status).toFinset c)

include h

theorem fate_remains (id : String) :
    fateOf c.status id ≠ some .delete ↔ id ∈ c.kept.visited ∨ fateOf status id ≠ some .delete := by
  rw [h.fated id]
  split
  · rename_i hin
    exact ⟨fun _ => Or.inl hin.1, fun _ => by decide⟩
  · rename_i hout
    rw [not_and] at hout
    exact ⟨Or.inr, fun hor hdelete => hor.elim (fun hin => hout hin hdelete) (fun hkept => hkept hdelete)⟩

theorem remains_visited {id : String} (hid : id ∈ entries.map ArchiveEntry.moleculeId)
    (hfate : fateOf c.status id ≠ some .delete) : id ∈ c.kept.visited := by
  rcases (fate_remains h id).mp hfate with hin | hkept
  · exact hin
  · exact h.kept (List.mem_toFinset.mpr (mem_keptIds.mpr ⟨hid, hkept⟩))

theorem parents_remain {row : PlanRow} (hrow : row ∈ planRows entries c.status)
    (honce : Once entries row.entry.moleculeId) (hfate : fateOf c.status row.entry.moleculeId ≠ some .delete) :
    ∀ parent ∈ row.entry.parents, ∀ r ∈ planRows entries c.status, r.entry.moleculeId = parent → Remains r := by
  rintro _ hparent r hr rfl
  have hentry := row_entry hrow
  have hvisited := remains_visited h (List.mem_map_of_mem hentry) hfate
  have hnext : r.entry.moleculeId ∈ inArchive (idIndex entries) row.entry.moleculeId := by
    obtain ⟨e, he⟩ := Option.isSome_iff_exists.mp (idIndex_isSome.mpr (List.mem_map_of_mem hentry))
    obtain ⟨hmem, hid⟩ := idIndex_some he
    obtain rfl := honce.eq hentry hmem hid
    unfold inArchive
    rw [he]
    exact List.mem_filter.mpr ⟨hparent, idIndex_isSome.mpr (List.mem_map_of_mem (row_entry hr))⟩
  exact row_remains hr ((fate_remains h _).mpr (Or.inl (h.closed _ hvisited _ hnext)))

theorem reached_ancestor {id : String} (hin : id ∈ c.kept.visited) (hdelete : fateOf status id = some .delete) :
    ∃ r ∈ planRows entries c.status, Remains r ∧ TransGen (ParentOf entries) r.entry.moleculeId id := by
  obtain ⟨a, ha, hreach⟩ := h.reached id hin
  obtain ⟨hmem, hkept⟩ := mem_keptIds.mp (List.mem_toFinset.mp ha)
  obtain ⟨e, he, rfl⟩ := List.mem_map.mp hmem
  obtain ⟨r, hr, rfl⟩ := @exists_row _ c.status _ he
  refine ⟨r, hr, row_remains hr ((fate_remains h _).mpr (Or.inr hkept)), ?_⟩
  rcases reflTransGen_iff_eq_or_transGen.mp hreach with heq | htrans
  · exact absurd hdelete (heq ▸ hkept)
  · exact TransGen.mono (fun _ _ hstep => (inArchive_mem hstep).2) _ _ htrans

theorem policy_rows (hids : (entries.map ArchiveEntry.moleculeId).Nodup) (hdecided : Decided entries status) :
    ((planRows entries c.status).filter fun r => r.fate = .keptByPolicy).map PlanRow.entry = live status entries := by
  have hpolicy : ∀ row ∈ planRows entries c.status,
      (row.fate = .keptByPolicy ↔ fateOf status row.entry.moleculeId ≠ some .delete) := by
    intro row hrow
    have hentry := row_entry hrow
    have hfated := h.fated row.entry.moleculeId
    have hor := hdecided row.entry hentry
    have hsome : (fateOf c.status row.entry.moleculeId).isSome := by
      rw [hfated]
      split
      · rfl
      · rcases hor with hkept | hdelete
        · rw [hkept]
          rfl
        · rw [hdelete]
          rfl
    rw [once_row_fate hrow (once_of_nodup hids hentry) hsome] at hfated
    rcases hor with hkept | hdelete
    · rw [hkept, if_neg fun hall => by cases hall.2] at hfated
      rw [hkept, Option.some.inj hfated]
      decide
    · rw [hdelete] at hfated ⊢
      split at hfated
      · rw [Option.some.inj hfated]
        decide
      · rw [Option.some.inj hfated]
        decide
  calc ((planRows entries c.status).filter fun r => r.fate = .keptByPolicy).map PlanRow.entry
      = ((planRows entries c.status).filter fun r => fateOf status r.entry.moleculeId ≠ some .delete).map
          PlanRow.entry := by
        rw [List.filter_congr fun row hrow => decide_eq_decide.mpr (hpolicy row hrow)]
    _ = live status ((planRows entries c.status).map PlanRow.entry) := by
        unfold live
        rw [List.filter_map]
        rfl
    _ = live status entries := by rw [planRows_entries]

end Kept

theorem totalBytes_fates (rows : List PlanRow) :
    totalBytes ((rows.filter fun r => r.fate ≠ .delete).map PlanRow.entry) =
      totalBytes ((rows.filter fun r => r.fate = .keptByPolicy).map PlanRow.entry) +
        totalBytes ((rows.filter fun r => r.fate = .keptByIntegrity).map PlanRow.entry) := by
  induction rows with
  | nil => rfl
  | cons row rows ih =>
    rw [List.filter_cons, List.filter_cons, List.filter_cons]
    cases hfate : row.fate with
    | delete => exact ih
    | keptByPolicy =>
      simp only [totalBytes, List.map_cons, List.sum_cons, ne_eq, reduceCtorEq, not_false_eq_true, decide_true,
        decide_false, if_true, Bool.false_eq_true, if_false] at ih ⊢
      omega
    | keptByIntegrity =>
      simp only [totalBytes, List.map_cons, List.sum_cons, ne_eq, reduceCtorEq, not_false_eq_true, decide_true,
        decide_false, if_true, Bool.false_eq_true, if_false] at ih ⊢
      omega

theorem kindKept_iff {policy : RetentionConfig} {row : PlanRow} :
    kindKept (keepKinds policy) row.entry = true ↔ KindKept policy row := by
  unfold kindKept KindKept
  rw [Option.any_eq_true]
  simp only [decide_eq_true_eq, Option.mem_def]

section Plans

variable {formatMib : Nat → String} {order : List String → List String} (horder : ∀ l, (order l).Perm l)
  {entries : List ArchiveEntry} {policy : RetentionConfig} {now : Int}

include horder

theorem plan_old (hall : policy.keepAll = false) {row : PlanRow}
    (hrow : row ∈ (plan formatMib order entries policy now).rows) (honce : Once entries row.entry.moleculeId)
    (hold : Old policy now row) :
    row.fate = .delete ∨ KindKept policy row ∨
      AncestorOfKept entries (plan formatMib order entries policy now) row := by
  have hclosed := applyIntegrityClosure_closed horder entries (swept formatMib entries policy now)
  by_cases hkind : kindKept (keepKinds policy) row.entry = true
  · exact Or.inr (Or.inl (kindKept_iff.mp hkind))
  · have htooOld : tooOld policy now row.entry = true := by
      unfold tooOld
      rw [Bool.and_eq_true, decide_eq_true_eq, decide_eq_true_eq]
      exact hold
    have hdelete := (@swept_once formatMib _ _ _ _ (row_entry hrow) honce).2 hall
      (Bool.eq_false_iff.mpr hkind) htooOld
    have hfated := hclosed.fated row.entry.moleculeId
    split at hfated
    · rename_i hin
      exact Or.inr (Or.inr (reached_ancestor hclosed hin.1 hdelete))
    · left
      rw [hdelete] at hfated
      rw [once_row_fate hrow honce (by rw [hfated]; rfl)] at hfated
      exact Option.some.inj hfated

theorem plan_budget (hids : (entries.map ArchiveEntry.moleculeId).Nodup) (hfits : totalBytes entries < 2 ^ 64)
    (hbudget : Budgeted policy) :
    (plan formatMib order entries policy now).bytesAfter ≤
        budgetBytes policy + promotedBytes (plan formatMib order entries policy now) ∨
      ∀ row ∈ (plan formatMib order entries policy now).rows, Remains row →
        KindKept policy row ∨ AncestorOfKept entries (plan formatMib order entries policy now) row := by
  have hclosed := applyIntegrityClosure_closed horder entries (swept formatMib entries policy now)
  have hrows := policy_rows hclosed hids (@swept_decided formatMib _ _ _)
  refine (@swept_within formatMib _ _ now hids hfits hbudget).imp (fun hwithin => ?_) fun hleft => ?_
  · have hsum := totalBytes_fates (plan formatMib order entries policy now).rows
    have hafter : (plan formatMib order entries policy now).bytesAfter ≤
        totalBytes (((plan formatMib order entries policy now).rows.filter fun r => r.fate ≠ .delete).map
          PlanRow.entry) := Nat.mod_le _ _
    rw [← hrows] at hwithin
    exact hafter.trans (hsum.trans_le (Nat.add_le_add_right hwithin _))
  · intro row hrow hremains
    have hentry := row_entry hrow
    rcases hleft row.entry hentry with hkind | hdelete
    · exact Or.inl (kindKept_iff.mp hkind)
    · right
      have hfated := hclosed.fated row.entry.moleculeId
      split at hfated
      · rename_i hin
        exact reached_ancestor hclosed hin.1 hdelete
      · rw [hdelete] at hfated
        rw [once_row_fate hrow (once_of_nodup hids hentry) (by rw [hfated]; rfl)] at hfated
        exact absurd (Option.some.inj hfated) hremains

theorem plan_guaranteed : GuaranteedOnce entries policy now (plan formatMib order entries policy now) := by
  have hclosed := applyIntegrityClosure_closed horder entries (swept formatMib entries policy now)
  constructor
  case kinds =>
    intro row hrow honce hkind
    have hkept := (@swept_once formatMib _ _ now _ (row_entry hrow) honce).1 (kindKept_iff.mpr hkind)
    refine row_remains hrow ((fate_remains hclosed _).mpr (Or.inr ?_))
    rw [hkept]
    decide
  case all =>
    intro hall row hrow
    refine row_remains hrow ((fate_remains hclosed _).mpr (Or.inr ?_))
    rw [swept_keepAll hall (row_entry hrow)]
    decide
  case old => exact fun hall row hrow honce hold => plan_old horder hall hrow honce hold
  case parents =>
    intro row hrow honce hremains
    apply parents_remain hclosed hrow honce
    intro hdelete
    have hfate := once_row_fate hrow honce (by rw [hdelete]; rfl)
    rw [hdelete] at hfate
    exact hremains (Option.some.inj hfate).symm
  case budget => exact plan_budget horder

end Plans

section Examples

def archived (path id : String) (month : Nat) (sizeBytes : UInt64) (kind : Option MoleculeKind)
    (parents : List String) : ArchiveEntry where
  path := path
  moleculeId := id
  year := 2029
  month := month
  sizeBytes := sizeBytes
  archivedAt := 30 * 86400 * 10 ^ 9 * month
  kind := kind
  parents := parents

def mib : UInt64 := 1048576

def childAndParent : List ArchiveEntry :=
  [archived "2029/01/task-a" "task-a" 1 (2 * mib) none [],
    archived "2029/02/task-b" "task-b" 2 (2 * mib) none ["task-a"]]

def archivedTwice : List ArchiveEntry :=
  [archived "2029/01/task-a" "task-a" 1 mib (some .decision) [], archived "2029/02/task-a" "task-a" 2 mib none []]

def sparse : List ArchiveEntry :=
  [archived "2029/01/task-a" "task-a" 1 (2 ^ 63) none [], archived "2029/02/task-b" "task-b" 2 (2 ^ 63) none [],
    archived "2029/03/task-c" "task-c" 3 (2 * mib) none []]

def policyOf (maxAgeDays : UInt32) (maxTotalMb : UInt64) : RetentionConfig where
  keepAll := false
  maxAgeDays := maxAgeDays
  maxTotalMb := maxTotalMb
  keepKinds := ["decision"]

def planOf (entries : List ArchiveEntry) (policy : RetentionConfig) : Plan :=
  plan (fun _ => "") (fun l => l) entries policy (30 * 86400 * 10 ^ 9 * 12)

/-- The parent evicted for the budget is brought back by the closure. -/
theorem plan_guaranteed_child :
    (planOf childAndParent (policyOf 0 3)).rows.map PlanRow.fate = [.keptByIntegrity, .keptByPolicy] ∧
      (planOf childAndParent (policyOf 0 3)).bytesAfter = 4194304 ∧
      GuaranteedOnce childAndParent (policyOf 0 3) (30 * 86400 * 10 ^ 9 * 12) (planOf childAndParent (policyOf 0 3)) :=
  ⟨by decide +kernel, by decide +kernel, plan_guaranteed fun l => List.Perm.refl l⟩

theorem not_ancestor {entries : List ArchiveEntry} {p : Plan} {row : PlanRow}
    (h : ∀ e ∈ entries, row.entry.moleculeId ∉ e.parents) : ¬ AncestorOfKept entries p row := by
  rintro ⟨r, -, -, htrans⟩
  obtain ⟨b, -, e, he, -, hparent⟩ := TransGen.tail'_iff.mp htrans
  exact h e he hparent

theorem not_guaranteed_budget {entries : List ArchiveEntry} {policy : RetentionConfig} {now : Int} {p : Plan}
    (hbudget : policy.keepAll = false ∧ 0 < policy.maxTotalMb.toNat) (hbytes : budgetBytes policy < p.bytesAfter)
    (hrow : ∃ row ∈ p.rows, row.fate ≠ .delete ∧ kindKept (keepKinds policy) row.entry = false ∧
      ∀ e ∈ entries, row.entry.moleculeId ∉ e.parents) :
    ¬ Guaranteed entries policy now p := by
  obtain ⟨row, hrow, hfate, hkind, hparent⟩ := hrow
  intro h
  rcases h.budget hbudget with hwithin | hall
  · omega
  · rcases hall row hrow hfate with hkept | hancestor
    · rw [kindKept_iff.mpr hkept] at hkind
      cases hkind
    · exact not_ancestor hparent hancestor

theorem not_guaranteed_kinds {entries : List ArchiveEntry} {policy : RetentionConfig} {now : Int} {p : Plan}
    (hrow : ∃ row ∈ p.rows, row.fate = .delete ∧ kindKept (keepKinds policy) row.entry = true) :
    ¬ Guaranteed entries policy now p := by
  obtain ⟨row, hrow, hfate, hkind⟩ := hrow
  exact fun h => h.kinds row hrow (kindKept_iff.mp hkind) hfate

/-- The closure brings a parent back over the budget. An id in two months takes its last fate, whatever its kinds are,
and sizes that wrap hide the rest. -/
theorem plan_overruns :
    ¬ Guaranteed childAndParent (policyOf 0 3) (30 * 86400 * 10 ^ 9 * 12) (planOf childAndParent (policyOf 0 3)) ∧
      ¬ Guaranteed archivedTwice (policyOf 30 0) (30 * 86400 * 10 ^ 9 * 12) (planOf archivedTwice (policyOf 30 0)) ∧
      ¬ Guaranteed sparse (policyOf 0 1) (30 * 86400 * 10 ^ 9 * 12) (planOf sparse (policyOf 0 1)) := by
  refine ⟨?_, ?_, ?_⟩
  · exact not_guaranteed_budget (by decide) (by decide +kernel) (by decide +kernel)
  · exact not_guaranteed_kinds (by decide +kernel)
  · exact not_guaranteed_budget (by decide) (by decide +kernel) (by decide +kernel)

end Examples

end Cosmon.State.Retention
