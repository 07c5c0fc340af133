import Cosmon.Core.Nucleation
import Cosmon.Lib.BreadthFirst
import Mathlib.Algebra.Ring.Nat

namespace Cosmon.State.Retention

open Relation
open Cosmon.Lib Cosmon.Lib.BreadthFirst Cosmon.State.Molecule Cosmon.Core.Nucleation

structure ArchiveEntry where
  path : String
  moleculeId : String
  year : Int
  month : Nat
  sizeBytes : UInt64
  /-- In nanoseconds. -/
  archivedAt : Int
  kind : Option MoleculeKind
  parents : List MoleculeId

inductive Fate where
  | keptByPolicy
  | keptByIntegrity
  | delete
deriving DecidableEq

structure PlanRow where
  entry : ArchiveEntry
  fate : Fate
  reason : String

structure Plan where
  rows : List PlanRow
  bytesBefore : Nat
  bytesAfter : Nat
  kept : Nat
  promoted : Nat
  deletions : Nat

structure RetentionConfig where
  keepAll : Bool
  maxAgeDays : UInt32
  maxTotalMb : UInt64
  keepKinds : List String

abbrev Status := String → Option (Fate × String)

def fateOf (status : Status) (id : String) : Option Fate := (status id).map Prod.fst

def totalBytes (entries : List ArchiveEntry) : Nat := (entries.map fun e => e.sizeBytes.toNat).sum

/-- A sum in 64 bits, which wraps. -/
def sumBytes (entries : List ArchiveEntry) : Nat := totalBytes entries % 2 ^ 64

def keepKinds (policy : RetentionConfig) : List MoleculeKind :=
  policy.keepKinds.filterMap fun s => (parseKind s).toOption

/-- Whole days towards zero, of instants in nanoseconds. -/
def ageInDays (now archivedAt : Int) : Int := (now - archivedAt).tdiv 86400000000000

def maxBytes (policy : RetentionConfig) : Nat := min (policy.maxTotalMb.toNat * (1024 * 1024)) (2 ^ 64 - 1)

def kindKept (kinds : List MoleculeKind) (e : ArchiveEntry) : Bool := e.kind.any (· ∈ kinds)

def tooOld (policy : RetentionConfig) (now : Int) (e : ArchiveEntry) : Bool :=
  0 < policy.maxAgeDays && (policy.maxAgeDays.toNat : Int) < ageInDays now e.archivedAt

def classify (policy : RetentionConfig) (kinds : List MoleculeKind) (now : Int) (e : ArchiveEntry) : Fate × String :=
  if policy.keepAll then (.keptByPolicy, "keep_all = true")
  else
    match e.kind.filter (· ∈ kinds) with
    | some k => (.keptByPolicy, "kind `" ++ k.asStr ++ "` listed in keep_kinds")
    | none =>
      if tooOld policy now e then
        (.delete, s!"older than max_age_days ({ageInDays now e.archivedAt} > {policy.maxAgeDays})")
      else (.keptByPolicy, "within retention window")

/-- First pass. The last entry of an id decides. -/
def classifyByAge (policy : RetentionConfig) (kinds : List MoleculeKind) (now : Int) (entries : List ArchiveEntry) :
    Status :=
  entries.foldl (fun status e => Function.update status e.moleculeId (some (classify policy kinds now e)))
    fun _ => none

def evict (kinds : List MoleculeKind) (budget : Nat) (reason : String) : List ArchiveEntry → Nat → Status → Status
  | [], _, status => status
  | e :: rest, running, status =>
    if running ≤ budget then status
    else if fateOf status e.moleculeId = some .keptByPolicy ∧ ¬ kindKept kinds e then
      evict kinds budget reason rest (running - e.sizeBytes.toNat)
        (Function.update status e.moleculeId (some (.delete, reason)))
    else evict kinds budget reason rest running status

def live (status : Status) (entries : List ArchiveEntry) : List ArchiveEntry :=
  entries.filter fun e => fateOf status e.moleculeId ≠ some .delete

def applySizeBudget (formatMib : Nat → String) (policy : RetentionConfig) (kinds : List MoleculeKind)
    (entries : List ArchiveEntry) (status : Status) : Status :=
  if policy.keepAll then status
  else if maxBytes policy = 0 then status
  else
    evict kinds (maxBytes policy)
      ("archive total " ++ formatMib (sumBytes entries) ++ s!" > max_total_mb ({policy.maxTotalMb} MiB)") entries
      (sumBytes (live status entries)) status

def idIndex (entries : List ArchiveEntry) (id : String) : Option ArchiveEntry :=
  Keyed.get ArchiveEntry.moleculeId id entries.reverse

/-- The closure: the kept ids with the queue, the fates so far, the ids promoted. -/
structure Closure where
  kept : Search String
  status : Status
  promoted : Finset String

def promote (id parent : String) (c : Closure) : Closure :=
  if fateOf c.status parent = some .delete then
    { c with
      promoted := insert parent c.promoted
      status := Function.update c.status parent
        (some (.keptByIntegrity, "referenced as parent by kept molecule `" ++ id ++ "`")) }
  else c

def reach (index : String → Option ArchiveEntry) (id : String) (c : Closure) (parent : String) : Closure :=
  if (index parent).isNone ∨ parent ∈ c.kept.visited then c
  else { promote id parent c with kept := c.kept.visit parent }

def closeKept (index : String → Option ArchiveEntry) : Nat → Closure → Closure
  | 0, c => c
  | fuel + 1, c =>
    match c.kept.queue with
    | [] => c
    | id :: rest =>
      match index id with
      | none => closeKept index fuel { c with kept := ⟨c.kept.visited, rest⟩ }
      | some e =>
        closeKept index fuel (e.parents.foldl (reach index id) { c with kept := ⟨c.kept.visited, rest⟩ })

def keptIds (entries : List ArchiveEntry) (status : Status) : List String :=
  (entries.map ArchiveEntry.moleculeId).dedup.filter fun id => fateOf status id ≠ some .delete

/-- Third pass. The kept ids are queued in the order in which a hash set lists them. -/
def applyIntegrityClosure (order : List String → List String) (entries : List ArchiveEntry) (status : Status) :
    Closure :=
  closeKept (idIndex entries) entries.length
    ⟨⟨(keptIds entries status).toFinset, order (keptIds entries status)⟩, status, ∅⟩

def planRows : List ArchiveEntry → Status → List PlanRow
  | [], _ => []
  | e :: rest, status =>
    ⟨e, ((status e.moleculeId).getD (.keptByPolicy, "uncategorized")).1,
      ((status e.moleculeId).getD (.keptByPolicy, "uncategorized")).2⟩ ::
      planRows rest (Function.update status e.moleculeId none)

def swept (formatMib : Nat → String) (entries : List ArchiveEntry) (policy : RetentionConfig) (now : Int) : Status :=
  applySizeBudget formatMib policy (keepKinds policy) entries (classifyByAge policy (keepKinds policy) now entries)

def plan (formatMib : Nat → String) (order : List String → List String) (entries : List ArchiveEntry)
    (policy : RetentionConfig) (now : Int) : Plan :=
  let closure := applyIntegrityClosure order entries (swept formatMib entries policy now)
  let rows := planRows entries closure.status
  let live := rows.filter fun r => r.fate ≠ .delete
  { rows := rows
    bytesBefore := sumBytes entries
    bytesAfter := sumBytes (live.map PlanRow.entry)
    kept := live.length
    promoted := closure.promoted.card
    deletions := rows.length - live.length }

section Statuses

variable {status : Status}

theorem fateOf_update (status : Status) (id other : String) (d : Fate × String) :
    fateOf (Function.update status id (some d)) other = if other = id then some d.1 else fateOf status other := by
  unfold fateOf
  rw [Function.update_apply]
  split
  · rfl
  · rfl

theorem classify_cases (policy : RetentionConfig) (kinds : List MoleculeKind) (now : Int) (e : ArchiveEntry) :
    (classify policy kinds now e).1 =
      if policy.keepAll = false ∧ kindKept kinds e = false ∧ tooOld policy now e = true then .delete
      else .keptByPolicy := by
  unfold classify kindKept
  cases policy.keepAll with
  | true => rfl
  | false =>
    cases hkind : e.kind with
    | none => cases tooOld policy now e <;> rfl
    | some k =>
      by_cases hk : k ∈ kinds
      · have hfilter : Option.filter (· ∈ kinds) (some k) = some k := by simp [Option.filter, hk]
        rw [hfilter]
        simp [hk]
      · have hfilter : Option.filter (· ∈ kinds) (some k) = none := by simp [Option.filter, hk]
        rw [hfilter]
        cases tooOld policy now e <;> simp [hk]

theorem classified {policy : RetentionConfig} {kinds : List MoleculeKind} {now : Int} {entries : List ArchiveEntry}
    {e : ArchiveEntry} (he : e ∈ entries) :
    ∃ e' ∈ entries, e'.moleculeId = e.moleculeId ∧
      fateOf (classifyByAge policy kinds now entries) e.moleculeId = some (classify policy kinds now e').1 := by
  induction entries using List.reverseRecOn with
  | nil => exact absurd he List.not_mem_nil
  | append_singleton entries x ih =>
    have hstep : classifyByAge policy kinds now (entries ++ [x]) =
        Function.update (classifyByAge policy kinds now entries) x.moleculeId (some (classify policy kinds now x)) := by
      rw [classifyByAge, List.foldl_append]
      rfl
    rw [hstep, fateOf_update]
    by_cases hid : e.moleculeId = x.moleculeId
    · rw [if_pos hid]
      exact ⟨x, List.mem_append_right _ (List.mem_singleton_self x), hid.symm, rfl⟩
    · rw [if_neg hid]
      have hold : e ∈ entries := by
        rcases List.mem_append.mp he with h | h
        · exact h
        · rw [List.mem_singleton] at h
          exact absurd (congrArg ArchiveEntry.moleculeId h) hid
      obtain ⟨e', he', heq, hfate⟩ := ih hold
      exact ⟨e', List.mem_append_left _ he', heq, hfate⟩

/-- Before the closure an entry is kept by the policy or to be deleted. -/
def Decided (entries : List ArchiveEntry) (status : Status) : Prop :=
  ∀ e ∈ entries, fateOf status e.moleculeId = some .keptByPolicy ∨ fateOf status e.moleculeId = some .delete

theorem decided_classified (policy : RetentionConfig) (kinds : List MoleculeKind) (now : Int)
    (entries : List ArchiveEntry) : Decided entries (classifyByAge policy kinds now entries) := by
  intro e he
  obtain ⟨e', -, -, hfate⟩ := @classified policy kinds now _ _ he
  rw [hfate, classify_cases]
  split
  · exact Or.inr rfl
  · exact Or.inl rfl

end Statuses

section Budget

variable {kinds : List MoleculeKind} {budget : Nat} {reason : String} {status : Status}

theorem evict_fate (rest : List ArchiveEntry) (running : Nat) (status : Status) (id : String) :
    fateOf (evict kinds budget reason rest running status) id = fateOf status id ∨
      (fateOf (evict kinds budget reason rest running status) id = some .delete ∧
        fateOf status id = some .keptByPolicy ∧ ∃ e ∈ rest, e.moleculeId = id ∧ kindKept kinds e = false) := by
  induction rest generalizing running status with
  | nil => exact Or.inl rfl
  | cons e rest ih =>
    rw [evict]
    split
    · exact Or.inl rfl
    · split
      · rename_i hfate
        have hself : fateOf (Function.update status e.moleculeId (some (.delete, reason))) id =
            if id = e.moleculeId then some .delete else fateOf status id := fateOf_update _ _ _ _
        rcases ih (running - e.sizeBytes.toNat) (Function.update status e.moleculeId (some (.delete, reason)))
          with h | ⟨h, hkept, x, hx, hid, hkind⟩
        · rw [h, hself]
          split
          · rename_i hid
            exact Or.inr ⟨rfl, hid ▸ hfate.1, e, List.mem_cons_self, hid.symm, Bool.eq_false_iff.mpr hfate.2⟩
          · exact Or.inl rfl
        · rw [hself] at hkept
          split at hkept
          · cases hkept
          · exact Or.inr ⟨h, hkept, x, List.mem_cons_of_mem _ hx, hid, hkind⟩
      · rcases ih running status with h | ⟨h, hkept, x, hx, hid, hkind⟩
        · exact Or.inl h
        · exact Or.inr ⟨h, hkept, x, List.mem_cons_of_mem _ hx, hid, hkind⟩

theorem evict_deleted (rest : List ArchiveEntry) (running : Nat) {id : String} (h : fateOf status id = some .delete) :
    fateOf (evict kinds budget reason rest running status) id = some .delete := by
  rcases evict_fate rest running status id with hsame | ⟨hgone, -⟩
  · rw [hsame, h]
  · exact hgone

theorem evict_decided {entries : List ArchiveEntry} (h : Decided entries status) (rest : List ArchiveEntry)
    (running : Nat) : Decided entries (evict kinds budget reason rest running status) := by
  intro e he
  rcases @evict_fate kinds budget reason rest running status e.moleculeId
    with hsame | ⟨hgone, -⟩
  · rw [hsame]
    exact h e he
  · exact Or.inr hgone

theorem totalBytes_live_le (status : Status) (entries : List ArchiveEntry) :
    totalBytes (live status entries) ≤ totalBytes entries := by
  induction entries with
  | nil => exact Nat.le_refl _
  | cons e rest ih =>
    unfold live at ih ⊢
    rw [List.filter_cons]
    split
    · simp only [totalBytes, List.map_cons, List.sum_cons] at ih ⊢
      omega
    · simp only [totalBytes, List.map_cons, List.sum_cons] at ih ⊢
      omega

theorem totalBytes_evicted {entries : List ArchiveEntry} (hids : (entries.map ArchiveEntry.moleculeId).Nodup)
    {e : ArchiveEntry} (he : e ∈ entries) (hlive : fateOf status e.moleculeId ≠ some .delete) :
    totalBytes (live (Function.update status e.moleculeId (some (.delete, reason))) entries) + e.sizeBytes.toNat =
      totalBytes (live status entries) := by
  induction entries with
  | nil => exact absurd he List.not_mem_nil
  | cons x rest ih =>
    rw [List.map_cons, List.nodup_cons] at hids
    unfold live
    rw [List.filter_cons, List.filter_cons, fateOf_update]
    rcases List.mem_cons.mp he with rfl | hrest
    · have hsame : live (Function.update status e.moleculeId (some (.delete, reason))) rest = live status rest := by
        apply List.filter_congr
        intro x hx
        rw [fateOf_update, if_neg]
        rintro heq
        exact hids.1 (heq ▸ List.mem_map_of_mem hx)
      unfold live at hsame
      rw [if_pos rfl, hsame]
      simp only [ne_eq, not_true_eq_false, decide_false, Bool.false_eq_true, if_false, hlive, not_false_eq_true,
        decide_true, if_true, totalBytes, List.map_cons, List.sum_cons]
      omega
    · have hne : x.moleculeId ≠ e.moleculeId := fun heq => hids.1 (heq ▸ List.mem_map_of_mem hrest)
      have htail := ih hids.2 hrest
      unfold live at htail
      rw [if_neg hne]
      split
      · simp only [totalBytes, List.map_cons, List.sum_cons] at htail ⊢
        omega
      · exact htail

/-- The second pass ends within the budget, or when only entries of kept kinds are left. -/
theorem evict_within {entries : List ArchiveEntry} (hids : (entries.map ArchiveEntry.moleculeId).Nodup)
    {rest : List ArchiveEntry} (hrest : ∀ e ∈ rest, e ∈ entries) (h : Decided entries status) :
    totalBytes (live (evict kinds budget reason rest (totalBytes (live status entries)) status) entries) ≤ budget ∨
      ∀ e ∈ rest, kindKept kinds e = true ∨
        fateOf (evict kinds budget reason rest (totalBytes (live status entries)) status) e.moleculeId =
          some .delete := by
  induction rest generalizing status with
  | nil => exact Or.inr fun e he => absurd he List.not_mem_nil
  | cons e rest ih =>
    have he := hrest e List.mem_cons_self
    have hsub : ∀ x ∈ rest, x ∈ entries := fun x hx => hrest x (List.mem_cons_of_mem _ hx)
    rw [evict]
    split
    · rename_i hle
      exact Or.inl hle
    · split
      · rename_i hfate
        have hlive : fateOf status e.moleculeId ≠ some .delete := by
          rw [hfate.1]
          decide
        have hrunning := @totalBytes_evicted reason _ _ hids _ he hlive
        rw [← Nat.eq_sub_of_add_eq hrunning]
        have hdecided : Decided entries (Function.update status e.moleculeId (some (.delete, reason))) := by
          intro x hx
          rw [fateOf_update]
          split
          · exact Or.inr rfl
          · exact h x hx
        refine (ih hsub hdecided).imp_right fun hall x hx => ?_
        rcases List.mem_cons.mp hx with rfl | hx
        · have hself : fateOf (Function.update status x.moleculeId (some (.delete, reason))) x.moleculeId =
              some .delete := by rw [fateOf_update, if_pos rfl]
          exact Or.inr (evict_deleted rest _ hself)
        · exact hall x hx
      · rename_i hfate
        refine (ih hsub h).imp_right fun hall x hx => ?_
        rcases List.mem_cons.mp hx with rfl | hx
        · rcases h x he with hkept | hgone
          · left
            by_contra hkind
            exact hfate ⟨hkept, hkind⟩
          · exact Or.inr (evict_deleted rest _ hgone)
        · exact hall x hx

end Budget

section Closing

variable {index : String → Option ArchiveEntry} {status : Status}

def inArchive (index : String → Option ArchiveEntry) (id : String) : List String :=
  match index id with
  | none => []
  | some e => e.parents.filter fun p => (index p).isSome

/-- The fates are those of the first two passes, except that what has been reached is kept. -/
def Fated (status : Status) (c : Closure) : Prop :=
  ∀ id, fateOf c.status id =
    if id ∈ c.kept.visited ∧ fateOf status id = some .delete then some .keptByIntegrity else fateOf status id

theorem reach_kept (id : String) (c : Closure) (parent : String) :
    (reach index id c parent).kept = if (index parent).isSome then c.kept.visit parent else c.kept := by
  unfold reach
  by_cases hvisited : parent ∈ c.kept.visited
  · have hsame : c.kept.visit parent = c.kept := if_pos hvisited
    rw [if_pos (Or.inr hvisited), hsame, ite_self]
  · cases hindex : index parent with
    | none =>
      have hnone : (none : Option ArchiveEntry).isNone = true := rfl
      rw [if_pos (Or.inl hnone)]
      rfl
    | some e =>
      rw [if_neg]
      · rfl
      · rintro (h | h)
        · cases h
        · exact hvisited h

theorem foldl_reach_kept (id : String) (parents : List String) (c : Closure) :
    (parents.foldl (reach index id) c).kept = c.kept.discover (parents.filter fun p => (index p).isSome) := by
  induction parents generalizing c with
  | nil => rfl
  | cons p parents ih =>
    rw [List.foldl_cons, ih, reach_kept, List.filter_cons]
    cases (index p).isSome with
    | true => rfl
    | false => rfl

theorem reach_fated {c : Closure} (h : Fated status c) (id parent : String) :
    Fated status (reach index id c parent) := by
  unfold reach
  split
  · exact h
  · rename_i hfresh
    rw [not_or] at hfresh
    have hparent : fateOf c.status parent = fateOf status parent := by
      rw [h parent, if_neg fun hin => hfresh.2 hin.1]
    have hvisit : c.kept.visit parent = ⟨insert parent c.kept.visited, c.kept.queue ++ [parent]⟩ :=
      if_neg hfresh.2
    intro other
    simp only [hvisit, Finset.mem_insert]
    unfold promote
    split
    · rename_i hdelete
      dsimp only
      rw [fateOf_update]
      by_cases hother : other = parent
      · subst hother
        rw [if_pos rfl, if_pos ⟨Or.inl rfl, hparent ▸ hdelete⟩]
      · rw [if_neg hother, h other]
        simp only [hother, false_or]
    · rename_i hkept
      rw [h other]
      by_cases hother : other = parent
      · subst hother
        rw [hparent] at hkept
        rw [if_neg fun hin => hkept hin.2, if_neg fun hin => hkept hin.2]
      · simp only [hother, false_or]

theorem foldl_reach_fated (id : String) (parents : List String) {c : Closure} (h : Fated status c) :
    Fated status (parents.foldl (reach index id) c) := by
  induction parents generalizing c with
  | nil => exact h
  | cons p parents ih => exact ih (reach_fated h id p)

theorem closeKept_step (fuel : Nat) {c : Closure} {id : String} {rest : List String} (hq : c.kept.queue = id :: rest)
    (h : Fated status c) :
    ∃ c' : Closure, closeKept index (fuel + 1) c = closeKept index fuel c' ∧ Fated status c' ∧
      c'.kept = Search.discover ⟨c.kept.visited, rest⟩ (inArchive index id) := by
  have hpopped : Fated status { c with kept := ⟨c.kept.visited, rest⟩ } := h
  unfold inArchive
  simp only [closeKept, hq]
  cases index id with
  | none => exact ⟨_, rfl, hpopped, rfl⟩
  | some e => exact ⟨_, rfl, foldl_reach_fated id e.parents hpopped, foldl_reach_kept id e.parents _⟩

structure Closed (index : String → Option ArchiveEntry) (status : Status) (start : Finset String) (c : Closure) :
    Prop where
  fated : Fated status c
  kept : start ⊆ c.kept.visited
  closed : ∀ a ∈ c.kept.visited, ∀ b ∈ inArchive index a, b ∈ c.kept.visited
  reached : ∀ b ∈ c.kept.visited, ∃ a ∈ start, ReflTransGen (fun a b => b ∈ inArchive index a) a b

theorem closed_of_empty {c : Closure} (hinv : Inv (inArchive index) c.kept) (hfated : Fated status c)
    (hq : c.kept.queue = []) : Closed index status c.kept.visited c where
  fated := hfated
  kept := Finset.Subset.refl _
  closed a ha := hinv.expanded a ha (hq ▸ List.not_mem_nil)
  reached b hb := ⟨b, hb, .refl⟩

theorem closeKept_closed {u : Finset String} (hu : ∀ a ∈ u, ∀ b ∈ inArchive index a, b ∈ u) (fuel : Nat)
    {c : Closure} (hin : ∀ a ∈ c.kept.queue, a ∈ u) (hinv : Inv (inArchive index) c.kept)
    (hfuel : pending u c.kept ≤ fuel) (hfated : Fated status c) :
    Closed index status c.kept.visited (closeKept index fuel c) := by
  induction fuel generalizing c with
  | zero => exact closed_of_empty hinv hfated (queue_of_pending hfuel)
  | succ fuel ih =>
    cases hq : c.kept.queue with
    | nil =>
      have hstop : closeKept index (fuel + 1) c = c := by simp only [closeKept, hq]
      rw [hstop]
      exact closed_of_empty hinv hfated hq
    | cons id rest =>
      obtain ⟨c', hstep, hfated', hkept⟩ := @closeKept_step index _ fuel _ _ _ hq hfated
      have hid : id ∈ u := hin id (hq ▸ List.mem_cons_self)
      have hrest : ∀ b ∈ rest, b ∈ u := fun b hb => hin b (hq ▸ List.mem_cons_of_mem _ hb)
      have hclosed : Closed index status c'.kept.visited (closeKept index fuel c') := by
        apply ih
        · exact hkept ▸ discover_within hrest (hu id hid)
        · exact hkept ▸ pop_inv hinv hq
        · exact hkept ▸ pop_pending hq (hu id hid) hfuel
        · exact hfated'
      obtain ⟨hvisited, -⟩ := discover_spec (inArchive index id) (⟨c.kept.visited, rest⟩ : Search String)
      rw [← hkept] at hvisited
      rw [hstep]
      refine ⟨hclosed.fated, fun a ha => hclosed.kept ((hvisited a).mpr (Or.inl ha)), hclosed.closed, fun b hb => ?_⟩
      obtain ⟨a, ha, hreach⟩ := hclosed.reached b hb
      rcases (hvisited a).mp ha with ha | ha
      · exact ⟨a, ha, hreach⟩
      · exact ⟨id, hinv.visited id (hq ▸ List.mem_cons_self), .head ha hreach⟩

end Closing

section Archive

variable {entries : List ArchiveEntry} {status : Status}

theorem idIndex_some {id : String} {e : ArchiveEntry} (h : idIndex entries id = some e) :
    e ∈ entries ∧ e.moleculeId = id := by
  obtain ⟨hmem, hid⟩ := Keyed.get_mem h
  exact ⟨List.mem_reverse.mp hmem, hid⟩

theorem idIndex_isSome {id : String} : (idIndex entries id).isSome ↔ id ∈ entries.map ArchiveEntry.moleculeId := by
  constructor
  · intro h
    obtain ⟨e, he⟩ := Option.isSome_iff_exists.mp h
    obtain ⟨hmem, rfl⟩ := idIndex_some he
    exact List.mem_map_of_mem hmem
  · intro h
    rw [Option.isSome_iff_ne_none]
    intro hnone
    refine Keyed.get_none.mp hnone ?_
    rwa [List.map_reverse, List.mem_reverse]

theorem inArchive_mem {a b : String} (h : b ∈ inArchive (idIndex entries) a) :
    b ∈ entries.map ArchiveEntry.moleculeId ∧ ∃ e ∈ entries, e.moleculeId = a ∧ b ∈ e.parents := by
  unfold inArchive at h
  cases he : idIndex entries a with
  | none =>
    rw [he] at h
    exact absurd h List.not_mem_nil
  | some e =>
    rw [he] at h
    obtain ⟨hb, hindex⟩ := List.mem_filter.mp h
    obtain ⟨hmem, hid⟩ := idIndex_some he
    exact ⟨idIndex_isSome.mp hindex, e, hmem, hid, hb⟩

theorem mem_keptIds {id : String} :
    id ∈ keptIds entries status ↔ id ∈ entries.map ArchiveEntry.moleculeId ∧ fateOf status id ≠ some .delete := by
  rw [keptIds, List.mem_filter, List.mem_dedup, decide_eq_true_eq]

/-- The third pass keeps what the kept ids lead to, in whatever order the hash set lists them. -/
theorem applyIntegrityClosure_closed {order : List String → List String} (horder : ∀ l, (order l).Perm l)
    (entries : List ArchiveEntry) (status : Status) :
    Closed (idIndex entries) status (keptIds entries status).toFinset (applyIntegrityClosure order entries status) := by
  have hnodup : (keptIds entries status).Nodup := (List.nodup_dedup _).filter _
  have hids : ∀ id ∈ keptIds entries status, id ∈ (entries.map ArchiveEntry.moleculeId).toFinset :=
    fun id hid => List.mem_toFinset.mpr (mem_keptIds.mp hid).1
  have hqueue : ∀ {id}, id ∈ order (keptIds entries status) ↔ id ∈ keptIds entries status := (horder _).mem_iff
  have hu : ∀ a ∈ (entries.map ArchiveEntry.moleculeId).toFinset, ∀ b ∈ inArchive (idIndex entries) a,
      b ∈ (entries.map ArchiveEntry.moleculeId).toFinset :=
    fun a _ b hb => List.mem_toFinset.mpr (inArchive_mem hb).1
  apply closeKept_closed hu entries.length
    (c := ⟨⟨(keptIds entries status).toFinset, order (keptIds entries status)⟩, status, ∅⟩)
  · exact fun id hid => hids id (hqueue.mp hid)
  · refine ⟨(horder _).nodup_iff.mpr hnodup, fun id hid => List.mem_toFinset.mpr (hqueue.mp hid), ?_⟩
    intro id hid hout
    exact absurd (hqueue.mpr (List.mem_toFinset.mp hid)) hout
  · have hcard : (keptIds entries status).toFinset.card = (order (keptIds entries status)).length := by
      rw [List.toFinset_card_of_nodup hnodup, (horder _).length_eq]
    have hsub : (keptIds entries status).toFinset ⊆ (entries.map ArchiveEntry.moleculeId).toFinset :=
      fun id hid => hids id (List.mem_toFinset.mp hid)
    simp only [pending, ← hcard, Finset.card_sdiff_add_card_eq_card hsub]
    exact (List.toFinset_card_le _).trans_eq (List.length_map _)
  · intro id
    rw [if_neg]
    rintro ⟨hid, hdelete⟩
    exact (mem_keptIds.mp (List.mem_toFinset.mp hid)).2 hdelete

end Archive

end Cosmon.State.Retention
