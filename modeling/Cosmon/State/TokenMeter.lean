import Cosmon.State.Molecule
import Mathlib.Data.List.ReduceOption
import Mathlib.Data.UInt
import Mathlib.Logic.Function.Basic

namespace Cosmon.State.TokenMeter

open Cosmon.State.Molecule (MoleculeId)

inductive TokenUsageSource where
  | claudeTranscript
  | codexRollout
deriving DecidableEq

structure TokenUsage where
  moleculeId : MoleculeId
  tokensIn : UInt64
  cacheReadTokens : Option UInt64
  cacheCreationTokens : Option UInt64
  tokensOut : UInt64
  costMicrosEstimated : Option UInt64
  source : Option TokenUsageSource
  invocations : UInt64
deriving DecidableEq

structure MoleculeTokenTotals where
  tokensIn : UInt64 := 0
  cacheReadTokens : Option UInt64 := none
  cacheCreationTokens : Option UInt64 := none
  tokensOut : UInt64 := 0
  costMicrosEstimated : Option UInt64 := none
  invocations : UInt64 := 0
  source : Option TokenUsageSource := none
deriving DecidableEq

def maxValue : UInt64 := 18446744073709551615

def saturatingAdd (a b : UInt64) : UInt64 := if a.toNat + b.toNat < 2 ^ 64 then a + b else maxValue

def addReported (total : Option UInt64) : Option UInt64 → Option UInt64
  | none => total
  | some value => some (saturatingAdd (total.getD 0) value)

/-- The source after a row, where `invocations` counts it already. -/
def nextSource (invocations : UInt64) (current : Option TokenUsageSource) (ev : TokenUsage) :
    Option TokenUsageSource :=
  match current, ev.source with
  | none, source => if invocations = ev.invocations then source else none
  | some left, some right => if left = right then some left else none
  | some _, none => none

def MoleculeTokenTotals.add (t : MoleculeTokenTotals) (ev : TokenUsage) : MoleculeTokenTotals where
  tokensIn := saturatingAdd t.tokensIn ev.tokensIn
  cacheReadTokens := addReported t.cacheReadTokens ev.cacheReadTokens
  cacheCreationTokens := addReported t.cacheCreationTokens ev.cacheCreationTokens
  tokensOut := saturatingAdd t.tokensOut ev.tokensOut
  costMicrosEstimated := addReported t.costMicrosEstimated ev.costMicrosEstimated
  invocations := saturatingAdd t.invocations ev.invocations
  source := nextSource (saturatingAdd t.invocations ev.invocations) t.source ev

def aggregateByMolecule (events : List TokenUsage) : MoleculeId → Option MoleculeTokenTotals :=
  events.foldl (fun byMol ev => Function.update byMol ev.moleculeId (some (((byMol ev.moleculeId).getD {}).add ev)))
    fun _ => none

def sumMatching (id : MoleculeId) : List TokenUsage → MoleculeTokenTotals → Bool → Option MoleculeTokenTotals
  | [], totals, found => if found then some totals else none
  | ev :: rest, totals, found =>
    if ev.moleculeId = id then sumMatching id rest (totals.add ev) true else sumMatching id rest totals found

/-- `none` where the rows cannot be read. -/
def moleculeTokenTotals (sink : Option (List TokenUsage)) (id : MoleculeId) : Option MoleculeTokenTotals :=
  sink.bind fun events => sumMatching id events {} false

def rowsOf (events : List TokenUsage) (id : MoleculeId) : List TokenUsage := events.filter fun ev => ev.moleculeId = id

def totalOf (rows : List TokenUsage) : MoleculeTokenTotals := rows.foldl MoleculeTokenTotals.add {}

def saturatedSum (values : List UInt64) : Nat := min (values.map UInt64.toNat).sum (2 ^ 64 - 1)

/-- The counter of a field that not every row reports. -/
def reportedSum (values : List (Option UInt64)) : Option Nat :=
  if values.reduceOption = [] then none else some (saturatedSum values.reduceOption)

/-- Each counter is the sum of the rows, cut at the largest value. -/
structure Summed (rows : List TokenUsage) (t : MoleculeTokenTotals) : Prop where
  tokensIn : t.tokensIn.toNat = saturatedSum (rows.map TokenUsage.tokensIn)
  cacheRead : t.cacheReadTokens.map UInt64.toNat = reportedSum (rows.map TokenUsage.cacheReadTokens)
  cacheCreation : t.cacheCreationTokens.map UInt64.toNat = reportedSum (rows.map TokenUsage.cacheCreationTokens)
  tokensOut : t.tokensOut.toNat = saturatedSum (rows.map TokenUsage.tokensOut)
  cost : t.costMicrosEstimated.map UInt64.toNat = reportedSum (rows.map TokenUsage.costMicrosEstimated)
  invocations : t.invocations.toNat = saturatedSum (rows.map TokenUsage.invocations)

def Uniform (s : TokenUsageSource) (rows : List TokenUsage) : Prop := ∀ r ∈ rows, r.source = some s

/-- What the aggregation of some rows promises. -/
structure Aggregated (events : List TokenUsage) : Prop where
  permuted : ∀ other, other.Perm events → aggregateByMolecule other = aggregateByMolecule events
  agrees : ∀ id, moleculeTokenTotals (some events) id = aggregateByMolecule events id
  summed : ∀ id totals, aggregateByMolecule events id = some totals → Summed (rowsOf events id) totals
  source : ∀ id totals, aggregateByMolecule events id = some totals →
    ∀ s, totals.source = some s ↔ Uniform s (rowsOf events id)

section Sums

theorem saturatingAdd_toNat (a b : UInt64) :
    (saturatingAdd a b).toNat = min (a.toNat + b.toNat) (2 ^ 64 - 1) := by
  unfold saturatingAdd
  split
  · rename_i h
    rw [UInt64.toNat_add, Nat.mod_eq_of_lt h]
    omega
  · rename_i h
    have hmax : maxValue.toNat = 2 ^ 64 - 1 := rfl
    rw [hmax]
    omega

theorem saturatedSum_append (values : List UInt64) (v : UInt64) :
    saturatedSum (values ++ [v]) = min (saturatedSum values + v.toNat) (2 ^ 64 - 1) := by
  unfold saturatedSum
  rw [List.map_append, List.sum_append]
  simp only [List.map_cons, List.map_nil, List.sum_cons, List.sum_nil]
  omega

theorem saturatedSum_perm {values other : List UInt64} (h : values.Perm other) :
    saturatedSum values = saturatedSum other := by
  unfold saturatedSum
  rw [(h.map UInt64.toNat).sum_nat]

theorem reportedSum_append (values : List (Option UInt64)) (v : Option UInt64) {total : Option UInt64}
    (h : total.map UInt64.toNat = reportedSum values) :
    (addReported total v).map UInt64.toNat = reportedSum (values ++ [v]) := by
  unfold reportedSum at h ⊢
  rw [List.reduceOption_append]
  cases v with
  | none =>
    have hnone : ([none] : List (Option UInt64)).reduceOption = [] := rfl
    rw [hnone, List.append_nil]
    exact h
  | some value =>
    have hsome : [some value].reduceOption = [value] := rfl
    rw [hsome, if_neg (List.append_ne_nil_of_right_ne_nil _ (List.cons_ne_nil _ _)), saturatedSum_append]
    rw [addReported, Option.map_some, saturatingAdd_toNat]
    by_cases hempty : values.reduceOption = []
    · rw [if_pos hempty, Option.map_eq_none_iff] at h
      rw [h, hempty]
      rfl
    · rw [if_neg hempty] at h
      obtain ⟨t, rfl, ht⟩ := Option.map_eq_some_iff.mp h
      rw [Option.getD_some, ht]

theorem totalOf_append (rows : List TokenUsage) (r : TokenUsage) : totalOf (rows ++ [r]) = (totalOf rows).add r := by
  unfold totalOf
  rw [List.foldl_append]
  rfl

theorem totalOf_summed (rows : List TokenUsage) : Summed rows (totalOf rows) := by
  induction rows using List.reverseRecOn with
  | nil => exact ⟨rfl, rfl, rfl, rfl, rfl, rfl⟩
  | append_singleton rows r ih =>
    rw [totalOf_append]
    constructor
    case tokensIn =>
      rw [List.map_append, List.map_singleton, saturatedSum_append, ← ih.tokensIn]
      exact saturatingAdd_toNat _ _
    case cacheRead =>
      rw [List.map_append, List.map_singleton]
      exact reportedSum_append _ _ ih.cacheRead
    case cacheCreation =>
      rw [List.map_append, List.map_singleton]
      exact reportedSum_append _ _ ih.cacheCreation
    case tokensOut =>
      rw [List.map_append, List.map_singleton, saturatedSum_append, ← ih.tokensOut]
      exact saturatingAdd_toNat _ _
    case cost =>
      rw [List.map_append, List.map_singleton]
      exact reportedSum_append _ _ ih.cost
    case invocations =>
      rw [List.map_append, List.map_singleton, saturatedSum_append, ← ih.invocations]
      exact saturatingAdd_toNat _ _

theorem reportedSum_perm {values other : List (Option UInt64)} (h : values.Perm other) :
    reportedSum values = reportedSum other := by
  have hreduced : values.reduceOption.Perm other.reduceOption := h.filterMap id
  unfold reportedSum
  rw [saturatedSum_perm hreduced]
  by_cases hempty : other.reduceOption = []
  · rw [hempty, List.perm_nil] at hreduced
    rw [if_pos hempty, if_pos hreduced]
  · have hvalues : values.reduceOption ≠ [] := by
      intro hnil
      rw [hnil, List.nil_perm] at hreduced
      exact hempty hreduced
    rw [if_neg hempty, if_neg hvalues]

theorem totals_eq {rows other : List TokenUsage} (h : rows.Perm other) {t u : MoleculeTokenTotals}
    (ht : Summed rows t) (hu : Summed other u) (hsource : t.source = u.source) : t = u := by
  have htoNat : Function.Injective (Option.map UInt64.toNat) :=
    Option.map_injective fun a b heq => UInt64.toNat_inj.mp heq
  cases t
  cases u
  simp only [MoleculeTokenTotals.mk.injEq]
  refine ⟨UInt64.toNat_inj.mp ?_, htoNat ?_, htoNat ?_, UInt64.toNat_inj.mp ?_, htoNat ?_,
    UInt64.toNat_inj.mp ?_, hsource⟩
  · exact ht.tokensIn.trans ((saturatedSum_perm (h.map _)).trans hu.tokensIn.symm)
  · exact ht.cacheRead.trans ((reportedSum_perm (h.map _)).trans hu.cacheRead.symm)
  · exact ht.cacheCreation.trans ((reportedSum_perm (h.map _)).trans hu.cacheCreation.symm)
  · exact ht.tokensOut.trans ((saturatedSum_perm (h.map _)).trans hu.tokensOut.symm)
  · exact ht.cost.trans ((reportedSum_perm (h.map _)).trans hu.cost.symm)
  · exact ht.invocations.trans ((saturatedSum_perm (h.map _)).trans hu.invocations.symm)

end Sums

def StartsOver (r : TokenUsage) (before : List TokenUsage) : Prop :=
  r.invocations = maxValue ∨ ∀ x ∈ before, x.invocations = 0

def otherRows (s : TokenUsageSource) (rows : List TokenUsage) : List TokenUsage :=
  rows.filter fun r => r.source ≠ some s

/-- Some order of the rows lets a row of source `s` pass for the first one. -/
def Overridden (rows : List TokenUsage) : Prop :=
  ∃ s r rest, rows.Perm (r :: rest) ∧ r.source = some s ∧
    (((∃ x ∈ rest, x.source = none) ∧ StartsOver r (otherRows s rest)) ∨
      ((∀ x ∈ rest, x.source ≠ none) ∧ (∃ x ∈ rest, x.source ≠ some s) ∧
        ∃ z ∈ rest, z.source = some s ∧ StartsOver r (z :: otherRows s rest)))

section Source

variable {rows before after : List TokenUsage} {r : TokenUsage} {s : TokenUsageSource}

theorem saturatedSum_eq_zero {values : List UInt64} : saturatedSum values = 0 ↔ ∀ v ∈ values, v = 0 := by
  have hzero : ∀ v : UInt64, v.toNat = 0 ↔ v = 0 := fun v => by rw [← UInt64.toNat_inj, UInt64.toNat_zero]
  have hmin : saturatedSum values = 0 ↔ (values.map UInt64.toNat).sum = 0 := by
    unfold saturatedSum
    omega
  rw [hmin, List.sum_eq_zero_iff_forall_eq_nat]
  simp only [List.mem_map, forall_exists_index, and_imp, forall_apply_eq_imp_iff₂, hzero]

theorem saturatingAdd_eq_right (a b : UInt64) : saturatingAdd a b = b ↔ a = 0 ∨ b = maxValue := by
  have hmax : maxValue.toNat = 2 ^ 64 - 1 := rfl
  have ha : a.toNat < 2 ^ 64 := a.toNat_lt
  have hb : b.toNat < 2 ^ 64 := b.toNat_lt
  rw [← UInt64.toNat_inj, saturatingAdd_toNat, ← UInt64.toNat_inj, ← UInt64.toNat_inj, hmax, UInt64.toNat_zero]
  omega

theorem startsOver_iff : saturatingAdd (totalOf before).invocations r.invocations = r.invocations ↔
    StartsOver r before := by
  have hzero : (totalOf before).invocations = 0 ↔ ∀ x ∈ before, x.invocations = 0 := by
    rw [← UInt64.toNat_inj, (totalOf_summed before).invocations, UInt64.toNat_zero, saturatedSum_eq_zero]
    simp only [List.mem_map, forall_exists_index, and_imp, forall_apply_eq_imp_iff₂]
  rw [saturatingAdd_eq_right, hzero, or_comm]
  rfl

theorem add_source : (totalOf (before ++ [r])).source = some s ↔ r.source = some s ∧
    ((totalOf before).source = some s ∨ ((totalOf before).source = none ∧ StartsOver r before)) := by
  rw [totalOf_append, ← startsOver_iff]
  unfold MoleculeTokenTotals.add nextSource
  dsimp only
  cases (totalOf before).source with
  | none => by_cases h : saturatingAdd (totalOf before).invocations r.invocations = r.invocations <;> simp [h]
  | some left =>
    cases r.source with
    | none => simp
    | some right =>
      by_cases h : left = right
      · subst h
        simp
      · simp only [if_neg h, Option.some_inj, reduceCtorEq, false_and, or_false, false_iff, not_and]
        exact fun hright hleft => h (hleft.trans hright.symm)

theorem add_source_none (h : r.source = none) : (totalOf (before ++ [r])).source = none := by
  by_contra hsome
  obtain ⟨s, hs⟩ := Option.ne_none_iff_exists'.mp hsome
  have hr := (add_source.mp hs).1
  rw [h] at hr
  cases hr

theorem uniform_append_singleton : Uniform s (rows ++ [r]) ↔ Uniform s rows ∧ r.source = some s := by
  unfold Uniform
  simp only [List.mem_append, List.mem_singleton, or_imp, forall_and, forall_eq]

theorem Uniform.source (h : Uniform s rows) (hne : rows ≠ []) : (totalOf rows).source = some s := by
  induction rows using List.reverseRecOn with
  | nil => exact absurd rfl hne
  | append_singleton before r ih =>
    obtain ⟨hbefore, hr⟩ := uniform_append_singleton.mp h
    rw [add_source]
    refine ⟨hr, ?_⟩
    by_cases hnil : before = []
    · subst hnil
      exact .inr ⟨rfl, .inr fun x hx => (nomatch hx)⟩
    · exact .inl (ih hbefore hnil)

/-- A source that the totals have is that of all the rows, or of those since a row that passed for the first one. -/
theorem source_split (h : (totalOf rows).source = some s) : Uniform s rows ∨
    ∃ before r after, rows = before ++ r :: after ∧ r.source = some s ∧ Uniform s after ∧ before ≠ [] ∧
      (totalOf before).source = none ∧ StartsOver r before := by
  induction rows using List.reverseRecOn with
  | nil => exact .inl fun x hx => (nomatch hx)
  | append_singleton rows r ih =>
    rw [uniform_append_singleton]
    obtain ⟨hr, hkept | ⟨hnone, hstarts⟩⟩ := add_source.mp h
    · obtain huniform | ⟨before, q, after, rfl, hq, hafter, hne, hnone, hstarts⟩ := ih hkept
      · exact .inl ⟨huniform, hr⟩
      · have hlast := uniform_append_singleton.mpr ⟨hafter, hr⟩
        exact .inr ⟨before, q, after ++ [r], by simp, hq, hlast, hne, hnone, hstarts⟩
    · have hnil : Uniform s [] := fun x hx => (nomatch hx)
      by_cases hrows : rows = []
      · exact .inl ⟨hrows ▸ hnil, hr⟩
      · exact .inr ⟨rows, r, [], rfl, hr, hnil, hrows, hnone, hstarts⟩

theorem source_resumed (hr : r.source = some s) (hnone : (totalOf before).source = none)
    (hstarts : StartsOver r before) (hafter : Uniform s after) :
    (totalOf (before ++ r :: after)).source = some s := by
  induction after using List.reverseRecOn with
  | nil => exact add_source.mpr ⟨hr, .inr ⟨hnone, hstarts⟩⟩
  | append_singleton after q ih =>
    have hsplit : before ++ r :: (after ++ [q]) = (before ++ r :: after) ++ [q] := by simp
    obtain ⟨hbefore, hq⟩ := uniform_append_singleton.mp hafter
    rw [hsplit, add_source]
    exact ⟨hq, .inl (ih hbefore)⟩

theorem source_pair {a b c : TokenUsageSource} (hb : b ≠ a) (hc : c ≠ a) : c = b := by
  cases a <;> cases b <;> cases c <;> simp at hb hc ⊢

theorem mem_otherRows {x : TokenUsage} : x ∈ otherRows s rows ↔ x ∈ rows ∧ x.source ≠ some s := by
  unfold otherRows
  rw [List.mem_filter, decide_eq_true_iff]

/-- Rows that all have a source other than `s` have the same one. -/
theorem otherRows_uniform (hsome : ∀ x ∈ rows, x.source ≠ none) {y : TokenUsage} (hy : y ∈ rows)
    (hne : y.source ≠ some s) : ∃ b, b ≠ s ∧ y.source = some b ∧ Uniform b (otherRows s rows) := by
  obtain ⟨b, hb⟩ := Option.ne_none_iff_exists'.mp (hsome y hy)
  rw [hb, ne_eq, Option.some_inj] at hne
  refine ⟨b, hne, hb, fun x hx => ?_⟩
  obtain ⟨hmem, hother⟩ := mem_otherRows.mp hx
  obtain ⟨c, hc⟩ := Option.ne_none_iff_exists'.mp (hsome x hmem)
  rw [hc, ne_eq, Option.some_inj] at hother
  rw [hc, source_pair hne hother]

theorem otherRows_perm (rows : List TokenUsage) (s : TokenUsageSource) :
    (otherRows s rows ++ rows.filter fun x => x.source = some s).Perm rows := by
  have hsplit := List.filter_append_perm (fun x : TokenUsage => decide (x.source ≠ some s)) rows
  simp only [ne_eq, decide_not, Bool.not_not] at hsplit
  unfold otherRows
  simp only [ne_eq, decide_not]
  exact hsplit

theorem Overridden.of_perm (h : Overridden rows) {other : List TokenUsage} (hperm : other.Perm rows) :
    Overridden other := by
  obtain ⟨s, r, rest, hrows, hover⟩ := h
  exact ⟨s, r, rest, hperm.trans hrows, hover⟩

theorem StartsOver.mono (h : StartsOver r before) (hsub : ∀ x ∈ after, x ∈ before) : StartsOver r after :=
  h.imp id fun hzero x hx => hzero x (hsub x hx)

theorem otherRows_append (hafter : Uniform s after) : otherRows s (before ++ after) = otherRows s before := by
  have hnil : otherRows s after = [] := by
    refine List.filter_eq_nil_iff.mpr fun x hx => ?_
    rw [hafter x hx]
    simp
  unfold otherRows at hnil ⊢
  rw [List.filter_append, hnil, List.append_nil]

theorem both_sources (hne : before ≠ []) (hnone : (totalOf before).source = none)
    (hsome : ∀ x ∈ before, x.source ≠ none) (s : TokenUsageSource) :
    (∃ y ∈ before, y.source ≠ some s) ∧ ∃ z ∈ before, z.source = some s := by
  have hmixed : ∀ t, ¬ Uniform t before := by
    intro t huniform
    rw [huniform.source hne] at hnone
    cases hnone
  have hother : ∃ y ∈ before, y.source ≠ some s := by
    have hs := hmixed s
    unfold Uniform at hs
    push Not at hs
    exact hs
  obtain ⟨y, hy, hys⟩ := hother
  obtain ⟨b, -, -, huniform⟩ := otherRows_uniform hsome hy hys
  refine ⟨⟨y, hy, hys⟩, ?_⟩
  by_contra hall
  push Not at hall
  exact hmixed b fun x hx => huniform x (mem_otherRows.mpr ⟨hx, hall x hx⟩)

theorem source_iff (hover : ¬ Overridden rows) (hne : rows ≠ []) :
    (totalOf rows).source = some s ↔ Uniform s rows := by
  refine ⟨fun h => (source_split h).resolve_right ?_, fun h => h.source hne⟩
  rintro ⟨before, r, after, rfl, hr, hafter, hbefore, hnone, hstarts⟩
  refine hover ⟨s, r, before ++ after, List.perm_middle, hr, ?_⟩
  rw [otherRows_append hafter]
  have hothers : ∀ x ∈ otherRows s before, x ∈ before := fun x hx => (mem_otherRows.mp hx).1
  by_cases hsourceless : ∃ x ∈ before, x.source = none
  · obtain ⟨x, hx, hxsource⟩ := hsourceless
    exact .inl ⟨⟨x, List.mem_append_left _ hx, hxsource⟩, hstarts.mono hothers⟩
  · push Not at hsourceless
    obtain ⟨⟨y, hy, hys⟩, z, hz, hzs⟩ := both_sources hbefore hnone hsourceless s
    refine .inr ⟨fun x hx => ?_, ⟨y, List.mem_append_left _ hy, hys⟩, z, List.mem_append_left _ hz, hzs, ?_⟩
    · obtain hx | hx := List.mem_append.mp hx
      · exact hsourceless x hx
      · rw [hafter x hx]
        exact Option.some_ne_none s
    · refine hstarts.mono fun x hx => ?_
      obtain rfl | hx := List.mem_cons.mp hx
      · exact hz
      · exact hothers x hx

theorem otherRows_perm_last {x : TokenUsage} (hx : x ∈ otherRows s rows) :
    ((otherRows s rows).erase x ++ [x] ++ rows.filter fun q => q.source = some s).Perm rows := by
  have hlast : ((otherRows s rows).erase x ++ [x]).Perm (otherRows s rows) :=
    List.perm_append_comm.trans (List.perm_cons_erase hx).symm
  exact (hlast.append_right _).trans (otherRows_perm rows s)

theorem otherRows_perm_then {z : TokenUsage} (hz : z ∈ rows.filter fun q => q.source = some s) :
    (otherRows s rows ++ [z] ++ (rows.filter fun q => q.source = some s).erase z).Perm rows := by
  rw [List.append_assoc]
  exact ((List.perm_cons_erase hz).symm.append_left _).trans (otherRows_perm rows s)

theorem Overridden.order (h : Overridden rows) :
    ∃ other s, other.Perm rows ∧ (totalOf other).source = some s ∧ ¬ Uniform s rows := by
  obtain ⟨s, r, rest, hrows, hr, hover⟩ := h
  have hplace : ∀ before after, (before ++ after).Perm rest → (before ++ r :: after).Perm rows :=
    fun before after hperm => List.perm_middle.trans ((hperm.cons r).trans hrows.symm)
  have hmixed : ∀ x ∈ rest, x.source ≠ some s → ¬ Uniform s rows :=
    fun x hx hxs huniform => hxs (huniform x (hrows.mem_iff.mpr (List.mem_cons_of_mem _ hx)))
  have hsame : Uniform s (rest.filter fun x => x.source = some s) := by
    intro x hx
    exact decide_eq_true_iff.mp (List.mem_filter.mp hx).2
  obtain ⟨⟨x, hx, hxsource⟩, hstarts⟩ | ⟨hsome, ⟨y, hy, hys⟩, z, hz, hzs, hstarts⟩ := hover
  · -- the row without a source comes right before `r`
    have hxs : x.source ≠ some s := by simp [hxsource]
    have hother : x ∈ otherRows s rest := mem_otherRows.mpr ⟨hx, hxs⟩
    refine ⟨_, s, hplace _ _ (otherRows_perm_last hother), ?_, hmixed x hx hxs⟩
    refine source_resumed hr (add_source_none hxsource) (hstarts.mono fun q hq => ?_) hsame
    obtain hq | hq := List.mem_append.mp hq
    · exact List.mem_of_mem_erase hq
    · exact List.mem_singleton.mp hq ▸ hother
  · -- a row of `s` ends the run of the other source, and `r` follows it
    have hzmem : z ∈ rest.filter fun x => x.source = some s := List.mem_filter.mpr ⟨hz, decide_eq_true hzs⟩
    obtain ⟨b, hb, -, huniform⟩ := otherRows_uniform hsome hy hys
    have hfirst : (totalOf (otherRows s rest)).source = some b :=
      huniform.source (List.ne_nil_of_mem (mem_otherRows.mpr ⟨hy, hys⟩))
    have hnone : (totalOf (otherRows s rest ++ [z])).source = none := by
      by_contra hsource
      obtain ⟨c, hc⟩ := Option.ne_none_iff_exists'.mp hsource
      obtain ⟨hzc, hkept | ⟨hcleared, -⟩⟩ := add_source.mp hc
      · rw [hzs] at hzc
        rw [hfirst] at hkept
        exact hb (Option.some_inj.mp (hkept.trans hzc.symm))
      · rw [hfirst] at hcleared
        cases hcleared
    refine ⟨_, s, hplace _ _ (otherRows_perm_then hzmem), ?_, hmixed y hy hys⟩
    refine source_resumed hr hnone (hstarts.mono fun q hq => ?_) fun q hq => hsame q (List.mem_of_mem_erase hq)
    obtain hq | hq := List.mem_append.mp hq
    · exact List.mem_cons_of_mem _ hq
    · exact List.mem_singleton.mp hq ▸ List.mem_cons_self

end Source

section Aggregation

variable {events : List TokenUsage} {id : MoleculeId}

theorem rowsOf_append (events : List TokenUsage) (ev : TokenUsage) (id : MoleculeId) :
    rowsOf (events ++ [ev]) id = if ev.moleculeId = id then rowsOf events id ++ [ev] else rowsOf events id := by
  unfold rowsOf
  rw [List.filter_append]
  by_cases h : ev.moleculeId = id <;> simp [h]

theorem aggregateByMolecule_append (events : List TokenUsage) (ev : TokenUsage) :
    aggregateByMolecule (events ++ [ev]) = Function.update (aggregateByMolecule events) ev.moleculeId
      (some (((aggregateByMolecule events ev.moleculeId).getD {}).add ev)) := by
  unfold aggregateByMolecule
  rw [List.foldl_append]
  rfl

theorem aggregateByMolecule_eq (events : List TokenUsage) (id : MoleculeId) :
    aggregateByMolecule events id = if rowsOf events id = [] then none else some (totalOf (rowsOf events id)) := by
  induction events using List.reverseRecOn with
  | nil => rfl
  | append_singleton events ev ih =>
    rw [aggregateByMolecule_append, rowsOf_append]
    by_cases h : ev.moleculeId = id
    · subst h
      have hne : rowsOf events ev.moleculeId ++ [ev] ≠ [] := List.append_ne_nil_of_right_ne_nil _ (List.cons_ne_nil _ _)
      rw [Function.update_self, if_pos rfl, if_neg hne, totalOf_append, ih]
      by_cases hrows : rowsOf events ev.moleculeId = []
      · rw [if_pos hrows, hrows]
        rfl
      · rw [if_neg hrows, Option.getD_some]
    · rw [Function.update_of_ne (Ne.symm h), if_neg h, ih]

theorem aggregate_some {totals : MoleculeTokenTotals} (h : aggregateByMolecule events id = some totals) :
    rowsOf events id ≠ [] ∧ totals = totalOf (rowsOf events id) := by
  rw [aggregateByMolecule_eq] at h
  split at h
  case isTrue => cases h
  case isFalse hne => exact ⟨hne, (Option.some_inj.mp h).symm⟩

theorem sumMatching_eq (id : MoleculeId) (events : List TokenUsage) (totals : MoleculeTokenTotals) (found : Bool) :
    sumMatching id events totals found =
      if found = true ∨ rowsOf events id ≠ [] then some ((rowsOf events id).foldl MoleculeTokenTotals.add totals)
      else none := by
  induction events generalizing totals found with
  | nil => simp [sumMatching, rowsOf]
  | cons ev rest ih =>
    unfold sumMatching
    by_cases h : ev.moleculeId = id
    · have hrows : rowsOf (ev :: rest) id = ev :: rowsOf rest id := List.filter_cons_of_pos (decide_eq_true h)
      rw [if_pos h, ih, hrows]
      simp
    · have hrows : rowsOf (ev :: rest) id = rowsOf rest id := List.filter_cons_of_neg (by simp [h])
      rw [if_neg h, ih, hrows]

theorem moleculeTokenTotals_eq (events : List TokenUsage) (id : MoleculeId) :
    moleculeTokenTotals (some events) id = aggregateByMolecule events id := by
  rw [moleculeTokenTotals, Option.bind_some, sumMatching_eq, aggregateByMolecule_eq]
  by_cases h : rowsOf events id = []
  · simp [h]
  · rw [if_pos (.inr h), if_neg h]
    rfl

theorem rowsOf_perm {other : List TokenUsage} (h : other.Perm events) (id : MoleculeId) :
    (rowsOf other id).Perm (rowsOf events id) := h.filter _

theorem aggregated_of_steady (h : ∀ id, ¬ Overridden (rowsOf events id)) : Aggregated events where
  permuted other hperm := by
    funext id
    have hrows := rowsOf_perm hperm id
    rw [aggregateByMolecule_eq, aggregateByMolecule_eq]
    by_cases hne : rowsOf events id = []
    · rw [hne, List.perm_nil] at hrows
      rw [if_pos hne, if_pos hrows]
    · have hother : rowsOf other id ≠ [] := by
        intro hnil
        rw [hnil, List.nil_perm] at hrows
        exact hne hrows
      rw [if_neg hne, if_neg hother, Option.some_inj]
      refine totals_eq hrows (totalOf_summed _) (totalOf_summed _) (Option.ext fun s => ?_)
      have hsteady : ¬ Overridden (rowsOf other id) := fun hover => h id (hover.of_perm hrows.symm)
      rw [source_iff hsteady hother, source_iff (h id) hne]
      exact forall_congr' fun r => by rw [hrows.mem_iff]
  agrees id := moleculeTokenTotals_eq events id
  summed id totals htotals := by
    rw [(aggregate_some htotals).2]
    exact totalOf_summed _
  source id totals htotals s := by
    obtain ⟨hne, rfl⟩ := aggregate_some htotals
    exact source_iff (h id) hne

theorem Aggregated.steady (h : Aggregated events) (id : MoleculeId) : ¬ Overridden (rowsOf events id) := by
  intro hover
  obtain ⟨rows, s, hrows, hsource, hmixed⟩ := hover.order
  have hmol : ∀ r ∈ rows, r.moleculeId = id := fun r hr =>
    decide_eq_true_iff.mp (List.mem_filter.mp (hrows.mem_iff.mp hr)).2
  let rest := events.filter fun ev => ¬ ev.moleculeId = id
  have hperm : (rows ++ rest).Perm events := by
    have hsplit := List.filter_append_perm (fun ev : TokenUsage => decide (ev.moleculeId = id)) events
    refine (hrows.append_right _).trans ?_
    simpa [rest, rowsOf] using hsplit
  have hother : rowsOf (rows ++ rest) id = rows := by
    have hall : rowsOf rows id = rows := List.filter_eq_self.mpr fun r hr => decide_eq_true (hmol r hr)
    have hnone : rowsOf rest id = [] := by
      refine List.filter_eq_nil_iff.mpr fun r hr => ?_
      simpa [rest] using (List.mem_filter.mp hr).2
    unfold rowsOf at hall hnone ⊢
    rw [List.filter_append, hall, hnone, List.append_nil]
  have hne : rows ≠ [] := by
    rintro rfl
    cases hsource
  have htotals : aggregateByMolecule events id = some (totalOf rows) := by
    rw [← h.permuted _ hperm, aggregateByMolecule_eq, hother, if_neg hne]
  exact hmixed ((h.source id _ htotals s).mp hsource)

end Aggregation

theorem aggregated_iff (events : List TokenUsage) :
    Aggregated events ↔ ∀ id, ¬ Overridden (rowsOf events id) :=
  ⟨Aggregated.steady, aggregated_of_steady⟩

def legacyRow : TokenUsage where
  moleculeId := "task-1"
  tokensIn := 0
  cacheReadTokens := none
  cacheCreationTokens := none
  tokensOut := 0
  costMicrosEstimated := none
  source := none
  invocations := 0

def transcriptRow : TokenUsage := { legacyRow with source := some .claudeTranscript, invocations := 1 }

/-- A legacy row that counts no invocation, and a row of a transcript. -/
theorem aggregate_mixed : ¬ Aggregated [legacyRow, transcriptRow] := by
  intro h
  have htotals : aggregateByMolecule [legacyRow, transcriptRow] "task-1" =
      some { invocations := 1, source := some .claudeTranscript } := by decide
  have huniform := (h.source "task-1" _ htotals .claudeTranscript).mp rfl
  have hlegacy := huniform legacyRow (by decide)
  cases hlegacy

end Cosmon.State.TokenMeter
