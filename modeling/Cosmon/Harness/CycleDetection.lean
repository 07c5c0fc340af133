import Cosmon.Harness.Spine
import Cosmon.Lib.Text

namespace Cosmon.Harness

open Cosmon.Lib.Text

section Blocks

variable {α : Type} {tail block : List α}

theorem eq_flatten_replicate_iff {r : Nat} (hlength : tail.length = r * block.length) :
    tail = (List.replicate r block).flatten ↔ ∀ k < r, (tail.drop (k * block.length)).take block.length = block := by
  induction r generalizing tail with
  | zero =>
    rw [Nat.zero_mul, List.length_eq_zero_iff] at hlength
    exact iff_of_true hlength fun k hk => absurd hk (Nat.not_lt_zero k)
  | succ r ih =>
    rw [Nat.succ_mul] at hlength
    have hrest : (tail.drop block.length).length = r * block.length := by
      rw [List.length_drop]
      omega
    have hlater (k : Nat) : tail.drop ((k + 1) * block.length) = (tail.drop block.length).drop (k * block.length) := by
      rw [List.drop_drop, Nat.succ_mul, Nat.add_comm]
    rw [List.replicate_succ, List.flatten_cons]
    constructor
    · intro htail k hk
      have hfirst : tail.take block.length = block := by rw [htail, List.take_left]
      have hrestEq : tail.drop block.length = (List.replicate r block).flatten := by rw [htail, List.drop_left]
      cases k with
      | zero => rwa [Nat.zero_mul, List.drop_zero]
      | succ k => rw [hlater, (ih hrest).mp hrestEq k (Nat.lt_of_succ_lt_succ hk)]
    · intro hblocks
      have hfirst := hblocks 0 (Nat.succ_pos r)
      rw [Nat.zero_mul, List.drop_zero] at hfirst
      have hrestEq := (ih hrest).mpr fun k hk => hlater k ▸ hblocks (k + 1) (Nat.succ_lt_succ hk)
      rw [← hrestEq]
      exact (List.take_append_drop block.length tail).symm.trans (congrArg (· ++ _) hfirst)

theorem length_copies (r : Nat) (block : List α) : (List.replicate r block).flatten.length = r * block.length := by
  simp

/-- The end of a log is that many copies of a block of that length. -/
def Repeats (log : List α) (repeats period : Nat) : Prop :=
  ∃ front block, block.length = period ∧ log = front ++ (List.replicate repeats block).flatten

variable {log : List α} {repeats period : Nat}

theorem Repeats.fits (h : Repeats log repeats period) : period * repeats ≤ log.length := by
  obtain ⟨front, block, rfl, rfl⟩ := h
  rw [List.length_append, length_copies, Nat.mul_comm]
  exact Nat.le_add_left _ _

theorem repeats_iff (hrepeats : 1 ≤ repeats) (hfits : period * repeats ≤ log.length) :
    Repeats log repeats period ↔ ∀ k, 1 ≤ k → k < repeats →
      ((log.drop (log.length - period * repeats)).drop (k * period)).take period =
        (log.drop (log.length - period * repeats)).take period := by
  have hlength : (log.drop (log.length - period * repeats)).length = repeats * period := by
    rw [List.length_drop, Nat.sub_sub_self hfits, Nat.mul_comm]
  generalize htail : log.drop (log.length - period * repeats) = tail at hlength
  have hblock : (tail.take period).length = period := by
    rw [List.length_take, hlength]
    exact Nat.min_eq_left (Nat.le_mul_of_pos_left period hrepeats)
  have hequal := @eq_flatten_replicate_iff _ tail (tail.take period) repeats
  rw [hblock] at hequal
  constructor
  · rintro ⟨front, block, hsize, hlog⟩ k - hk
    have hwhole : tail = (List.replicate repeats block).flatten := by
      rw [← htail, hlog, List.length_append, length_copies, hsize, Nat.mul_comm,
        Nat.add_sub_cancel, List.drop_left]
    have hall := (eq_flatten_replicate_iff (hsize ▸ hlength)).mp hwhole
    have hfirst := hall 0 hrepeats
    rw [hsize, Nat.zero_mul, List.drop_zero] at hfirst
    rw [hfirst, ← hall k hk, hsize]
  · intro hall
    refine ⟨log.take (log.length - period * repeats), tail.take period, hblock, ?_⟩
    rw [← (hequal hlength).mpr, ← htail, List.take_append_drop]
    intro k hk
    cases k with
    | zero => rw [Nat.zero_mul, List.drop_zero]
    | succ k => exact hall (k + 1) (Nat.le_add_left 1 k) hk

end Blocks

/-- What a detector of cycles is to tell of a log. -/
structure Detects (log : List String) (minRepeats : Nat) : Prop where
  found : ∀ report, detectToolCallCycle log minRepeats = some report ↔
    report.repeats = max minRepeats 2 ∧ 1 ≤ report.period ∧ Repeats log (max minRepeats 2) report.period ∧
      ∀ period, 1 ≤ period → period < report.period → ¬ Repeats log (max minRepeats 2) period
  missed : detectToolCallCycle log minRepeats = none ↔ ∀ period, 1 ≤ period → ¬ Repeats log (max minRepeats 2) period

section Detection

variable (log : List String) (repeats : Nat)

def cyclic (period : Nat) : Bool :=
  let tail := log.drop (log.length - period * repeats)
  (List.range' 1 (repeats - 1)).all fun k => (tail.drop (k * period)).take period = tail.take period

variable {log repeats}

theorem cyclic_iff {period : Nat} (hrepeats : 2 ≤ repeats) (hfits : period * repeats ≤ log.length) :
    cyclic log repeats period = true ↔ Repeats log repeats period := by
  rw [repeats_iff (Nat.le_of_succ_le hrepeats) hfits, cyclic, List.all_eq_true]
  simp only [List.mem_range'_1, decide_eq_true_eq, and_imp]
  refine forall_congr' fun k => forall_congr' fun _ => ?_
  rw [Nat.add_sub_cancel' (Nat.le_of_succ_le hrepeats)]

theorem mem_periods {period : Nat} (hrepeats : 2 ≤ repeats) :
    period < 1 + log.length / repeats ↔ period * repeats ≤ log.length := by
  rw [Nat.lt_one_add_iff, Nat.le_div_iff_mul_le (by omega)]

theorem detects (log : List String) (minRepeats : Nat) : Detects log minRepeats := by
  have hrepeats : 2 ≤ max minRepeats 2 := Nat.le_max_right _ _
  have hcode : detectToolCallCycle log minRepeats =
      ((List.range' 1 (log.length / max minRepeats 2)).find? (cyclic log (max minRepeats 2))).map
        fun period => ⟨period, max minRepeats 2⟩ := rfl
  refine ⟨fun report => ?_, ?_⟩
  · obtain ⟨period, repeats⟩ := report
    rw [hcode, Option.map_eq_some_iff]
    simp only [CycleReport.mk.injEq, List.find?_range'_eq_some]
    constructor
    · rintro ⟨_, ⟨hcyclic, hmem, hleast⟩, rfl, rfl⟩
      obtain ⟨hpos, hless⟩ := List.mem_range'_1.mp hmem
      have hfits := (mem_periods hrepeats).mp hless
      refine ⟨rfl, hpos, (cyclic_iff hrepeats hfits).mp hcyclic, fun period hpos' hless' hrepeat => ?_⟩
      have hfalse := hleast period hpos' hless'
      rw [(cyclic_iff hrepeats hrepeat.fits).mpr hrepeat] at hfalse
      cases hfalse
    · rintro ⟨rfl, hpos, hrepeat, hleast⟩
      have hmem := List.mem_range'_1.mpr ⟨hpos, (mem_periods hrepeats).mpr hrepeat.fits⟩
      refine ⟨period, ⟨(cyclic_iff hrepeats hrepeat.fits).mpr hrepeat, hmem, fun q hq hless => ?_⟩, rfl, rfl⟩
      have hfits : q * max minRepeats 2 ≤ log.length :=
        (Nat.mul_le_mul_right _ hless.le).trans hrepeat.fits
      rw [Bool.not_eq_true', ← Bool.not_eq_true, cyclic_iff hrepeats hfits]
      exact hleast q hq hless
  · rw [hcode, Option.map_eq_none_iff, List.find?_range'_eq_none]
    constructor
    · intro hnone period hpos hrepeat
      have hfalse := hnone period hpos ((mem_periods hrepeats).mpr hrepeat.fits)
      rw [(cyclic_iff hrepeats hrepeat.fits).mpr hrepeat] at hfalse
      cases hfalse
    · intro hnone period hpos hless
      rw [Bool.not_eq_true', ← Bool.not_eq_true, cyclic_iff hrepeats ((mem_periods hrepeats).mp hless)]
      exact hnone period hpos

end Detection

section Fingerprints

def ToolCall.deed (call : ToolCall) : List Char × List Char := (call.name.toList, call.argumentsJson.toList)

def turnText (deeds : List (List Char × List Char)) : List Char :=
  List.intercalate ['\x02'] (deeds.map fun deed => deed.1 ++ '\x01' :: deed.2)

theorem turnFingerprint_toList (calls : List ToolCall) :
    (turnFingerprint calls).toList = "turn\x00".toList ++ turnText (calls.map ToolCall.deed) := by
  rw [turnFingerprint, String.toList_append, String.toList_intercalate, turnText, List.map_map, List.map_map]
  congr 2
  apply List.map_congr_left
  intro call _
  simp [ToolCall.deed]

theorem turnFingerprint_inj {calls calls' : List ToolCall} : turnFingerprint calls = turnFingerprint calls' ↔
    turnText (calls.map ToolCall.deed) = turnText (calls'.map ToolCall.deed) := by
  rw [← String.toList_inj, turnFingerprint_toList, turnFingerprint_toList, List.append_cancel_left_eq]

variable {deed deed' : List Char × List Char} {deeds deeds' : List (List Char × List Char)}

theorem turnText_cons : turnText (deed :: deeds) =
    deed.1 ++ '\x01' :: (deed.2 ++ if deeds = [] then [] else '\x02' :: turnText deeds) := by
  cases deeds with
  | nil => simp [turnText]
  | cons next deeds => simp [turnText, List.intercalate_cons_cons]

theorem turnText_concat : turnText (deeds ++ [deed]) =
    ((if deeds = [] then [] else turnText deeds ++ ['\x02']) ++ deed.1) ++ '\x01' :: deed.2 := by
  induction deeds with
  | nil => simp [turnText]
  | cons first deeds ih =>
    have hlater : deeds ++ [deed] ≠ [] := List.append_ne_nil_of_right_ne_nil _ (List.cons_ne_nil _ _)
    rw [List.cons_append, turnText_cons, if_neg hlater, ih, if_neg (List.cons_ne_nil _ _), turnText_cons]
    by_cases hdeeds : deeds = []
    · simp [hdeeds]
    · simp [hdeeds]

theorem turnText_ne_nil : turnText (deed :: deeds) ≠ [] := by
  simp [turnText_cons]

/-- From left to right: a name ends at its separator, an argument text at the next one. -/
theorem turnText_forward (h : ∀ deed ∈ deeds, '\x01' ∉ deed.1 ∧ '\x02' ∉ deed.2)
    (h' : ∀ deed ∈ deeds', '\x01' ∉ deed.1 ∧ '\x02' ∉ deed.2) (heq : turnText deeds = turnText deeds') :
    deeds = deeds' := by
  induction deeds generalizing deeds' with
  | nil =>
    cases deeds' with
    | nil => rfl
    | cons => exact absurd heq.symm turnText_ne_nil
  | cons deed deeds ih =>
    cases deeds' with
    | nil => exact absurd heq turnText_ne_nil
    | cons deed' deeds' =>
      rw [List.forall_mem_cons] at h h'
      rw [turnText_cons, turnText_cons] at heq
      obtain ⟨hname, hrest⟩ := append_sep_inj h.1.1 h'.1.1 heq
      by_cases hlast : deeds = []
      · by_cases hlast' : deeds' = []
        · rw [if_pos hlast, if_pos hlast', List.append_nil, List.append_nil] at hrest
          rw [Prod.ext hname hrest, hlast, hlast']
        · rw [if_pos hlast, if_neg hlast', List.append_nil] at hrest
          exact absurd (hrest ▸ List.mem_append_right _ List.mem_cons_self) h.1.2
      · by_cases hlast' : deeds' = []
        · rw [if_neg hlast, if_pos hlast', List.append_nil] at hrest
          exact absurd (hrest ▸ List.mem_append_right _ List.mem_cons_self) h'.1.2
        · rw [if_neg hlast, if_neg hlast'] at hrest
          obtain ⟨hargs, hlater⟩ := append_sep_inj h.1.2 h'.1.2 hrest
          rw [Prod.ext hname hargs, ih h.2 h'.2 hlater]

/-- From right to left: an argument text begins behind its separator, a name behind the one before. -/
theorem turnText_backward (h : ∀ deed ∈ deeds, '\x02' ∉ deed.1 ∧ '\x01' ∉ deed.2)
    (h' : ∀ deed ∈ deeds', '\x02' ∉ deed.1 ∧ '\x01' ∉ deed.2) (heq : turnText deeds = turnText deeds') :
    deeds = deeds' := by
  induction deeds using List.reverseRecOn generalizing deeds' with
  | nil =>
    cases deeds' with
    | nil => rfl
    | cons => exact absurd heq.symm turnText_ne_nil
  | append_singleton deeds deed ih =>
    rcases List.eq_nil_or_concat deeds' with rfl | ⟨deeds', deed', rfl⟩
    · rw [turnText_concat] at heq
      exact absurd (List.append_eq_nil_iff.mp heq).2 (List.cons_ne_nil _ _)
    · rw [List.concat_eq_append] at heq h' ⊢
      simp only [List.forall_mem_append, List.forall_mem_singleton] at h h'
      rw [turnText_concat, turnText_concat] at heq
      obtain ⟨hbefore, hargs⟩ := append_sep_inj_right h.2.2 h'.2.2 heq
      by_cases hfirst : deeds = []
      · by_cases hfirst' : deeds' = []
        · rw [if_pos hfirst, if_pos hfirst', List.nil_append, List.nil_append] at hbefore
          rw [Prod.ext hbefore hargs, hfirst, hfirst']
        · rw [if_pos hfirst, if_neg hfirst', List.nil_append, List.append_assoc] at hbefore
          exact absurd (hbefore ▸ List.mem_append_right _ List.mem_cons_self) h.2.1
      · by_cases hfirst' : deeds' = []
        · rw [if_neg hfirst, if_pos hfirst', List.nil_append, List.append_assoc] at hbefore
          exact absurd (hbefore ▸ List.mem_append_right _ List.mem_cons_self) h'.2.1
        · rw [if_neg hfirst, if_neg hfirst', List.append_assoc, List.append_assoc] at hbefore
          obtain ⟨hearlier, hname⟩ := append_sep_inj_right h.2.1 h'.2.1 hbefore
          rw [Prod.ext hname hargs, ih h.1 h'.1 hearlier]

def Spelled (names args : Char → Prop) (calls : List ToolCall) : Prop :=
  ∀ call ∈ calls, (∀ c ∈ call.name.toList, names c) ∧ ∀ c ∈ call.argumentsJson.toList, args c

/-- No separator may stand on both sides, and no side may hold both separators. -/
def Parted (names args : Char → Prop) : Prop :=
  ¬(names '\x01' ∧ args '\x01') ∧ ¬(names '\x02' ∧ args '\x02') ∧ ¬(names '\x01' ∧ names '\x02') ∧
    ¬(args '\x01' ∧ args '\x02')

variable {names args : Char → Prop} {calls calls' : List ToolCall}

theorem Spelled.lacks {c c' : Char} (h : Spelled names args calls) (hc : ¬ names c) (hc' : ¬ args c') :
    ∀ deed ∈ calls.map ToolCall.deed, c ∉ deed.1 ∧ c' ∉ deed.2 :=
  List.forall_mem_map.mpr fun call hcall =>
    ⟨mt ((h call hcall).1 c) hc, mt ((h call hcall).2 c') hc'⟩

theorem deeds_eq_of_parted (hparted : Parted names args) (h : Spelled names args calls)
    (h' : Spelled names args calls') (heq : turnFingerprint calls = turnFingerprint calls') :
    calls.map ToolCall.deed = calls'.map ToolCall.deed := by
  obtain ⟨hone, htwo, hnames, hargs⟩ := hparted
  have htext := turnFingerprint_inj.mp heq
  by_cases hname : names '\x01'
  · have hfree : ¬ names '\x02' := fun h => hnames ⟨hname, h⟩
    have hfree' : ¬ args '\x01' := fun h => hone ⟨hname, h⟩
    exact turnText_backward (h.lacks hfree hfree') (h'.lacks hfree hfree') htext
  · by_cases harg : args '\x02'
    · have hfree : ¬ names '\x02' := fun h => htwo ⟨h, harg⟩
      have hfree' : ¬ args '\x01' := fun h => hargs ⟨h, harg⟩
      exact turnText_backward (h.lacks hfree hfree') (h'.lacks hfree hfree') htext
    · exact turnText_forward (h.lacks hname harg) (h'.lacks hname harg) htext

theorem parted_of_deeds_eq
    (h : ∀ calls calls', Spelled names args calls → Spelled names args calls' →
      turnFingerprint calls = turnFingerprint calls' → calls.map ToolCall.deed = calls'.map ToolCall.deed) :
    Parted names args := by
  refine ⟨?_, ?_, ?_, ?_⟩
  · rintro ⟨hname, harg⟩
    have hsame := h [⟨"", "", "\x01"⟩] [⟨"", "\x01", ""⟩] (by simp [Spelled, harg]) (by simp [Spelled, hname]) rfl
    revert hsame
    decide
  · rintro ⟨hname, harg⟩
    have hsame := h [⟨"", "", ""⟩, ⟨"", "\x02", ""⟩] [⟨"", "", "\x02"⟩, ⟨"", "", ""⟩] (by simp [Spelled, hname])
      (by simp [Spelled, harg]) rfl
    revert hsame
    decide
  · rintro ⟨hone, htwo⟩
    have hsame := h [⟨"", "\x01\x02", ""⟩] [⟨"", "", ""⟩, ⟨"", "", ""⟩] (by simp [Spelled, hone, htwo])
      (by simp [Spelled]) rfl
    revert hsame
    decide
  · rintro ⟨hone, htwo⟩
    have hsame := h [⟨"", "", "\x02\x01"⟩] [⟨"", "", ""⟩, ⟨"", "", ""⟩] (by simp [Spelled, hone, htwo])
      (by simp [Spelled]) rfl
    revert hsame
    decide

/-- Cycles are found as they should be; turns are told apart exactly as far as the separators keep their places. -/
theorem turns_apart_iff (names args : Char → Prop) :
    (∀ log minRepeats, Detects log minRepeats) ∧
      ((∀ calls calls', Spelled names args calls → Spelled names args calls' →
        turnFingerprint calls = turnFingerprint calls' → calls.map ToolCall.deed = calls'.map ToolCall.deed) ↔
        Parted names args) :=
  ⟨detects, parted_of_deeds_eq, fun hparted _ _ => deeds_eq_of_parted hparted⟩

theorem turns_alike :
    turnFingerprint [⟨"1", "read", "a\x02read\x01b"⟩] = turnFingerprint [⟨"1", "read", "a"⟩, ⟨"2", "read", "b"⟩] ∧
      [ToolCall.mk "1" "read" "a\x02read\x01b"].map ToolCall.deed ≠
        [ToolCall.mk "1" "read" "a", ⟨"2", "read", "b"⟩].map ToolCall.deed :=
  ⟨rfl, by decide⟩

example : detectToolCallCycle ["a", "b", "c", "b", "c", "b", "c"] 3 = some ⟨2, 3⟩ := by decide

end Fingerprints

end Cosmon.Harness
