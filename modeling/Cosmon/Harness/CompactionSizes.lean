import Cosmon.Harness.Compactions
import Mathlib.Algebra.BigOperators.Group.List.Basic
import Mathlib.Algebra.Ring.Nat

namespace Cosmon.Harness

section summaries

def takeBytes (count : Nat) (text : String) : Nat := ((text.toList.take count).map Char.utf8Size).sum

def lineBytes (remaining : Nat) (role text : String) : Nat :=
  let bodyBudget := min remaining 800 - (role.utf8ByteSize + 2)
  role.utf8ByteSize + 2 +
    (if text.utf8ByteSize ≤ bodyBudget then text.utf8ByteSize else takeBytes (bodyBudget - 2) text + 3) + 1

def excerptBytes : Nat → List (String × String) → Nat
  | _, [] => 0
  | remaining, (role, text) :: rest =>
    if remaining = 0 ∨ remaining < lineBytes remaining role text then 0
    else lineBytes remaining role text + excerptBytes (remaining - lineBytes remaining role text) rest

def summaryBytes (cap : Nat) (chunks : List (String × String)) : Nat :=
  summaryHeader.utf8ByteSize + excerptBytes (cap - summaryHeader.utf8ByteSize) chunks

theorem utf8ByteSize_ofList_sum (text : List Char) :
    (String.ofList text).utf8ByteSize = (text.map Char.utf8Size).sum := by
  induction text with
  | nil => rfl
  | cons c rest ih =>
    rw [String.ofList_cons, String.utf8ByteSize_append, String.utf8ByteSize_singleton, ih, List.map_cons,
      List.sum_cons]

theorem utf8ByteSize_summaryLine (remaining : Nat) (role text : String) :
    (summaryLine remaining role text).utf8ByteSize = lineBytes remaining role text := by
  have hcolon : (": " : String).utf8ByteSize = 2 := by decide
  have hnewline : ("\n" : String).utf8ByteSize = 1 := by decide
  have hdots : ("…" : String).utf8ByteSize = 3 := by decide
  unfold summaryLine lineBytes takeBytes
  simp only [String.utf8ByteSize_append, hcolon, hnewline]
  split
  · rfl
  · rw [String.utf8ByteSize_append, utf8ByteSize_ofList_sum, hdots]

theorem utf8ByteSize_summaryLines (chunks : List (String × String)) (remaining : Nat) (out : String) :
    (summaryLines remaining chunks out).utf8ByteSize = out.utf8ByteSize + excerptBytes remaining chunks := by
  induction chunks generalizing remaining out with
  | nil => rfl
  | cons chunk rest ih =>
    obtain ⟨role, text⟩ := chunk
    rw [summaryLines_cons, excerptBytes, utf8ByteSize_summaryLine]
    by_cases hzero : remaining = 0
    · rw [if_pos hzero, if_pos (Or.inl hzero), Nat.add_zero]
    · by_cases hfits : remaining < lineBytes remaining role text
      · rw [if_neg hzero, if_pos hfits, if_pos (Or.inr hfits), Nat.add_zero]
      · rw [if_neg hzero, if_neg hfits, if_neg (not_or.mpr ⟨hzero, hfits⟩), ih, String.utf8ByteSize_append,
          utf8ByteSize_summaryLine, Nat.add_assoc]

theorem excerptBytes_le (chunks : List (String × String)) (remaining : Nat) :
    excerptBytes remaining chunks ≤ remaining := by
  induction chunks generalizing remaining with
  | nil => exact Nat.zero_le _
  | cons chunk rest ih =>
    obtain ⟨role, text⟩ := chunk
    rw [excerptBytes]
    split
    · exact Nat.zero_le _
    · rename_i hfits
      have hrest := ih (remaining - lineBytes remaining role text)
      omega

theorem utf8ByteSize_buildSummaryBody (chunks : List (String × String)) (cap : Nat) :
    (buildSummaryBody chunks cap).utf8ByteSize = summaryBytes cap chunks := by
  rw [buildSummaryBody_eq, utf8ByteSize_summaryLines]
  rfl

theorem summaryBytes_le (cap : Nat) (chunks : List (String × String)) :
    summaryBytes cap chunks ≤ max cap summaryHeader.utf8ByteSize := by
  have h := excerptBytes_le chunks (cap - summaryHeader.utf8ByteSize)
  unfold summaryBytes
  omega

end summaries

section totals

theorem totalLen_eq (lens : List Nat) : totalLen lens = lens.sum := by
  have h : ∀ (lens : List Nat) (n : Nat), lens.foldl (· + ·) n = n + lens.sum := by
    intro lens
    induction lens with
    | nil => exact fun n => rfl
    | cons len rest ih =>
      intro n
      rw [List.foldl_cons, ih, List.sum_cons, Nat.add_assoc]
  rw [totalLen, h, Nat.zero_add]

theorem totalLen_replace {α : Type} (size : α → Nat) (xs : List α) (a : α) {seed cut : Nat} (h : seed ≤ cut) :
    totalLen ((xs.take seed ++ [a] ++ xs.drop cut).map size) + totalLen (((xs.take cut).drop seed).map size) =
      totalLen (xs.map size) + size a := by
  have hseed : xs.take seed = (xs.take cut).take seed := by rw [List.take_take, Nat.min_eq_left h]
  have hsplit : (xs.map size).sum = ((xs.take cut).map size).sum + ((xs.drop cut).map size).sum := by
    rw [← List.sum_append, ← List.map_append, List.take_append_drop]
  have hfront : ((xs.take cut).map size).sum =
      (((xs.take cut).take seed).map size).sum + (((xs.take cut).drop seed).map size).sum := by
    rw [← List.sum_append, ← List.map_append, List.take_append_drop]
  simp only [totalLen_eq, List.map_append, List.sum_append, List.map_singleton, List.sum_singleton, hseed]
  omega

/-- Whether an estimate grows, in bytes: by the quarter tokens that were cut off before. -/
theorem clamp_le_iff {total dropped summary total' : Nat} (h : total' + dropped = total + summary) :
    clamp (total' / 4) ≤ clamp (total / 4) ↔
      summary + total % 4 < dropped + 4 ∨ 4294967295 ≤ total / 4 := by
  have hpow : 2 ^ 32 - 1 = 4294967295 := rfl
  unfold clamp
  rw [hpow]
  omega

end totals

def summaryCap (targetTokens : Nat) : Nat := clamp (targetTokens * 4) / 2

namespace OpenAI

variable {log compacted : Log} {targetTokens cut : Nat} {policy : CompactionPolicy} {report : CompactionReport}

def contentBytes (m : ChatMessage) : Nat := (m.content.map String.utf8ByteSize).getD 0

def logBytes (log : Log) : Nat := totalLen (log.map contentBytes)

def dropped (log : Log) (cut : Nat) : Log := (log.take cut).drop 2

def chunks (log : Log) (cut : Nat) : List (String × String) :=
  (dropped log cut).map fun m => (m.role, renderForSummary m)

def Rests (log : Log) (start cut : Nat) : Prop :=
  Relation.ReflTransGen (Moves log) start cut ∧ callsBefore log cut = none ∧ ∃ m, log[cut]? = some m ∧ m.role ≠ "tool"

def Applies (log : Log) (targetTokens : Nat) (policy : CompactionPolicy) : Prop :=
  targetTokens < estimateTokens log ∧ min log.length 2 + policy.preserveRecent < 18446744073709551616 ∧
    min log.length 2 + policy.preserveRecent < log.length

theorem rests_cases {start : Nat} : Rests log start cut ↔
    (start = cut ∧ callsBefore log cut = none ∧ ∃ m, log[cut]? = some m ∧ m.role ≠ "tool") ∨
      ∃ next, Moves log start next ∧ Rests log next cut := by
  constructor
  · rintro ⟨hmoves, hcut⟩
    obtain rfl | ⟨next, hmove, hrest⟩ := Relation.ReflTransGen.cases_head hmoves
    · exact Or.inl ⟨rfl, hcut⟩
    · exact Or.inr ⟨next, hmove, hrest, hcut⟩
  · rintro (⟨rfl, hcut⟩ | ⟨next, hmove, hrest, hcut⟩)
    · exact ⟨.refl, hcut⟩
    · exact ⟨.head hmove hrest, hcut⟩

theorem not_rests {split : Nat} {m : ChatMessage} {calls : List WireToolCall} (hm : log[split]? = some m)
    (hrole : m.role ≠ "tool") (hbefore : callsBefore log split = some calls)
    (hstays : calls = [] ∨ log.length ≤ split + calls.length) : ¬ Rests log split cut := by
  rw [rests_cases]
  rintro (⟨rfl, hnone, -⟩ | ⟨next, hmove, -⟩)
  · cases hbefore.symm.trans hnone
  · obtain ⟨calls', heq, hne, hlt, -⟩ := (moves_turn hm hrole).mp hmove
    cases hbefore.symm.trans heq
    obtain rfl | hle := hstays
    · exact hne rfl
    · exact absurd hlt (Nat.not_lt.mpr hle)

theorem slide_found_iff {seedLen split : Nat} (hlt : seedLen < split) :
    slide log seedLen split = .found cut ↔ Rests log split cut := by
  fun_induction slide log seedLen split with
  | case1 split hle => omega
  | case2 split hle hlen hrole ih =>
    have hm : log[split]? = some log[split] := List.getElem?_eq_getElem hlen
    rw [ih (by omega), @rests_cases log cut split]
    simp only [moves_result hm hrole, exists_eq_left]
    refine ⟨Or.inr, fun h => h.resolve_left ?_⟩
    rintro ⟨rfl, -, m, hm', hrole'⟩
    obtain rfl := Option.some.inj (hm.symm.trans hm')
    exact hrole' hrole
  | case3 split hle hlen hrole hprev =>
    have hm : log[split]? = some log[split] := List.getElem?_eq_getElem hlen
    have hbefore : callsBefore log split = none := hprev
    rw [rests_cases]
    simp only [moves_turn hm hrole, hbefore, reduceCtorEq, false_and, exists_false, or_false, Split.found.injEq]
    refine ⟨?_, fun h => h.1⟩
    rintro rfl
    exact ⟨rfl, hbefore, _, hm, hrole⟩
  | case4 split hle hlen hrole calls hprev hfits =>
    have hm : log[split]? = some log[split] := List.getElem?_eq_getElem hlen
    exact iff_of_false (by rintro ⟨⟩) (not_rests hm hrole hprev (Or.inr hfits))
  | case5 split hle hlen hrole calls hprev hfits hcalls =>
    have hm : log[split]? = some log[split] := List.getElem?_eq_getElem hlen
    exact iff_of_false (by rintro ⟨⟩) (not_rests hm hrole hprev (Or.inl (List.length_eq_zero_iff.mp hcalls)))
  | case6 split hle hlen hrole calls hprev hfits hcalls ih =>
    have hm : log[split]? = some log[split] := List.getElem?_eq_getElem hlen
    have hbefore : callsBefore log split = some calls := hprev
    have hne : calls ≠ [] := fun h => hcalls (List.length_eq_zero_iff.mpr h)
    have hmoves : split + calls.length < log.length := by omega
    rw [ih (by omega), @rests_cases log cut split]
    refine ⟨fun h => Or.inr ⟨_, (moves_turn hm hrole).mpr ⟨calls, hbefore, hne, hmoves, rfl⟩, h⟩, ?_⟩
    rintro (⟨rfl, hnone, -⟩ | ⟨next, hmove, hrest⟩)
    · cases hbefore.symm.trans hnone
    · obtain ⟨calls', heq, -, -, rfl⟩ := (moves_turn hm hrole).mp hmove
      cases hbefore.symm.trans heq
      exact hrest
  | case7 split hle hout =>
    have hnone : log[split]? = none := List.getElem?_eq_none (Nat.le_of_not_lt hout)
    refine iff_of_false (by rintro ⟨⟩) fun h => ?_
    obtain ⟨rfl, -, m, hm, -⟩ | ⟨next, hmove, -⟩ := rests_cases.mp h
    · cases hnone.symm.trans hm
    · cases hmove with
      | result hm => cases hnone.symm.trans hm
      | turn hm => cases hnone.symm.trans hm

def summarised (log : Log) (targetTokens cut : Nat) : Log :=
  log.take 2 ++ [userMessage (buildSummaryBody (chunks log cut) (summaryCap targetTokens))] ++ log.drop cut

theorem compactChecked_of_not_applies (h : ¬ Applies log targetTokens policy) :
    compactChecked log targetTokens policy ≠ .ok compacted report := by
  unfold compactChecked
  by_cases hsmall : estimateTokens log ≤ targetTokens
  · rw [if_pos hsmall]
    exact nofun
  rw [if_neg hsmall]
  by_cases hfits : 18446744073709551616 ≤ min log.length 2 + policy.preserveRecent
  · rw [if_pos hfits]
    exact nofun
  rw [if_neg hfits, compact, if_neg hsmall]
  by_cases hshort : log.length ≤ min log.length 2 + policy.preserveRecent
  · rw [if_pos hshort]
    exact nofun
  · exact absurd ⟨Nat.lt_of_not_le hsmall, Nat.lt_of_not_le hfits, Nat.lt_of_not_le hshort⟩ h

theorem compactChecked_ok_iff (h : Applies log targetTokens policy) :
    compactChecked log targetTokens policy = .ok compacted report ↔
      ∃ cut, Rests log (log.length - policy.preserveRecent) cut ∧ compacted = summarised log targetTokens cut ∧
        report = ⟨estimateTokens log, estimateTokens (summarised log targetTokens cut), cut - 2⟩ := by
  obtain ⟨hlarge, hfits, hlong⟩ := h
  have hseed : min log.length 2 = 2 := by omega
  have hcut : 2 < log.length - policy.preserveRecent := by omega
  unfold compactChecked
  rw [if_neg (Nat.not_le.mpr hlarge), if_neg (Nat.not_le.mpr hfits), compact, if_neg (Nat.not_le.mpr hlarge),
    if_neg (Nat.not_le.mpr hlong), hseed]
  simp only [← slide_found_iff hcut]
  cases hslide : slide log 2 (log.length - policy.preserveRecent) with
  | found found =>
    simp only [Compacted.ok.injEq, Split.found.injEq]
    constructor
    · rintro ⟨rfl, rfl⟩
      exact ⟨found, rfl, rfl, rfl⟩
    · rintro ⟨cut, rfl, rfl, rfl⟩
      exact ⟨rfl, rfl⟩
  | wouldBreak => simp
  | outOfRange => simp
  | endless => simp

/-- The log's estimate does not grow, and the summary is within its cap and its header. -/
def Valve (log : Log) (targetTokens : Nat) (policy : CompactionPolicy) : Prop :=
  ∀ compacted report, compactChecked log targetTokens policy = .ok compacted report →
    estimateTokens compacted ≤ estimateTokens log ∧
    ∃ summary kept, compacted = log.take 2 ++ userMessage summary :: kept ∧
      summary.utf8ByteSize ≤ summaryCap targetTokens + summaryHeader.utf8ByteSize

/-- The dropped contents have as many bytes as the summary, but for the quarter token that the
estimate cuts off, or the estimate is at its upper end anyway. -/
def Outweighs (log : Log) (targetTokens : Nat) (policy : CompactionPolicy) : Prop :=
  Applies log targetTokens policy → ∀ cut, Rests log (log.length - policy.preserveRecent) cut →
    summaryBytes (summaryCap targetTokens) (chunks log cut) + logBytes log % 4 < logBytes (dropped log cut) + 4 ∨
      4294967295 ≤ logBytes log / 4

theorem rests_ge {start : Nat} (h : Rests log start cut) : start ≤ cut := by
  have hmono : ∀ {a b : Nat}, Moves log a b → a ≤ b := by
    intro a b hmove
    cases hmove <;> omega
  obtain ⟨hmoves, -⟩ := h
  induction hmoves with
  | refl => exact Nat.le_refl _
  | tail _ hmove ih => exact Nat.le_trans ih (hmono hmove)

theorem Applies.seed_le (h : Applies log targetTokens policy) (hcut : log.length - policy.preserveRecent ≤ cut) :
    2 ≤ cut := by
  obtain ⟨-, -, hlong⟩ := h
  omega

theorem estimate_summarised (hcut : 2 ≤ cut) : estimateTokens (summarised log targetTokens cut) ≤ estimateTokens log ↔
    summaryBytes (summaryCap targetTokens) (chunks log cut) + logBytes log % 4 < logBytes (dropped log cut) + 4 ∨
      4294967295 ≤ logBytes log / 4 := by
  have h := totalLen_replace contentBytes log
    (userMessage (buildSummaryBody (chunks log cut) (summaryCap targetTokens))) hcut
  have hsummary : contentBytes (userMessage (buildSummaryBody (chunks log cut) (summaryCap targetTokens))) =
      summaryBytes (summaryCap targetTokens) (chunks log cut) := utf8ByteSize_buildSummaryBody _ _
  rw [hsummary] at h
  exact clamp_le_iff h

theorem valve_iff : Valve log targetTokens policy ↔ Outweighs log targetTokens policy := by
  constructor
  · intro hvalve happlies cut hrests
    rw [← estimate_summarised (happlies.seed_le (rests_ge hrests))]
    exact (hvalve _ _ ((compactChecked_ok_iff happlies).mpr ⟨cut, hrests, rfl, rfl⟩)).1
  · intro houtweighs compacted report hok
    have happlies : Applies log targetTokens policy := by
      by_contra hnot
      exact compactChecked_of_not_applies hnot hok
    obtain ⟨cut, hrests, rfl, -⟩ := (compactChecked_ok_iff happlies).mp hok
    refine ⟨(estimate_summarised (happlies.seed_le (rests_ge hrests))).mpr (houtweighs happlies cut hrests), _,
      log.drop cut, List.append_assoc _ _ _, ?_⟩
    rw [utf8ByteSize_buildSummaryBody]
    have hle := summaryBytes_le (summaryCap targetTokens) (chunks log cut)
    omega

end OpenAI

namespace Anthropic

variable {log compacted : Log} {messages : List ApiMessage} {targetTokens cut : Nat} {policy : CompactionPolicy}
  {report : CompactionReport}

def logBytes (log : Log) : Nat := log.system.utf8ByteSize + totalLen (log.messages.map ApiMessage.charLen)

def dropped (log : Log) (cut : Nat) : List ApiMessage := (log.messages.take cut).drop 1

def chunks (log : Log) (cut : Nat) : List (String × String) :=
  (dropped log cut).map fun m => (m.role, renderForSummary m)

/-- The first cut from the ideal one on that parts no turn from its results. -/
def Rests (messages : List ApiMessage) (start cut : Nat) : Prop :=
  start ≤ cut ∧ cut < messages.length ∧ ¬ Inside messages cut ∧ ∀ c, start ≤ c → c < cut → Inside messages c

def Applies (log : Log) (targetTokens : Nat) (policy : CompactionPolicy) : Prop :=
  targetTokens < estimateTokens log ∧ min log.messages.length 1 + policy.preserveRecent < 18446744073709551616 ∧
    min log.messages.length 1 + policy.preserveRecent < log.messages.length

theorem rests_succ {start : Nat} (hinside : Inside messages start) :
    Rests messages (start + 1) cut ↔ Rests messages start cut := by
  constructor
  · rintro ⟨hle, hlt, hrests, hall⟩
    refine ⟨Nat.le_of_succ_le hle, hlt, hrests, fun c hc hlt' => ?_⟩
    obtain rfl | hc := Nat.eq_or_lt_of_le hc
    · exact hinside
    · exact hall c hc hlt'
  · rintro ⟨hle, hlt, hrests, hall⟩
    obtain rfl | hle := Nat.eq_or_lt_of_le hle
    · exact absurd hinside hrests
    · exact ⟨hle, hlt, hrests, fun c hc => hall c (Nat.le_of_succ_le hc)⟩

theorem slide_eq_iff {seedLen split : Nat} (hlt : seedLen < split) :
    (slide messages seedLen split = cut ∧ cut < messages.length) ↔ Rests messages split cut := by
  fun_induction slide messages seedLen split with
  | case1 split hin hresults ih =>
    refine (ih (by omega)).trans (rests_succ (Or.inl ?_))
    rw [List.getElem?_eq_getElem hin.2]
    exact hresults
  | case2 split hin hresults hprev ih => exact (ih (by omega)).trans (rests_succ (Or.inr hprev))
  | case3 split hin hresults hprev =>
    have hrests : ¬ Inside messages split := by
      rw [Inside, List.getElem?_eq_getElem hin.2]
      exact not_or.mpr ⟨hresults, hprev⟩
    constructor
    · rintro ⟨rfl, -⟩
      exact ⟨Nat.le_refl _, hin.2, hrests, fun c hc hlt => absurd hlt (Nat.not_lt.mpr hc)⟩
    · rintro ⟨hle, hlt, -, hall⟩
      obtain rfl | hlt' := Nat.eq_or_lt_of_le hle
      · exact ⟨rfl, hlt⟩
      · exact absurd (hall split (Nat.le_refl _) hlt') hrests
  | case4 split hout =>
    refine iff_of_false ?_ ?_
    · rintro ⟨rfl, hlt'⟩
      exact hout ⟨hlt, hlt'⟩
    · rintro ⟨hle, hlt', -⟩
      exact hout ⟨hlt, Nat.lt_of_le_of_lt hle hlt'⟩

def summarised (log : Log) (targetTokens cut : Nat) : Log where
  system := log.system
  messages := log.messages.take 1 ++ [userMessage (buildSummaryBody (chunks log cut) (summaryCap targetTokens))] ++
    log.messages.drop cut

theorem compactChecked_of_not_applies (h : ¬ Applies log targetTokens policy) :
    compactChecked log targetTokens policy ≠ .ok compacted report := by
  unfold compactChecked
  by_cases hsmall : estimateTokens log ≤ targetTokens
  · rw [if_pos hsmall]
    exact nofun
  rw [if_neg hsmall]
  by_cases hfits : 18446744073709551616 ≤ min log.messages.length 1 + policy.preserveRecent
  · rw [if_pos hfits]
    exact nofun
  rw [if_neg hfits, compact, if_neg hsmall]
  by_cases hshort : log.messages.length ≤ min log.messages.length 1 + policy.preserveRecent
  · rw [if_pos hshort]
    exact nofun
  · exact absurd ⟨Nat.lt_of_not_le hsmall, Nat.lt_of_not_le hfits, Nat.lt_of_not_le hshort⟩ h

theorem compactChecked_ok_iff (h : Applies log targetTokens policy) :
    compactChecked log targetTokens policy = .ok compacted report ↔
      ∃ cut, Rests log.messages (log.messages.length - policy.preserveRecent) cut ∧
        compacted = summarised log targetTokens cut ∧
        report = ⟨estimateTokens log, estimateTokens (summarised log targetTokens cut), cut - 1⟩ := by
  obtain ⟨hlarge, hfits, hlong⟩ := h
  have hseed : min log.messages.length 1 = 1 := by omega
  have hcut : 1 < log.messages.length - policy.preserveRecent := by omega
  unfold compactChecked
  rw [if_neg (Nat.not_le.mpr hlarge), if_neg (Nat.not_le.mpr hfits), compact, if_neg (Nat.not_le.mpr hlarge),
    if_neg (Nat.not_le.mpr hlong), hseed]
  simp only [← slide_eq_iff hcut]
  by_cases hend : log.messages.length ≤ slide log.messages 1 (log.messages.length - policy.preserveRecent)
  · rw [if_pos hend]
    refine iff_of_false (by rintro ⟨⟩) ?_
    rintro ⟨cut, ⟨rfl, hlt⟩, -⟩
    exact absurd hlt (Nat.not_lt.mpr hend)
  · rw [if_neg hend, Compacted.ok.injEq]
    constructor
    · rintro ⟨rfl, rfl⟩
      exact ⟨_, ⟨rfl, Nat.lt_of_not_le hend⟩, rfl, rfl⟩
    · rintro ⟨cut, ⟨rfl, -⟩, rfl, rfl⟩
      exact ⟨rfl, rfl⟩

/-- The log's estimate does not grow, and the summary is within its cap and its header. -/
def Valve (log : Log) (targetTokens : Nat) (policy : CompactionPolicy) : Prop :=
  ∀ compacted report, compactChecked log targetTokens policy = .ok compacted report →
    estimateTokens compacted ≤ estimateTokens log ∧
    ∃ summary kept, compacted.messages = log.messages.take 1 ++ userMessage summary :: kept ∧
      summary.utf8ByteSize ≤ summaryCap targetTokens + summaryHeader.utf8ByteSize

/-- The dropped contents have as many bytes as the summary, but for the quarter token that the
estimate cuts off, or the estimate is at its upper end anyway. -/
def Outweighs (log : Log) (targetTokens : Nat) (policy : CompactionPolicy) : Prop :=
  Applies log targetTokens policy → ∀ cut, Rests log.messages (log.messages.length - policy.preserveRecent) cut →
    summaryBytes (summaryCap targetTokens) (chunks log cut) + logBytes log % 4 <
        totalLen ((dropped log cut).map ApiMessage.charLen) + 4 ∨
      4294967295 ≤ logBytes log / 4

theorem Applies.seed_le (h : Applies log targetTokens policy)
    (hcut : log.messages.length - policy.preserveRecent ≤ cut) : 1 ≤ cut := by
  obtain ⟨-, -, hlong⟩ := h
  omega

theorem estimate_summarised (hcut : 1 ≤ cut) : estimateTokens (summarised log targetTokens cut) ≤ estimateTokens log ↔
    summaryBytes (summaryCap targetTokens) (chunks log cut) + logBytes log % 4 <
        totalLen ((dropped log cut).map ApiMessage.charLen) + 4 ∨
      4294967295 ≤ logBytes log / 4 := by
  have h := totalLen_replace ApiMessage.charLen log.messages
    (userMessage (buildSummaryBody (chunks log cut) (summaryCap targetTokens))) hcut
  have hsummary : (userMessage (buildSummaryBody (chunks log cut) (summaryCap targetTokens))).charLen =
      summaryBytes (summaryCap targetTokens) (chunks log cut) := utf8ByteSize_buildSummaryBody _ _
  rw [hsummary] at h
  refine clamp_le_iff ?_
  rw [Nat.add_assoc, Nat.add_assoc]
  exact congrArg (log.system.utf8ByteSize + ·) h

theorem valve_iff : Valve log targetTokens policy ↔ Outweighs log targetTokens policy := by
  constructor
  · intro hvalve happlies cut hrests
    rw [← estimate_summarised (happlies.seed_le hrests.1)]
    exact (hvalve _ _ ((compactChecked_ok_iff happlies).mpr ⟨cut, hrests, rfl, rfl⟩)).1
  · intro houtweighs compacted report hok
    have happlies : Applies log targetTokens policy := by
      by_contra hnot
      exact compactChecked_of_not_applies hnot hok
    obtain ⟨cut, hrests, rfl, -⟩ := (compactChecked_ok_iff happlies).mp hok
    refine ⟨(estimate_summarised (happlies.seed_le hrests.1)).mpr (houtweighs happlies cut hrests), _,
      log.messages.drop cut, List.append_assoc _ _ _, ?_⟩
    rw [utf8ByteSize_buildSummaryBody]
    have hle := summaryBytes_le (summaryCap targetTokens) (chunks log cut)
    omega

end Anthropic

section runs

variable {L C : Type}

def AllAlong (step : L → C → L) (fits : L → C → Prop) : L → List C → Prop
  | _, [] => True
  | log, c :: rest => fits log c ∧ AllAlong step fits (step log c) rest

theorem AllAlong.size_le {step : L → C → L} {fits : L → C → Prop} {size : L → Nat}
    (hstep : ∀ log c, fits log c → size (step log c) ≤ size log) {cs : List C} {log : L}
    (h : AllAlong step fits log cs) : size (cs.foldl step log) ≤ size log := by
  induction cs generalizing log with
  | nil => exact Nat.le_refl _
  | cons c rest ih => exact Nat.le_trans (ih h.2) (hstep log c h.1)

end runs

def OpenAI.recompact (log : OpenAI.Log) (call : Nat × CompactionPolicy) : OpenAI.Log :=
  (OpenAI.compactChecked log call.1 call.2).left log

def Anthropic.recompact (log : Anthropic.Log) (call : Nat × CompactionPolicy) : Anthropic.Log :=
  (Anthropic.compactChecked log call.1 call.2).left log

theorem OpenAI.recompact_le {log : OpenAI.Log} {call : Nat × CompactionPolicy} (h : OpenAI.Valve log call.1 call.2) :
    OpenAI.estimateTokens (OpenAI.recompact log call) ≤ OpenAI.estimateTokens log := by
  unfold OpenAI.recompact
  cases hok : OpenAI.compactChecked log call.1 call.2 with
  | ok compacted report => exact (h compacted report hok).1
  | error e => exact Nat.le_refl _
  | panicked => exact Nat.le_refl _
  | endless => exact Nat.le_refl _

theorem Anthropic.recompact_le {log : Anthropic.Log} {call : Nat × CompactionPolicy}
    (h : Anthropic.Valve log call.1 call.2) :
    Anthropic.estimateTokens (Anthropic.recompact log call) ≤ Anthropic.estimateTokens log := by
  unfold Anthropic.recompact
  cases hok : Anthropic.compactChecked log call.1 call.2 with
  | ok compacted report => exact (h compacted report hok).1
  | error e => exact Nat.le_refl _
  | panicked => exact Nat.le_refl _
  | endless => exact Nat.le_refl _

/-- A compaction does not grow the log exactly where the dropped contents outweigh the summary,
and then no run of compactions grows it. -/
theorem valves_iff (chat : OpenAI.Log) (api : Anthropic.Log) (targetTokens : Nat) (policy : CompactionPolicy)
    (calls : List (Nat × CompactionPolicy)) :
    (OpenAI.Valve chat targetTokens policy ↔ OpenAI.Outweighs chat targetTokens policy) ∧
    (Anthropic.Valve api targetTokens policy ↔ Anthropic.Outweighs api targetTokens policy) ∧
    (AllAlong OpenAI.recompact (fun log call => OpenAI.Outweighs log call.1 call.2) chat calls →
      OpenAI.estimateTokens (calls.foldl OpenAI.recompact chat) ≤ OpenAI.estimateTokens chat) ∧
    (AllAlong Anthropic.recompact (fun log call => Anthropic.Outweighs log call.1 call.2) api calls →
      Anthropic.estimateTokens (calls.foldl Anthropic.recompact api) ≤ Anthropic.estimateTokens api) :=
  ⟨OpenAI.valve_iff, Anthropic.valve_iff,
    fun h => h.size_le fun _ _ hfits => OpenAI.recompact_le (OpenAI.valve_iff.mpr hfits),
    fun h => h.size_le fun _ _ hfits => Anthropic.recompact_le (Anthropic.valve_iff.mpr hfits)⟩

def shortExchange : OpenAI.Log :=
  [⟨"system", some "Work.", none, none, none⟩, OpenAI.userMessage "Go on.",
    ⟨"assistant", some "Done.", none, none, none⟩, OpenAI.userMessage "Thanks."]

theorem summaryHeader_bytes : summaryHeader.utf8ByteSize = 173 := by decide +kernel

/-- A summary of one short message is longer than the message. -/
theorem compact_grows : OpenAI.invariantWellFormed shortExchange = true ∧
    ¬ OpenAI.Valve shortExchange 0 { preserveRecent := 1 } := by
  refine ⟨?_, fun h => ?_⟩
  · unfold shortExchange
    rw [OpenAI.wellFormed_plain rfl, OpenAI.wellFormed_plain rfl, OpenAI.wellFormed_plain rfl,
      OpenAI.wellFormed_plain rfl, OpenAI.invariantWellFormed]
  have happlies : OpenAI.Applies shortExchange 0 { preserveRecent := 1 } := by
    refine ⟨?_, ?_, ?_⟩
    · decide
    · decide
    · decide
  have hrests : OpenAI.Rests shortExchange 3 3 := ⟨.refl, rfl, _, rfl, by decide⟩
  have hdropped : OpenAI.logBytes (OpenAI.dropped shortExchange 3) = 5 := by decide
  have hlog : ¬ 4294967295 ≤ OpenAI.logBytes shortExchange / 4 := by decide
  have hheader : summaryHeader.utf8ByteSize ≤
      summaryBytes (summaryCap 0) (OpenAI.chunks shortExchange 3) := Nat.le_add_right _ _
  rw [summaryHeader_bytes] at hheader
  obtain h | h := OpenAI.valve_iff.mp h happlies 3 hrests
  · rw [hdropped] at h
    omega
  · exact hlog h

end Cosmon.Harness
