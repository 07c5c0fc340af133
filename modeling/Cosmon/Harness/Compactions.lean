import Cosmon.Harness.Paired
import Mathlib.Logic.Relation

namespace Cosmon.Harness

def Compacted.left {L : Type} (old : L) : Compacted L → L
  | .ok log _ => log
  | _ => old

def IsSummary (body : String) : Prop := compactionSummaryPrefix.toList <+: body.toList

def summaryLine (remaining : Nat) (role text : String) : String :=
  let start := role ++ ": "
  let bodyBudget := min remaining 800 - start.utf8ByteSize
  let body :=
    if text.utf8ByteSize ≤ bodyBudget then text
    else String.ofList (text.toList.take (bodyBudget - 2)) ++ "…"
  start ++ body ++ "\n"

theorem summaryLines_cons (remaining : Nat) (role text : String) (rest : List (String × String)) (out : String) :
    summaryLines remaining ((role, text) :: rest) out =
      if remaining = 0 then out
      else if remaining < (summaryLine remaining role text).utf8ByteSize then out
      else summaryLines (remaining - (summaryLine remaining role text).utf8ByteSize) rest
        (out ++ summaryLine remaining role text) := rfl

theorem summaryLines_begins (chunks : List (String × String)) (remaining : Nat) (out : String) :
    out.toList <+: (summaryLines remaining chunks out).toList := by
  induction chunks generalizing remaining out with
  | nil => exact List.prefix_refl _
  | cons chunk rest ih =>
    obtain ⟨role, text⟩ := chunk
    rw [summaryLines_cons]
    split
    · exact List.prefix_refl _
    · split
      · exact List.prefix_refl _
      · refine List.IsPrefix.trans ?_ (ih _ _)
        rw [String.toList_append]
        exact List.prefix_append _ _

def summaryHeader : String :=
  compactionSummaryPrefix ++ "\n" ++
    "The earlier portion of this conversation has been summarised here. Recent messages remain " ++
    "verbatim below. Continue without acknowledging this summary.\n\n"

theorem buildSummaryBody_eq (chunks : List (String × String)) (maxBodyChars : Nat) :
    buildSummaryBody chunks maxBodyChars =
      summaryLines (maxBodyChars - summaryHeader.utf8ByteSize) chunks summaryHeader := rfl

theorem isSummary_buildSummaryBody (chunks : List (String × String)) (maxBodyChars : Nat) :
    IsSummary (buildSummaryBody chunks maxBodyChars) := by
  rw [buildSummaryBody_eq]
  refine List.IsPrefix.trans ?_ (summaryLines_begins chunks _ _)
  unfold summaryHeader
  rw [String.toList_append, String.toList_append, String.toList_append, List.append_assoc, List.append_assoc]
  exact List.prefix_append _ _

namespace OpenAI

variable {log : Log} {m : ChatMessage} {split : Nat}

/-- `compact`, with the sum of the seed and the preserved tail in `usize`. -/
def compactChecked (log : Log) (targetTokens : Nat) (policy : CompactionPolicy) : Compacted Log :=
  if estimateTokens log ≤ targetTokens then .error .notApplicable
  else if 18446744073709551616 ≤ min log.length 2 + policy.preserveRecent then .panicked
  else compact log targetTokens policy

/-- A compaction ends; it puts one summary between the seed and a tail of the log, and the result
is well formed; or it refuses and leaves the log alone. -/
def Legal (log : Log) : Compacted Log → Prop
  | .ok compacted report => invariantWellFormed compacted = true ∧
      ∃ summary kept, kept ≠ [] ∧ kept <:+ log ∧ compacted = log.take 2 ++ userMessage summary :: kept ∧
        IsSummary summary ∧ report.messagesRemoved + ((log.take 2).length + kept.length) = log.length
  | .error e => (Compacted.error e).left log = log
  | .panicked => False
  | .endless => False

def callsBefore (log : Log) (split : Nat) : Option (List WireToolCall) :=
  log[split - 1]?.bind ChatMessage.toolCalls

inductive Moves (log : Log) : Nat → Nat → Prop where
  | result {split : Nat} {m : ChatMessage} (hm : log[split]? = some m) (hrole : m.role = "tool") :
      Moves log split (split + 1)
  | turn {split : Nat} {m : ChatMessage} {calls : List WireToolCall} (hm : log[split]? = some m)
      (hrole : m.role ≠ "tool") (hcalls : callsBefore log split = some calls) (hne : calls ≠ [])
      (hfits : split + calls.length < log.length) : Moves log split (split + calls.length)

/-- A cut is within the log; one that does not stand at a result does not follow an empty list of
calls, and where it comes to rest the seed is well formed by itself. -/
def Sound (log : Log) (split : Nat) : Prop :=
  ∃ m, log[split]? = some m ∧ (m.role ≠ "tool" → callsBefore log split ≠ some [] ∧
    (callsBefore log split = none → invariantWellFormed (log.take 2) = true))

theorem wellFormed_drop (h : invariantWellFormed log = true) (hm : log[split]? = some m)
    (hrole : m.role ≠ "tool") : invariantWellFormed (log.drop split) = true := by
  fun_induction invariantWellFormed log generalizing split with
  | case1 => cases hm
  | case2 first rest hcalls ih =>
    cases split with
    | zero =>
      rw [List.drop_zero, invariantWellFormed, hcalls]
      exact h
    | succ split => exact ih h hm
  | case3 => cases h
  | case4 first rest calls hcalls hfits ih =>
    cases split with
    | zero =>
      rw [List.drop_zero, invariantWellFormed, hcalls]
      simpa [hfits] using h
    | succ split =>
      rw [Bool.and_eq_true, List.all_eq_true] at h
      rw [List.getElem?_cons_succ] at hm
      rw [List.drop_succ_cons]
      obtain hlt | hle := Nat.lt_or_ge split calls.length
      · have hmem : m ∈ rest.take calls.length := by
          rw [← List.getElem?_take_of_lt hlt] at hm
          exact List.mem_of_getElem? hm
        have hanswers := h.1 m hmem
        rw [answersOneOf, Bool.and_eq_true, decide_eq_true_eq] at hanswers
        exact absurd hanswers.1 hrole
      · have hkept : (rest.drop calls.length)[split - calls.length]? = some m := by
          rw [List.getElem?_drop, Nat.add_sub_cancel' hle]
          exact hm
        have hrest := ih h.2 hkept
        rwa [List.drop_drop, Nat.add_sub_cancel' hle] at hrest

theorem reaches_iff {P : Nat → Prop} :
    (∀ cut, Relation.ReflTransGen (Moves log) split cut → P cut) ↔
      P split ∧ ∀ next, Moves log split next → ∀ cut, Relation.ReflTransGen (Moves log) next cut → P cut := by
  constructor
  · intro h
    exact ⟨h split .refl, fun next hnext cut hcut => h cut (.head hnext hcut)⟩
  · rintro ⟨hsplit, hnext⟩ cut hcut
    obtain rfl | ⟨next, hmove, hrest⟩ := Relation.ReflTransGen.cases_head hcut
    · exact hsplit
    · exact hnext next hmove cut hrest

theorem moves_result (hm : log[split]? = some m) (hrole : m.role = "tool") {next : Nat} :
    Moves log split next ↔ next = split + 1 := by
  constructor
  · intro h
    cases h with
    | result => rfl
    | turn hm' hne =>
      obtain rfl := Option.some.inj (hm.symm.trans hm')
      exact absurd hrole hne
  · rintro rfl
    exact .result hm hrole

theorem moves_turn (hm : log[split]? = some m) (hrole : m.role ≠ "tool") {next : Nat} :
    Moves log split next ↔ ∃ calls, callsBefore log split = some calls ∧ calls ≠ [] ∧
      split + calls.length < log.length ∧ next = split + calls.length := by
  constructor
  · intro h
    cases h with
    | result hm' hrole' =>
      obtain rfl := Option.some.inj (hm.symm.trans hm')
      exact absurd hrole' hrole
    | turn _ _ hcalls hne hfits => exact ⟨_, hcalls, hne, hfits, rfl⟩
  · rintro ⟨calls, hcalls, hne, hfits, rfl⟩
    exact .turn hm hrole hcalls hne hfits

theorem sound_turn (hm : log[split]? = some m) (hrole : m.role ≠ "tool") :
    Sound log split ↔ callsBefore log split ≠ some [] ∧
      (callsBefore log split = none → invariantWellFormed (log.take 2) = true) := by
  constructor
  · rintro ⟨m', hm', h⟩
    obtain rfl := Option.some.inj (hm.symm.trans hm')
    exact h hrole
  · exact fun h => ⟨m, hm, fun _ => h⟩

theorem slide_sound {seedLen split : Nat} (hlt : seedLen < split) :
    ((∃ found, slide log seedLen split = .found found ∧ invariantWellFormed (log.take 2) = true) ∨
        slide log seedLen split = .wouldBreak) ↔
      ∀ cut, Relation.ReflTransGen (Moves log) split cut → Sound log cut := by
  fun_induction slide log seedLen split with
  | case1 split hle => omega
  | case2 split hle hlen hrole ih =>
    have hm : log[split]? = some log[split] := List.getElem?_eq_getElem hlen
    rw [ih (by omega), @reaches_iff log split]
    simp only [moves_result hm hrole, forall_eq]
    exact ⟨fun h => ⟨⟨_, hm, fun hne => absurd hrole hne⟩, h⟩, fun h => h.2⟩
  | case3 split hle hlen hrole hprev =>
    have hm : log[split]? = some log[split] := List.getElem?_eq_getElem hlen
    have hbefore : callsBefore log split = none := hprev
    rw [reaches_iff, sound_turn hm hrole]
    simp [moves_turn hm hrole, hbefore]
  | case4 split hle hlen hrole calls hprev hfits =>
    have hm : log[split]? = some log[split] := List.getElem?_eq_getElem hlen
    have hbefore : callsBefore log split = some calls := hprev
    have hne : calls ≠ [] := by
      rintro rfl
      rw [List.length_nil] at hfits
      omega
    have hstays : ¬ split + calls.length < log.length := by omega
    rw [reaches_iff, sound_turn hm hrole]
    simp [moves_turn hm hrole, hbefore, hne, hstays]
  | case5 split hle hlen hrole calls hprev hfits hcalls =>
    have hm : log[split]? = some log[split] := List.getElem?_eq_getElem hlen
    have hbefore : callsBefore log split = some [] := by
      rw [← List.length_eq_zero_iff.mp hcalls]
      exact hprev
    rw [reaches_iff, sound_turn hm hrole]
    simp [hbefore]
  | case6 split hle hlen hrole calls hprev hfits hcalls ih =>
    have hm : log[split]? = some log[split] := List.getElem?_eq_getElem hlen
    have hbefore : callsBefore log split = some calls := hprev
    have hne : calls ≠ [] := fun h => hcalls (List.length_eq_zero_iff.mpr h)
    have hmoves : split + calls.length < log.length := by omega
    rw [ih (by omega), @reaches_iff log split, sound_turn hm hrole]
    simp [moves_turn hm hrole, hbefore, hne, hmoves]
  | case7 split hle hout =>
    refine iff_of_false (by simp) fun h => ?_
    obtain ⟨m, hm, -⟩ := h split .refl
    rw [List.getElem?_eq_none (by omega)] at hm
    cases hm

theorem slide_le {seedLen found : Nat} (hlt : seedLen < split) (h : slide log seedLen split = .found found) :
    split ≤ found := by
  fun_induction slide log seedLen split with
  | case1 split hle => omega
  | case2 split hle hlen hrole ih => exact Nat.le_of_succ_le (ih (by omega) h)
  | case3 split hle hlen hrole hprev =>
    cases h
    exact Nat.le_refl _
  | case4 => cases h
  | case5 => cases h
  | case6 split hle hlen hrole calls hprev hfits hcalls ih =>
    exact Nat.le_trans (Nat.le_add_right _ _) (ih (by omega) h)
  | case7 => cases h

theorem wellFormed_plain (h : m.toolCalls = none) (rest : Log) :
    invariantWellFormed (m :: rest) = invariantWellFormed rest := by
  rw [invariantWellFormed, h]

theorem wellFormed_turn {calls : List WireToolCall} (h : m.toolCalls = some calls) (rest : Log) :
    invariantWellFormed (m :: rest) = (decide (calls.length ≤ rest.length) &&
      ((rest.take calls.length).all (answersOneOf calls) && invariantWellFormed (rest.drop calls.length))) := by
  rw [invariantWellFormed, h]
  by_cases hlt : rest.length < calls.length
  · simp [hlt, Nat.not_le.mpr hlt]
  · simp [hlt, Nat.not_lt.mp hlt]

theorem not_answers_user (calls : List WireToolCall) (content : String) :
    answersOneOf calls (userMessage content) = false := by
  have h : ("user" : String) ≠ "tool" := by decide
  simp [answersOneOf, userMessage, h]

theorem wellFormed_seed {first second : ChatMessage} {kept : Log} {summary : String}
    (hkept : invariantWellFormed kept = true) :
    invariantWellFormed (first :: second :: userMessage summary :: kept) = invariantWellFormed [first, second] := by
  have hsummary : invariantWellFormed (userMessage summary :: kept) = true :=
    (wellFormed_plain rfl kept).trans hkept
  have hnil : invariantWellFormed [] = true := by rw [invariantWellFormed]
  have hsecond : invariantWellFormed (second :: userMessage summary :: kept) = invariantWellFormed [second] := by
    cases hcalls : second.toolCalls with
    | none => rw [wellFormed_plain hcalls, wellFormed_plain hcalls, hsummary, hnil]
    | some calls =>
      rw [wellFormed_turn hcalls, wellFormed_turn hcalls]
      cases calls with
      | nil => simp [hsummary, hnil]
      | cons call calls => simp [not_answers_user]
  cases hcalls : first.toolCalls with
  | none => rw [wellFormed_plain hcalls, wellFormed_plain hcalls, hsecond]
  | some calls =>
    rw [wellFormed_turn hcalls, wellFormed_turn hcalls]
    obtain _ | ⟨call, _ | ⟨other, calls⟩⟩ := calls
    · simpa using hsecond
    · simp [hsummary, hnil]
    · simp [not_answers_user]

/-- What a compaction needs of the log, its target and its policy to keep the log legal. -/
def KeepsLegal (log : Log) (targetTokens : Nat) (policy : CompactionPolicy) : Prop :=
  estimateTokens log ≤ targetTokens ∨
    (min log.length 2 + policy.preserveRecent < 18446744073709551616 ∧
      (log.length ≤ min log.length 2 + policy.preserveRecent ∨
        ∀ cut, Relation.ReflTransGen (Moves log) (log.length - policy.preserveRecent) cut → Sound log cut))

theorem legal_found (h : invariantWellFormed log = true) (hlong : 2 < split) {found : Nat}
    (hfound : slide log 2 split = .found found) (before after : Nat) (chunks : List (String × String)) (cap : Nat) :
    Legal log (.ok (log.take 2 ++ [userMessage (buildSummaryBody chunks cap)] ++ log.drop found)
        ⟨before, after, found - 2⟩) ↔ invariantWellFormed (log.take 2) = true := by
  obtain ⟨m, hm, hrole⟩ := slide_found hlong hfound
  have hle := slide_le hlong hfound
  have hlt : found < log.length := (List.getElem?_eq_some_iff.mp hm).1
  have hkept := wellFormed_drop h hm hrole
  obtain ⟨first, second, rest, rfl⟩ : ∃ first second rest, log = first :: second :: rest := by
    obtain _ | ⟨first, _ | ⟨second, rest⟩⟩ := log
    · exact absurd hlt (Nat.not_lt_zero _)
    · rw [List.length_singleton] at hlt
      omega
    · exact ⟨first, second, rest, rfl⟩
  have hseed := @wellFormed_seed first second _ (buildSummaryBody chunks cap) hkept
  constructor
  · intro hlegal
    exact hseed.symm.trans hlegal.1
  · intro htake
    refine ⟨hseed.trans htake, buildSummaryBody chunks cap, (first :: second :: rest).drop found, ?_,
      List.drop_suffix _ _, rfl, isSummary_buildSummaryBody chunks cap, ?_⟩
    · rw [Ne, List.drop_eq_nil_iff]
      omega
    · simp only [List.length_drop, List.take_succ_cons, List.take_zero, List.length_cons, List.length_nil] at hlt ⊢
      omega

/-- A compaction is legal exactly where its cut stays within the log, off empty lists of calls,
and comes to rest behind a seed that is well formed by itself. -/
theorem legal_iff (h : invariantWellFormed log = true) (targetTokens : Nat) (policy : CompactionPolicy) :
    Legal log (compactChecked log targetTokens policy) ↔ KeepsLegal log targetTokens policy := by
  unfold compactChecked KeepsLegal
  by_cases hsmall : estimateTokens log ≤ targetTokens
  · rw [if_pos hsmall]
    exact iff_of_true rfl (Or.inl hsmall)
  rw [if_neg hsmall, or_iff_right hsmall]
  by_cases hfits : 18446744073709551616 ≤ min log.length 2 + policy.preserveRecent
  · rw [if_pos hfits]
    exact iff_of_false id fun hkeeps => absurd hkeeps.1 (Nat.not_lt.mpr hfits)
  rw [if_neg hfits, and_iff_right (Nat.lt_of_not_le hfits), compact, if_neg hsmall]
  by_cases hshort : log.length ≤ min log.length 2 + policy.preserveRecent
  · rw [if_pos hshort]
    exact iff_of_true rfl (Or.inl hshort)
  rw [if_neg hshort, or_iff_right hshort]
  have hseed : min log.length 2 = 2 := by omega
  rw [hseed] at hshort ⊢
  have hcut : 2 < log.length - policy.preserveRecent := by omega
  rw [← slide_sound hcut]
  cases hslide : slide log 2 (log.length - policy.preserveRecent) with
  | found found =>
    dsimp only
    rw [legal_found h hcut hslide]
    simp
  | wouldBreak => exact iff_of_true rfl (Or.inr rfl)
  | outOfRange => exact iff_of_false id (by simp)
  | endless => exact iff_of_false id (by simp)

end OpenAI

namespace Anthropic

variable {messages : List ApiMessage} {m : ApiMessage} {split : Nat}

/-- `compact`, with the sum of the seed and the preserved tail in `usize`. -/
def compactChecked (log : Log) (targetTokens : Nat) (policy : CompactionPolicy) : Compacted Log :=
  if estimateTokens log ≤ targetTokens then .error .notApplicable
  else if 18446744073709551616 ≤ min log.messages.length 1 + policy.preserveRecent then .panicked
  else compact log targetTokens policy

/-- A compaction ends; it puts one summary between the seed and a tail of the log, and the result
is well formed; or it refuses and leaves the log alone. -/
def Legal (log : Log) : Compacted Log → Prop
  | .ok compacted report => invariantWellFormed compacted = true ∧ compacted.system = log.system ∧
      ∃ summary kept, kept ≠ [] ∧ kept <:+ log.messages ∧
        compacted.messages = log.messages.take 1 ++ userMessage summary :: kept ∧ IsSummary summary ∧
        report.messagesRemoved + ((log.messages.take 1).length + kept.length) = log.messages.length
  | .error e => (Compacted.error e).left log = log
  | .panicked => False
  | .endless => False

def Inside (messages : List ApiMessage) (cut : Nat) : Prop :=
  messages[cut]?.any ApiMessage.isResults = true ∨
    messages[cut - 1]?.any (fun prev => prev.role = "assistant" && prev.toolUseIds ≠ []) = true

theorem isResults_of_answers {ids : List String} (h : m.answers ids = true) (hne : ids ≠ []) :
    m.isResults = true := by
  unfold ApiMessage.answers at h
  unfold ApiMessage.isResults ApiMessage.batch
  split at h
  · cases h
  · rename_i blocks hcontent
    simp only [Bool.and_eq_true, decide_eq_true_eq] at h
    obtain ⟨⟨⟨hrole, hlength⟩, -⟩, hall⟩ := h
    have hblocks : blocks ≠ [] := by
      rintro rfl
      exact hne (List.length_eq_zero_iff.mp hlength.symm)
    simp [hcontent, hrole, hall, hblocks]

theorem paired_drop (h : pairedMessages messages = true) (hm : messages[split]? = some m)
    (hresults : m.isResults = false) : pairedMessages (messages.drop split) = true := by
  fun_induction pairedMessages messages generalizing split with
  | case1 => cases hm
  | case2 first =>
    cases split with
    | zero => exact h
    | succ split => cases hm
  | case3 first next rest hplain ih =>
    cases split with
    | zero =>
      rw [List.drop_zero, pairedMessages, if_pos hplain]
      exact h
    | succ split => exact ih h hm
  | case4 first next rest hturn ih =>
    rw [Bool.and_eq_true] at h
    obtain _ | _ | split := split
    · rw [List.drop_zero, pairedMessages, if_neg hturn, Bool.and_eq_true]
      exact h
    · cases hm
      rw [isResults_of_answers h.1 (not_or.mp hturn).2] at hresults
      cases hresults
    · exact ih h.2 hm

theorem slide_end {seedLen : Nat} (hlt : seedLen < split) :
    messages.length ≤ slide messages seedLen split ↔
      ∀ cut, split ≤ cut → cut < messages.length → Inside messages cut := by
  have hstep : ∀ {split}, Inside messages split →
      ((∀ cut, split + 1 ≤ cut → cut < messages.length → Inside messages cut) ↔
        ∀ cut, split ≤ cut → cut < messages.length → Inside messages cut) := by
    intro split hinside
    refine ⟨fun h cut hle hcut => ?_, fun h cut hle => h cut (Nat.le_of_succ_le hle)⟩
    obtain rfl | hlt := Nat.eq_or_lt_of_le hle
    · exact hinside
    · exact h cut hlt hcut
  fun_induction slide messages seedLen split with
  | case1 split hin hresults ih =>
    refine (ih (by omega)).trans (hstep (Or.inl ?_))
    rw [List.getElem?_eq_getElem hin.2]
    exact hresults
  | case2 split hin hresults hprev ih =>
    exact (ih (by omega)).trans (hstep (Or.inr hprev))
  | case3 split hin hresults hprev =>
    refine iff_of_false (Nat.not_le.mpr hin.2) fun h => ?_
    obtain hin' | hin' := h split (Nat.le_refl _) hin.2
    · rw [List.getElem?_eq_getElem hin.2] at hin'
      exact hresults hin'
    · exact hprev hin'
  | case4 split hout =>
    have hend : messages.length ≤ split := by omega
    exact iff_of_true hend fun cut hle hcut => absurd hcut (by omega)

theorem slide_ge {seedLen : Nat} : split ≤ slide messages seedLen split := by
  fun_induction slide messages seedLen split with
  | case1 split hin hresults ih => exact Nat.le_of_succ_le ih
  | case2 split hin hresults hprev ih => exact Nat.le_of_succ_le ih
  | case3 split hin hresults hprev => exact Nat.le_refl _
  | case4 split hout => exact Nat.le_refl _

/-- What a compaction needs of the log, its target and its policy to keep the log legal. -/
def KeepsLegal (log : Log) (targetTokens : Nat) (policy : CompactionPolicy) : Prop :=
  estimateTokens log ≤ targetTokens ∨
    (min log.messages.length 1 + policy.preserveRecent < 18446744073709551616 ∧
      (log.messages.length ≤ min log.messages.length 1 + policy.preserveRecent ∨
        pairedMessages (log.messages.take 1) = true ∨
        ∀ cut, log.messages.length - policy.preserveRecent ≤ cut → cut < log.messages.length →
          Inside log.messages cut))

theorem paired_seed {first : ApiMessage} {kept : List ApiMessage} {summary : String}
    (hkept : pairedMessages kept = true) :
    pairedMessages (first :: userMessage summary :: kept) = pairedMessages [first] := by
  have hsummary : pairedMessages (userMessage summary :: kept) = true := by
    have huser : (userMessage summary).role ≠ "assistant" := by
      have h : ("user" : String) ≠ "assistant" := by decide
      exact h
    cases kept with
    | nil => simp [pairedMessages, huser]
    | cons next rest => rwa [pairedMessages, if_pos (Or.inl huser)]
  rw [pairedMessages, pairedMessages]
  split
  · rename_i hplain
    rw [hsummary]
    simpa using hplain
  · rename_i hturn
    simp only [not_or] at hturn
    simp [ApiMessage.answers, userMessage, hturn]

theorem legal_found {log : Log} (h : invariantWellFormed log = true) {found : Nat} (hlong : 1 < found)
    (hlt : found < log.messages.length) {m : ApiMessage} (hm : log.messages[found]? = some m)
    (hresults : m.isResults = false) (before after : Nat) (chunks : List (String × String)) (cap : Nat) :
    Legal log (.ok { log with
        messages := log.messages.take 1 ++ [userMessage (buildSummaryBody chunks cap)] ++ log.messages.drop found }
        ⟨before, after, found - 1⟩) ↔ pairedMessages (log.messages.take 1) = true := by
  obtain ⟨system, messages⟩ := log
  have hkept := paired_drop h hm hresults
  obtain ⟨first, rest, rfl⟩ : ∃ first rest, messages = first :: rest := by
    cases messages with
    | nil => exact absurd hlt (Nat.not_lt_zero _)
    | cons first rest => exact ⟨first, rest, rfl⟩
  have hseed := @paired_seed first _ (buildSummaryBody chunks cap) hkept
  constructor
  · intro hlegal
    exact hseed.symm.trans hlegal.1
  · intro htake
    refine ⟨hseed.trans htake, rfl, buildSummaryBody chunks cap, (first :: rest).drop found, ?_,
      List.drop_suffix _ _, rfl, isSummary_buildSummaryBody chunks cap, ?_⟩
    · rw [Ne, List.drop_eq_nil_iff]
      exact Nat.not_le.mpr hlt
    · simp only [List.length_drop, List.take_succ_cons, List.take_zero, List.length_cons, List.length_nil] at hlt ⊢
      omega

/-- A compaction is legal exactly where its seed is well formed by itself or every cut within the
tail parts a turn from its results. -/
theorem legal_iff {log : Log} (h : invariantWellFormed log = true) (targetTokens : Nat) (policy : CompactionPolicy) :
    Legal log (compactChecked log targetTokens policy) ↔ KeepsLegal log targetTokens policy := by
  unfold compactChecked KeepsLegal
  by_cases hsmall : estimateTokens log ≤ targetTokens
  · rw [if_pos hsmall]
    exact iff_of_true rfl (Or.inl hsmall)
  rw [if_neg hsmall, or_iff_right hsmall]
  by_cases hfits : 18446744073709551616 ≤ min log.messages.length 1 + policy.preserveRecent
  · rw [if_pos hfits]
    exact iff_of_false id fun hkeeps => absurd hkeeps.1 (Nat.not_lt.mpr hfits)
  rw [if_neg hfits, and_iff_right (Nat.lt_of_not_le hfits), compact, if_neg hsmall]
  by_cases hshort : log.messages.length ≤ min log.messages.length 1 + policy.preserveRecent
  · rw [if_pos hshort]
    exact iff_of_true rfl (Or.inl hshort)
  rw [if_neg hshort, or_iff_right hshort]
  have hseed : min log.messages.length 1 = 1 := by omega
  rw [hseed] at hshort ⊢
  have hcut : 1 < log.messages.length - policy.preserveRecent := by omega
  rw [← slide_end hcut]
  dsimp only
  by_cases hend : log.messages.length ≤ slide log.messages 1 (log.messages.length - policy.preserveRecent)
  · rw [if_pos hend]
    exact iff_of_true rfl (Or.inr hend)
  · rw [if_neg hend, or_iff_left hend]
    obtain ⟨m, hm, hresults⟩ := slide_spec hcut (Nat.lt_of_not_le hend)
    exact legal_found h (Nat.lt_of_lt_of_le hcut slide_ge) (Nat.lt_of_not_le hend) hm hresults _ _ _ _

end Anthropic

/-- Compaction keeps the log legal, in both formats, exactly under a condition on what it is given. -/
theorem compactions_legal_iff {chat : OpenAI.Log} (hchat : OpenAI.invariantWellFormed chat = true)
    {api : Anthropic.Log} (hapi : Anthropic.invariantWellFormed api = true) (targetTokens : Nat)
    (policy : CompactionPolicy) :
    (OpenAI.Legal chat (OpenAI.compactChecked chat targetTokens policy) ↔ OpenAI.KeepsLegal chat targetTokens policy) ∧
      (Anthropic.Legal api (Anthropic.compactChecked api targetTokens policy) ↔
        Anthropic.KeepsLegal api targetTokens policy) :=
  ⟨OpenAI.legal_iff hchat targetTokens policy, Anthropic.legal_iff hapi targetTokens policy⟩

def answeredBriefing : OpenAI.Log :=
  [⟨"system", some "Work.", none, none, none⟩, OpenAI.userMessage "Go on.",
    ⟨"assistant", some "Done.", none, none, none⟩]

theorem wellFormed_answeredBriefing : OpenAI.invariantWellFormed answeredBriefing = true := by
  unfold answeredBriefing
  rw [OpenAI.wellFormed_plain rfl, OpenAI.wellFormed_plain rfl, OpenAI.wellFormed_plain rfl,
    OpenAI.invariantWellFormed]

theorem compactions_legal_iff_briefing :
    (OpenAI.Legal answeredBriefing (OpenAI.compactChecked answeredBriefing 0 {}) ↔
        OpenAI.KeepsLegal answeredBriefing 0 {}) ∧
      (Anthropic.Legal (Anthropic.fromBriefing "Go on.")
          (Anthropic.compactChecked (Anthropic.fromBriefing "Go on.") 0 {}) ↔
        Anthropic.KeepsLegal (Anthropic.fromBriefing "Go on.") 0 {}) :=
  compactions_legal_iff wellFormed_answeredBriefing rfl 0 {}

/-- With nothing to preserve, the cut is looked up past the end of the log. -/
theorem compact_nothing_preserved : OpenAI.invariantWellFormed answeredBriefing = true ∧
    ¬ OpenAI.Legal answeredBriefing (OpenAI.compactChecked answeredBriefing 0 { preserveRecent := 0 }) := by
  refine ⟨wellFormed_answeredBriefing, fun h => ?_⟩
  obtain h | ⟨-, h | h⟩ := (OpenAI.legal_iff wellFormed_answeredBriefing 0 { preserveRecent := 0 }).mp h
  · exact absurd h (by decide)
  · exact absurd h (by decide)
  · obtain ⟨m, hm, -⟩ := h 3 .refl
    cases hm

end Cosmon.Harness
