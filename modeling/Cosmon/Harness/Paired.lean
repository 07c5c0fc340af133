import Mathlib.Data.List.Forall2
import Cosmon.Harness.Logs

namespace Cosmon.Harness

namespace OpenAI

/-- Each message with tool calls is followed at once by one result for each of its calls,
and by no more. -/
def WellFormed (log : Log) : Prop :=
  ∀ front m back calls, log = front ++ m :: back → m.toolCalls = some calls →
    ∃ results rest, back = results ++ rest ∧
      results.map (fun r => (r.role, r.toolCallId)) = calls.map (fun c => ("tool", some c.id)) ∧
      ∀ next ∈ rest.head?, next.role ≠ "tool"

structure Answers (call : WireToolCall) (r : ChatMessage) : Prop where
  role : r.role = "tool"
  id : r.toolCallId = some call.id
  calls : r.toolCalls = none

structure Plain (m : ChatMessage) : Prop where
  role : m.role ≠ "tool"
  calls : m.toolCalls = none

inductive Paired : Log → Prop where
  | nil : Paired []
  | plain {m : ChatMessage} {rest : Log} (h : Plain m) (hrest : Paired rest) : Paired (m :: rest)
  | turn {m : ChatMessage} {calls : List WireToolCall} {results rest : Log} (hrole : m.role = "assistant")
      (hcalls : m.toolCalls = some calls) (hne : calls ≠ []) (hresults : List.Forall₂ Answers calls results)
      (hrest : Paired rest) : Paired (m :: (results ++ rest))

variable {log front back : Log} {m : ChatMessage} {calls : List WireToolCall}

theorem Answers.of_mem {results : Log} (h : List.Forall₂ Answers calls results) (hm : m ∈ results) :
    m.role = "tool" ∧ m.toolCalls = none := by
  induction h with
  | nil => cases hm
  | cons hone _ ih =>
    obtain rfl | hrest := List.mem_cons.mp hm
    · exact ⟨hone.role, hone.calls⟩
    · exact ih hrest

theorem Answers.map_eq {results : Log} (h : List.Forall₂ Answers calls results) :
    results.map (fun r => (r.role, r.toolCallId)) = calls.map (fun c => ("tool", some c.id)) := by
  induction h with
  | nil => rfl
  | cons hone _ ih => rw [List.map_cons, List.map_cons, ih, hone.role, hone.id]

theorem Paired.head_role (h : Paired log) : ∀ next ∈ log.head?, next.role ≠ "tool" := by
  intro next hnext
  cases h with
  | nil => cases hnext
  | plain hplain _ =>
    cases hnext
    exact hplain.role
  | turn hrole =>
    cases hnext
    rw [hrole]
    decide

theorem Paired.wellFormed (h : Paired log) : WellFormed log := by
  induction h with
  | nil =>
    intro front m back calls heq
    cases front <;> cases heq
  | plain hplain _ ih =>
    intro front m back calls heq hcalls
    cases front with
    | nil =>
      obtain ⟨rfl, -⟩ := List.cons.inj heq
      rw [hplain.calls] at hcalls
      cases hcalls
    | cons first front => exact ih front m back calls (List.cons.inj heq).2 hcalls
  | @turn m₀ calls₀ results rest hrole hcalls₀ hne hresults hrest ih =>
    intro front m back calls heq hcalls
    cases front with
    | nil =>
      obtain ⟨rfl, rfl⟩ := List.cons.inj heq
      obtain rfl : calls₀ = calls := Option.some.inj (hcalls₀.symm.trans hcalls)
      exact ⟨results, rest, rfl, Answers.map_eq hresults, hrest.head_role⟩
    | cons first front =>
      obtain ⟨more, rfl, hmore⟩ | ⟨more, rfl, hmore⟩ := List.append_eq_append_iff.mp (List.cons.inj heq).2
      · exact ih more m back calls hmore hcalls
      · cases more with
        | nil => exact ih [] m back calls hmore.symm hcalls
        | cons other more =>
          obtain ⟨rfl, -⟩ := List.cons.inj hmore
          have hmem : m ∈ front ++ m :: more := List.mem_append_right _ List.mem_cons_self
          rw [(Answers.of_mem hresults hmem).2] at hcalls
          cases hcalls

theorem WellFormed.answered (h : WellFormed (front ++ m :: back)) (hcalls : m.toolCalls = some calls) :
    calls.length ≤ back.length ∧ ∀ r ∈ back.take calls.length, r.role = "tool" := by
  obtain ⟨results, rest, rfl, hmap, -⟩ := h front m back calls rfl hcalls
  have hlength : results.length = calls.length := by simpa using congrArg List.length hmap
  rw [← hlength, List.take_left, List.length_append]
  refine ⟨Nat.le_add_right _ _, fun r hr => ?_⟩
  have hmem := List.mem_map_of_mem (f := fun r : ChatMessage => (r.role, r.toolCallId)) hr
  rw [hmap] at hmem
  obtain ⟨call, -, hcall⟩ := List.mem_map.mp hmem
  exact (Prod.mk.inj hcall).1.symm

theorem Paired.append (h : Paired front) (h' : Paired back) : Paired (front ++ back) := by
  induction h with
  | nil => exact h'
  | plain hplain _ ih => exact .plain hplain ih
  | turn hrole hcalls hne hresults _ ih =>
    rw [List.cons_append, List.append_assoc]
    exact .turn hrole hcalls hne hresults ih

theorem Paired.drop (h : Paired log) {split : Nat} (hm : log[split]? = some m) (hrole : m.role ≠ "tool") :
    Paired (log.drop split) := by
  induction h generalizing split with
  | nil => cases hm
  | @plain first rest hplain hrest ih =>
    cases split with
    | zero => exact .plain hplain hrest
    | succ split => exact ih hm
  | @turn first calls results rest hfirst hcalls hne hresults hrest ih =>
    cases split with
    | zero => exact .turn hfirst hcalls hne hresults hrest
    | succ split =>
      rw [List.getElem?_cons_succ] at hm
      rw [List.drop_succ_cons]
      obtain hlt | hle := Nat.lt_or_ge split results.length
      · rw [List.getElem?_append_left hlt] at hm
        exact absurd (Answers.of_mem hresults (List.mem_of_getElem? hm)).1 hrole
      · rw [List.getElem?_append_right hle] at hm
        rw [List.drop_append, List.drop_of_length_le hle, List.nil_append]
        exact ih hm

theorem answersOneOf_of {results : Log} (h : List.Forall₂ Answers calls results) (all : List WireToolCall)
    (hsub : calls ⊆ all) : results.all (answersOneOf all) = true := by
  induction h with
  | nil => rfl
  | @cons call r calls results hone _ ih =>
    rw [List.all_cons, Bool.and_eq_true]
    refine ⟨?_, ih fun c hc => hsub (List.mem_cons_of_mem _ hc)⟩
    have hcall : call ∈ all := hsub List.mem_cons_self
    simp only [answersOneOf, hone.role, hone.id, decide_true, Bool.true_and, Option.any_some, List.any_eq_true,
      decide_eq_true_eq]
    exact ⟨call, hcall, rfl⟩

theorem Paired.invariantWellFormed (h : Paired log) : invariantWellFormed log = true := by
  induction h with
  | nil => simp [OpenAI.invariantWellFormed]
  | plain hplain _ ih => simpa [OpenAI.invariantWellFormed, hplain.calls] using ih
  | @turn m calls results rest hrole hcalls hne hresults hrest ih =>
    have hlength : calls.length = results.length := hresults.length_eq
    have htake : (results ++ rest).take calls.length = results := by rw [hlength, List.take_left]
    have hdrop : (results ++ rest).drop calls.length = rest := by rw [hlength, List.drop_left]
    have hshort : ¬ (results ++ rest).length < calls.length := by
      rw [List.length_append]
      omega
    rw [OpenAI.invariantWellFormed]
    simp only [hcalls, if_neg hshort, htake, hdrop, answersOneOf_of hresults calls (List.Subset.refl _), ih,
      Bool.and_self]

/-- What a session's log is between two round trips: the two seeds, then whole turns. -/
def Settled (log : Log) : Prop :=
  ∃ first second rest, log = first :: second :: rest ∧ Plain first ∧ Plain second ∧ Paired rest

/-- What it is while a turn is dispatched: some of the calls still lack their result. -/
def Pending (log : Log) (remaining : List ToolCall) : Prop :=
  ∃ base m answered todo results, Settled base ∧ log = base ++ m :: results ∧ m.role = "assistant" ∧
    m.toolCalls = some (answered ++ todo) ∧ answered ++ todo ≠ [] ∧ List.Forall₂ Answers answered results ∧
    todo.map WireToolCall.id = remaining.map ToolCall.id

theorem Settled.paired (h : Settled log) : Paired log := by
  obtain ⟨first, second, rest, rfl, hfirst, hsecond, hrest⟩ := h
  exact .plain hfirst (.plain hsecond hrest)

theorem Settled.append (h : Settled log) (hback : Paired back) : Settled (log ++ back) := by
  obtain ⟨first, second, rest, rfl, hfirst, hsecond, hrest⟩ := h
  exact ⟨first, second, rest ++ back, rfl, hfirst, hsecond, hrest.append hback⟩

theorem plain_userMessage (content : String) : Plain (userMessage content) := by
  refine ⟨?_, rfl⟩
  simp [userMessage]

theorem settled_fromBriefing (briefing : String) : Settled (fromBriefing briefing) := by
  refine ⟨_, _, [], rfl, ⟨?_, rfl⟩, plain_userMessage briefing, .nil⟩
  simp

theorem Settled.appendUser (h : Settled log) (content : String) : Settled (appendUser log content) :=
  h.append (.plain (plain_userMessage content) .nil)

theorem Settled.appendAssistant (h : Settled log) {response : Response} {calls : List ToolCall}
    (hturn : turnOf response = .toolCalls m calls) : Pending (appendAssistant log m) calls := by
  unfold turnOf at hturn
  split_ifs at hturn with hcalls
  cases hturn
  refine ⟨log, _, [], response.wireCalls, [], h, rfl, rfl, rfl, hcalls.2, .nil, ?_⟩
  simp

theorem Pending.appendToolResult {call : ToolCall} {remaining : List ToolCall}
    (h : Pending log (call :: remaining)) (content : String) :
    Pending (appendToolResult log call.id call.name content) remaining := by
  obtain ⟨base, m, answered, todo, results, hbase, rfl, hrole, hcalls, hne, hresults, hids⟩ := h
  obtain ⟨wire, todo, rfl, hid, htodo⟩ := List.map_eq_cons_iff.mp hids
  have hanswer : Answers wire (toolMessage call.id call.name content) := ⟨rfl, congrArg some hid.symm, rfl⟩
  refine ⟨base, m, answered ++ [wire], todo, results ++ [toolMessage call.id call.name content], hbase, ?_,
    hrole, ?_, ?_, List.rel_append hresults (.cons hanswer .nil), htodo⟩
  · simp [OpenAI.appendToolResult]
  · simpa using hcalls
  · simp

theorem Pending.settled (h : Pending log []) : Settled log := by
  obtain ⟨base, m, answered, todo, results, hbase, rfl, hrole, hcalls, hne, hresults, hids⟩ := h
  obtain rfl : todo = [] := List.map_eq_nil_iff.mp hids
  rw [List.append_nil] at hcalls hne
  have hturn := Paired.turn hrole hcalls hne hresults .nil
  rw [List.append_nil] at hturn
  exact hbase.append hturn

theorem slide_found {seedLen split found : Nat} (hlt : seedLen < split) (h : slide log seedLen split = .found found) :
    ∃ m, log[found]? = some m ∧ m.role ≠ "tool" := by
  fun_induction slide log seedLen split with
  | case1 split hle => omega
  | case2 split _ hlen hrole ih => exact ih (by omega) h
  | case3 split _ hlen hrole hprev =>
    cases h
    exact ⟨_, List.getElem?_eq_getElem hlen, hrole⟩
  | case4 => cases h
  | case5 => cases h
  | case6 split _ hlen hrole calls hprev hfits hcalls ih => exact ih (by omega) h
  | case7 => cases h

theorem Settled.compact (h : Settled log) {targetTokens : Nat} {policy : CompactionPolicy}
    {report : CompactionReport} {compacted : Log} (hok : compact log targetTokens policy = .ok compacted report) :
    Settled compacted := by
  unfold OpenAI.compact at hok
  dsimp only at hok
  split_ifs at hok with hsmall hshort
  have hpaired := h.paired
  obtain ⟨first, second, rest, rfl, hfirst, hsecond, hrest⟩ := h
  have hseed : min (first :: second :: rest).length 2 = 2 := by simp
  rw [hseed] at hok hshort
  split at hok
  case h_4 split hfound =>
    obtain ⟨m, hm, hrole⟩ := slide_found (by omega) hfound
    cases hok
    exact ⟨first, second, _, rfl, hfirst, hsecond, .plain (plain_userMessage _) (hpaired.drop hm hrole)⟩
  all_goals cases hok

end OpenAI

namespace Anthropic

def Results (ids : List String) (blocks : List ContentBlock) : Prop :=
  blocks.map ContentBlock.resultId = ids.map some

/-- Each assistant message with tool uses is followed at once by a message that holds one
result for each of them, and nothing else. -/
def WellFormed (log : Log) : Prop :=
  ∀ front m back, log.messages = front ++ m :: back → m.role = "assistant" → m.toolUseIds ≠ [] →
    ∃ blocks rest, back = ⟨"user", .blocks blocks⟩ :: rest ∧ Results m.toolUseIds blocks

inductive Paired : List ApiMessage → Prop where
  | nil : Paired []
  | user (text : String) {rest : List ApiMessage} (hrest : Paired rest) : Paired (userMessage text :: rest)
  | turn {m : ApiMessage} {blocks : List ContentBlock} {rest : List ApiMessage} (hrole : m.role = "assistant")
      (hne : m.toolUseIds ≠ []) (hresults : Results m.toolUseIds blocks) (hrest : Paired rest) :
      Paired (m :: ⟨"user", .blocks blocks⟩ :: rest)

variable {log : Log} {messages front back : List ApiMessage} {m : ApiMessage} {ids : List String}
variable {blocks : List ContentBlock}

theorem Results.isToolResult (h : Results ids blocks) : blocks.all ContentBlock.isToolResult = true := by
  rw [List.all_eq_true]
  intro block hblock
  have hmem : block.resultId ∈ ids.map some := h ▸ List.mem_map_of_mem hblock
  obtain ⟨id, -, hid⟩ := List.mem_map.mp hmem
  cases block with
  | toolResult => rfl
  | text => cases hid
  | toolUse => cases hid

theorem Results.ne_nil (h : Results ids blocks) (hne : ids ≠ []) : blocks ≠ [] := by
  rintro rfl
  exact hne (List.map_eq_nil_iff.mp h.symm)

theorem Results.filterMap (h : Results ids blocks) : blocks.filterMap ContentBlock.resultId = ids := by
  have hid := congrArg (List.filterMap id) h
  simpa [List.filterMap_map] using hid

theorem Paired.wellFormed (h : Paired log.messages) : WellFormed log := by
  unfold WellFormed
  generalize log.messages = messages at h
  induction h with
  | nil =>
    intro front m back heq
    cases front <;> cases heq
  | user text _ ih =>
    intro front m back heq hrole hids
    cases front with
    | nil =>
      obtain ⟨rfl, -⟩ := List.cons.inj heq
      exact absurd rfl hids
    | cons first front => exact ih front m back (List.cons.inj heq).2 hrole hids
  | turn hrole₀ _ hresults _ ih =>
    intro front m back heq hrole hids
    match front with
    | [] =>
      obtain ⟨rfl, rfl⟩ := List.cons.inj heq
      exact ⟨_, _, rfl, hresults⟩
    | [first] =>
      obtain ⟨rfl, -⟩ := List.cons.inj (List.cons.inj heq).2
      exact absurd hrole (by simp)
    | first :: second :: front => exact ih front m back (List.cons.inj (List.cons.inj heq).2).2 hrole hids

theorem Paired.append (h : Paired front) (h' : Paired back) : Paired (front ++ back) := by
  induction h with
  | nil => exact h'
  | user text _ ih => exact .user text ih
  | turn hrole hne hresults _ ih => exact .turn hrole hne hresults ih

theorem isResults_of (h : Results ids blocks) (hne : ids ≠ []) :
    ApiMessage.isResults ⟨"user", .blocks blocks⟩ = true := by
  simp [ApiMessage.isResults, ApiMessage.batch, h.isToolResult, h.ne_nil hne]

theorem Paired.drop (h : Paired messages) {split : Nat} (hm : messages[split]? = some m)
    (hresults : m.isResults = false) : Paired (messages.drop split) := by
  induction h generalizing split with
  | nil => cases hm
  | user text hrest ih =>
    cases split with
    | zero => exact .user text hrest
    | succ split => exact ih hm
  | turn hrole hne hblocks hrest ih =>
    match split with
    | 0 => exact .turn hrole hne hblocks hrest
    | 1 =>
      cases hm
      rw [isResults_of hblocks hne] at hresults
      cases hresults
    | split + 2 => exact ih hm

theorem Paired.pairedMessages (h : Paired messages) : pairedMessages messages = true := by
  induction h with
  | nil => rfl
  | @user text rest _ ih =>
    cases rest with
    | nil => simp [Anthropic.pairedMessages, userMessage]
    | cons next rest => simpa [Anthropic.pairedMessages, userMessage] using ih
  | @turn m blocks rest hrole hne hresults _ ih =>
    have hanswers : ApiMessage.answers ⟨"user", .blocks blocks⟩ m.toolUseIds = true := by
      simp [ApiMessage.answers, hresults.filterMap, hresults.isToolResult]
    simp [Anthropic.pairedMessages, hrole, hne, hanswers, ih]

/-- What a session's log is between two round trips: the briefing, then whole turns. -/
def Settled (log : Log) : Prop := ∃ briefing rest, log.messages = userMessage briefing :: rest ∧ Paired rest

/-- What it is while a turn is dispatched: some of the calls still lack their result. -/
def Pending (log : Log) (remaining : List ToolCall) : Prop :=
  ∃ base m answered blocks, Settled base ∧ m.role = "assistant" ∧ m.toolUseIds ≠ [] ∧
    m.toolUseIds = answered ++ remaining.map ToolCall.id ∧ Results answered blocks ∧
    log = { base with
      messages := base.messages ++ m :: if blocks = [] then [] else [⟨"user", .blocks blocks⟩] }

theorem Settled.paired (h : Settled log) : Paired log.messages := by
  obtain ⟨briefing, rest, hmessages, hrest⟩ := h
  rw [hmessages]
  exact .user briefing hrest

theorem Settled.append (h : Settled log) (hback : Paired back) :
    Settled { log with messages := log.messages ++ back } := by
  obtain ⟨briefing, rest, hmessages, hrest⟩ := h
  exact ⟨briefing, rest ++ back, by rw [hmessages, List.cons_append], hrest.append hback⟩

theorem settled_fromBriefing (briefing : String) : Settled (fromBriefing briefing) :=
  ⟨briefing, [], rfl, .nil⟩

theorem Settled.appendUser (h : Settled log) (content : String) : Settled (appendUser log content) :=
  h.append (.user content .nil)

theorem filterMap_toolUseId (content : List ContentBlock) :
    content.filterMap ContentBlock.toolUseId = (content.filterMap ContentBlock.call).map ToolCall.id := by
  rw [List.map_filterMap]
  refine List.filterMap_congr fun block _ => ?_
  cases block <;> rfl

theorem Settled.appendAssistant (h : Settled log) {response : Response} {calls : List ToolCall}
    (hturn : turnOf response = .toolCalls m calls) : Pending (appendAssistant log m) calls := by
  unfold turnOf at hturn
  dsimp only at hturn
  split_ifs at hturn with hcalls
  cases hturn
  have hids := filterMap_toolUseId response.content
  refine ⟨log, ⟨"assistant", .blocks response.content⟩, [], [], h, rfl, ?_, hids, rfl, rfl⟩
  simpa [ApiMessage.toolUseIds, hids] using hcalls.2

theorem Pending.appendToolResult {call : ToolCall} {remaining : List ToolCall}
    (h : Pending log (call :: remaining)) (content : String) :
    Pending (appendToolResult log call.id call.name content) remaining := by
  obtain ⟨base, m, answered, blocks, hbase, hrole, hne, hids, hresults, rfl⟩ := h
  refine ⟨base, m, answered ++ [call.id], blocks ++ [.toolResult call.id (fenceToolResult call.name content)],
    hbase, hrole, hne, ?_, ?_, ?_⟩
  · simpa using hids
  · simpa [Results, ContentBlock.resultId] using hresults
  · by_cases hblocks : blocks = []
    · -- the first result of the turn opens a message of its own
      subst hblocks
      have hbatch : m.batch = none := by
        unfold ApiMessage.batch
        split <;> simp [hrole]
      simp [Anthropic.appendToolResult, hbatch, Log.push]
    · -- the others join the running batch
      simp [Anthropic.appendToolResult, hblocks, ApiMessage.batch, hresults.isToolResult]

theorem Pending.settled (h : Pending log []) : Settled log := by
  obtain ⟨base, m, answered, blocks, hbase, hrole, hne, hids, hresults, rfl⟩ := h
  rw [List.map_nil, List.append_nil] at hids
  rw [← hids] at hresults
  rw [if_neg (hresults.ne_nil hne)]
  exact hbase.append (.turn hrole hne hresults .nil)

theorem slide_spec {seedLen split : Nat} (hlt : seedLen < split)
    (hsplit : slide messages seedLen split < messages.length) :
    ∃ m, messages[slide messages seedLen split]? = some m ∧ m.isResults = false := by
  fun_induction slide messages seedLen split with
  | case1 split hin hresults ih => exact ih (by omega) hsplit
  | case2 split hin hresults hprev ih => exact ih (by omega) hsplit
  | case3 split hin hresults hprev =>
    exact ⟨_, List.getElem?_eq_getElem hin.2, Bool.eq_false_iff.mpr hresults⟩
  | case4 split hout => omega

theorem Settled.compact (h : Settled log) {targetTokens : Nat} {policy : CompactionPolicy}
    {report : CompactionReport} {compacted : Log} (hok : compact log targetTokens policy = .ok compacted report) :
    Settled compacted := by
  unfold Anthropic.compact at hok
  dsimp only at hok
  split_ifs at hok with hsmall hshort hend
  have hpaired := h.paired
  obtain ⟨briefing, rest, hmessages, hrest⟩ := h
  have hseed : min log.messages.length 1 = 1 := by simp [hmessages]
  rw [hseed] at hok hshort hend
  obtain ⟨m, hm, hresults⟩ := slide_spec (by omega) (Nat.lt_of_not_le hend)
  have htake : log.messages.take 1 = [userMessage briefing] := by rw [hmessages, List.take_succ_cons, List.take_zero]
  rw [htake] at hok
  cases hok
  exact ⟨briefing, _, rfl, .user _ (hpaired.drop hm hresults)⟩

end Anthropic

end Cosmon.Harness
