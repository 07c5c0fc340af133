import Cosmon.Lib.Runs
import Cosmon.Harness.Paired

namespace Cosmon.Harness

open Cosmon.Lib.Runs Cosmon.Core.HarnessTurn

structure Schema (L A R : Type) where
  fromBriefing : String → L
  appendAssistant : L → A → L
  appendToolResult : L → (callId toolName content : String) → L
  appendUser : L → String → L
  estimateTokens : L → Nat
  compact : L → (targetTokens : Nat) → CompactionPolicy → Compacted L
  turnOf : R → Turn A

def openAI : Schema OpenAI.Log OpenAI.ChatMessage OpenAI.Response where
  fromBriefing := OpenAI.fromBriefing
  appendAssistant := OpenAI.appendAssistant
  appendToolResult := OpenAI.appendToolResult
  appendUser := OpenAI.appendUser
  estimateTokens := OpenAI.estimateTokens
  compact := OpenAI.compact
  turnOf := OpenAI.turnOf

def anthropic : Schema Anthropic.Log Anthropic.ApiMessage Anthropic.Response where
  fromBriefing := Anthropic.fromBriefing
  appendAssistant := Anthropic.appendAssistant
  appendToolResult := Anthropic.appendToolResult
  appendUser := Anthropic.appendUser
  estimateTokens := Anthropic.estimateTokens
  compact := Anthropic.compact
  turnOf := Anthropic.turnOf

def defaultMaxTurns : Nat := 30
def defaultMaxToolCalls : Nat := 64
def defaultMaxInputTokens : Nat := 32768

/-- An open session. The last two fields note what has left it: the logs that were
handed to the provider and the tool bodies that have run. -/
structure InteractiveSession (L : Type) where
  log : L
  awaitingOperator : Bool := true
  turnCount : Nat := 0
  usedTools : Nat := 0
  maxTurns : Nat := defaultMaxTurns
  toolLimit : Nat := defaultMaxToolCalls
  contextLimit : Nat := defaultMaxInputTokens
  compactionPolicy : CompactionPolicy := {}
  compactionThreshold : Nat
  compactionTarget : Nat
  handed : List L := []
  executed : List ToolCall := []

inductive StepOutcome where
  | continued
  | yielded (text : String)
  | yieldedTerminal (response : TerminalResponse)
  | budgetExhausted (limit : Nat)

inductive SessionError where
  | contextOverflow (estimatedTokens limit : Nat)
  | provider (reason : String)
  | toolBudgetExhausted (limit : Nat)
  /-- The compaction did not return. -/
  | aborted

variable {L A R : Type} (schema : Schema L A R)

def InteractiveSession.withRegistry (briefing : String) : Except SessionError (InteractiveSession L) :=
  let estimated := estimateBriefingTokens briefing
  if defaultMaxInputTokens < estimated then .error (.contextOverflow estimated defaultMaxInputTokens)
  else
    let policy : CompactionPolicy := {}
    .ok {
      log := schema.fromBriefing briefing
      compactionThreshold := scaleBudget defaultMaxInputTokens policy.thresholdPermille
      compactionTarget := scaleBudget defaultMaxInputTokens policy.targetPermille }

def InteractiveSession.submit (s : InteractiveSession L) (operatorInput : String) : InteractiveSession L :=
  { s with log := schema.appendUser s.log operatorInput, turnCount := 0, awaitingOperator := false }

def InteractiveSession.dispatch (execute : ToolCall → Except String String) (s : InteractiveSession L) :
    List ToolCall → InteractiveSession L × Bool
  | [] => (s, true)
  | call :: rest =>
    let usedTools := saturatingSucc s.usedTools
    if s.toolLimit < usedTools then ({ s with usedTools }, false)
    else
      dispatch execute
        { s with
          log := schema.appendToolResult s.log call.id call.name (resultText (execute call))
          usedTools
          executed := s.executed ++ [call] } rest

def InteractiveSession.maybeCompact (s : InteractiveSession L) : Option L :=
  if schema.estimateTokens s.log ≤ s.compactionThreshold then some s.log
  else
    match schema.compact s.log s.compactionTarget s.compactionPolicy with
    | .ok log _ => some log
    | .error _ => some s.log
    | .panicked | .endless => none

def InteractiveSession.step (s : InteractiveSession L) (answer : Except String R)
    (execute : ToolCall → Except String String) : InteractiveSession L × Except SessionError StepOutcome :=
  if s.maxTurns ≤ s.turnCount then
    ({ s with awaitingOperator := true }, .ok (.budgetExhausted s.maxTurns))
  else
    match s.maybeCompact schema with
    | none => (s, .error .aborted)
    | some log =>
      let s := { s with log }
      let estimated := schema.estimateTokens log
      if s.contextLimit < estimated then (s, .error (.contextOverflow estimated s.contextLimit))
      else
        let s := { s with handed := s.handed ++ [log] }
        match answer with
        | .error reason => (s, .error (.provider reason))
        | .ok response =>
          let s := { s with turnCount := saturatingSucc s.turnCount }
          match schema.turnOf response with
          | .toolCalls assistant calls =>
            match { s with log := schema.appendAssistant s.log assistant }.dispatch schema execute calls with
            | (s, true) => (s, .ok .continued)
            | (s, false) => (s, .error (.toolBudgetExhausted s.toolLimit))
          | .stop text => ({ s with awaitingOperator := true }, .ok (.yielded text))
          | .terminal response => ({ s with awaitingOperator := true }, .ok (.yieldedTerminal response))

def InteractiveSession.compact (s : InteractiveSession L) : InteractiveSession L × Option CompactionError :=
  match schema.compact s.log s.compactionTarget s.compactionPolicy with
  | .ok log _ => ({ s with log }, none)
  | .error e => (s, some e)
  | .panicked | .endless => (s, none)

inductive SessionOp (R : Type) where
  | submit (operatorInput : String)
  | step (answer : Except String R) (execute : ToolCall → Except String String)
  | compact

def InteractiveSession.apply (s : InteractiveSession L) : SessionOp R → InteractiveSession L
  | .submit operatorInput => s.submit schema operatorInput
  | .step answer execute => (s.step schema answer execute).1
  | .compact => (s.compact schema).1

def InteractiveSession.run (s : InteractiveSession L) (ops : List (SessionOp R)) : InteractiveSession L :=
  ops.foldl (InteractiveSession.apply schema) s

end Cosmon.Harness

namespace Cosmon.Harness

open Cosmon.Lib.Runs Cosmon.Core.HarnessTurn

variable {L A R : Type}

/-- What a provider's log promises: an answer opens a turn, each result closes one of its
calls, and what has no call left can be handed over. -/
structure Schema.Lawful (schema : Schema L A R) (Settled : L → Prop) (Pending : L → List ToolCall → Prop) :
    Prop where
  briefing (briefing : String) : Settled (schema.fromBriefing briefing)
  user {log : L} (content : String) : Settled log → Settled (schema.appendUser log content)
  answer {log : L} {response : R} {assistant : A} {calls : List ToolCall} : Settled log →
    schema.turnOf response = .toolCalls assistant calls → Pending (schema.appendAssistant log assistant) calls
  result {log : L} {call : ToolCall} {remaining : List ToolCall} (content : String) :
    Pending log (call :: remaining) → Pending (schema.appendToolResult log call.id call.name content) remaining
  settled {log : L} : Pending log [] → Settled log
  compact {log compacted : L} {targetTokens : Nat} {policy : CompactionPolicy} {report : CompactionReport} :
    Settled log → schema.compact log targetTokens policy = .ok compacted report → Settled compacted

theorem openAI_lawful : openAI.Lawful OpenAI.Settled OpenAI.Pending where
  briefing := OpenAI.settled_fromBriefing
  user content h := h.appendUser content
  answer h hturn := h.appendAssistant hturn
  result content h := h.appendToolResult content
  settled h := h.settled
  compact h hok := h.compact hok

theorem anthropic_lawful : anthropic.Lawful Anthropic.Settled Anthropic.Pending where
  briefing := Anthropic.settled_fromBriefing
  user content h := h.appendUser content
  answer h hturn := h.appendAssistant hturn
  result content h := h.appendToolResult content
  settled h := h.settled
  compact h hok := h.compact hok

variable (schema : Schema L A R) {Settled : L → Prop} {Pending : L → List ToolCall → Prop}
variable {s : InteractiveSession L} {execute : ToolCall → Except String String}

def InteractiveSession.request (s : InteractiveSession L) : Option L :=
  if s.maxTurns ≤ s.turnCount then none
  else (s.maybeCompact schema).filter fun log => schema.estimateTokens log ≤ s.contextLimit

def InteractiveSession.Fits (s : InteractiveSession L) : SessionOp R → Prop
  | .step (.ok response) _ => ∀ assistant calls, s.request schema ≠ none →
      schema.turnOf response = .toolCalls assistant calls → s.usedTools + calls.length ≤ s.toolLimit
  | _ => True

variable {schema}

structure Dispatched (s s' : InteractiveSession L) : Prop where
  handed : s'.handed = s.handed
  toolLimit : s'.toolLimit = s.toolLimit

theorem dispatch_frame (calls : List ToolCall) : Dispatched s (s.dispatch schema execute calls).1 := by
  induction calls generalizing s with
  | nil => exact ⟨rfl, rfl⟩
  | cons call rest ih =>
    simp only [InteractiveSession.dispatch]
    split
    · exact ⟨rfl, rfl⟩
    · exact ⟨ih.handed, ih.toolLimit⟩

/-- The tool bodies that have run stay within what was counted, and that within the budget. -/
structure Spent (s : InteractiveSession L) : Prop where
  limit : s.toolLimit = defaultMaxToolCalls
  counted : s.executed.length ≤ s.usedTools
  within : s.executed.length ≤ s.toolLimit

theorem Spent.dispatch (h : Spent s) (calls : List ToolCall) : Spent (s.dispatch schema execute calls).1 := by
  induction calls generalizing s with
  | nil => exact h
  | cons call rest ih =>
    obtain ⟨hlimit, hcounted, hwithin⟩ := h
    simp only [InteractiveSession.dispatch]
    split
    case isTrue hover =>
      refine ⟨hlimit, ?_, hwithin⟩
      simp only [saturatingSucc, defaultMaxToolCalls] at hlimit hover ⊢
      omega
    case isFalse hfits =>
      apply ih
      simp only [saturatingSucc, defaultMaxToolCalls] at hlimit hfits
      constructor
      · exact hlimit
      · simp only [List.length_append, List.length_singleton, saturatingSucc]
        omega
      · simp only [List.length_append, List.length_singleton]
        omega

theorem Schema.Lawful.dispatch (hlaws : schema.Lawful Settled Pending) {calls : List ToolCall}
    (hlog : Pending s.log calls) (hlimit : s.toolLimit = defaultMaxToolCalls)
    (hfits : s.usedTools + calls.length ≤ s.toolLimit) : Settled (s.dispatch schema execute calls).1.log := by
  induction calls generalizing s with
  | nil => exact hlaws.settled hlog
  | cons call rest ih =>
    rw [List.length_cons] at hfits
    have hused : saturatingSucc s.usedTools = s.usedTools + 1 := by
      simp only [saturatingSucc, defaultMaxToolCalls] at hlimit ⊢
      omega
    have hnext : ¬ s.toolLimit < saturatingSucc s.usedTools := by omega
    simp only [InteractiveSession.dispatch, if_neg hnext]
    refine ih (hlaws.result _ hlog) hlimit ?_
    dsimp only
    omega

theorem Schema.Lawful.maybeCompact (hlaws : schema.Lawful Settled Pending) {log : L} (h : Settled s.log)
    (hsome : s.maybeCompact schema = some log) : Settled log := by
  unfold InteractiveSession.maybeCompact at hsome
  split at hsome
  · cases hsome
    exact h
  · split at hsome
    · cases hsome
      exact hlaws.compact h (by assumption)
    · cases hsome
      exact h
    all_goals cases hsome

/-- How a step ends: nothing is sent, or the answer opens no turn, or its calls are dispatched. -/
inductive Stepped (schema : Schema L A R) (s : InteractiveSession L) (answer : Except String R)
    (execute : ToolCall → Except String String) : InteractiveSession L → Prop where
  | unsent (log : L) (awaitingOperator : Bool) (hlog : log = s.log ∨ s.maybeCompact schema = some log) :
      Stepped schema s answer execute { s with log, awaitingOperator }
  | idle (log : L) (awaitingOperator : Bool) (turnCount : Nat) (hsent : s.request schema = some log)
      (hlog : s.maybeCompact schema = some log) :
      Stepped schema s answer execute { s with log, awaitingOperator, turnCount, handed := s.handed ++ [log] }
  | dispatched (log : L) (response : R) (assistant : A) (calls : List ToolCall) (turnCount : Nat)
      (hsent : s.request schema = some log) (hlog : s.maybeCompact schema = some log)
      (hanswer : answer = .ok response) (hturn : schema.turnOf response = .toolCalls assistant calls) :
      Stepped schema s answer execute
        (InteractiveSession.dispatch schema execute
          { s with log := schema.appendAssistant log assistant, turnCount, handed := s.handed ++ [log] } calls).1

theorem step_cases (schema : Schema L A R) (s : InteractiveSession L) (answer : Except String R)
    (execute : ToolCall → Except String String) :
    Stepped schema s answer execute (s.step schema answer execute).1 := by
  unfold InteractiveSession.step
  split
  case isTrue hturns => exact .unsent s.log true (.inl rfl)
  case isFalse hturns =>
    split
    case h_1 hnone => exact .unsent s.log s.awaitingOperator (.inl rfl)
    case h_2 log hlog =>
      dsimp only
      split
      case isTrue hover => exact .unsent log s.awaitingOperator (.inr hlog)
      case isFalse hfits =>
        have hsent : s.request schema = some log := by
          simp only [InteractiveSession.request, if_neg hturns, hlog, Option.filter_some, decide_eq_true_eq,
            if_pos (Nat.le_of_not_lt hfits)]
        cases answer with
        | error reason => exact .idle log s.awaitingOperator s.turnCount hsent hlog
        | ok response =>
          dsimp only
          split
          case h_1 assistant calls hturn =>
            have h : Stepped schema s (.ok response) execute _ :=
              .dispatched log response assistant calls (saturatingSucc s.turnCount) hsent hlog rfl hturn
            split
            case h_1 hdone => rwa [hdone] at h
            case h_2 hdone => rwa [hdone] at h
          · exact .idle log true _ hsent hlog
          · exact .idle log true _ hsent hlog

theorem Spent.apply (h : Spent s) (op : SessionOp R) : Spent (s.apply schema op) := by
  cases op with
  | submit operatorInput => exact ⟨h.limit, h.counted, h.within⟩
  | step answer execute =>
    have hstep := step_cases schema s answer execute
    simp only [InteractiveSession.apply]
    generalize (s.step schema answer execute).1 = s' at hstep ⊢
    cases hstep with
    | unsent => exact ⟨h.limit, h.counted, h.within⟩
    | idle => exact ⟨h.limit, h.counted, h.within⟩
    | dispatched =>
      apply Spent.dispatch
      exact ⟨h.limit, h.counted, h.within⟩
  | compact =>
    simp only [InteractiveSession.apply, InteractiveSession.compact]
    split <;> exact ⟨h.limit, h.counted, h.within⟩

/-- A session whose log has no open turn, and that has handed over none. -/
structure Sound (Settled : L → Prop) (s : InteractiveSession L) : Prop where
  limit : s.toolLimit = defaultMaxToolCalls
  settled : Settled s.log
  handed : ∀ log ∈ s.handed, Settled log

theorem Schema.Lawful.apply (hlaws : schema.Lawful Settled Pending) (h : Sound Settled s) {op : SessionOp R}
    (hfits : s.Fits schema op) : Sound Settled (s.apply schema op) := by
  obtain ⟨hlimit, hsettled, hhanded⟩ := h
  cases op with
  | submit operatorInput => exact ⟨hlimit, hlaws.user operatorInput hsettled, hhanded⟩
  | compact =>
    simp only [InteractiveSession.apply, InteractiveSession.compact]
    split
    · exact ⟨hlimit, hlaws.compact hsettled (by assumption), hhanded⟩
    all_goals exact ⟨hlimit, hsettled, hhanded⟩
  | step answer execute =>
    have hstep := step_cases schema s answer execute
    simp only [InteractiveSession.apply]
    generalize (s.step schema answer execute).1 = s' at hstep ⊢
    have hsend {log : L} (hlog : Settled log) : ∀ sent ∈ s.handed ++ [log], Settled sent := by
      intro sent hsent
      obtain hold | hnew := List.mem_append.mp hsent
      · exact hhanded sent hold
      · rwa [List.mem_singleton.mp hnew]
    cases hstep with
    | unsent log awaitingOperator hlog =>
      refine ⟨hlimit, ?_, hhanded⟩
      obtain rfl | hlog := hlog
      · exact hsettled
      · exact hlaws.maybeCompact hsettled hlog
    | idle log awaitingOperator turnCount hsent hlog =>
      have hnew := hlaws.maybeCompact hsettled hlog
      exact ⟨hlimit, hnew, hsend hnew⟩
    | dispatched log response assistant calls turnCount hsent hlog hanswer hturn =>
      subst hanswer
      have hnew := hlaws.maybeCompact hsettled hlog
      have hbudget := hfits assistant calls (by rw [hsent]; exact Option.some_ne_none log) hturn
      refine ⟨?_, hlaws.dispatch (hlaws.answer hnew hturn) hlimit hbudget, ?_⟩
      · rw [(dispatch_frame calls).toolLimit]
        exact hlimit
      · rw [(dispatch_frame calls).handed]
        exact hsend hnew

theorem spent_run (h : Spent s) (ops : List (SessionOp R)) : Spent (s.run schema ops) := by
  induction ops generalizing s with
  | nil => exact h
  | cons op ops ih => exact ih (h.apply op)

theorem Schema.Lawful.run (hlaws : schema.Lawful Settled Pending) (h : Sound Settled s) (ops : List (SessionOp R))
    (hfits : ∀ n op, ops[n]? = some op → (stateAt (InteractiveSession.apply schema) s ops n).Fits schema op) :
    Sound Settled (s.run schema ops) := by
  induction ops generalizing s with
  | nil => exact h
  | cons op ops ih =>
    rw [forall_actions_cons] at hfits
    exact ih (hlaws.apply h hfits.1) hfits.2

theorem withRegistry_eq {briefing : String} (h : InteractiveSession.withRegistry schema briefing = .ok s) :
    Spent s ∧ s.log = schema.fromBriefing briefing ∧ s.handed = [] := by
  unfold InteractiveSession.withRegistry at h
  dsimp only at h
  split_ifs at h with hover
  cases h
  exact ⟨⟨rfl, Nat.le_refl 0, Nat.zero_le _⟩, rfl, rfl⟩

/-- In a session that opens on the briefing the tool bodies never outnumber the budget, and where
every answer fits what is left of it, every log that is handed over is well formed. -/
def KeepsPairing (schema : Schema L A R) (WellFormed : L → Prop) (briefing : String)
    (ops : List (SessionOp R)) : Prop :=
  ∀ s, InteractiveSession.withRegistry schema briefing = .ok s →
    (s.run schema ops).executed.length ≤ defaultMaxToolCalls ∧
      ((∀ n op, ops[n]? = some op → (stateAt (InteractiveSession.apply schema) s ops n).Fits schema op) →
        ∀ log ∈ (s.run schema ops).handed, WellFormed log)

theorem Schema.Lawful.keepsPairing (hlaws : schema.Lawful Settled Pending) {WellFormed : L → Prop}
    (hformed : ∀ {log}, Settled log → WellFormed log) (briefing : String) (ops : List (SessionOp R)) :
    KeepsPairing schema WellFormed briefing ops := by
  intro s hopen
  obtain ⟨hspent, hlog, hhanded⟩ := withRegistry_eq hopen
  have hrun : Spent (s.run schema ops) := spent_run hspent ops
  refine ⟨hrun.limit ▸ hrun.within, fun hfits log hmem => ?_⟩
  have hstart : Sound Settled s := by
    refine ⟨hspent.limit, ?_, ?_⟩
    · rw [hlog]
      exact hlaws.briefing briefing
    · rw [hhanded]
      exact List.forall_mem_nil _
  exact hformed ((hlaws.run hstart ops hfits).handed log hmem)

/-- Neither provider is handed a log with an open turn, as long as no answer asks for more calls
than the budget has left; and its tool bodies never outnumber that budget. -/
theorem sessions_keep_pairing (briefing : String) (opsOpenAI : List (SessionOp OpenAI.Response))
    (opsAnthropic : List (SessionOp Anthropic.Response)) :
    KeepsPairing openAI (fun log => OpenAI.WellFormed log ∧ OpenAI.invariantWellFormed log = true) briefing
      opsOpenAI ∧
    KeepsPairing anthropic (fun log => Anthropic.WellFormed log ∧ Anthropic.invariantWellFormed log = true)
      briefing opsAnthropic := by
  constructor
  · exact openAI_lawful.keepsPairing (fun h => ⟨h.paired.wellFormed, h.paired.invariantWellFormed⟩) _ _
  · exact anthropic_lawful.keepsPairing (fun h => ⟨h.paired.wellFormed, h.paired.pairedMessages⟩) _ _

def briefed (schema : Schema L A R) : InteractiveSession L where
  log := schema.fromBriefing "Fix the build."
  compactionThreshold := 26214
  compactionTarget := 19660

theorem withRegistry_briefed (schema : Schema L A R) :
    InteractiveSession.withRegistry schema "Fix the build." = .ok (briefed schema) := by
  have hsmall : ¬ defaultMaxInputTokens < estimateBriefingTokens "Fix the build." := by decide +kernel
  simp only [InteractiveSession.withRegistry, if_neg hsmall]
  rfl

def asks (response : R) : List (SessionOp R) :=
  [.submit "Read them all.", .step (.ok response) (fun _ => .ok "ok"), .submit "Go on.",
    .step (.error "connection reset") (fun _ => .ok "ok")]

def readCall : OpenAI.WireToolCall := ⟨"call_1", "read_file", "\x7b\x7d"⟩

def reads (count : Nat) : OpenAI.Response := ⟨none, List.replicate count readCall, .normal⟩

def readUse : Anthropic.Response := ⟨[.text "Reading.", .toolUse "toolu_1" "read_file" "\x7b\x7d"], .normal⟩

theorem sessions_keep_pairing_reads :
    (((briefed openAI).run openAI (asks (reads 2))).handed.length = 2 ∧
      ∀ log ∈ ((briefed openAI).run openAI (asks (reads 2))).handed,
        OpenAI.WellFormed log ∧ OpenAI.invariantWellFormed log = true) ∧
    ((briefed anthropic).run anthropic (asks readUse)).handed.length = 2 ∧
      ∀ log ∈ ((briefed anthropic).run anthropic (asks readUse)).handed,
        Anthropic.WellFormed log ∧ Anthropic.invariantWellFormed log = true := by
  obtain ⟨hopenAI, hanthropic⟩ := sessions_keep_pairing "Fix the build." (asks (reads 2)) (asks readUse)
  obtain ⟨-, hreads⟩ := hopenAI _ (withRegistry_briefed openAI)
  obtain ⟨-, huse⟩ := hanthropic _ (withRegistry_briefed anthropic)
  refine ⟨⟨by decide +kernel, hreads ?_⟩, by decide +kernel, huse ?_⟩
  all_goals
    simp only [asks, forall_actions_cons]
    refine ⟨trivial, ?_, trivial, trivial, by simp⟩
    intro assistant calls _ hturn
    cases hturn
    decide

/-- An answer with one read too many leaves its turn open in the session, and the next step hands
over a log that has no result for that read. -/
theorem overrun_hands_open_turn :
    InteractiveSession.withRegistry openAI "Fix the build." = .ok (briefed openAI) ∧
    ∃ log ∈ ((briefed openAI).run openAI (asks (reads 65))).handed, ¬ OpenAI.WellFormed log := by
  refine ⟨withRegistry_briefed openAI, ?_⟩
  let base : OpenAI.Log := OpenAI.fromBriefing "Fix the build." ++ [OpenAI.userMessage "Read them all."]
  let assistant : OpenAI.ChatMessage :=
    { role := "assistant", content := none, toolCalls := some (List.replicate 65 readCall) }
  let results : OpenAI.Log := List.replicate 64 (OpenAI.toolMessage "call_1" "read_file" "ok")
  refine ⟨base ++ assistant :: (results ++ [OpenAI.userMessage "Go on."]), by decide +kernel, fun h => ?_⟩
  have hrole := (h.answered rfl).2 (OpenAI.userMessage "Go on.") (by decide)
  exact absurd hrole (by decide)

end Cosmon.Harness
