import Cosmon.Harness.Evidence

namespace Cosmon.Harness

open Cosmon.Lib.Effects Cosmon.Lib.Runs Cosmon.Core.HarnessTurn

variable {digestOf : List UInt8 → BlobDigest} {execResult : String → Option ExecResult} {L A α β : Type}

variable (digestOf execResult) in
/-- From a place the computation goes to that of its result, and the property holds where it
stops before. -/
abbrev Leads (P : Point digestOf execResult A) (x : Run A α) (Q : α → Point digestOf execResult A) : Prop :=
  Effect.Triple (fun w => P.holds w.trace w.currentTurn) x (fun a w => (Q a).holds w.trace w.currentTurn)
    fun w => EvidenceKept digestOf execResult w.trace

section Steps

variable {P Q : Point digestOf execResult A} (env : Env L A)

theorem leads_pure {Q : α → Point digestOf execResult A} {a : α}
    (h : ∀ trace turn, P.holds trace turn → (Q a).holds trace turn) :
    Leads digestOf execResult P (pure a) Q :=
  Effect.triple_pure fun _ => h _ _

theorem leads_done {a : α} : Leads digestOf execResult P (pure a) fun _ => P := leads_pure fun _ _ h => h

theorem leads_fail {Q : α → Point digestOf execResult A} {e : Halt} :
    Leads digestOf execResult P (Effect.fail e) Q := Effect.triple_fail fun _ => P.kept _ _

theorem leads_ofExcept (x : Except Halt α) : Leads digestOf execResult P (Effect.ofExcept x) fun _ => P :=
  Effect.triple_read (fun _ _ h _ => h) fun _ _ h _ => P.kept _ _ h

theorem leads_given {p : Prop} {x : Run A α} {Q : α → Point digestOf execResult A}
    (h : p → Leads digestOf execResult P x Q) : Leads digestOf execResult (P.given p) x Q :=
  ⟨fun s a s' hs => (h hs.1).returns s a s' hs.2, fun s e s' hs => (h hs.1).fails s e s' hs.2⟩

theorem leads_tick : Leads digestOf execResult P (tick env) fun _ => P := by
  constructor
  · intro w n w' hw h
    rw [tick] at h
    split at h
    · cases h
    · cases h
      exact hw
  · intro w e w' hw h
    rw [tick] at h
    split at h
    · cases h
      exact P.kept _ _ hw
    · cases h

theorem leads_emit {event : Event A} (h : Steps digestOf execResult P event Q) :
    Leads digestOf execResult P (emit event) fun _ => Q :=
  Effect.triple_modify fun w => h w.trace w.currentTurn

def appended (P Q : Point digestOf execResult A) : Except EvidenceError Unit → Point digestOf execResult A
  | .ok () => Q
  | .error _ => P.either Q

theorem leads_append {record : TurnRecord} (h : Steps digestOf execResult P (.stored record) Q) :
    Leads digestOf execResult P (append env record) (appended P Q) := by
  refine (leads_tick env).bind fun n => ?_
  split
  · exact (leads_emit h).bind fun _ => leads_pure fun _ _ hQ => hQ
  · exact (leads_emit h).bind fun _ => leads_pure fun _ _ hQ => Or.inr hQ
  · exact leads_pure fun _ _ hP => Or.inl hP

theorem leads_andThen {x : Run A (Except EvidenceError α)} {f : α → Run A (Except EvidenceError β)}
    {R : Except EvidenceError α → Point digestOf execResult A}
    {S : Except EvidenceError β → Point digestOf execResult A}
    (hx : Leads digestOf execResult P x R) (hf : ∀ a, Leads digestOf execResult (R (.ok a)) (f a) S)
    (herror : ∀ e trace turn, (R (.error e)).holds trace turn → (S (.error e)).holds trace turn) :
    Leads digestOf execResult P (andThen x f) S := by
  refine hx.bind fun r => ?_
  cases r with
  | ok a => exact hf a
  | error e => exact leads_pure (herror e)

theorem leads_ask {x : Run A (Except EvidenceError α)}
    {R : Except EvidenceError α → Point digestOf execResult A} (hx : Leads digestOf execResult P x R) :
    Leads digestOf execResult P (ask x) fun a => R (.ok a) := by
  refine hx.bind fun r => ?_
  cases r with
  | ok a => exact leads_pure fun _ _ h => h
  | error e => exact leads_fail

theorem leads_putBlob (kind : BlobKind) (bytes : List UInt8) :
    Leads digestOf execResult P (putBlob env digestOf kind bytes)
      fun r => P.given (∀ ref, r = .ok ref → ref = blobRef digestOf kind bytes) := by
  refine (leads_tick env).bind fun n => ?_
  split
  · exact leads_pure fun _ _ hP => ⟨fun _ h => (by cases h), hP⟩
  · exact leads_pure fun _ _ hP => ⟨fun _ h => (Except.ok.inj h).symm, hP⟩

theorem leads_blob (kind : BlobKind) (bytes : Option (List UInt8)) :
    Leads digestOf execResult P (blob env digestOf kind bytes)
      fun r => P.given (∀ ref, r = .ok ref → ref = bytes.map (blobRef digestOf kind)) := by
  cases bytes with
  | none => exact leads_pure fun _ _ hP => ⟨fun _ h => (Except.ok.inj h).symm, hP⟩
  | some bytes =>
    refine leads_andThen (leads_putBlob env kind bytes) (fun ref => ?_) fun e _ _ h => ?_
    · refine leads_given fun href => leads_pure fun _ _ hP => ⟨fun _ h => ?_, hP⟩
      rw [← Except.ok.inj h, href ref rfl]
      rfl
    · exact ⟨fun _ h => (by cases h), h.2⟩

theorem leads_recordBlob {kind : BlobKind} {bytes : Option (List UInt8)}
    {record : Option BlobRef → TurnRecord}
    (h : Steps digestOf execResult P (.stored (record (bytes.map (blobRef digestOf kind)))) Q) :
    Leads digestOf execResult P
      (ask (andThen (blob env digestOf kind bytes) fun ref => append env (record ref))) fun _ => Q := by
  apply leads_ask (R := appended P Q)
  refine leads_andThen (leads_blob env kind bytes) (fun ref => ?_) fun e _ _ he => ?_
  · refine leads_given fun href => ?_
    rw [href ref rfl]
    exact leads_append env h
  · exact Or.inl he.2

theorem leads_currentTurn (turn : Nat) (h : ∀ trace now, P.holds trace now → now = turn) :
    Leads digestOf execResult P currentTurn fun now => P.given (now = turn) := by
  refine Effect.triple_read (fun w now hP hnow => ?_) fun w e hP he => ?_
  · cases hnow
    exact ⟨h _ _ hP, hP⟩
  · cases he

end Steps

section Loop

variable (env : Env L A) (ml : MessageLog L A) (config : Config) (turn : Nat) (state : LoopState L)

theorem leads_requestIntent (estimated spent : Nat) :
    Leads digestOf execResult .idle (ask (requestIntent env turn estimated spent)) fun _ => .asked turn := by
  apply leads_ask (R := appended (.entering turn) (.asked turn))
  refine (Effect.triple_modify fun w h => ?_).bind fun _ =>
    leads_append env (steps_requestIntent estimated spent)
  obtain ⟨f, hstage, hf⟩ := h
  exact ⟨f, hstage, rfl, hf⟩

theorem asked_refused (trace : List (Event A)) (now : Nat)
    (h : (Point.asked turn : Point digestOf execResult A).holds trace now) :
    (Point.refused turn : Point digestOf execResult A).holds trace now := by
  obtain ⟨f, hstage, hnow, hf, -⟩ := h
  exact ⟨[], fun r hr => (by cases hr), f, hstage, hnow, hf⟩

theorem answered_refused (answer : Except String (Turn A)) (trace : List (Event A)) (now : Nat)
    (h : (Point.answered turn answer : Point digestOf execResult A).holds trace now) :
    (Point.refused turn : Point digestOf execResult A).holds trace now := by
  obtain ⟨f, hstage, hnow, hf⟩ := h
  exact ⟨[⟨turn, answer⟩], fun r hr => (by rw [List.mem_singleton.mp hr]), f, hstage, hnow, hf⟩

def turnEnd : Except String (Turn A) → Point digestOf execResult A
  | .ok answer => .answered turn (.ok answer)
  | .error _ => .refused turn

theorem answered_turnEnd (answer : Except String (Turn A)) (g : String → String) (trace : List (Event A))
    (now : Nat) (h : (Point.answered turn answer : Point digestOf execResult A).holds trace now) :
    (turnEnd turn (answer.mapError g) : Point digestOf execResult A).holds trace now := by
  cases answer with
  | ok answer => exact h
  | error e => exact answered_refused turn _ trace now h

theorem leads_send (log : L) :
    Leads digestOf execResult (.asked turn) (send env turn log) fun answer => .answered turn answer := by
  refine (leads_tick env).bind fun n => ?_
  exact (leads_emit (steps_sent (env.answers n log))).bind fun _ => leads_pure fun _ _ h => h

theorem leads_inputsSelected (inputs : List InputEvidence) :
    Leads digestOf execResult (.asked turn) (inputsSelected env inputs)
      (appended (.asked turn) (.asked turn)) := by
  refine (leads_currentTurn turn ?_).bind fun now => leads_given fun hnow => ?_
  · rintro trace now ⟨f, -, hnow, -⟩
    exact hnow
  · rw [hnow]
    exact leads_append env (steps_inputsSelected inputs)

theorem leads_oneTurn (log : L) :
    Leads digestOf execResult (.asked turn) (oneTurn env digestOf ml config turn log) (turnEnd turn) := by
  rw [oneTurn]
  split
  · refine (leads_tick env).bind fun n => ?_
    split
    · exact leads_pure (asked_refused turn)
    · split
      · exact (leads_send env turn log).bind fun answer => leads_pure (answered_turnEnd turn answer _)
      · refine (leads_inputsSelected env turn _).bind fun r => ?_
        cases r with
        | error e => exact leads_pure fun trace now h => asked_refused turn trace now (or_self_iff.mp h)
        | ok _ =>
          refine (leads_send env turn _).bind fun answer => (leads_tick env).bind fun n => ?_
          split
          · exact leads_pure (answered_refused turn answer)
          · exact leads_pure (answered_turnEnd turn answer _)
  · refine (leads_send env turn log).post fun answer w h => ?_
    cases answer with
    | ok answer => exact h
    | error e => exact answered_refused turn _ _ _ h

theorem leads_requestFailed (reason : String) :
    Leads digestOf execResult (.refused turn) (requestFailed env reason) fun _ => .ended := by
  refine (leads_currentTurn turn ?_).bind fun now => leads_given fun hnow => ?_
  · rintro trace now ⟨waiting, -, f, -, hnow, -⟩
    exact hnow
  · rw [hnow]
    exact (leads_append env (steps_requestFailed _)).post fun r w => (appended _ _ r).kept _ _

theorem leads_compactLog (log : L) :
    Leads digestOf execResult .idle (compactLog env ml config turn log) fun _ => .idle := by
  rw [compactLog]
  split
  · exact (leads_ask (leads_append env (steps_compacted _ _ _))).bind fun _ => leads_done
  · exact leads_done

theorem leads_request :
    Leads digestOf execResult .idle (request env digestOf ml config turn state)
      fun result => .answered turn (.ok result.2) := by
  refine (leads_compactLog env ml config turn state.log).bind fun log => ?_
  dsimp only
  split
  · exact leads_fail
  · refine (leads_requestIntent env turn _ _).bind fun _ => ?_
    refine (leads_oneTurn env ml config turn _).bind fun r => ?_
    cases r with
    | error e => exact (leads_requestFailed env turn e).bind fun _ => leads_fail
    | ok answer => exact leads_pure fun _ _ h => h

theorem leads_execute (call : ToolCall) (calls : List ToolCall) :
    Leads digestOf execResult (.intended turn call calls) (execute env turn call)
      fun result => .ran turn call result calls := by
  refine (leads_tick env).bind fun n => ?_
  exact (leads_emit (steps_ran _)).bind fun _ => leads_pure fun _ _ h => h

theorem leads_dispatchCall (call : ToolCall) (calls : List ToolCall) :
    Leads digestOf execResult (.dispatching turn (call :: calls))
      (dispatchCall env digestOf ml execResult config turn state call) fun _ => .dispatching turn calls := by
  rw [dispatchCall]
  dsimp only
  split
  · exact leads_fail
  · refine (leads_ask (leads_append env (steps_toolIntent _))).bind fun _ => ?_
    refine (leads_execute env turn call calls).bind fun result => ?_
    exact (leads_recordBlob env (steps_toolReceipt result _)).bind fun _ => leads_done

theorem leads_dispatchCalls (calls : List ToolCall) :
    Leads digestOf execResult (.dispatching turn calls)
      (dispatchCalls env digestOf ml execResult config turn calls state) fun _ => .idle := by
  induction calls generalizing state with
  | nil =>
    refine leads_pure ?_
    rintro trace now ⟨f, hstage, hf, -⟩
    exact ⟨f, hstage, hf⟩
  | cons call calls ih =>
    exact (leads_dispatchCall env ml config turn state call calls).bind fun state => ih state

theorem leads_dispatchToolCalls (assistant : A) (calls : List ToolCall) :
    Leads digestOf execResult (.answered turn (.ok (.toolCalls assistant calls)))
      (dispatchToolCalls env digestOf ml execResult config turn state assistant calls) fun _ => .idle := by
  refine (leads_recordBlob env (steps_assistantReceived assistant _ _)).bind fun _ => ?_
  refine (leads_dispatchCalls env ml config turn _ calls).bind fun state => ?_
  exact (leads_recordBlob env (steps_checkpoint _ _)).bind fun _ => leads_done

theorem partialText_eq (response : TerminalResponse) : partialText digestOf response =
    (if response.text = "" then none else some (textBytes response.text)).map
      (blobRef digestOf .partialText) := by
  rw [partialText]
  split <;> rfl

theorem leads_conclude {answer : Turn A} {response : TerminalResponse}
    (hanswer : answer.response = some response) :
    Leads digestOf execResult (.answered turn (.ok answer)) (conclude env digestOf turn state response)
      fun _ => .ended := by
  refine (leads_recordBlob env ?_).bind fun _ => leads_done
  rw [← partialText_eq]
  exact steps_terminal hanswer state.usedTools

theorem leads_turns (rest : List Nat) :
    Leads digestOf execResult .idle (turns env digestOf ml execResult config rest state) fun _ => .ended := by
  induction rest generalizing state with
  | nil => exact leads_fail
  | cons turn rest ih =>
    refine (leads_request env ml config turn state).bind fun result => ?_
    obtain ⟨state, answer⟩ := result
    cases answer with
    | toolCalls assistant calls =>
      dsimp only
      split
      · exact leads_fail
      · exact (leads_dispatchToolCalls env ml config turn _ assistant calls).bind fun state => ih state
    | stop text => exact leads_conclude env turn state rfl
    | terminal response => exact leads_conclude env turn state rfl

theorem leads_runLoop :
    Leads digestOf execResult .start (runLoop env digestOf ml execResult config) fun _ => .ended := by
  rw [runLoop]
  split
  · exact leads_fail
  · split
    · refine (leads_ask (leads_append env (steps_started _ _))).bind fun _ => ?_
      refine (leads_turns env ml config _ _).pre ?_
      rintro w ⟨f, hstage, hf, -⟩
      exact ⟨f, hstage, hf⟩
    · refine (leads_ofExcept _).bind fun log => ?_
      refine (leads_ask (leads_append env (steps_started _ _))).bind fun _ => ?_
      refine (leads_ask (leads_append env (steps_resumed _ _ _ _ _ _))).bind fun _ => ?_
      exact leads_turns env ml config _ _

/-- Whatever the provider and the tools do, and wherever appends fail or the process dies,
no effect is without its intent, and the records account for every effect. -/
theorem intentBeforeEffect :
    EvidenceKept digestOf execResult (runLoop env digestOf ml execResult config {}).2.trace := by
  apply (leads_runLoop env ml config).ends (I := fun w => EvidenceKept digestOf execResult w.trace)
  · exact fun _ _ h => h
  · exact fun _ h => h
  · refine ⟨{}, ⟨eachAfter_nil, rfl, ⟨[], rfl, rfl⟩, ⟨[], rfl, ?_⟩, Or.inl rfl, ?_⟩, rfl⟩
    · intro r hr
      cases hr
    · intro r hr
      cases hr

end Loop

end Cosmon.Harness
