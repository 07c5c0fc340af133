import Cosmon.Harness.Shapes

namespace Cosmon.Harness

open Cosmon.Lib.Effects Cosmon.Core.HarnessTurn

variable {L A : Type} {digestOf : List UInt8 → BlobDigest} {ml : MessageLog L A}
  {execResult : String → Option ExecResult} {config : Config} {turn : Nat} {log : L} {spent : Nat}

section Events

theorem requestEvents_asked : requestEvents (A := A) ml config turn log spent none none =
    compactEvents ml config turn log ++
      [.stored (.requestIntent turn (ml.estimateTokens (maybeCompact ml config log).1) spent)] := rfl

theorem requestEvents_selected (inputs : List InputEvidence) :
    requestEvents (A := A) ml config turn log spent (some inputs) none =
      requestEvents ml config turn log spent none none ++ [.stored (.inputsSelected turn inputs)] := by
  simp [requestEvents]

theorem requestEvents_sent (inputs : Option (List InputEvidence)) (answer : Except String (Turn A)) :
    requestEvents ml config turn log spent inputs (some answer) =
      requestEvents ml config turn log spent inputs none ++ [.sent turn answer] := by
  simp [requestEvents]

end Events

variable (digestOf ml execResult config) in
def At (head : List (Event A)) (turn : Nat) (log : L) (spent : Nat) (rest : List (Event A)) : Place A :=
  fun trace _ => ∃ first log₀ spent₀ events, Begins digestOf ml config head first log₀ spent₀ ∧
    Turns digestOf ml execResult config first log₀ spent₀ events turn log spent ∧ trace = head ++ (events ++ rest)

variable (digestOf ml execResult config) in
def AtNow (head : List (Event A)) (turn : Nat) (log : L) (spent : Nat) (rest : List (Event A)) : Place A :=
  fun trace now => now = turn ∧ At digestOf ml execResult config head turn log spent rest trace now

variable {head rest rest' : List (Event A)} {event : Event A}

theorem stops_at (h : Partly digestOf ml execResult config turn log spent rest) :
    Stops (Shape digestOf ml execResult config) (At digestOf ml execResult config head turn log spent rest) := by
  rintro trace now ⟨first, log₀, spent₀, events, hbegins, hevents, rfl⟩
  exact .turns hbegins hevents h

theorem stops_atNow (h : Partly digestOf ml execResult config turn log spent rest) :
    Stops (Shape digestOf ml execResult config) (AtNow digestOf ml execResult config head turn log spent rest) :=
  fun trace now hat => stops_at h trace now hat.2

theorem extends_at (hrest : rest' = rest ++ [event]) :
    Extends (At digestOf ml execResult config head turn log spent rest) event
      (At digestOf ml execResult config head turn log spent rest') := by
  rintro trace now ⟨first, log₀, spent₀, events, hbegins, hevents, rfl⟩
  refine ⟨first, log₀, spent₀, events, hbegins, hevents, ?_⟩
  rw [hrest, List.append_assoc, List.append_assoc]

theorem extends_atNow (hrest : rest' = rest ++ [event]) :
    Extends (AtNow digestOf ml execResult config head turn log spent rest) event
      (AtNow digestOf ml execResult config head turn log spent rest') :=
  fun trace now hat => ⟨hat.1, extends_at hrest trace now hat.2⟩

variable (env : Env L A)

theorem goes_compactLog :
    Goes (Shape digestOf ml execResult config) (At digestOf ml execResult config head turn log spent [])
      (compactLog env ml config turn log) fun log' trace now => log' = (maybeCompact ml config log).1 ∧
        At digestOf ml execResult config head turn log spent (compactEvents ml config turn log) trace now := by
  rw [compactLog]
  split
  case h_1 report hreport =>
    have hevents : compactEvents ml config turn log =
        [] ++ [.stored (.compacted turn report.tokensBefore report.tokensAfter (clamp report.messagesRemoved))] := by
      simp [compactEvents, hreport]
    refine (goes_record env (stops_at .idle) (stops_at .compacted) (extends_at hevents)).bind fun _ => ?_
    exact goes_pure fun _ _ h => ⟨rfl, h⟩
  case h_2 hreport =>
    have hevents : compactEvents (A := A) ml config turn log = [] := by simp [compactEvents, hreport]
    rw [hevents]
    exact goes_pure fun _ _ h => ⟨rfl, h⟩

theorem goes_requestIntent (hturn : turn < config.budget.maxTurns) :
    Goes (Shape digestOf ml execResult config)
      (At digestOf ml execResult config head turn log spent (compactEvents ml config turn log))
      (ask (requestIntent env turn (ml.estimateTokens (maybeCompact ml config log).1) spent)) fun _ =>
        AtNow digestOf ml execResult config head turn log spent (requestEvents ml config turn log spent none none) := by
  have hcompacted : Stops (Shape digestOf ml execResult config) (AtNow digestOf ml execResult config head turn log
      spent (compactEvents ml config turn log)) := stops_atNow .compacted
  have henter : Goes (Shape digestOf ml execResult config)
      (At digestOf ml execResult config head turn log spent (compactEvents ml config turn log))
      (Effect.modify fun w => { w with currentTurn := turn })
      fun _ => AtNow digestOf ml execResult config head turn log spent (compactEvents ml config turn log) :=
    Effect.triple_modify fun w h => ⟨rfl, h⟩
  have hintent : Extends
      (AtNow digestOf ml execResult config head turn log spent (compactEvents ml config turn log))
      (.stored (.requestIntent turn (ml.estimateTokens (maybeCompact ml config log).1) spent))
      (AtNow digestOf ml execResult config head turn log spent (requestEvents ml config turn log spent none none)) :=
    extends_atNow requestEvents_asked
  refine goes_ask (henter.bind fun _ => goes_append env hcompacted hintent) ?_
  exact stops_appendEnds hcompacted (stops_atNow (.asked hturn none none))

theorem goes_send (hturn : turn < config.budget.maxTurns) (inputs : Option (List InputEvidence)) (sent : L) :
    Goes (Shape digestOf ml execResult config)
      (AtNow digestOf ml execResult config head turn log spent (requestEvents ml config turn log spent inputs none))
      (send env turn sent) fun answer => AtNow digestOf ml execResult config head turn log spent
        (requestEvents ml config turn log spent inputs (some answer)) := by
  refine (goes_tick env (stops_atNow (.asked hturn inputs none))).bind fun n => ?_
  refine (goes_emit (extends_atNow (requestEvents_sent inputs (env.answers n sent)))).bind fun _ => ?_
  exact goes_pure fun _ _ h => h

variable (digestOf ml execResult config) in
def Asked (head : List (Event A)) (turn : Nat) (log : L) (spent : Nat) : Place A := fun trace now =>
  ∃ inputs answer, AtNow digestOf ml execResult config head turn log spent
    (requestEvents ml config turn log spent inputs answer) trace now

variable (digestOf ml execResult config) in
def Answered (head : List (Event A)) (turn : Nat) (log : L) (spent : Nat) (answer : Turn A) : Place A :=
  fun trace now => ∃ inputs, AtNow digestOf ml execResult config head turn log spent
    (requestEvents ml config turn log spent inputs (some (.ok answer))) trace now

variable (digestOf ml execResult config) in
def turnEnds (head : List (Event A)) (turn : Nat) (log : L) (spent : Nat) : Except String (Turn A) → Place A
  | .ok answer => Answered digestOf ml execResult config head turn log spent answer
  | .error _ => Asked digestOf ml execResult config head turn log spent

theorem turnEnds_answered (inputs : Option (List InputEvidence)) (answer : Except String (Turn A))
    (f : String → String) (trace : List (Event A)) (now : Nat)
    (h : AtNow digestOf ml execResult config head turn log spent
      (requestEvents ml config turn log spent inputs (some answer)) trace now) :
    turnEnds digestOf ml execResult config head turn log spent (answer.mapError f) trace now := by
  cases answer with
  | ok answer => exact ⟨inputs, h⟩
  | error e => exact ⟨inputs, _, h⟩

theorem goes_inputsSelected (hturn : turn < config.budget.maxTurns) (inputs : List InputEvidence) :
    Goes (Shape digestOf ml execResult config)
      (AtNow digestOf ml execResult config head turn log spent (requestEvents ml config turn log spent none none))
      (inputsSelected env inputs) (appendEnds
        (AtNow digestOf ml execResult config head turn log spent (requestEvents ml config turn log spent none none))
        (AtNow digestOf ml execResult config head turn log spent
          (requestEvents ml config turn log spent (some inputs) none))) := by
  refine (goes_currentTurn fun _ _ h => h.1).bind fun now => goes_given fun hnow => ?_
  rw [hnow]
  exact goes_append env (stops_atNow (.asked hturn none none)) (extends_atNow (requestEvents_selected inputs))

theorem goes_oneTurn (hturn : turn < config.budget.maxTurns) (sent : L) :
    Goes (Shape digestOf ml execResult config)
      (AtNow digestOf ml execResult config head turn log spent (requestEvents ml config turn log spent none none))
      (oneTurn env digestOf ml config turn sent) (turnEnds digestOf ml execResult config head turn log spent) := by
  rw [oneTurn]
  split
  · refine (goes_tick env (stops_atNow (.asked hturn none none))).bind fun n => ?_
    split
    · exact goes_pure fun trace now h => ⟨none, none, h⟩
    · split
      · exact (goes_send env hturn none sent).bind fun answer => goes_pure (turnEnds_answered none answer _)
      · refine (goes_inputsSelected env hturn _).bind fun r => ?_
        cases r with
        | error e => exact goes_pure fun trace now h => h.elim (fun h => ⟨none, none, h⟩) (fun h => ⟨_, none, h⟩)
        | ok _ =>
          refine (goes_send env hturn _ _).bind fun answer => ?_
          refine (goes_tick env (stops_atNow (.asked hturn _ _))).bind fun n => ?_
          split
          · exact goes_pure fun trace now h => ⟨_, _, h⟩
          · exact goes_pure (turnEnds_answered _ answer _)
  · refine (goes_send env hturn none sent).post fun answer trace now h => ?_
    cases answer with
    | ok answer => exact ⟨none, h⟩
    | error e => exact ⟨none, _, h⟩

theorem goes_requestFailed (hturn : turn < config.budget.maxTurns) (reason : String) :
    Goes (Shape digestOf ml execResult config) (Asked digestOf ml execResult config head turn log spent)
      (requestFailed env reason) fun _ trace _ => Shape digestOf ml execResult config trace := by
  refine goes_exists fun inputs => goes_exists fun answer => ?_
  refine (goes_currentTurn fun _ _ h => h.1).bind fun now => goes_given fun hnow => ?_
  rw [hnow]
  have hasked : Stops (Shape digestOf ml execResult config) (AtNow digestOf ml execResult config head turn log spent
      (requestEvents ml config turn log spent inputs answer)) := stops_atNow (.asked hturn inputs answer)
  have hfailed : Stops (Shape digestOf ml execResult config) (AtNow digestOf ml execResult config head turn log spent
      (requestEvents ml config turn log spent inputs answer ++
        [.stored (.requestFailed turn (boundedReason reason))])) := stops_atNow (.failed hturn inputs answer _)
  refine (goes_append env hasked (extends_atNow rfl)).post fun r trace now h => ?_
  cases r with
  | ok _ => exact hfailed trace now h
  | error e => exact stops_appendEnds hasked hfailed e trace now h

theorem stops_answered (hturn : turn < config.budget.maxTurns) (answer : Turn A) :
    Stops (Shape digestOf ml execResult config) (Answered digestOf ml execResult config head turn log spent answer) :=
  fun trace now h => h.elim fun inputs hat => stops_atNow (.asked hturn inputs _) trace now hat

theorem goes_request (hturn : turn < config.budget.maxTurns) (state : LoopState L) :
    Goes (Shape digestOf ml execResult config)
      (At digestOf ml execResult config head turn state.log state.usedTools [])
      (request env digestOf ml config turn state) fun result trace now =>
        result.1 = { state with log := (maybeCompact ml config state.log).1 } ∧
          Answered digestOf ml execResult config head turn state.log state.usedTools result.2 trace now := by
  refine (goes_compactLog env).bind fun log => goes_given fun hlog => ?_
  subst hlog
  dsimp only
  split
  · exact goes_fail (stops_at .compacted)
  · refine (goes_requestIntent env hturn).bind fun _ => ?_
    refine (goes_oneTurn env hturn _).bind fun r => ?_
    cases r with
    | error e => exact (goes_requestFailed env hturn e).bind fun _ => goes_fail fun _ _ h => h
    | ok answer => exact goes_pure fun _ _ h => ⟨rfl, h⟩

section Dispatch

variable (inputs : Option (List InputEvidence)) (assistant : A) (state : LoopState L)

variable (digestOf ml execResult config) in
def Making (head : List (Event A)) (turn : Nat) (log : L) (spent : Nat) (inputs : Option (List InputEvidence))
    (assistant : A) (made rest : List ToolCall) (state : LoopState L) : Place A := fun trace now =>
  ∃ events, CallsMade digestOf ml execResult config turn (turnLog ml config log assistant) spent made events
    state.log state.usedTools ∧
    At digestOf ml execResult config head turn log spent
      (dispatchEvents digestOf ml config turn log spent inputs assistant (made ++ rest) events) trace now

theorem stops_making (hturn : turn < config.budget.maxTurns) (made rest : List ToolCall) :
    Stops (Shape digestOf ml execResult config)
      (Making digestOf ml execResult config head turn log spent inputs assistant made rest state) := by
  rintro trace now ⟨events, hmade, hat⟩
  exact stops_at (.received hturn inputs assistant made rest hmade) trace now hat

theorem dispatchEvents_append (calls : List ToolCall) (events events' : List (Event A)) :
    dispatchEvents digestOf ml config turn log spent inputs assistant calls (events ++ events') =
      dispatchEvents digestOf ml config turn log spent inputs assistant calls events ++ events' := by
  simp [dispatchEvents]

variable (digestOf ml execResult config) in
def Intending (head : List (Event A)) (turn : Nat) (log : L) (spent : Nat) (inputs : Option (List InputEvidence))
    (assistant : A) (made rest : List ToolCall) (state : LoopState L) (call : ToolCall)
    (result : Option (Except String String)) : Place A := fun trace now =>
  ∃ events, CallsMade digestOf ml execResult config turn (turnLog ml config log assistant) spent made events
    state.log state.usedTools ∧
    saturatingSucc state.usedTools ≤ config.budget.maxToolCalls ∧
    At digestOf ml execResult config head turn log spent
      (dispatchEvents digestOf ml config turn log spent inputs assistant (made ++ call :: rest) events ++
        intentEvent digestOf turn call (saturatingSucc state.usedTools) :: result.toList.map (.ran turn call))
      trace now

variable {made rest : List ToolCall} {call : ToolCall}

theorem stops_intending (hturn : turn < config.budget.maxTurns) (result : Option (Except String String)) :
    Stops (Shape digestOf ml execResult config)
      (Intending digestOf ml execResult config head turn log spent inputs assistant made rest state call result) := by
  rintro trace now ⟨events, hmade, hbudget, hat⟩
  exact stops_at (.intended hturn inputs assistant made rest call hmade hbudget result) trace now hat

theorem extends_intending (hbudget : saturatingSucc state.usedTools ≤ config.budget.maxToolCalls) :
    Extends (Making digestOf ml execResult config head turn log spent inputs assistant made (call :: rest) state)
      (intentEvent digestOf turn call (saturatingSucc state.usedTools))
      (Intending digestOf ml execResult config head turn log spent inputs assistant made rest state call none) := by
  rintro trace now ⟨events, hmade, hat⟩
  exact ⟨events, hmade, hbudget, extends_at rfl trace now hat⟩

theorem extends_ran (result : Except String String) :
    Extends (Intending digestOf ml execResult config head turn log spent inputs assistant made rest state call none)
      (.ran turn call result)
      (Intending digestOf ml execResult config head turn log spent inputs assistant made rest state call
        (some result)) := by
  rintro trace now ⟨events, hmade, hbudget, hat⟩
  refine ⟨events, hmade, hbudget, extends_at ?_ trace now hat⟩
  simp

theorem extends_receipt (result : Except String String) (counts : ToolOutcomeCounts) :
    Extends (Intending digestOf ml execResult config head turn log spent inputs assistant made rest state call
        (some result))
      (receiptEvent digestOf execResult turn call result (saturatingSucc state.usedTools))
      (Making digestOf ml execResult config head turn log spent inputs assistant (made ++ [call]) rest
        { state with
          log := ml.appendToolResult state.log call.id call.name (resultText result)
          usedTools := saturatingSucc state.usedTools
          toolOutcomes := counts }) := by
  rintro trace now ⟨events, hmade, hbudget, hat⟩
  refine ⟨_, hmade.call call result hbudget, extends_at ?_ trace now hat⟩
  rw [List.append_assoc made, List.singleton_append, dispatchEvents_append]
  simp

theorem goes_execute (hturn : turn < config.budget.maxTurns) :
    Goes (Shape digestOf ml execResult config)
      (Intending digestOf ml execResult config head turn log spent inputs assistant made rest state call none)
      (execute env turn call) fun result =>
        Intending digestOf ml execResult config head turn log spent inputs assistant made rest state call
          (some result) := by
  refine (goes_tick env (stops_intending inputs assistant state hturn none)).bind fun n => ?_
  exact (goes_emit (extends_ran inputs assistant state (env.tools n call))).bind fun _ => goes_pure fun _ _ h => h

theorem goes_dispatchCall (hturn : turn < config.budget.maxTurns) :
    Goes (Shape digestOf ml execResult config)
      (Making digestOf ml execResult config head turn log spent inputs assistant made (call :: rest) state)
      (dispatchCall env digestOf ml execResult config turn state call)
      (Making digestOf ml execResult config head turn log spent inputs assistant (made ++ [call]) rest) := by
  rw [dispatchCall]
  dsimp only
  split
  case isTrue hover => exact goes_fail (stops_making inputs assistant state hturn made (call :: rest))
  case isFalse hbudget =>
    refine (goes_record env (stops_making inputs assistant state hturn made (call :: rest))
      (stops_intending inputs assistant state hturn none)
      (extends_intending inputs assistant state (Nat.le_of_not_lt hbudget))).bind fun _ => ?_
    refine (goes_execute env inputs assistant state hturn).bind fun result => ?_
    refine (goes_recordBlob env (stops_intending inputs assistant state hturn _)
      (stops_making inputs assistant _ hturn (made ++ [call]) rest)
      (extends_receipt inputs assistant state result _)).bind fun _ => goes_pure fun _ _ h => h

theorem goes_dispatchCalls (hturn : turn < config.budget.maxTurns) :
    Goes (Shape digestOf ml execResult config)
      (Making digestOf ml execResult config head turn log spent inputs assistant made rest state)
      (dispatchCalls env digestOf ml execResult config turn rest state)
      (Making digestOf ml execResult config head turn log spent inputs assistant (made ++ rest) []) := by
  induction rest generalizing made state with
  | nil =>
    rw [List.append_nil]
    exact goes_pure fun _ _ h => h
  | cons call rest ih =>
    refine (goes_dispatchCall env inputs assistant state hturn).bind fun state => ?_
    rw [List.append_cons made call rest]
    exact ih state

theorem extends_received (hlog : state.log = (maybeCompact ml config log).1) (calls : List ToolCall) :
    Extends
      (AtNow digestOf ml execResult config head turn log state.usedTools
        (requestEvents ml config turn log state.usedTools inputs (some (.ok (.toolCalls assistant calls)))))
      (.stored (.assistantReceived turn (calls.map callEvidence)
        ((ml.encodeAssistant state.log assistant).map (blobRef digestOf .assistantEnvelope)) state.usedTools))
      (Making digestOf ml execResult config head turn log state.usedTools inputs assistant [] calls
        { state with log := ml.appendAssistant state.log assistant }) := by
  rintro trace now ⟨-, hat⟩
  rw [hlog]
  exact ⟨[], .nil, extends_at rfl trace now hat⟩

theorem extends_checkpoint (hturn : turn < config.budget.maxTurns) :
    Extends (Making digestOf ml execResult config head turn log spent inputs assistant made [] state)
      (checkpointEvent digestOf ml turn state.log state.usedTools)
      (At digestOf ml execResult config head (turn + 1) state.log state.usedTools []) := by
  rintro trace now ⟨made, hmade, first, log₀, spent₀, events, hbegins, hevents, rfl⟩
  rw [List.append_nil] at *
  refine ⟨first, log₀, spent₀, _, hbegins, hevents.turn hturn inputs assistant _ hmade, ?_⟩
  simp

theorem goes_dispatchToolCalls (hturn : turn < config.budget.maxTurns) (calls : List ToolCall)
    (hlog : state.log = (maybeCompact ml config log).1) (hspent : state.usedTools = spent) :
    Goes (Shape digestOf ml execResult config)
      (Answered digestOf ml execResult config head turn log spent (.toolCalls assistant calls))
      (dispatchToolCalls env digestOf ml execResult config turn state assistant calls) fun state' =>
        At digestOf ml execResult config head (turn + 1) state'.log state'.usedTools [] := by
  subst hspent
  refine goes_exists fun inputs => ?_
  refine (goes_recordBlob env (stops_atNow (.asked hturn inputs _)) (stops_making inputs assistant _ hturn [] calls)
    (extends_received inputs assistant state hlog calls)).bind fun _ => ?_
  refine (goes_dispatchCalls env inputs assistant _ hturn).bind fun state => ?_
  exact (goes_recordBlob env (stops_making inputs assistant _ hturn _ []) (stops_at .idle)
    (extends_checkpoint inputs assistant state hturn)).bind fun _ => goes_pure fun _ _ h => h

end Dispatch

theorem goes_conclude (hturn : turn < config.budget.maxTurns) (state : LoopState L) (answer : Turn A)
    (response : TerminalResponse) :
    Goes (Shape digestOf ml execResult config)
      (Answered digestOf ml execResult config head turn log state.usedTools answer)
      (conclude env digestOf turn state response) fun _ trace _ => Shape digestOf ml execResult config trace := by
  refine goes_exists fun inputs => ?_
  have hended (text : Option BlobRef) : Partly digestOf ml execResult config turn log state.usedTools _ :=
    .ended hturn inputs answer response.disposition.kind text
  refine (goes_recordBlob env (stops_atNow (.asked hturn inputs _)) (stops_atNow (hended _))
    (extends_atNow rfl)).bind fun _ => ?_
  exact goes_pure fun trace now h => stops_atNow (hended _) trace now h

theorem goes_turns (count : Nat) (state : LoopState L) (hcount : turn + count ≤ config.budget.maxTurns ∨ count = 0) :
    Goes (Shape digestOf ml execResult config)
      (At digestOf ml execResult config head turn state.log state.usedTools [])
      (turns env digestOf ml execResult config (List.range' turn count) state) fun _ trace _ =>
        Shape digestOf ml execResult config trace := by
  induction count generalizing turn state with
  | zero => exact goes_fail (stops_at .idle)
  | succ count ih =>
    have hturn : turn < config.budget.maxTurns := by omega
    rw [List.range'_succ, turns]
    refine (goes_request env hturn state).bind fun result => goes_given fun hstate => ?_
    obtain ⟨state', answer⟩ := result
    dsimp only at hstate ⊢
    subst hstate
    cases answer with
    | toolCalls assistant calls =>
      dsimp only
      split
      · exact goes_fail (stops_answered hturn _)
      · refine (goes_dispatchToolCalls env assistant _ hturn calls ?_ ?_).bind fun state => ih state (by omega)
        · rfl
        · rfl
    | stop text => exact goes_conclude env hturn _ _ ⟨text, .normal⟩
    | terminal response => exact goes_conclude env hturn _ _ response

theorem extends_fresh (hresume : config.resume = none) :
    Extends (fun trace _ => trace = []) (startedEvent digestOf config)
      (At digestOf ml execResult config [startedEvent digestOf config] 0
        (ml.fromBriefing (effectiveBriefing config)) 0 []) := by
  rintro trace now rfl
  exact ⟨0, _, 0, [], .fresh hresume, .start, rfl⟩

theorem extends_resumed {resume : ResumeState} (hresume : config.resume = some resume)
    (hrestore : restore digestOf ml config resume = .ok log) :
    Extends (fun trace _ => trace = [startedEvent digestOf config]) (resumedEvent resume.plan)
      (At digestOf ml execResult config [startedEvent digestOf config, resumedEvent resume.plan]
        resume.plan.nextTurn log resume.plan.toolsSpent []) := by
  rintro trace now rfl
  exact ⟨_, _, _, [], .resumed hresume hrestore, .start, rfl⟩

theorem goes_runLoop :
    Goes (Shape digestOf ml execResult config) (fun trace _ => trace = [])
      (runLoop env digestOf ml execResult config) fun _ trace _ => Shape digestOf ml execResult config trace := by
  have hstart : Stops (Shape digestOf ml execResult config) fun trace _ => trace = [] := by
    rintro trace now rfl
    exact .silent
  rw [runLoop]
  split
  · exact goes_fail hstart
  · split
    case h_1 hresume =>
      refine (goes_record env hstart (stops_at .idle) (extends_fresh hresume)).bind fun _ => ?_
      exact goes_turns env _ { log := ml.fromBriefing (effectiveBriefing config), usedTools := 0 } (by omega)
    case h_2 resume hresume =>
      refine (goes_ofExcept _ hstart).bind fun log => goes_given fun hlog => ?_
      have hrestore : restore digestOf ml config resume = .ok log := by
        generalize restore digestOf ml config resume = restored at hlog
        cases restored with
        | ok log' =>
          cases hlog
          rfl
        | error e => cases hlog
      have hstarted : Stops (Shape digestOf ml execResult config)
          fun trace _ => trace = [startedEvent digestOf config] := by
        rintro trace now rfl
        exact .started hresume hrestore
      refine (goes_record env hstart hstarted ?_).bind fun _ => ?_
      · rintro trace now rfl
        rfl
      · refine (goes_record env hstarted (stops_at .idle) (extends_resumed hresume hrestore)).bind fun _ => ?_
        exact goes_turns env _ { log := log, usedTools := resume.plan.toolsSpent } (by omega)

/-- Whatever the steps of a run do, and wherever it stops, its trace is complete turns and a part
of the next one. -/
theorem runLoop_shape :
    Shape digestOf ml execResult config (runLoop env digestOf ml execResult config {}).2.trace :=
  Effect.Triple.ends (goes_runLoop env) (fun _ _ h => h) (fun _ h => h) rfl

end Cosmon.Harness
