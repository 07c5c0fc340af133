import Cosmon.Harness.Spine

namespace Cosmon.Harness

open Cosmon.Lib.Effects Cosmon.Core.HarnessTurn

variable {L A α β : Type}

abbrev Place (A : Type) := List (Event A) → Nat → Prop

/-- From a place the computation goes to that of its result, and wherever it stops before, the
trace is one of `E`. -/
def Goes (E : List (Event A) → Prop) (P : Place A) (x : Run A α) (Q : α → Place A) : Prop :=
  Effect.Triple (fun w => P w.trace w.currentTurn) x (fun a w => Q a w.trace w.currentTurn) fun w => E w.trace

def Extends (P : Place A) (event : Event A) (Q : Place A) : Prop :=
  ∀ trace turn, P trace turn → Q (trace ++ [event]) turn

def Stops (E : List (Event A) → Prop) (P : Place A) : Prop := ∀ trace turn, P trace turn → E trace

variable {E : List (Event A) → Prop} {P Q : Place A}

theorem Goes.bind {x : Run A α} {f : α → Run A β} {R : α → Place A} {Q : β → Place A} (hx : Goes E P x R)
    (hf : ∀ a, Goes E (R a) (f a) Q) : Goes E P (x >>= f) Q :=
  Effect.Triple.bind hx hf

theorem Goes.post {x : Run A α} {Q Q' : α → Place A} (h : Goes E P x Q)
    (hQ : ∀ a trace turn, Q a trace turn → Q' a trace turn) : Goes E P x Q' :=
  Effect.Triple.post h fun a _ => hQ a _ _

theorem goes_given {p : Prop} {x : Run A α} {Q : α → Place A} (h : p → Goes E P x Q) :
    Goes E (fun trace turn => p ∧ P trace turn) x Q :=
  ⟨fun s a s' hs => (h hs.1).returns s a s' hs.2, fun s e s' hs => (h hs.1).fails s e s' hs.2⟩

theorem goes_exists {ι : Type} {P : ι → Place A} {x : Run A α} {Q : α → Place A} (h : ∀ i, Goes E (P i) x Q) :
    Goes E (fun trace turn => ∃ i, P i trace turn) x Q :=
  ⟨fun s a s' hs => hs.elim fun i hi => (h i).returns s a s' hi,
    fun s e s' hs => hs.elim fun i hi => (h i).fails s e s' hi⟩

theorem goes_pure {Q : α → Place A} {a : α} (h : ∀ trace turn, P trace turn → Q a trace turn) :
    Goes E P (pure a) Q :=
  Effect.triple_pure fun _ => h _ _

theorem goes_fail {Q : α → Place A} {e : Halt} (hP : Stops E P) : Goes E P (Effect.fail e) Q :=
  Effect.triple_fail fun _ => hP _ _

theorem goes_tick (env : Env L A) (hP : Stops E P) : Goes E P (tick env) fun _ => P := by
  constructor
  · intro w n w' hw h
    rw [tick] at h
    split at h
    · cases h
    · cases h
      exact hw
  · intro w e w' hw h
    rw [tick] at h
    split at h
    · cases h
      exact hP _ _ hw
    · cases h

theorem goes_ofExcept (x : Except Halt α) (hP : Stops E P) :
    Goes E P (Effect.ofExcept x) fun a trace turn => x = .ok a ∧ P trace turn :=
  Effect.triple_read (fun _ _ h ha => ⟨ha, h⟩) fun _ _ h _ => hP _ _ h

theorem goes_currentTurn {turn : Nat} (hP : ∀ trace now, P trace now → now = turn) :
    Goes E P currentTurn fun now trace now' => now = turn ∧ P trace now' :=
  Effect.triple_read (fun _ _ h hnow => ⟨(Except.ok.inj hnow).symm.trans (hP _ _ h), h⟩)
    fun _ _ _ hnow => (by cases hnow)

theorem goes_emit {event : Event A} (h : Extends P event Q) : Goes E P (emit event) fun _ => Q :=
  Effect.triple_modify fun w => h w.trace w.currentTurn

def appendEnds (P Q : Place A) : Except EvidenceError Unit → Place A
  | .ok () => Q
  | .error _ => fun trace turn => P trace turn ∨ Q trace turn

theorem stops_appendEnds (hP : Stops E P) (hQ : Stops E Q) (error : EvidenceError) :
    Stops E (appendEnds P Q (.error error)) :=
  fun trace turn h => h.elim (hP trace turn) (hQ trace turn)

theorem goes_append (env : Env L A) {record : TurnRecord} (hP : Stops E P) (h : Extends P (.stored record) Q) :
    Goes E P (append env record) (appendEnds P Q) := by
  refine (goes_tick env hP).bind fun n => ?_
  split
  · exact (goes_emit h).bind fun _ => goes_pure fun _ _ hQ => hQ
  · exact (goes_emit h).bind fun _ => goes_pure fun _ _ hQ => Or.inr hQ
  · exact goes_pure fun _ _ hP => Or.inl hP

theorem goes_andThen {x : Run A (Except EvidenceError α)} {f : α → Run A (Except EvidenceError β)}
    {R : Except EvidenceError α → Place A} {S : Except EvidenceError β → Place A} (hx : Goes E P x R)
    (hf : ∀ a, Goes E (R (.ok a)) (f a) S)
    (herror : ∀ e trace turn, R (.error e) trace turn → S (.error e) trace turn) :
    Goes E P (andThen x f) S := by
  refine hx.bind fun r => ?_
  cases r with
  | ok a => exact hf a
  | error e => exact goes_pure (herror e)

theorem goes_ask {x : Run A (Except EvidenceError α)} {R : Except EvidenceError α → Place A}
    (hx : Goes E P x R) (herror : ∀ e, Stops E (R (.error e))) : Goes E P (ask x) fun a => R (.ok a) := by
  refine hx.bind fun r => ?_
  cases r with
  | ok a => exact goes_pure fun _ _ h => h
  | error e => exact goes_fail (herror e)

theorem goes_record (env : Env L A) {record : TurnRecord} (hP : Stops E P) (hQ : Stops E Q)
    (h : Extends P (.stored record) Q) : Goes E P (ask (append env record)) fun _ => Q :=
  goes_ask (goes_append env hP h) (stops_appendEnds hP hQ)

theorem goes_blob (env : Env L A) (digestOf : List UInt8 → BlobDigest) (kind : BlobKind)
    (bytes : Option (List UInt8)) (hP : Stops E P) :
    Goes E P (blob env digestOf kind bytes) fun r trace turn =>
      P trace turn ∧ ∀ ref, r = .ok ref → ref = bytes.map (blobRef digestOf kind) := by
  cases bytes with
  | none => exact goes_pure fun _ _ h => ⟨h, fun _ hr => (Except.ok.inj hr).symm⟩
  | some bytes =>
    have hput : Goes E P (putBlob env digestOf kind bytes) fun r trace turn =>
        P trace turn ∧ ∀ ref, r = .ok ref → ref = blobRef digestOf kind bytes := by
      refine (goes_tick env hP).bind fun n => ?_
      split
      · exact goes_pure fun _ _ h => ⟨h, fun _ hr => (by cases hr)⟩
      · exact goes_pure fun _ _ h => ⟨h, fun _ hr => (Except.ok.inj hr).symm⟩
    refine goes_andThen hput (fun ref => goes_pure ?_) ?_
    · rintro trace turn ⟨h, href⟩
      refine ⟨h, fun _ hr => ?_⟩
      rw [← Except.ok.inj hr, href ref rfl]
      rfl
    · rintro e trace turn ⟨h, -⟩
      exact ⟨h, fun _ hr => (by cases hr)⟩

theorem goes_recordBlob (env : Env L A) {digestOf : List UInt8 → BlobDigest} {kind : BlobKind}
    {bytes : Option (List UInt8)} {record : Option BlobRef → TurnRecord} (hP : Stops E P) (hQ : Stops E Q)
    (h : Extends P (.stored (record (bytes.map (blobRef digestOf kind)))) Q) :
    Goes E P (ask (andThen (blob env digestOf kind bytes) fun ref => append env (record ref))) fun _ => Q := by
  refine goes_ask (goes_andThen (goes_blob env digestOf kind bytes hP) (fun ref => ?_) ?_) (stops_appendEnds hP hQ)
  · constructor
    · rintro w r w' ⟨hw, href⟩ hr
      rw [href ref rfl] at hr
      exact (goes_append env hP h).returns w r w' hw hr
    · rintro w e w' ⟨hw, href⟩ hr
      rw [href ref rfl] at hr
      exact (goes_append env hP h).fails w e w' hw hr
  · rintro e trace turn ⟨hp, -⟩
    exact Or.inl hp

end Cosmon.Harness

namespace Cosmon.Harness

open Cosmon.Lib.Effects Cosmon.Core.HarnessTurn

variable {L A : Type} (digestOf : List UInt8 → BlobDigest) (ml : MessageLog L A)
  (execResult : String → Option ExecResult) (config : Config)

def compactEvents (turn : Nat) (log : L) : List (Event A) :=
  (maybeCompact ml config log).2.toList.map fun report =>
    .stored (.compacted turn report.tokensBefore report.tokensAfter (clamp report.messagesRemoved))

def requestEvents (turn : Nat) (log : L) (spent : Nat) (inputs : Option (List InputEvidence))
    (answer : Option (Except String (Turn A))) : List (Event A) :=
  compactEvents ml config turn log ++
    .stored (.requestIntent turn (ml.estimateTokens (maybeCompact ml config log).1) spent) ::
      (inputs.toList.map (fun inputs => .stored (.inputsSelected turn inputs)) ++ answer.toList.map (.sent turn))

def receivedEvent (turn : Nat) (log : L) (spent : Nat) (assistant : A) (calls : List ToolCall) : Event A :=
  .stored (.assistantReceived turn (calls.map callEvidence)
    ((ml.encodeAssistant (maybeCompact ml config log).1 assistant).map (blobRef digestOf .assistantEnvelope)) spent)

def intentEvent (turn : Nat) (call : ToolCall) (spent : Nat) : Event A :=
  .stored (.toolIntent turn call.id call.name (digestOf (textBytes call.argumentsJson)) spent)

def receiptEvent (turn : Nat) (call : ToolCall) (result : Except String String) (spent : Nat) : Event A :=
  .stored (.toolReceipt turn call.id (classifyResult execResult call result).1
    (some (blobRef digestOf .toolResult (textBytes (resultText result)))) spent)

def checkpointEvent (turn : Nat) (log : L) (spent : Nat) : Event A :=
  .stored (.checkpoint turn ((ml.encodeCheckpoint log).map (blobRef digestOf .logCheckpoint)) spent)

/-- Calls that have been made one after the other, with the log and the count they leave. -/
inductive CallsMade (turn : Nat) (log : L) (spent : Nat) : List ToolCall → List (Event A) → L → Nat → Prop where
  | nil : CallsMade turn log spent [] [] log spent
  | call {calls : List ToolCall} {events : List (Event A)} {log' : L} {spent' : Nat}
      (h : CallsMade turn log spent calls events log' spent') (call : ToolCall) (result : Except String String)
      (hbudget : saturatingSucc spent' ≤ config.budget.maxToolCalls) :
      CallsMade turn log spent (calls ++ [call])
        (events ++ [intentEvent digestOf turn call (saturatingSucc spent'), .ran turn call result,
          receiptEvent digestOf execResult turn call result (saturatingSucc spent')])
        (ml.appendToolResult log' call.id call.name (resultText result)) (saturatingSucc spent')

def dispatchEvents (turn : Nat) (log : L) (spent : Nat) (inputs : Option (List InputEvidence)) (assistant : A)
    (calls : List ToolCall) (events : List (Event A)) : List (Event A) :=
  requestEvents ml config turn log spent inputs (some (.ok (.toolCalls assistant calls))) ++
    receivedEvent digestOf ml config turn log spent assistant calls :: events

def turnLog (log : L) (assistant : A) : L := ml.appendAssistant (maybeCompact ml config log).1 assistant

inductive Turns (first : Nat) (log : L) (spent : Nat) : List (Event A) → Nat → L → Nat → Prop where
  | start : Turns first log spent [] first log spent
  | turn {events made : List (Event A)} {turn : Nat} {before after : L} {spent' spent'' : Nat}
      (h : Turns first log spent events turn before spent') (hturn : turn < config.budget.maxTurns)
      (inputs : Option (List InputEvidence)) (assistant : A) (calls : List ToolCall)
      (hmade : CallsMade digestOf ml execResult config turn (turnLog ml config before assistant) spent' calls made
        after spent'') :
      Turns first log spent
        (events ++ (dispatchEvents digestOf ml config turn before spent' inputs assistant calls made ++
          [checkpointEvent digestOf ml turn after spent'']))
        (turn + 1) after spent''

inductive Partly (turn : Nat) (log : L) (spent : Nat) : List (Event A) → Prop where
  | idle : Partly turn log spent []
  | compacted : Partly turn log spent (compactEvents ml config turn log)
  | asked (hturn : turn < config.budget.maxTurns) (inputs : Option (List InputEvidence))
      (answer : Option (Except String (Turn A))) :
      Partly turn log spent (requestEvents ml config turn log spent inputs answer)
  | failed (hturn : turn < config.budget.maxTurns) (inputs : Option (List InputEvidence))
      (answer : Option (Except String (Turn A))) (reason : String) :
      Partly turn log spent
        (requestEvents ml config turn log spent inputs answer ++ [.stored (.requestFailed turn reason)])
  | received (hturn : turn < config.budget.maxTurns) (inputs : Option (List InputEvidence)) (assistant : A)
      (calls rest : List ToolCall) {made : List (Event A)} {log' : L} {spent' : Nat}
      (hmade : CallsMade digestOf ml execResult config turn (turnLog ml config log assistant) spent calls made log'
        spent') :
      Partly turn log spent (dispatchEvents digestOf ml config turn log spent inputs assistant (calls ++ rest) made)
  | intended (hturn : turn < config.budget.maxTurns) (inputs : Option (List InputEvidence)) (assistant : A)
      (calls rest : List ToolCall) (call : ToolCall) {made : List (Event A)} {log' : L} {spent' : Nat}
      (hmade : CallsMade digestOf ml execResult config turn (turnLog ml config log assistant) spent calls made log'
        spent')
      (hbudget : saturatingSucc spent' ≤ config.budget.maxToolCalls) (result : Option (Except String String)) :
      Partly turn log spent
        (dispatchEvents digestOf ml config turn log spent inputs assistant (calls ++ call :: rest) made ++
          intentEvent digestOf turn call (saturatingSucc spent') :: result.toList.map (.ran turn call))
  | ended (hturn : turn < config.budget.maxTurns) (inputs : Option (List InputEvidence)) (answer : Turn A)
      (disposition : TerminalKind) (text : Option BlobRef) :
      Partly turn log spent
        (requestEvents ml config turn log spent inputs (some (.ok answer)) ++
          [.stored (.terminal turn disposition text spent)])

def startedEvent : Event A := .stored (.attemptStarted config.budget.limits (effectivePins digestOf config))

def resumedEvent (plan : ResumePlan) : Event A :=
  .stored (.resumed plan.fromHistoryId plan.checkpointTurn plan.log plan.toolsSpent plan.requestsSent
    plan.elapsedSecs)

inductive Begins : List (Event A) → Nat → L → Nat → Prop where
  | fresh (hresume : config.resume = none) :
      Begins [startedEvent digestOf config] 0 (ml.fromBriefing (effectiveBriefing config)) 0
  | resumed {resume : ResumeState} {log : L} (hresume : config.resume = some resume)
      (hrestore : restore digestOf ml config resume = .ok log) :
      Begins [startedEvent digestOf config, resumedEvent resume.plan] resume.plan.nextTurn log
        resume.plan.toolsSpent

inductive Shape : List (Event A) → Prop where
  | silent : Shape []
  | started {resume : ResumeState} {log : L} (hresume : config.resume = some resume)
      (hrestore : restore digestOf ml config resume = .ok log) : Shape [startedEvent digestOf config]
  | turns {head events rest : List (Event A)} {first turn : Nat} {log log' : L} {spent spent' : Nat}
      (hhead : Begins digestOf ml config head first log spent)
      (hevents : Turns digestOf ml execResult config first log spent events turn log' spent')
      (hrest : Partly digestOf ml execResult config turn log' spent' rest) :
      Shape (head ++ (events ++ rest))

end Cosmon.Harness
