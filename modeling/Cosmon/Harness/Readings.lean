import Cosmon.Harness.Evidence
import Cosmon.Harness.Resume
import Cosmon.Harness.ShapeRuns

namespace Cosmon.Harness

open Cosmon.Lib Cosmon.Core.HarnessTurn

variable {L A : Type} {digestOf : List UInt8 → BlobDigest} {ml : MessageLog L A}
  {execResult : String → Option ExecResult} {config : Config}

theorem records_append (front back : List (Event A)) : records (front ++ back) = records front ++ records back :=
  List.filterMap_append

theorem tools_append (front back : List (Event A)) : tools (front ++ back) = tools front ++ tools back :=
  List.filterMap_append

theorem requests_append (front back : List (Event A)) :
    requests (front ++ back) = requests front ++ requests back :=
  List.filterMap_append

/-- The records of the events take the reader from one state to the other. -/
def Reads (f : Fold) (events : List (Event A)) (f' : Fold) : Prop :=
  (records events).foldlM Fold.apply f = .ok f'

theorem Reads.append {front back : List (Event A)} {f f' f'' : Fold} (hfront : Reads f front f')
    (hback : Reads f' back f'') : Reads f (front ++ back) f'' := by
  rw [Reads, records_append, List.foldlM_append, hfront]
  exact hback

theorem reads_stored {f f' : Fold} {record : TurnRecord} (h : f.apply record = .ok f') :
    Reads (A := A) f [.stored record] f' := by
  change f.apply record >>= pure = .ok f'
  rw [h]
  rfl

/-- Nothing that a continuation depends on has changed. -/
structure Kept (f f' : Fold) : Prop where
  limits : f'.out.limits = f.out.limits
  resumed : f'.out.resumedFrom = f.out.resumedFrom
  toolsSpent : f'.out.toolsSpent = f.out.toolsSpent
  completed : f'.out.completedCalls = f.out.completedCalls
  assistants : f'.out.assistants = f.out.assistants
  checkpoint : f'.out.lastCheckpoint = f.out.lastCheckpoint

theorem Kept.trans {f f' f'' : Fold} (h : Kept f f') (h' : Kept f' f'') : Kept f f'' where
  limits := h'.limits.trans h.limits
  resumed := h'.resumed.trans h.resumed
  toolsSpent := h'.toolsSpent.trans h.toolsSpent
  completed := h'.completed.trans h.completed
  assistants := h'.assistants.trans h.assistants
  checkpoint := h'.checkpoint.trans h.checkpoint

variable (digestOf ml config) in
/-- The checkpoint that a run would be continued from: that which it restored, until it has one
of its own. -/
inductive Checkpointed (first : Nat) : Option CheckpointRef → Nat → L → Nat → Prop where
  | fresh (hresume : config.resume = none) :
      Checkpointed first none first (ml.fromBriefing (effectiveBriefing config)) 0
  | inherited {resume : ResumeState} {log : L} (hresume : config.resume = some resume)
      (hrestore : restore digestOf ml config resume = .ok log) (hfirst : resume.plan.nextTurn = first) :
      Checkpointed first (some ⟨resume.plan.checkpointTurn, some resume.plan.log, resume.plan.toolsSpent⟩)
        first log resume.plan.toolsSpent
  | own (turn : Nat) (log : L) (spent : Nat) (hfirst : first ≤ turn) (hturn : turn < config.budget.maxTurns) :
      Checkpointed first (some ⟨turn, (ml.encodeCheckpoint log).map (blobRef digestOf .logCheckpoint), spent⟩)
        (turn + 1) log spent

variable (digestOf ml config) in
structure Established (first : Nat) (f : Fold) (trace : List (Event A)) (turn : Nat) (log : L) (spent : Nat) :
    Prop where
  standing : Standing f [] []
  limits : f.out.limits = some config.budget.limits
  resumed : f.out.resumedFrom = config.resume.map fun resume =>
    ⟨resume.plan.fromHistoryId, resume.plan.checkpointTurn, resume.plan.requestsSent, resume.plan.elapsedSecs⟩
  toolsSpent : f.out.toolsSpent = spent
  completed : f.out.completedCalls.map CompletedCall.tool = (tools trace).map fun ran => ran.call.name
  inRange : spent ≤ 2 ^ 32 - 1
  assistants : ∀ a ∈ f.out.assistants, a.turn < turn
  started : first ≤ turn
  checkpoint : Checkpointed digestOf ml config first f.out.lastCheckpoint turn log spent

/-- The plan is one that can be read from records: its counters have 32 bits. -/
structure Planned (plan : ResumePlan) : Prop where
  nextTurn : plan.nextTurn = plan.checkpointTurn + 1
  inRange : plan.nextTurn ≤ 2 ^ 32 - 1
  toolsSpent : plan.toolsSpent ≤ 2 ^ 32 - 1

variable (config) in
structure Configured : Prop where
  maxTurns : config.budget.maxTurns ≤ 2 ^ 32 - 1
  resume : ∀ resume, config.resume = some resume → Planned resume.plan

theorem established_begins (hconfig : Configured config) {head : List (Event A)} {first : Nat} {log : L}
    {spent : Nat} (h : Begins digestOf ml config head first log spent) :
    ∃ f, Reads {} head f ∧ Established digestOf ml config first f head first log spent := by
  cases h with
  | fresh hresume =>
    refine ⟨_, rfl, ⟨rfl, rfl, rfl⟩, rfl, ?_, rfl, rfl, Nat.zero_le _, ?_, Nat.le_refl _, .fresh hresume⟩
    · rw [hresume]
      rfl
    · intro a ha
      cases ha
  | @resumed resume log hresume hrestore =>
    refine ⟨_, rfl, ⟨rfl, rfl, rfl⟩, rfl, ?_, ?_, rfl, (hconfig.resume _ hresume).toolsSpent, ?_,
      Nat.le_refl _, .inherited hresume hrestore rfl⟩
    · rw [hresume]
      rfl
    · exact Nat.zero_max _
    · intro a ha
      cases ha

section Turn

variable {f : Fold} {turn : Nat} {log : L} {spent : Nat}

theorem reads_compactEvents (ml : MessageLog L A) (config : Config) (turn : Nat) (log : L)
    (hf : Standing f [] []) :
    ∃ f', Reads (A := A) f (compactEvents ml config turn log) f' ∧ Standing f' [] [] ∧ Kept f f' := by
  unfold compactEvents
  cases (maybeCompact ml config log).2 with
  | none => exact ⟨f, rfl, hf, rfl, rfl, rfl, rfl, rfl, rfl⟩
  | some report => exact ⟨_, rfl, ⟨hf.openRequests, hf.intents, hf.terminal⟩, rfl, rfl, rfl, rfl, rfl, rfl⟩

theorem reads_inputs (hf : Standing f [turn] []) (inputs : Option (List InputEvidence)) :
    ∃ f', Reads (A := A) f (inputs.toList.map fun inputs => .stored (.inputsSelected turn inputs)) f' ∧
      Standing f' [turn] [] ∧ Kept f f' := by
  cases inputs with
  | none => exact ⟨f, rfl, hf, rfl, rfl, rfl, rfl, rfl, rfl⟩
  | some inputs =>
    have hopen : turn ∈ f.openRequests := hf.openRequests ▸ List.mem_singleton_self turn
    exact ⟨_, reads_stored (if_pos hopen), ⟨hf.openRequests, hf.intents, hf.terminal⟩, rfl, rfl, rfl, rfl, rfl, rfl⟩

theorem reads_requestEvents (ml : MessageLog L A) (config : Config) (turn : Nat) (log : L)
    (hf : Standing f [] []) (hspent : f.out.toolsSpent = spent) (inputs : Option (List InputEvidence))
    (answer : Option (Except String (Turn A))) :
    ∃ f', Reads f (requestEvents ml config turn log spent inputs answer) f' ∧ Standing f' [turn] [] ∧ Kept f f' := by
  obtain ⟨f₁, hcompacted, hf₁, hkept⟩ := reads_compactEvents ml config turn log hf
  let estimated := ml.estimateTokens (maybeCompact ml config log).1
  have hmax : max f₁.out.toolsSpent spent = f₁.out.toolsSpent := by rw [hkept.toolsSpent, hspent, Nat.max_self]
  obtain ⟨f₂, hintent, hf₂, hkept₂⟩ : ∃ f₂, f₁.apply (.requestIntent turn estimated spent) = .ok f₂ ∧
      Standing f₂ [turn] [] ∧ Kept f₁ f₂ := by
    refine ⟨_, rfl, ⟨?_, hf₁.intents, hf₁.terminal⟩, rfl, rfl, hmax, rfl, rfl, rfl⟩
    change f₁.openRequests ++ [turn] = [turn]
    rw [hf₁.openRequests, List.nil_append]
  obtain ⟨f₃, hinputs, hf₃, hkept₃⟩ := reads_inputs (A := A) hf₂ inputs
  have hsent : Reads f₃ (answer.toList.map (Event.sent turn)) f₃ := by cases answer <;> rfl
  refine ⟨f₃, ?_, hf₃, (hkept.trans hkept₂).trans hkept₃⟩
  exact hcompacted.append ((reads_stored hintent).append (hinputs.append hsent))

theorem reads_received (digestOf : List UInt8 → BlobDigest) (ml : MessageLog L A) (config : Config) (log : L)
    (hf : Standing f [turn] []) (hspent : f.out.toolsSpent = spent) (assistant : A)
    (calls : List ToolCall) :
    ∃ f' received, Reads f [receivedEvent digestOf ml config turn log spent assistant calls] f' ∧
      Standing f' [] [] ∧ Names f' turn calls ∧ f'.out.limits = f.out.limits ∧
      f'.out.resumedFrom = f.out.resumedFrom ∧ f'.out.toolsSpent = spent ∧
      f'.out.completedCalls = f.out.completedCalls ∧ f'.out.lastCheckpoint = f.out.lastCheckpoint ∧
      received.turn = turn ∧ f'.out.assistants = f.out.assistants ++ [received] := by
  let envelope := (ml.encodeAssistant (maybeCompact ml config log).1 assistant).map
    (blobRef digestOf .assistantEnvelope)
  have happly := apply_assistantReceived hf.openRequests (calls.map callEvidence) envelope spent
  refine ⟨_, _, reads_stored happly, ⟨rfl, hf.intents, hf.terminal⟩, ?_, rfl, rfl, ?_, rfl, rfl, rfl, rfl⟩
  · intro call hcall
    refine ⟨⟨turn, call.id, call.name⟩, List.mem_append_right _ ?_, rfl, rfl⟩
    exact List.mem_map_of_mem (List.mem_map_of_mem hcall)
  · change max f.out.toolsSpent spent = spent
    rw [hspent, Nat.max_self]

/-- The calls of a turn are being made: what they have changed since its envelope. -/
structure Working (f f' : Fold) (spent : Nat) : Prop where
  openRequests : f'.openRequests = []
  terminal : f'.out.terminal = none
  named : f'.named = f.named
  limits : f'.out.limits = f.out.limits
  resumed : f'.out.resumedFrom = f.out.resumedFrom
  assistants : f'.out.assistants = f.out.assistants
  checkpoint : f'.out.lastCheckpoint = f.out.lastCheckpoint
  toolsSpent : f'.out.toolsSpent = spent
  inRange : spent ≤ 2 ^ 32 - 1

theorem reads_intent (digestOf : List UInt8 → BlobDigest) {f' : Fold} {call : ToolCall}
    (hf : Working f f' spent) (hintents : f'.intents = []) (hcall : Names f turn [call]) :
    ∃ f'', Reads (A := A) f' [intentEvent digestOf turn call (saturatingSucc spent)] f'' ∧
      f''.intents = [⟨turn, call.id, call.name⟩] ∧ f''.out.completedCalls = f'.out.completedCalls ∧
      Working f f'' (saturatingSucc spent) := by
  have hnamed : f'.named.any (fun c => c.turn = turn ∧ c.callId = call.id) = true := by
    obtain ⟨c, hc, hname⟩ := hcall call (List.mem_singleton_self call)
    rw [hf.named]
    exact List.any_eq_true.mpr ⟨c, hc, decide_eq_true hname⟩
  refine ⟨_, reads_stored (if_pos hnamed), ?_, rfl, hf.openRequests, hf.terminal, hf.named, hf.limits, hf.resumed,
    hf.assistants, hf.checkpoint, ?_, ?_⟩
  · change Keyed.insert UnresolvedCall.key ⟨turn, call.id, call.name⟩ f'.intents = _
    rw [hintents, Keyed.insert]
  · change max f'.out.toolsSpent (saturatingSucc spent) = saturatingSucc spent
    have hrange := hf.inRange
    rw [hf.toolsSpent, saturatingSucc]
    omega
  · exact Nat.min_le_right _ _

theorem reads_receipt (digestOf : List UInt8 → BlobDigest) (execResult : String → Option ExecResult) {f' : Fold}
    {call : ToolCall} (hf : Working f f' spent) (hintents : f'.intents = [⟨turn, call.id, call.name⟩])
    (result : Except String String) :
    ∃ f'', Reads (A := A) f' [receiptEvent digestOf execResult turn call result spent] f'' ∧ f''.intents = [] ∧
      f''.out.completedCalls.map CompletedCall.tool = f'.out.completedCalls.map CompletedCall.tool ++ [call.name] ∧
      Working f f'' spent := by
  let completed := Ran.completed digestOf execResult ⟨turn, call, result⟩
  have happly : f'.apply (.toolReceipt turn call.id (classifyResult execResult call result).1
      (some (blobRef digestOf .toolResult (textBytes (resultText result)))) spent) = .ok { f' with
        out := { f'.out.spend spent with completedCalls := f'.out.completedCalls ++ [completed] }
        intents := [] } := by
    rw [Fold.apply, hintents, Keyed.get, List.find?_cons_of_pos (by simp [UnresolvedCall.key]),
      List.filter_cons_of_neg (by simp [UnresolvedCall.key]), List.filter_nil]
    rfl
  refine ⟨_, reads_stored happly, rfl, ?_, hf.openRequests, hf.terminal, hf.named, hf.limits, hf.resumed,
    hf.assistants, hf.checkpoint, ?_, hf.inRange⟩
  · exact List.map_append
  · change max f'.out.toolsSpent spent = spent
    rw [hf.toolsSpent, Nat.max_self]

theorem reads_dispatched {calls : List ToolCall} {events : List (Event A)} {log' : L} {spent' : Nat}
    (h : CallsMade digestOf ml execResult config turn log spent calls events log' spent')
    (hf : Standing f [] []) (hspent : f.out.toolsSpent = spent) (hrange : spent ≤ 2 ^ 32 - 1)
    (hnames : Names f turn calls) :
    ∃ f', Reads f events f' ∧ f'.intents = [] ∧ Working f f' spent' ∧
      f'.out.completedCalls.map CompletedCall.tool =
        f.out.completedCalls.map CompletedCall.tool ++ (tools events).map fun ran => ran.call.name := by
  induction h with
  | nil =>
    refine ⟨f, rfl, hf.intents, ⟨hf.openRequests, hf.terminal, rfl, rfl, rfl, rfl, rfl, hspent, hrange⟩, ?_⟩
    exact (List.append_nil _).symm
  | @call calls events log' spent' _ call result _ ih =>
    rw [Names, List.forall_mem_append] at hnames
    obtain ⟨f₁, hreads, hintents, hf₁, hcompleted⟩ := ih hnames.1
    obtain ⟨f₂, hintent, hintents₂, hcompleted₂, hf₂⟩ := reads_intent (A := A) digestOf hf₁ hintents hnames.2
    obtain ⟨f₃, hreceipt, hintents₃, hcompleted₃, hf₃⟩ :=
      reads_receipt (A := A) digestOf execResult hf₂ hintents₂ result
    have hran : Reads f₂ [.ran turn call result,
        receiptEvent digestOf execResult turn call result (saturatingSucc spent')] f₃ := hreceipt
    refine ⟨f₃, hreads.append (hintent.append hran), hintents₃, hf₃, ?_⟩
    rw [hcompleted₃, hcompleted₂, hcompleted, tools_append, List.map_append, List.append_assoc]
    rfl

/-- A turn whose calls are being made, read from where the turn began. -/
structure Midway (f f' : Fold) (turn : Nat) (spent' : Nat) : Prop where
  standing : Standing f' [] []
  limits : f'.out.limits = f.out.limits
  resumed : f'.out.resumedFrom = f.out.resumedFrom
  toolsSpent : f'.out.toolsSpent = spent'
  inRange : spent' ≤ 2 ^ 32 - 1
  checkpoint : f'.out.lastCheckpoint = f.out.lastCheckpoint
  assistants : ∃ received : ReceivedAssistant, received.turn = turn ∧
    f'.out.assistants = f.out.assistants ++ [received]

theorem reads_dispatchEvents {calls : List ToolCall} (rest : List ToolCall) {made : List (Event A)} {log' : L}
    {spent' : Nat} (inputs : Option (List InputEvidence)) (assistant : A)
    (h : CallsMade digestOf ml execResult config turn (turnLog ml config log assistant) spent calls made log' spent')
    (hf : Standing f [] []) (hspent : f.out.toolsSpent = spent) (hrange : spent ≤ 2 ^ 32 - 1) :
    ∃ f', Reads f (dispatchEvents digestOf ml config turn log spent inputs assistant (calls ++ rest) made) f' ∧
      Midway f f' turn spent' ∧ Names f' turn rest ∧
      f'.out.completedCalls.map CompletedCall.tool =
        f.out.completedCalls.map CompletedCall.tool ++ (tools made).map fun ran => ran.call.name := by
  obtain ⟨f₁, hrequest, hf₁, hkept⟩ :=
    reads_requestEvents ml config turn log hf hspent inputs (some (.ok (.toolCalls assistant (calls ++ rest))))
  obtain ⟨f₂, received, hreceived, hf₂, hnames, hlimits, hresumed, hspent₂, hcompleted, hcheckpoint, hturn,
    hassistants⟩ := reads_received digestOf ml config log hf₁ (hkept.toolsSpent.trans hspent) assistant (calls ++ rest)
  rw [Names, List.forall_mem_append] at hnames
  obtain ⟨f₃, hmade, hintents, hf₃, hcompleted₃⟩ := reads_dispatched h hf₂ hspent₂ hrange hnames.1
  refine ⟨f₃, hrequest.append (hreceived.append hmade), ⟨⟨hf₃.openRequests, hintents, hf₃.terminal⟩, ?_, ?_,
    hf₃.toolsSpent, hf₃.inRange, ?_, received, hturn, ?_⟩, ?_, ?_⟩
  · rw [hf₃.limits, hlimits, hkept.limits]
  · rw [hf₃.resumed, hresumed, hkept.resumed]
  · rw [hf₃.checkpoint, hcheckpoint, hkept.checkpoint]
  · rw [hf₃.assistants, hassistants, hkept.assistants]
  · rw [Names, hf₃.named]
    exact hnames.2
  · rw [hcompleted₃, hcompleted, hkept.completed]

end Turn

theorem tools_compactEvents (ml : MessageLog L A) (config : Config) (turn : Nat) (log : L) :
    tools (compactEvents (A := A) ml config turn log) = [] := by
  rw [compactEvents]
  cases (maybeCompact ml config log).2 <;> rfl

theorem tools_requestEvents (turn : Nat) (log : L) (spent : Nat) (inputs : Option (List InputEvidence))
    (answer : Option (Except String (Turn A))) : tools (requestEvents ml config turn log spent inputs answer) = [] := by
  rw [requestEvents, tools_append, tools_compactEvents]
  cases inputs <;> cases answer <;> rfl

theorem tools_dispatchEvents (turn : Nat) (log : L) (spent : Nat) (inputs : Option (List InputEvidence))
    (assistant : A) (calls : List ToolCall) (made : List (Event A)) :
    tools (dispatchEvents digestOf ml config turn log spent inputs assistant calls made) = tools made := by
  rw [dispatchEvents, tools_append, tools_requestEvents]
  rfl

theorem Established.turn {first : Nat} {f : Fold} {trace made : List (Event A)} {turn : Nat} {log after : L}
    {spent spent' : Nat} (hf : Established digestOf ml config first f trace turn log spent)
    (hturn : turn < config.budget.maxTurns) (inputs : Option (List InputEvidence))
    (assistant : A) (calls : List ToolCall)
    (hmade : CallsMade digestOf ml execResult config turn (turnLog ml config log assistant) spent calls made after
      spent') :
    ∃ f', Reads f (dispatchEvents digestOf ml config turn log spent inputs assistant calls made ++
        [checkpointEvent digestOf ml turn after spent']) f' ∧
      Established digestOf ml config first f'
        (trace ++ (dispatchEvents digestOf ml config turn log spent inputs assistant calls made ++
          [checkpointEvent digestOf ml turn after spent']))
        (turn + 1) after spent' := by
  have hcalls : calls ++ [] = calls := List.append_nil calls
  obtain ⟨f₁, hreads, hf₁, -, hcompleted⟩ :=
    reads_dispatchEvents [] inputs assistant hmade hf.standing hf.toolsSpent hf.inRange
  rw [hcalls] at hreads
  refine ⟨_, hreads.append (reads_stored rfl), ⟨hf₁.standing.openRequests, hf₁.standing.intents,
    hf₁.standing.terminal⟩, hf₁.limits.trans hf.limits, hf₁.resumed.trans hf.resumed, ?_, ?_, hf₁.inRange, ?_,
    Nat.le_succ_of_le hf.started, .own turn after spent' hf.started hturn⟩
  · change max f₁.out.toolsSpent spent' = spent'
    rw [hf₁.toolsSpent, Nat.max_self]
  · change f₁.out.completedCalls.map CompletedCall.tool = _
    rw [hcompleted, hf.completed, tools_append, tools_append, tools_dispatchEvents, List.map_append]
    exact congrArg _ (congrArg _ (List.append_nil _).symm)
  · intro a ha
    obtain ⟨received, hreceived, hassistants⟩ := hf₁.assistants
    change a ∈ f₁.out.assistants at ha
    rw [hassistants] at ha
    obtain ha | ha := List.mem_append.mp ha
    · exact Nat.lt_succ_of_lt (hf.assistants a ha)
    · rw [List.mem_singleton.mp ha, hreceived]
      exact Nat.lt_succ_self turn

theorem established_turns (hconfig : Configured config) {head events : List (Event A)} {first turn : Nat}
    {log₀ log : L} {spent₀ spent : Nat} (hhead : Begins digestOf ml config head first log₀ spent₀)
    (h : Turns digestOf ml execResult config first log₀ spent₀ events turn log spent) :
    ∃ f, Reads {} (head ++ events) f ∧
      Established digestOf ml config first f (head ++ events) turn log spent := by
  induction h with
  | start =>
    rw [List.append_nil]
    exact established_begins hconfig hhead
  | turn _ hturn inputs assistant calls hmade ih =>
    obtain ⟨f, hreads, hf⟩ := ih
    obtain ⟨f', hmore, hf'⟩ := hf.turn hturn inputs assistant calls hmade
    rw [← List.append_assoc]
    exact ⟨f', hreads.append hmore, hf'⟩

theorem Reads.unique {f f' f'' : Fold} {events : List (Event A)} (h : Reads f events f') (h' : Reads f events f'') :
    f' = f'' := Except.ok.inj (h.symm.trans h')

section Stop

variable {f f' : Fold} {trace rest : List (Event A)} {first turn : Nat} {log : L} {spent : Nat}

theorem Checkpointed.succ (hconfig : Configured config) {checkpoint : CheckpointRef}
    (h : Checkpointed digestOf ml config first (some checkpoint) turn log spent) : checkpoint.turn + 1 = turn := by
  cases h with
  | @inherited resume _ hresume _ hfirst => rw [← hfirst, (hconfig.resume _ hresume).nextTurn]
  | own => rfl

/-- A run that can be continued stops between two turns, or in a turn without an answer that is
recorded as failed. -/
inductive Quiet (ml : MessageLog L A) (config : Config) (turn : Nat) (log : L) (spent : Nat) :
    List (Event A) → Prop where
  | idle : Quiet ml config turn log spent []
  | compacted : Quiet ml config turn log spent (compactEvents ml config turn log)
  | failed (inputs : Option (List InputEvidence)) (answer : Option (Except String (Turn A))) (reason : String) :
      Quiet ml config turn log spent
        (requestEvents ml config turn log spent inputs answer ++ [.stored (.requestFailed turn reason)])

theorem established_stop (hconfig : Configured config)
    (hf : Established digestOf ml config first f trace turn log spent)
    (hrest : Partly digestOf ml execResult config turn log spent rest) (hreads : Reads f rest f')
    {historyId : String} {span : Nat} {plan : ResumePlan} (hplan : planResume historyId f'.finish span = .ok plan) :
    Quiet ml config turn log spent rest ∧ Kept f f' ∧ Standing f' [] [] := by
  obtain ⟨checkpoint, h⟩ := planResume_ok hplan
  cases hrest with
  | idle =>
    obtain rfl := Reads.unique hreads rfl
    exact ⟨.idle, ⟨rfl, rfl, rfl, rfl, rfl, rfl⟩, hf.standing⟩
  | compacted =>
    obtain ⟨f₁, hcompacted, hf₁, hkept⟩ := reads_compactEvents ml config turn log hf.standing
    obtain rfl := Reads.unique hreads hcompacted
    exact ⟨.compacted, hkept, hf₁⟩
  | asked hturn inputs answer =>
    obtain ⟨f₁, hasked, hf₁, -⟩ := reads_requestEvents ml config turn log hf.standing hf.toolsSpent inputs answer
    obtain rfl := Reads.unique hreads hasked
    have hopen : f'.openRequests = [] := h.requests
    rw [hf₁.openRequests] at hopen
    cases hopen
  | failed hturn inputs answer reason =>
    obtain ⟨f₁, hasked, hf₁, hkept⟩ := reads_requestEvents ml config turn log hf.standing hf.toolsSpent inputs answer
    have happly := apply_requestFailed hf₁.openRequests reason
    obtain rfl := Reads.unique hreads (hasked.append (reads_stored happly))
    exact ⟨.failed inputs answer reason, hkept.trans ⟨rfl, rfl, rfl, rfl, rfl, rfl⟩, rfl, hf₁.intents, hf₁.terminal⟩
  | received hturn inputs assistant calls rest hmade =>
    obtain ⟨f₁, hreceived, hf₁, -⟩ :=
      reads_dispatchEvents rest inputs assistant hmade hf.standing hf.toolsSpent hf.inRange
    obtain rfl := Reads.unique hreads hreceived
    obtain ⟨received, hreceivedTurn, hassistants⟩ := hf₁.assistants
    have hcheckpoint := hf.checkpoint
    rw [← hf₁.checkpoint, show f'.out.lastCheckpoint = some checkpoint from h.lastCheckpoint] at hcheckpoint
    have hlt := hcheckpoint.succ hconfig
    have hle := h.assistants received (show received ∈ f'.out.assistants by simp [hassistants])
    omega
  | @intended hturn inputs assistant calls rest call made log' spent' hmade hbudget result =>
    obtain ⟨f₁, hreceived, hf₁, hnames, -⟩ :=
      reads_dispatchEvents (call :: rest) inputs assistant hmade hf.standing hf.toolsSpent hf.inRange
    rw [Names, List.forall_mem_cons] at hnames
    have hworking : Working f₁ f₁ spent' := ⟨hf₁.standing.openRequests, hf₁.standing.terminal, rfl, rfl, rfl, rfl, rfl,
      hf₁.toolsSpent, hf₁.inRange⟩
    have hcall : Names f₁ turn [call] := by
      rw [Names, List.forall_mem_singleton]
      exact hnames.1
    obtain ⟨f₂, hintent, hintents, -, -⟩ := reads_intent (A := A) digestOf hworking hf₁.standing.intents hcall
    have hran : Reads f₂ (result.toList.map (Event.ran (A := A) turn call)) f₂ := by cases result <;> rfl
    obtain rfl := Reads.unique hreads (hreceived.append (hintent.append hran))
    have hunresolved : f'.intents = [] := h.calls
    rw [hintents] at hunresolved
    cases hunresolved
  | ended hturn inputs answer disposition text =>
    obtain ⟨f₁, hasked, hf₁, -⟩ :=
      reads_requestEvents ml config turn log hf.standing hf.toolsSpent inputs (some (.ok answer))
    have happly := apply_terminal hf₁.openRequests disposition text spent
    obtain rfl := Reads.unique hreads (hasked.append (reads_stored happly))
    have hterminal := h.terminal
    cases hterminal

theorem Checkpointed.toolsSpent {checkpoint : CheckpointRef}
    (h : Checkpointed digestOf ml config first (some checkpoint) turn log spent) : checkpoint.toolsSpent = spent := by
  cases h <;> rfl

theorem Checkpointed.nextTurn (hconfig : Configured config) {checkpoint : CheckpointRef}
    (h : Checkpointed digestOf ml config first (some checkpoint) turn log spent) :
    saturatingSucc checkpoint.turn = turn := by
  have hsucc := h.succ hconfig
  have hrange : turn ≤ 2 ^ 32 - 1 := by
    cases h with
    | @inherited resume _ hresume _ hfirst => exact hfirst ▸ (hconfig.resume _ hresume).inRange
    | own turn _ _ _ hturn => exact Nat.le_trans hturn hconfig.maxTurns
  simp only [saturatingSucc]
  omega

theorem tools_quiet {turn : Nat} {log : L} {spent : Nat} {rest : List (Event A)}
    (h : Quiet ml config turn log spent rest) : tools rest = [] := by
  cases h with
  | idle => rfl
  | compacted => exact tools_compactEvents ml config turn log
  | failed inputs answer reason =>
    rw [tools_append, tools_requestEvents]
    rfl

variable (digestOf ml execResult config) in
/-- A run that has been found continuable: it stopped after complete turns, at the checkpoint of
the last one if it made any. -/
structure Paused (trace : List (Event A)) (ownSpanSecs : Nat) (plan : ResumePlan) (first turn : Nat) (log : L)
    (spent : Nat) : Prop where
  shape : ∃ head log₀ spent₀ events rest, Begins digestOf ml config head first log₀ spent₀ ∧
    Turns digestOf ml execResult config first log₀ spent₀ events turn log spent ∧
    Quiet ml config turn log spent rest ∧ trace = head ++ (events ++ rest)
  checkpoint : Checkpointed digestOf ml config first (some ⟨plan.checkpointTurn, some plan.log, spent⟩) turn log spent
  planned : Planned plan
  nextTurn : plan.nextTurn = turn
  toolsSpent : plan.toolsSpent = spent
  shell : ∀ ran ∈ tools trace, ran.call.name ≠ shellToolName
  elapsedSecs : plan.elapsedSecs =
    saturatingAdd 64 ((config.resume.map fun resume => resume.plan.elapsedSecs).getD 0) ownSpanSecs

theorem shape_plan (hconfig : Configured config) (h : Shape digestOf ml execResult config trace)
    {attempt : AttemptReconstruction} (hrecords : reconstruct (records trace) = .ok attempt) {historyId : String}
    {span : Nat} {plan : ResumePlan} (hplan : planResume historyId attempt span = .ok plan) :
    ∃ first turn log spent, Paused digestOf ml execResult config trace span plan first turn log spent := by
  obtain ⟨checkpoint, hcontinues⟩ := planResume_ok hplan
  cases h with
  | silent =>
    cases hrecords
    cases hcontinues.lastCheckpoint
  | started =>
    cases hrecords
    cases hcontinues.lastCheckpoint
  | @turns head events rest first turn log₀ log spent₀ spent hhead hevents hrest =>
    obtain ⟨f, hreads, hf⟩ := established_turns hconfig hhead hevents
    rw [← List.append_assoc] at hrecords
    rw [reconstruct, records_append, List.foldlM_append, hreads] at hrecords
    obtain ⟨f', hf', rfl⟩ : ∃ f', Reads f rest f' ∧ f'.finish = attempt := by
      change ((records rest).foldlM Fold.apply f).map Fold.finish = .ok attempt at hrecords
      unfold Reads
      cases hfold : (records rest).foldlM Fold.apply f with
      | error e =>
        rw [hfold] at hrecords
        cases hrecords
      | ok f' =>
        rw [hfold] at hrecords
        exact ⟨f', rfl, Except.ok.inj hrecords⟩
    obtain ⟨hquiet, hkept, -⟩ := established_stop hconfig hf hrest hf' hplan
    have hcheckpoint := hf.checkpoint
    rw [← hkept.checkpoint, show f'.out.lastCheckpoint = some checkpoint from hcontinues.lastCheckpoint]
      at hcheckpoint
    have hspent : plan.toolsSpent = spent := by
      rw [hcontinues.toolsSpent, hcheckpoint.toolsSpent]
      change max f'.out.toolsSpent spent = spent
      rw [hkept.toolsSpent, hf.toolsSpent, Nat.max_self]
    refine ⟨first, turn, log, spent, ⟨head, log₀, spent₀, events, rest, hhead, hevents, hquiet, rfl⟩, ?_,
      ⟨?_, ?_, ?_⟩, ?_, hspent, ?_, ?_⟩
    · have htools := hcheckpoint.toolsSpent
      rw [← htools] at hcheckpoint
      rw [← hcontinues.log, hcontinues.checkpointTurn, ← htools]
      exact hcheckpoint
    · rw [hcontinues.nextTurn, hcheckpoint.nextTurn hconfig, hcontinues.checkpointTurn, hcheckpoint.succ hconfig]
    · rw [hcontinues.nextTurn]
      exact Nat.min_le_right _ _
    · rw [hspent]
      exact hf.inRange
    · rw [hcontinues.nextTurn, hcheckpoint.nextTurn hconfig]
    · rw [← List.append_assoc, tools_append, tools_quiet hquiet, List.append_nil]
      intro ran hran
      have hmem := List.mem_map_of_mem (f := fun ran : Ran => ran.call.name) hran
      rw [← hf.completed, ← hkept.completed] at hmem
      obtain ⟨c, hc, hname⟩ := List.mem_map.mp hmem
      rw [← hname]
      exact hcontinues.shell c hc
    · rw [hcontinues.elapsedSecs]
      change saturatingAdd 64 ((f'.out.resumedFrom.map ResumedFrom.elapsedSecs).getD 0) span = _
      rw [hkept.resumed, hf.resumed, Option.map_map]
      rfl

end Stop

end Cosmon.Harness
