import Cosmon.Harness.Spine
import Cosmon.Lib.Runs

namespace Cosmon.Harness

open Cosmon.Lib Cosmon.Lib.Runs Cosmon.Core.HarnessTurn

variable {L A : Type}

structure Request (A : Type) where
  turn : Nat
  answer : Except String (Turn A)

structure Ran where
  turn : Nat
  call : ToolCall
  result : Except String String

def Event.recorded : Event A → Option TurnRecord
  | .stored record => some record
  | .sent _ _ | .ran _ _ _ => none

def Event.request : Event A → Option (Request A)
  | .sent turn answer => some ⟨turn, answer⟩
  | .stored _ | .ran _ _ _ => none

def Event.tool : Event A → Option Ran
  | .ran turn call result => some ⟨turn, call, result⟩
  | .stored _ | .sent _ _ => none

def records (trace : List (Event A)) : List TurnRecord := trace.filterMap Event.recorded
def requests (trace : List (Event A)) : List (Request A) := trace.filterMap Event.request
def tools (trace : List (Event A)) : List Ran := trace.filterMap Event.tool

section Trace

variable (trace : List (Event A)) (event : Event A)

theorem records_concat : records (trace ++ [event]) = records trace ++ event.recorded.toList := by
  rw [records, records, List.filterMap_append]
  cases event <;> rfl

theorem requests_concat : requests (trace ++ [event]) = requests trace ++ event.request.toList := by
  rw [requests, requests, List.filterMap_append]
  cases event <;> rfl

theorem tools_concat : tools (trace ++ [event]) = tools trace ++ event.tool.toList := by
  rw [tools, tools, List.filterMap_append]
  cases event <;> rfl

end Trace

section Property

variable (digestOf : List UInt8 → BlobDigest) (execResult : String → Option ExecResult)

def Ran.completed (ran : Ran) : CompletedCall where
  turn := ran.turn
  callId := ran.call.id
  tool := ran.call.name
  outcome := (classifyResult execResult ran.call ran.result).1
  result := some (blobRef digestOf .toolResult (textBytes (resultText ran.result)))

def Ran.unresolved (ran : Ran) : UnresolvedCall := ⟨ran.turn, ran.call.id, ran.call.name⟩

def Licensed (before : List (Event A)) : Event A → Prop
  | .stored _ => True
  | .sent turn _ => ∃ estimated spent, .stored (.requestIntent turn estimated spent) ∈ before
  | .ran turn call _ => ∃ spent, before.getLast? =
    some (.stored (.toolIntent turn call.id call.name (digestOf (textBytes call.argumentsJson)) spent))

def partialText (response : TerminalResponse) : Option BlobRef :=
  if response.text = "" then none else some (blobRef digestOf .partialText (textBytes response.text))

def Turn.response : Turn A → Option TerminalResponse
  | .toolCalls _ _ => none
  | .stop text => some ⟨text, .normal⟩
  | .terminal response => some response

inductive Outcome (records : List TurnRecord) (out : AttemptReconstruction) (turn : Nat) :
    Except String (Turn A) → Prop where
  | failed (answer : Except String (Turn A)) (reason : String) (h : .requestFailed turn reason ∈ records) :
    Outcome records out turn answer
  | assistant (assistant : A) (calls : List ToolCall) (envelope : Option BlobRef)
      (h : ⟨turn, calls.map callEvidence, envelope⟩ ∈ out.assistants) :
    Outcome records out turn (.ok (.toolCalls assistant calls))
  | terminal (answer : Turn A) (response : TerminalResponse) (hanswer : answer.response = some response)
      (h : out.terminal = some ⟨turn, response.disposition.kind, partialText digestOf response⟩) :
    Outcome records out turn (.ok answer)

/-- Every tool that ran is completed with its result, in order, but for a last one that may
be listed as unresolved, and every request has an outcome or is listed as unresolved. -/
structure Recovered (trace : List (Event A)) (out : AttemptReconstruction) : Prop where
  tools : ∃ completed owed, tools trace = completed ++ owed ∧
    out.completedCalls = completed.map (Ran.completed digestOf execResult) ∧
    (owed = [] ∨ ∃ last, owed = [last] ∧ out.unresolvedCalls = [last.unresolved])
  requests : ∀ r ∈ requests trace,
    r.turn ∈ out.unresolvedRequests ∨ Outcome digestOf (records trace) out r.turn r.answer

/-- No effect without its intent, and the records of the attempt can be read back and
account for all effects. -/
structure EvidenceKept (trace : List (Event A)) : Prop where
  licensed : EachAfter (Licensed digestOf) trace
  recovered : ∃ out, reconstruct (records trace) = .ok out ∧ Recovered digestOf execResult trace out

/-- The records have been read so far, with a tool that is owed a receipt and a request that
is owed an outcome. -/
structure Stage (trace : List (Event A)) (f : Fold) (owed : List Ran) (waiting : List (Request A)) :
    Prop where
  licensed : EachAfter (Licensed digestOf) trace
  folds : (records trace).foldlM Fold.apply {} = .ok f
  tools : ∃ completed, tools trace = completed ++ owed ∧
    f.out.completedCalls = completed.map (Ran.completed digestOf execResult)
  requests : ∃ answered, requests trace = answered ++ waiting ∧
    ∀ r ∈ answered, Outcome digestOf (records trace) f.out r.turn r.answer
  owed : owed = [] ∨ ∃ last, owed = [last] ∧ f.intents = [last.unresolved]
  waiting : ∀ r ∈ waiting, r.turn ∈ f.openRequests

end Property

section Stages

variable {digestOf : List UInt8 → BlobDigest} {execResult : String → Option ExecResult}
  {trace : List (Event A)} {f f' : Fold} {owed : List Ran} {waiting : List (Request A)}

theorem Outcome.mono {rs rs' : List TurnRecord} {out out' : AttemptReconstruction} {turn : Nat}
    {answer : Except String (Turn A)} (h : Outcome digestOf rs out turn answer) (hrecords : rs ⊆ rs')
    (hassistants : out.assistants ⊆ out'.assistants)
    (hterminal : out.terminal = none ∨ out'.terminal = out.terminal) :
    Outcome digestOf rs' out' turn answer := by
  cases h with
  | failed answer reason h => exact .failed answer reason (hrecords h)
  | assistant assistant calls envelope h => exact .assistant assistant calls envelope (hassistants h)
  | terminal answer response hanswer h =>
    refine .terminal answer response hanswer ?_
    rw [h] at hterminal
    exact hterminal.resolve_left (fun hc => by cases hc)

theorem Stage.evidenceKept (h : Stage digestOf execResult trace f owed waiting) :
    EvidenceKept digestOf execResult trace := by
  refine ⟨h.licensed, f.finish, ?_, ?_, ?_⟩
  · rw [reconstruct, h.folds]
    rfl
  · obtain ⟨completed, htools, hcompleted⟩ := h.tools
    exact ⟨completed, owed, htools, hcompleted, h.owed⟩
  · intro r hr
    obtain ⟨answered, hrequests, hanswered⟩ := h.requests
    rw [hrequests] at hr
    obtain hr | hr := List.mem_append.mp hr
    · exact Or.inr ((hanswered r hr).mono (List.Subset.refl _) (List.Subset.refl _) (Or.inr rfl))
    · exact Or.inl (h.waiting r hr)

theorem Stage.settle (h : Stage digestOf execResult trace f owed waiting) {record : TurnRecord}
    (happly : f.apply record = .ok f') (hassistants : f.out.assistants ⊆ f'.out.assistants)
    (hterminal : f.out.terminal = none ∨ f'.out.terminal = f.out.terminal)
    (htools : f'.out.completedCalls = f.out.completedCalls ++ owed.map (Ran.completed digestOf execResult))
    (hrequests : ∀ r ∈ waiting, Outcome digestOf (records trace ++ [record]) f'.out r.turn r.answer) :
    Stage digestOf execResult (trace ++ [.stored record]) f' [] [] where
  licensed := eachAfter_concat h.licensed trivial
  folds := by
    rw [records_concat, List.foldlM_append, h.folds]
    exact (bind_pure _).trans happly
  tools := by
    obtain ⟨completed, hran, hcompleted⟩ := h.tools
    refine ⟨completed ++ owed, ?_, ?_⟩
    · rw [tools_concat, hran]
      rfl
    · rw [htools, hcompleted, List.map_append]
  requests := by
    obtain ⟨answered, hsent, hanswered⟩ := h.requests
    refine ⟨answered ++ waiting, ?_, ?_⟩
    · rw [requests_concat, hsent]
      rfl
    · rw [records_concat, List.forall_mem_append]
      refine ⟨fun r hr => ?_, hrequests⟩
      exact (hanswered r hr).mono (List.subset_append_left _ _) hassistants hterminal
  owed := Or.inl rfl
  waiting := by
    intro r hr
    cases hr

theorem Stage.note (h : Stage digestOf execResult trace f [] []) {record : TurnRecord}
    (happly : f.apply record = .ok f') (hassistants : f'.out.assistants = f.out.assistants)
    (hterminal : f'.out.terminal = f.out.terminal)
    (hcompleted : f'.out.completedCalls = f.out.completedCalls) :
    Stage digestOf execResult (trace ++ [.stored record]) f' [] [] := by
  apply h.settle happly
  · rw [hassistants]
    exact List.Subset.refl _
  · exact Or.inr hterminal
  · rw [hcompleted, List.map_nil, List.append_nil]
  · intro r hr
    cases hr

theorem Stage.send (h : Stage digestOf execResult trace f owed []) {turn : Nat}
    (answer : Except String (Turn A)) (hopen : turn ∈ f.openRequests)
    (hintent : ∃ estimated spent, .stored (.requestIntent turn estimated spent) ∈ trace) :
    Stage digestOf execResult (trace ++ [.sent turn answer]) f owed [⟨turn, answer⟩] where
  licensed := eachAfter_concat h.licensed hintent
  folds := by
    rw [records_concat]
    exact (congrArg _ (List.append_nil _)).trans h.folds
  tools := by
    obtain ⟨completed, hran, hcompleted⟩ := h.tools
    exact ⟨completed, (tools_concat _ _).trans ((List.append_nil _).trans hran), hcompleted⟩
  requests := by
    obtain ⟨answered, hsent, hanswered⟩ := h.requests
    refine ⟨answered, ?_, ?_⟩
    · rw [requests_concat, hsent, List.append_nil]
      rfl
    · rw [records_concat]
      intro r hr
      exact (hanswered r hr).mono (List.subset_append_left _ _) (List.Subset.refl _) (Or.inr rfl)
  owed := h.owed
  waiting := by
    intro r hr
    rw [List.mem_singleton.mp hr]
    exact hopen

theorem Stage.run (h : Stage digestOf execResult trace f [] waiting) {turn : Nat} {call : ToolCall}
    (result : Except String String) (hintents : f.intents = [⟨turn, call.id, call.name⟩])
    (hintent : ∃ spent, trace.getLast? =
      some (.stored (.toolIntent turn call.id call.name (digestOf (textBytes call.argumentsJson)) spent))) :
    Stage digestOf execResult (trace ++ [.ran turn call result]) f [⟨turn, call, result⟩] waiting where
  licensed := eachAfter_concat h.licensed hintent
  folds := by
    rw [records_concat]
    exact (congrArg _ (List.append_nil _)).trans h.folds
  tools := by
    obtain ⟨completed, hran, hcompleted⟩ := h.tools
    refine ⟨completed, ?_, hcompleted⟩
    rw [tools_concat, hran, List.append_nil]
    rfl
  requests := by
    obtain ⟨answered, hsent, hanswered⟩ := h.requests
    refine ⟨answered, ?_, ?_⟩
    · exact (requests_concat _ _).trans ((List.append_nil _).trans hsent)
    · rw [records_concat]
      intro r hr
      exact (hanswered r hr).mono (List.subset_append_left _ _) (List.Subset.refl _) (Or.inr rfl)
  owed := Or.inr ⟨_, rfl, hintents⟩
  waiting := h.waiting

end Stages

end Cosmon.Harness

namespace Cosmon.Harness

open Cosmon.Lib Cosmon.Core.HarnessTurn

variable (digestOf : List UInt8 → BlobDigest) (execResult : String → Option ExecResult)

structure Point (A : Type) where
  holds : List (Event A) → Nat → Prop
  kept : ∀ trace turn, holds trace turn → EvidenceKept digestOf execResult trace

variable {digestOf execResult} {A α β : Type}

namespace Point

def reading (owed : List Ran) (waiting : List (Request A)) (P : List (Event A) → Nat → Fold → Prop) :
    Point digestOf execResult A where
  holds trace turn := ∃ f, Stage digestOf execResult trace f owed waiting ∧ P trace turn f
  kept := by
    rintro trace turn ⟨f, h, -⟩
    exact h.evidenceKept

def either (P Q : Point digestOf execResult A) : Point digestOf execResult A where
  holds trace turn := P.holds trace turn ∨ Q.holds trace turn
  kept trace turn h := h.elim (P.kept trace turn) (Q.kept trace turn)

/-- The place, where moreover `p` is true. -/
def given (p : Prop) (P : Point digestOf execResult A) : Point digestOf execResult A where
  holds trace turn := p ∧ P.holds trace turn
  kept trace turn h := P.kept trace turn h.2

def ended : Point digestOf execResult A where
  holds trace _ := EvidenceKept digestOf execResult trace
  kept _ _ h := h

end Point

/-- The open requests and the intents of the reader. No attempt goes on after its end. -/
structure Standing (f : Fold) (openRequests : List Nat) (intents : List UnresolvedCall) : Prop where
  openRequests : f.openRequests = openRequests
  intents : f.intents = intents
  terminal : f.out.terminal = none

def Names (f : Fold) (turn : Nat) (calls : List ToolCall) : Prop :=
  ∀ call ∈ calls, ∃ c ∈ f.named, c.turn = turn ∧ c.callId = call.id

namespace Point

def start : Point digestOf execResult A := reading [] [] fun _ _ f => f = {}

def fresh : Point digestOf execResult A := reading [] [] fun _ _ f =>
  Standing f [] [] ∧ f.started = true ∧ f.out.requestsSent = 0 ∧ f.out.resumedFrom = none

def idle : Point digestOf execResult A := reading [] [] fun _ _ f => Standing f [] []

def entering (turn : Nat) : Point digestOf execResult A := reading [] [] fun _ now f =>
  now = turn ∧ Standing f [] []

def asked (turn : Nat) : Point digestOf execResult A := reading [] [] fun trace now f =>
  now = turn ∧ Standing f [turn] [] ∧ ∃ estimated spent, .stored (.requestIntent turn estimated spent) ∈ trace

def answered (turn : Nat) (answer : Except String (Turn A)) : Point digestOf execResult A :=
  reading [] [⟨turn, answer⟩] fun _ now f => now = turn ∧ Standing f [turn] []

def refused (turn : Nat) : Point digestOf execResult A where
  holds trace now := ∃ waiting, (∀ r ∈ waiting, r.turn = turn) ∧
    ∃ f, Stage digestOf execResult trace f [] waiting ∧ now = turn ∧ Standing f [turn] []
  kept := by
    rintro trace now ⟨waiting, -, f, h, -⟩
    exact h.evidenceKept

def dispatching (turn : Nat) (calls : List ToolCall) : Point digestOf execResult A :=
  reading [] [] fun _ _ f => Standing f [] [] ∧ Names f turn calls

def intended (turn : Nat) (call : ToolCall) (calls : List ToolCall) : Point digestOf execResult A :=
  reading [] [] fun trace _ f => Standing f [] [⟨turn, call.id, call.name⟩] ∧ Names f turn calls ∧
    ∃ spent, trace.getLast? =
      some (.stored (.toolIntent turn call.id call.name (digestOf (textBytes call.argumentsJson)) spent))

def ran (turn : Nat) (call : ToolCall) (result : Except String String) (calls : List ToolCall) :
    Point digestOf execResult A :=
  reading [⟨turn, call, result⟩] [] fun _ _ f =>
    Standing f [] [⟨turn, call.id, call.name⟩] ∧ Names f turn calls

end Point

variable (digestOf execResult)

def Steps (P : Point digestOf execResult A) (event : Event A) (Q : Point digestOf execResult A) : Prop :=
  ∀ trace turn, P.holds trace turn → Q.holds (trace ++ [event]) turn

section Steps

variable {digestOf execResult} {turn : Nat} {call : ToolCall} {calls : List ToolCall}

theorem closeRequest_self (what : String) : closeRequest [turn] turn what = .ok [] := by
  rw [closeRequest, if_pos (List.mem_singleton_self turn), List.erase_cons_head]

section Closing

variable {f : Fold} (h : f.openRequests = [turn])

include h

theorem apply_requestFailed (reason : String) :
    f.apply (.requestFailed turn reason) = .ok { f with openRequests := [] } := by
  rw [Fold.apply, h, closeRequest_self]
  rfl

theorem apply_assistantReceived (named : List CallEvidence) (envelope : Option BlobRef) (spent : Nat) :
    f.apply (.assistantReceived turn named envelope spent) = .ok { f with
      out := { f.out.spend spent with assistants := f.out.assistants ++ [⟨turn, named, envelope⟩] }
      openRequests := []
      named := f.named ++ named.map fun c => ⟨turn, c.callId, c.tool⟩ } := by
  rw [Fold.apply, h, closeRequest_self]
  rfl

theorem apply_terminal (disposition : TerminalKind) (text : Option BlobRef) (spent : Nat) :
    f.apply (.terminal turn disposition text spent) = .ok { f with
      out := { f.out.spend spent with terminal := some ⟨turn, disposition, text⟩ }
      openRequests := [] } := by
  rw [Fold.apply, h, closeRequest_self]
  rfl

end Closing

theorem steps_started (limits : TurnLimits) (pins : Pins) :
    Steps (A := A) digestOf execResult .start (.stored (.attemptStarted limits pins)) .fresh := by
  rintro trace now ⟨f, h, rfl⟩
  exact ⟨_, h.note rfl rfl rfl rfl, ⟨rfl, rfl, rfl⟩, rfl, rfl, rfl⟩

theorem steps_resumed (fromHistoryId : String) (checkpointTurn : Nat) (log : BlobRef)
    (toolsSpent requestsSent elapsedSecs : Nat) :
    Steps (A := A) digestOf execResult .fresh
      (.stored (.resumed fromHistoryId checkpointTurn log toolsSpent requestsSent elapsedSecs)) .idle := by
  rintro trace now ⟨f, h, hf, hstarted, hnone, hfresh⟩
  refine ⟨_, h.note (if_neg ?_) rfl rfl rfl, hf.openRequests, hf.intents, hf.terminal⟩
  rw [hstarted, hnone, hfresh]
  decide

theorem steps_compacted (tokensBefore tokensAfter messagesRemoved : Nat) :
    Steps (A := A) digestOf execResult .idle
      (.stored (.compacted turn tokensBefore tokensAfter messagesRemoved)) .idle := by
  rintro trace now ⟨f, h, hf⟩
  exact ⟨_, h.note rfl rfl rfl rfl, hf.openRequests, hf.intents, hf.terminal⟩

theorem steps_requestIntent (estimated spent : Nat) :
    Steps (A := A) digestOf execResult (.entering turn) (.stored (.requestIntent turn estimated spent))
      (.asked turn) := by
  rintro trace now ⟨f, h, hnow, hf⟩
  refine ⟨_, h.note rfl rfl rfl rfl, hnow, ⟨?_, hf.intents, hf.terminal⟩, estimated, spent, ?_⟩
  · change f.openRequests ++ [turn] = [turn]
    rw [hf.openRequests, List.nil_append]
  · exact List.mem_append_right _ (List.mem_singleton_self _)

theorem steps_inputsSelected (inputs : List InputEvidence) :
    Steps (A := A) digestOf execResult (.asked turn) (.stored (.inputsSelected turn inputs))
      (.asked turn) := by
  rintro trace now ⟨f, h, hnow, hf, estimated, spent, hintent⟩
  refine ⟨_, h.note (if_pos ?_) rfl rfl rfl, hnow, ⟨hf.openRequests, hf.intents, hf.terminal⟩, estimated,
    spent, List.mem_append_left _ hintent⟩
  rw [hf.openRequests]
  exact List.mem_singleton_self turn

theorem steps_sent (answer : Except String (Turn A)) :
    Steps digestOf execResult (.asked turn) (.sent turn answer) (.answered turn answer) := by
  rintro trace now ⟨f, h, hnow, hf, hintent⟩
  refine ⟨f, h.send answer ?_ hintent, hnow, hf⟩
  rw [hf.openRequests]
  exact List.mem_singleton_self turn

theorem steps_requestFailed (reason : String) :
    Steps (A := A) digestOf execResult (.refused turn) (.stored (.requestFailed turn reason)) .ended := by
  rintro trace now ⟨waiting, hwaiting, f, h, -, hf⟩
  have happly := apply_requestFailed hf.openRequests reason
  refine (h.settle happly (List.Subset.refl _) (Or.inl hf.terminal) (List.append_nil _).symm ?_).evidenceKept
  intro r hr
  rw [hwaiting r hr]
  exact .failed _ reason (List.mem_append_right _ (List.mem_singleton_self _))

theorem steps_assistantReceived (assistant : A) (envelope : Option BlobRef) (spent : Nat) :
    Steps digestOf execResult (.answered turn (.ok (.toolCalls assistant calls)))
      (.stored (.assistantReceived turn (calls.map callEvidence) envelope spent))
      (.dispatching turn calls) := by
  rintro trace now ⟨f, h, -, hf⟩
  have happly := apply_assistantReceived hf.openRequests (calls.map callEvidence) envelope spent
  refine ⟨_, h.settle happly (List.subset_append_left _ _) (Or.inr rfl) (List.append_nil _).symm ?_,
    ⟨rfl, hf.intents, hf.terminal⟩, ?_⟩
  · intro r hr
    rw [List.mem_singleton.mp hr]
    exact .assistant assistant calls envelope (List.mem_append_right _ (List.mem_singleton_self _))
  · intro call hcall
    refine ⟨⟨turn, call.id, call.name⟩, List.mem_append_right _ ?_, rfl, rfl⟩
    exact List.mem_map_of_mem (List.mem_map_of_mem hcall)

theorem steps_toolIntent (spent : Nat) :
    Steps (A := A) digestOf execResult (.dispatching turn (call :: calls))
      (.stored (.toolIntent turn call.id call.name (digestOf (textBytes call.argumentsJson)) spent))
      (.intended turn call calls) := by
  rintro trace now ⟨f, h, hf, hnames⟩
  rw [Names, List.forall_mem_cons] at hnames
  refine ⟨_, h.note (if_pos ?_) rfl rfl rfl, ⟨hf.openRequests, ?_, hf.terminal⟩, hnames.2, spent,
    List.getLast?_concat⟩
  · obtain ⟨c, hc, hnamed⟩ := hnames.1
    exact List.any_eq_true.mpr ⟨c, hc, decide_eq_true hnamed⟩
  · change Keyed.insert UnresolvedCall.key ⟨turn, call.id, call.name⟩ f.intents = _
    rw [hf.intents, Keyed.insert]

theorem steps_ran (result : Except String String) :
    Steps (A := A) digestOf execResult (.intended turn call calls) (.ran turn call result)
      (.ran turn call result calls) := by
  rintro trace now ⟨f, h, hf, hnames, hintent⟩
  exact ⟨f, h.run result hf.intents hintent, hf, hnames⟩

theorem steps_toolReceipt (result : Except String String) (spent : Nat) :
    Steps (A := A) digestOf execResult (.ran turn call result calls)
      (.stored (.toolReceipt turn call.id (classifyResult execResult call result).1
        (some (blobRef digestOf .toolResult (textBytes (resultText result)))) spent))
      (.dispatching turn calls) := by
  rintro trace now ⟨f, h, hf, hnames⟩
  have happly : f.apply (.toolReceipt turn call.id (classifyResult execResult call result).1
      (some (blobRef digestOf .toolResult (textBytes (resultText result)))) spent) = .ok { f with
        out := { f.out.spend spent with
          completedCalls := f.out.completedCalls ++ [Ran.completed digestOf execResult ⟨turn, call, result⟩] }
        intents := [] } := by
    rw [Fold.apply, hf.intents, Keyed.get, List.find?_cons_of_pos (by simp [UnresolvedCall.key]),
      List.filter_cons_of_neg (by simp [UnresolvedCall.key]), List.filter_nil]
    rfl
  refine ⟨_, h.settle happly (List.Subset.refl _) (Or.inr rfl) rfl ?_,
    ⟨hf.openRequests, rfl, hf.terminal⟩, hnames⟩
  intro r hr
  cases hr

theorem steps_checkpoint (log : Option BlobRef) (spent : Nat) :
    Steps (A := A) digestOf execResult .idle (.stored (.checkpoint turn log spent)) .idle := by
  rintro trace now ⟨f, h, hf⟩
  exact ⟨_, h.note rfl rfl rfl rfl, hf.openRequests, hf.intents, hf.terminal⟩

theorem steps_terminal {answer : Turn A} {response : TerminalResponse}
    (hanswer : answer.response = some response) (spent : Nat) :
    Steps digestOf execResult (.answered turn (.ok answer))
      (.stored (.terminal turn response.disposition.kind (partialText digestOf response) spent)) .ended := by
  rintro trace now ⟨f, h, -, hf⟩
  have happly := apply_terminal hf.openRequests response.disposition.kind (partialText digestOf response) spent
  refine (h.settle happly (List.Subset.refl _) (Or.inl hf.terminal) (List.append_nil _).symm ?_).evidenceKept
  intro r hr
  rw [List.mem_singleton.mp hr]
  exact .terminal answer response hanswer rfl

end Steps

end Cosmon.Harness
