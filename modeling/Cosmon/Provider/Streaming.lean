import Cosmon.Core.WorkRender
import Cosmon.Harness.Logs
import Cosmon.Lib.UnixPath

namespace Cosmon.Provider

open Cosmon.Core.WorkRender Cosmon.Harness Cosmon.Harness.OpenAI Cosmon.Lib.Buckets Cosmon.Lib.Text

section LineBuffer

def lineFeed : UInt8 := 0x0A

def rposition : List UInt8 → Option Nat
  | [] => none
  | b :: rest =>
    match rposition rest with
    | some last => some (last + 1)
    | none => if b = lineFeed then some 0 else none

def push (buf chunk : List UInt8) : List (List Char) × List UInt8 :=
  match rposition (buf ++ chunk) with
  | none => ([], buf ++ chunk)
  | some last => (((fromUtf8Lossy ((buf ++ chunk).take (last + 1))).splitOn '\n').dropLast,
      (buf ++ chunk).drop (last + 1))

def flush (buf : List UInt8) : Option (List Char) := if buf = [] then none else some (fromUtf8Lossy buf)

end LineBuffer

section Frames

structure StreamFunctionDelta where
  name : Option String := none
  arguments : Option String := none
deriving DecidableEq

structure StreamToolCallDelta where
  index : Option Nat := none
  id : Option String := none
  function : Option StreamFunctionDelta := none
deriving DecidableEq

structure StreamDelta where
  content : Option String := none
  toolCalls : Option (List StreamToolCallDelta) := none
deriving DecidableEq

structure StreamChoice where
  delta : StreamDelta := {}
  finishReason : Option String := none
deriving DecidableEq

/-- A frame of a stream; the token counters are handed on as they are. -/
structure StreamChunk (V : Type) where
  choices : List StreamChoice := []
  model : Option String := none
  id : Option String := none
  usage : Option V := none
deriving DecidableEq

end Frames

section Accumulator

structure ToolCallBuf where
  id : Option String := none
  name : String := ""
  args : String := ""
deriving DecidableEq

structure StreamAccumulator (V : Type) where
  content : String := ""
  toolCalls : List (Nat × ToolCallBuf) := []
  finishReason : Option String := none
  sawDone : Bool := false
  malformedData : Bool := false
  usage : Option V := none
  responseId : Option String := none
deriving DecidableEq

/-- The call that a fragment belongs to; one without an index goes to the first. -/
def position (tc : StreamToolCallDelta) : Nat := tc.index.getD 0

def addFragment (buf : ToolCallBuf) (tc : StreamToolCallDelta) : ToolCallBuf where
  id := (tc.id.filter (· ≠ "")).or buf.id
  name := ((tc.function.bind (·.name)).filter (· ≠ "")).getD buf.name
  args := buf.args ++ (tc.function.bind (·.arguments)).getD ""

variable {V : Type}

def ingestChoice (acc : StreamAccumulator V) (choice : StreamChoice) : StreamAccumulator V :=
  { acc with
    finishReason := choice.finishReason.or acc.finishReason
    content := acc.content ++ choice.delta.content.getD ""
    toolCalls := (choice.delta.toolCalls.getD []).foldl (put position addFragment {}) acc.toolCalls }

def ingestChunk (acc : StreamAccumulator V) (chunk : StreamChunk V) : StreamAccumulator V :=
  chunk.choices.foldl ingestChoice
    { acc with
      usage := chunk.usage.or acc.usage
      responseId := acc.responseId.or (chunk.id.filter (· ≠ "")) }

def stripPrefix (start text : List Char) : Option (List Char) :=
  if start <+: text then some (text.drop start.length) else none

def trimEndMatches (c : Char) (text : List Char) : List Char := (text.reverse.dropWhile (· = c)).reverse

/-- Whether a line is one of the stream, and what it adds. `parse` reads the JSON of a frame. -/
def ingestSseLine (parse : String → Option (StreamChunk V)) (acc : StreamAccumulator V) (line : List Char) :
    Bool × StreamAccumulator V :=
  match stripPrefix "data:".toList (trimEndMatches '\r' line) with
  | none => (false, acc)
  | some rest =>
    if trim rest = [] then (true, acc)
    else if trim rest = "[DONE]".toList then (true, { acc with sawDone := true })
    else
      match parse (String.ofList (trim rest)) with
      | none => (true, { acc with malformedData := true })
      | some chunk => (true, ingestChunk acc chunk)

def mapOpenaiFinishReason (reason : String) : TerminalDisposition :=
  if reason = "stop" ∨ reason = "tool_calls" ∨ reason = "function_call" then .normal
  else if reason = "length" ∨ reason = "max_tokens" then .outputLimit
  else if reason = "content_filter" ∨ reason = "refusal" ∨ reason = "safety" then .refused
  else .unknown reason

def finalizeStreamedArgs (raw : String) : String := if trim raw.toList = [] then "{}" else raw

def wireCall (call : Nat × ToolCallBuf) : WireToolCall where
  id := call.2.id.getD ("call_" ++ toString call.1)
  name := call.2.name
  arguments := finalizeStreamedArgs call.2.args

def incompleteTool (buf : ToolCallBuf) : Bool := buf.id.all (· = "") || buf.name = ""

def finish (acc : StreamAccumulator V) : Response where
  content := if acc.content = "" then none else some acc.content
  wireCalls := acc.toolCalls.map wireCall
  disposition :=
    if acc.malformedData = true ∨ acc.toolCalls.any (fun call => incompleteTool call.2) = true then .incomplete
    else
      match acc.finishReason with
      | some reason => mapOpenaiFinishReason reason
      | none => if acc.sawDone then .normal else .incomplete

end Accumulator

section Consuming

inductive OpenAiError where
  | decode (message : String)
deriving DecidableEq

structure Choice where
  message : ChatMessage
  finishReason : Option String

structure ChatResponse (V : Type) where
  choices : List Choice
  model : Option String
  id : Option String
  usage : Option V

structure ChatCompletionOutcome (V : Type) extends Response where
  realizedModel : Option String
  usage : Option V
  responseId : Option String

structure Reading (V : Type) where
  acc : StreamAccumulator V := {}
  rawBody : List Char := []
  sawSseFrame : Bool := false
  realizedModel : Option String := none

variable {V : Type} (parse : String → Option (StreamChunk V)) (parseBody : String → Except String (ChatResponse V))

def extractSseModel (line : List Char) : Option String :=
  let payload := trim ((stripPrefix "data:".toList (trim line)).getD line)
  if payload = [] ∨ payload = "[DONE]".toList then none
  else (parse (String.ofList payload)).bind (·.model)

def readLine (lineEnd : List Char) (r : Reading V) (line : List Char) : Reading V where
  acc := (ingestSseLine parse r.acc line).2
  rawBody := r.rawBody ++ line ++ lineEnd
  sawSseFrame := r.sawSseFrame || (ingestSseLine parse r.acc line).1
  realizedModel := r.realizedModel.or (extractSseModel parse line)

def readChunk (state : Reading V × List UInt8) (chunk : Except String (List UInt8)) :
    Except OpenAiError (Reading V × List UInt8) :=
  match chunk with
  | .error e => .error (.decode e)
  | .ok bytes =>
    .ok ((push state.2 bytes).1.foldl (readLine parse ['\n']) state.1, (push state.2 bytes).2)

def finalizeWireToolCall (c : WireToolCall) : WireToolCall := { c with arguments := finalizeStreamedArgs c.arguments }

def conclude (r : Reading V) : Except OpenAiError (ChatCompletionOutcome V) :=
  if r.sawSseFrame then
    .ok { finish r.acc with realizedModel := r.realizedModel, usage := r.acc.usage, responseId := r.acc.responseId }
  else do
    let parsed ← (parseBody (String.ofList (trim r.rawBody))).mapError .decode
    match parsed.choices with
    | [] => .error (.decode "empty choices array")
    | choice :: _ => .ok {
        content := choice.message.content
        wireCalls := (choice.message.toolCalls.getD []).map finalizeWireToolCall
        disposition := choice.finishReason.elim .incomplete mapOpenaiFinishReason
        realizedModel := r.realizedModel.or parsed.model
        usage := parsed.usage
        responseId := parsed.id.filter (· ≠ "") }

def consumeChatCompletion (chunks : List (Except String (List UInt8))) :
    Except OpenAiError (ChatCompletionOutcome V) := do
  let (reading, buf) ← chunks.foldlM (readChunk parse) ({}, [])
  match flush buf with
  | some tail => conclude parseBody (readLine parse [] reading tail)
  | none => conclude parseBody reading

end Consuming

end Cosmon.Provider

namespace Cosmon.Provider

open Cosmon.Core.WorkRender Cosmon.Lib

section Decoding

/-- A sequence that is not complete waits for a byte above those of ASCII. -/
def Waits (state : Option Pending) : Prop := ∀ p, state = some p → 0x80 ≤ p.low

theorem waits_none : Waits none := nofun

theorem waits_some {p : Pending} (h : 0x80 ≤ p.low) : Waits (some p) := by
  rintro _ ⟨⟩
  exact h

theorem startSequence_waits (a : UInt8) : Waits (startSequence a).2 := by
  intro p hp
  unfold startSequence at hp
  split_ifs at hp <;> cases hp <;> dsimp only <;> decide

theorem startSequence_lineFeed : startSequence lineFeed = (['\n'], none) := rfl

theorem decodeLossy_start (a : UInt8) (rest : List UInt8) :
    decodeLossy none (a :: rest) = (startSequence a).1 ++ decodeLossy (startSequence a).2 rest := by
  rw [decodeLossy]

theorem decodeLossy_next (p : Pending) (b : UInt8) (rest : List UInt8) : decodeLossy (some p) (b :: rest) =
    if p.low ≤ b ∧ b ≤ p.high then
      if p.missing = 1 then Char.ofNat (p.bits * 64 + b.toNat % 64) :: decodeLossy none rest
      else decodeLossy (some ⟨p.missing - 1, p.bits * 64 + b.toNat % 64, 0x80, 0xBF⟩) rest
    else replacement :: (startSequence b).1 ++ decodeLossy (startSequence b).2 rest := by
  rw [decodeLossy]

theorem decodeLossy_cut (front back : List UInt8) {state : Option Pending} (h : Waits state) :
    decodeLossy state (front ++ lineFeed :: back) = decodeLossy state front ++ '\n' :: decodeLossy none back := by
  induction front generalizing state with
  | nil =>
    cases state with
    | none =>
      rw [List.nil_append, decodeLossy_start, startSequence_lineFeed, decodeLossy]
      rfl
    | some p =>
      have hlow : ¬ (p.low ≤ lineFeed ∧ lineFeed ≤ p.high) := by
        rintro ⟨hle, -⟩
        exact absurd (UInt8.le_trans (h p rfl) hle) (by decide)
      rw [List.nil_append, decodeLossy_next, if_neg hlow, startSequence_lineFeed, decodeLossy]
      rfl
  | cons a rest ih =>
    rw [List.cons_append]
    cases state with
    | none => rw [decodeLossy_start, decodeLossy_start, ih (startSequence_waits a), List.append_assoc]
    | some p =>
      rw [decodeLossy_next, decodeLossy_next]
      split_ifs
      · rw [ih waits_none, List.cons_append]
      · rw [ih (waits_some (UInt8.le_refl 0x80))]
      · rw [ih (startSequence_waits a), List.append_assoc]

theorem fromUtf8Lossy_cut (front back : List UInt8) :
    fromUtf8Lossy (front ++ lineFeed :: back) = fromUtf8Lossy front ++ '\n' :: fromUtf8Lossy back :=
  decodeLossy_cut front back waits_none

end Decoding

section Pushing

theorem rposition_none {bytes : List UInt8} (h : lineFeed ∉ bytes) : rposition bytes = none := by
  induction bytes with
  | nil => rfl
  | cons b rest ih =>
    rw [List.mem_cons, not_or] at h
    rw [rposition, ih h.2]
    exact if_neg (Ne.symm h.1)

theorem rposition_last (front : List UInt8) {tail : List UInt8} (h : lineFeed ∉ tail) :
    rposition (front ++ lineFeed :: tail) = some front.length := by
  induction front with
  | nil =>
    rw [List.nil_append, rposition, rposition_none h]
    rfl
  | cons b rest ih =>
    rw [List.cons_append, rposition, ih]
    rfl

theorem push_none {buf chunk : List UInt8} (h : lineFeed ∉ buf ++ chunk) : push buf chunk = ([], buf ++ chunk) := by
  rw [push, rposition_none h]

theorem push_last {buf chunk front tail : List UInt8} (hall : buf ++ chunk = front ++ lineFeed :: tail)
    (h : lineFeed ∉ tail) : push buf chunk = ((fromUtf8Lossy front).splitOn '\n', tail) := by
  have hcut : front ++ lineFeed :: tail = (front ++ [lineFeed]) ++ tail := by simp
  have hlength : front.length + 1 = (front ++ [lineFeed]).length := by simp
  rw [push, hall, rposition_last front h]
  dsimp only
  rw [hcut, hlength, List.take_left, List.drop_left, fromUtf8Lossy_cut, List.splitOn_append_cons_self]
  exact Prod.ext List.dropLast_concat rfl

theorem push_append (buf c d : List UInt8) :
    push buf (c ++ d) = ((push buf c).1 ++ (push (push buf c).2 d).1, (push (push buf c).2 d).2) := by
  obtain hnone | ⟨front, tail, hall, htail⟩ := @UnixPath.exists_last_part _ _ lineFeed (buf ++ c)
  · rw [push_none hnone, push, push, List.append_assoc]
    rfl
  · rw [push_last hall htail]
    have hwhole : buf ++ (c ++ d) = front ++ lineFeed :: (tail ++ d) := by
      rw [← List.append_assoc, hall, List.append_assoc, List.cons_append]
    obtain hnone | ⟨more, last, hmore, hlast⟩ := @UnixPath.exists_last_part _ _ lineFeed (tail ++ d)
    · rw [push_none hnone, push_last hwhole hnone, List.append_nil]
    · rw [hmore] at hwhole
      have hall' : buf ++ (c ++ d) = (front ++ lineFeed :: more) ++ lineFeed :: last := by
        rw [hwhole, List.append_assoc, List.cons_append]
      rw [push_last hmore hlast, push_last hall' hlast, fromUtf8Lossy_cut, List.splitOn_append_cons_self]

end Pushing

section Reading

variable {V : Type} (parse : String → Option (StreamChunk V)) (parseBody : String → Except String (ChatResponse V))

theorem foldlM_readChunk (chunks : List (List UInt8)) :
    (chunks.map Except.ok).foldlM (readChunk parse) ({}, []) =
      .ok ((push [] chunks.flatten).1.foldl (readLine parse ['\n']) {}, (push [] chunks.flatten).2) := by
  induction chunks using List.reverseRecOn with
  | nil => rfl
  | append_singleton chunks c ih =>
    rw [List.map_append, List.foldlM_append, ih, List.flatten_append, List.flatten_singleton, push_append,
      List.foldl_append]
    rfl

theorem consumeChatCompletion_flatten {chunks chunks' : List (List UInt8)} (h : chunks.flatten = chunks'.flatten) :
    consumeChatCompletion parse parseBody (chunks.map .ok) =
      consumeChatCompletion parse parseBody (chunks'.map .ok) := by
  rw [consumeChatCompletion, consumeChatCompletion, foldlM_readChunk, foldlM_readChunk, h]

end Reading

end Cosmon.Provider
