import Cosmon.Provider.Streaming

namespace Cosmon.Provider

open Cosmon.Harness.OpenAI Cosmon.Lib Cosmon.Lib.Buckets Cosmon.Lib.Text

section Frames

variable {V : Type} (parse : String → Option (StreamChunk V))

def payloadOf (line : List Char) : Option (List Char) :=
  (stripPrefix "data:".toList (trimEndMatches '\r' line)).map trim

def frameOf (line : List Char) : Option (StreamChunk V) :=
  (payloadOf line).bind fun payload =>
    if payload = [] ∨ payload = "[DONE]".toList then none else parse (String.ofList payload)

def framesOf (lines : List (List Char)) : List (StreamChunk V) := lines.filterMap (frameOf parse)

def choicesOf (frames : List (StreamChunk V)) : List StreamChoice := frames.flatMap (·.choices)

def texts (frames : List (StreamChunk V)) : List String := (choicesOf frames).filterMap (·.delta.content)

def fragments (frames : List (StreamChunk V)) : List StreamToolCallDelta :=
  (choicesOf frames).flatMap (·.delta.toolCalls.getD [])

def fragmentsAt (i : Nat) (frames : List (StreamChunk V)) : List StreamToolCallDelta :=
  (fragments frames).filter fun tc => position tc = i

def accumulate (lines : List (List Char)) : StreamAccumulator V :=
  lines.foldl (fun acc line => (ingestSseLine parse acc line).2) {}

variable {parse}

theorem foldl_ingestChoice_content (choices : List StreamChoice) (acc : StreamAccumulator V) :
    (choices.foldl ingestChoice acc).content = (choices.filterMap (·.delta.content)).foldl (· ++ ·) acc.content := by
  induction choices generalizing acc with
  | nil => rfl
  | cons choice rest ih =>
    rw [List.foldl_cons, ih, List.filterMap_cons, ingestChoice]
    cases choice.delta.content with
    | none => exact congrArg (List.foldl _ · _) String.append_empty
    | some text => rfl

theorem foldl_ingestChoice_toolCalls (choices : List StreamChoice) (acc : StreamAccumulator V) :
    (choices.foldl ingestChoice acc).toolCalls =
      (choices.flatMap (·.delta.toolCalls.getD [])).foldl (put position addFragment {}) acc.toolCalls := by
  induction choices generalizing acc with
  | nil => rfl
  | cons choice rest ih =>
    rw [List.foldl_cons, ih, List.flatMap_cons, List.foldl_append]
    rfl

theorem ingest_choices (acc : StreamAccumulator V) (line : List Char) :
    ∃ acc', (ingestSseLine parse acc line).2 =
        (((frameOf parse line).map (·.choices)).getD []).foldl ingestChoice acc' ∧
      acc'.content = acc.content ∧ acc'.toolCalls = acc.toolCalls ∧ acc'.finishReason = acc.finishReason := by
  unfold ingestSseLine frameOf payloadOf
  cases stripPrefix "data:".toList (trimEndMatches '\r' line) with
  | none => exact ⟨acc, rfl, rfl, rfl, rfl⟩
  | some rest =>
    dsimp only [Option.map, Option.bind]
    by_cases hblank : trim rest = []
    · rw [if_pos hblank, if_pos (Or.inl hblank)]
      exact ⟨acc, rfl, rfl, rfl, rfl⟩
    · rw [if_neg hblank]
      by_cases hdone : trim rest = "[DONE]".toList
      · rw [if_pos hdone, if_pos (Or.inr hdone)]
        exact ⟨_, rfl, rfl, rfl, rfl⟩
      · rw [if_neg hdone, if_neg (not_or.mpr ⟨hblank, hdone⟩)]
        cases parse (String.ofList (trim rest)) with
        | none => exact ⟨_, rfl, rfl, rfl, rfl⟩
        | some chunk => exact ⟨_, rfl, rfl, rfl, rfl⟩

theorem choicesOf_concat (lines : List (List Char)) (line : List Char) :
    choicesOf (framesOf parse (lines ++ [line])) =
      choicesOf (framesOf parse lines) ++ ((frameOf parse line).map (·.choices)).getD [] := by
  rw [framesOf, List.filterMap_append, choicesOf, List.flatMap_append]
  refine congrArg _ ?_
  cases h : frameOf parse line with
  | none => rw [List.filterMap_cons_none h]; rfl
  | some chunk => rw [List.filterMap_cons_some h]; exact List.append_nil _

theorem accumulate_concat (lines : List (List Char)) (line : List Char) :
    accumulate parse (lines ++ [line]) = (ingestSseLine parse (accumulate parse lines) line).2 := List.foldl_concat ..

theorem accumulate_content (lines : List (List Char)) :
    (accumulate parse lines).content = String.join (texts (framesOf parse lines)) := by
  induction lines using List.reverseRecOn with
  | nil => rfl
  | append_singleton lines line ih =>
    obtain ⟨acc, hacc, hcontent, -, -⟩ := @ingest_choices _ parse (accumulate parse lines) line
    rw [accumulate_concat, hacc, foldl_ingestChoice_content, hcontent, ih, texts, texts, choicesOf_concat,
      List.filterMap_append, String.join, String.join, List.foldl_append]

theorem accumulate_toolCalls (lines : List (List Char)) :
    (accumulate parse lines).toolCalls = buckets position addFragment {} (fragments (framesOf parse lines)) := by
  induction lines using List.reverseRecOn with
  | nil => rfl
  | append_singleton lines line ih =>
    obtain ⟨acc, hacc, -, hcalls, -⟩ := @ingest_choices _ parse (accumulate parse lines) line
    rw [accumulate_concat, hacc, foldl_ingestChoice_toolCalls, hcalls, ih, fragments, fragments, choicesOf_concat,
      List.flatMap_append, buckets, buckets, List.foldl_append]

end Frames

section Independence

variable {V : Type} (parse : String → Option (StreamChunk V)) (parseBody : String → Except String (ChatResponse V))

def callAt (i : Nat) (acc : StreamAccumulator V) : Option WireToolCall :=
  (Keyed.get Prod.fst i acc.toolCalls).map wireCall

/-- How a response is cut does not show, nor how the pieces of its calls are interleaved: the text is
that of the pieces in their order, each call comes from the pieces with its index alone, and the calls
stand in the order of their indices. -/
structure Independent : Prop where
  cuts : ∀ chunks chunks' : List (List UInt8), chunks.flatten = chunks'.flatten →
    consumeChatCompletion parse parseBody (chunks.map .ok) = consumeChatCompletion parse parseBody (chunks'.map .ok)
  content : ∀ lines, (accumulate parse lines).content = String.join (texts (framesOf parse lines))
  call : ∀ lines lines' i, fragmentsAt i (framesOf parse lines) = fragmentsAt i (framesOf parse lines') →
    callAt i (accumulate parse lines) = callAt i (accumulate parse lines')
  interleaved : ∀ lines lines',
    (∀ i, fragmentsAt i (framesOf parse lines) = fragmentsAt i (framesOf parse lines')) →
    (finish (accumulate parse lines)).wireCalls = (finish (accumulate parse lines')).wireCalls
  ordered : ∀ lines, ((accumulate parse lines).toolCalls.map Prod.fst).Pairwise (· < ·) ∧
    (finish (accumulate parse lines)).wireCalls.map some =
      ((accumulate parse lines).toolCalls.map Prod.fst).map fun i => callAt i (accumulate parse lines)

theorem independent : Independent parse parseBody := by
  refine ⟨fun chunks chunks' h => consumeChatCompletion_flatten parse parseBody h, accumulate_content, ?_, ?_, ?_⟩
  · intro lines lines' i h
    rw [callAt, callAt, accumulate_toolCalls, accumulate_toolCalls, get_buckets, get_buckets]
    change (if fragmentsAt i _ = [] then none else some (i, (fragmentsAt i _).foldl _ _)).map wireCall = _
    rw [h]
    rfl
  · intro lines lines' h
    have hcalls : (accumulate parse lines).toolCalls = (accumulate parse lines').toolCalls := by
      rw [accumulate_toolCalls, accumulate_toolCalls, buckets_congr h]
    exact congrArg (List.map wireCall) hcalls
  · intro lines
    have hordered : Ordered Prod.fst (accumulate parse lines).toolCalls := by
      rw [accumulate_toolCalls]
      exact buckets_ordered _
    refine ⟨List.pairwise_map.mpr hordered, ?_⟩
    rw [finish, List.map_map, List.map_map]
    refine List.map_congr_left fun call hcall => ?_
    have hget := (Keyed.get_iff hordered.nodup).mpr ⟨hcall, rfl⟩
    rw [Function.comp_apply, Function.comp_apply, callAt, hget, Option.map_some]

end Independence

end Cosmon.Provider
