import Cosmon.Lib.TextLines
import Cosmon.Provider.StreamedCalls

namespace Cosmon.Provider

open Cosmon.Harness Cosmon.Lib Cosmon.Lib.Buckets Cosmon.Lib.Text Cosmon.Lib.TextLines

section Pieces

def idsOf (pieces : List StreamToolCallDelta) : List String := pieces.filterMap fun tc => tc.id.filter (· ≠ "")

def namesOf (pieces : List StreamToolCallDelta) : List String :=
  pieces.filterMap fun tc => (tc.function.bind (·.name)).filter (· ≠ "")

def argumentsOf (pieces : List StreamToolCallDelta) : List String :=
  pieces.filterMap fun tc => tc.function.bind (·.arguments)

theorem getLast?_filterMap_concat {α β : Type} (f : α → Option β) (xs : List α) (x : α) :
    ((xs ++ [x]).filterMap f).getLast? = (f x).or (xs.filterMap f).getLast? := by
  rw [List.filterMap_append, List.getLast?_append, List.filterMap_cons, List.filterMap_nil]
  cases f x <;> rfl

theorem join_filterMap_concat {α : Type} (f : α → Option String) (xs : List α) (x : α) :
    String.join ((xs ++ [x]).filterMap f) = String.join (xs.filterMap f) ++ (f x).getD "" := by
  rw [List.filterMap_append, List.filterMap_cons, List.filterMap_nil, String.join, List.foldl_append]
  cases f x with
  | none => exact String.append_empty.symm
  | some text => rfl

theorem foldl_addFragment (pieces : List StreamToolCallDelta) : pieces.foldl addFragment {} =
    ⟨(idsOf pieces).getLast?, (namesOf pieces).getLast?.getD "", String.join (argumentsOf pieces)⟩ := by
  induction pieces using List.reverseRecOn with
  | nil => rfl
  | append_singleton pieces tc ih =>
    have hids : (idsOf (pieces ++ [tc])).getLast? = (tc.id.filter (· ≠ "")).or (idsOf pieces).getLast? :=
      getLast?_filterMap_concat _ pieces tc
    have hnames : (namesOf (pieces ++ [tc])).getLast? =
        ((tc.function.bind (·.name)).filter (· ≠ "")).or (namesOf pieces).getLast? :=
      getLast?_filterMap_concat _ pieces tc
    have hargs : String.join (argumentsOf (pieces ++ [tc])) =
        String.join (argumentsOf pieces) ++ (tc.function.bind (·.arguments)).getD "" :=
      join_filterMap_concat _ pieces tc
    rw [List.foldl_concat, ih, hids, hnames, hargs, Option.getD_or]
    rfl

theorem idsOf_ne_empty {pieces : List StreamToolCallDelta} {id : String} (h : id ∈ idsOf pieces) : id ≠ "" := by
  obtain ⟨tc, -, htc⟩ := List.mem_filterMap.mp h
  exact of_decide_eq_true (Option.filter_eq_some_iff.mp htc).2

theorem namesOf_ne_empty {pieces : List StreamToolCallDelta} {name : String} (h : name ∈ namesOf pieces) :
    name ≠ "" := by
  obtain ⟨tc, -, htc⟩ := List.mem_filterMap.mp h
  exact of_decide_eq_true (Option.filter_eq_some_iff.mp htc).2

end Pieces

section Ends

variable {V : Type} (parse : String → Option (StreamChunk V))

def Garbled (line : List Char) : Prop :=
  ∃ payload, payloadOf line = some payload ∧ payload ≠ [] ∧ payload ≠ "[DONE]".toList ∧
    parse (String.ofList payload) = none

def EndsStream (line : List Char) : Prop := payloadOf line = some "[DONE]".toList

def reasons (frames : List (StreamChunk V)) : List String := (choicesOf frames).filterMap (·.finishReason)

variable {parse}

theorem foldl_ingestChoice_reason (choices : List StreamChoice) (acc : StreamAccumulator V) :
    (choices.foldl ingestChoice acc).finishReason =
      (choices.filterMap (·.finishReason)).getLast?.or acc.finishReason := by
  induction choices using List.reverseRecOn with
  | nil => rfl
  | append_singleton choices choice ih =>
    rw [List.foldl_concat, ingestChoice, ih, getLast?_filterMap_concat, Option.or_assoc]

theorem accumulate_reason (lines : List (List Char)) :
    (accumulate parse lines).finishReason = (reasons (framesOf parse lines)).getLast? := by
  induction lines using List.reverseRecOn with
  | nil => rfl
  | append_singleton lines line ih =>
    obtain ⟨acc, hacc, -, -, hreason⟩ := @ingest_choices _ parse (accumulate parse lines) line
    rw [accumulate_concat, hacc, foldl_ingestChoice_reason, hreason, ih, reasons, reasons, choicesOf_concat,
      List.filterMap_append, List.getLast?_append]

theorem foldl_ingestChoice_flags (choices : List StreamChoice) (acc : StreamAccumulator V) :
    (choices.foldl ingestChoice acc).malformedData = acc.malformedData ∧
      (choices.foldl ingestChoice acc).sawDone = acc.sawDone := by
  induction choices generalizing acc with
  | nil => exact ⟨rfl, rfl⟩
  | cons choice rest ih => exact ih (ingestChoice acc choice)

theorem ingest_flags (acc : StreamAccumulator V) (line : List Char) :
    ((ingestSseLine parse acc line).2.malformedData = true ↔ acc.malformedData = true ∨ Garbled parse line) ∧
      ((ingestSseLine parse acc line).2.sawDone = true ↔ acc.sawDone = true ∨ EndsStream line) := by
  unfold ingestSseLine Garbled EndsStream payloadOf
  cases stripPrefix "data:".toList (trimEndMatches '\r' line) with
  | none => simp
  | some rest =>
    dsimp only [Option.map]
    have hmarker : "[DONE]".toList ≠ [] := by decide
    generalize "[DONE]".toList = marker at hmarker ⊢
    by_cases hblank : trim rest = []
    · rw [if_pos hblank, hblank]
      simp [Ne.symm hmarker]
    · rw [if_neg hblank]
      by_cases hdone : trim rest = marker
      · rw [if_pos hdone, hdone]
        simp
      · rw [if_neg hdone]
        cases hparse : parse (String.ofList (trim rest)) with
        | none => simp [hblank, hdone, hparse]
        | some chunk =>
          obtain ⟨hmalformed, hsaw⟩ := foldl_ingestChoice_flags chunk.choices
            { acc with usage := chunk.usage.or acc.usage, responseId := acc.responseId.or (chunk.id.filter (· ≠ "")) }
          dsimp only [ingestChunk]
          rw [hmalformed, hsaw]
          simp [hblank, hdone, hparse]

theorem accumulate_flags (lines : List (List Char)) :
    ((accumulate parse lines).malformedData = true ↔ ∃ line ∈ lines, Garbled parse line) ∧
      ((accumulate parse lines).sawDone = true ↔ ∃ line ∈ lines, EndsStream line) := by
  induction lines using List.reverseRecOn with
  | nil => exact ⟨iff_of_false nofun (by simp), iff_of_false nofun (by simp)⟩
  | append_singleton lines line ih =>
    obtain ⟨hmalformed, hdone⟩ := @ingest_flags _ parse (accumulate parse lines) line
    rw [accumulate_concat, hmalformed, hdone, ih.1, ih.2]
    simp only [List.mem_append, List.mem_singleton, or_and_right, exists_or, exists_eq_left, and_self]

end Ends

section Turns

variable {V : Type} (parse : String → Option (StreamChunk V)) (lines : List (List Char))

/-- A stream that ends as a turn should: each of its frames can be read, each call has an id and a name, and
the last reason is one of a turn that is complete, or there is none and the end of the stream was marked. -/
structure Complete : Prop where
  readable : ∀ line ∈ lines, ¬ Garbled parse line
  named : ∀ i, fragmentsAt i (framesOf parse lines) ≠ [] →
    idsOf (fragmentsAt i (framesOf parse lines)) ≠ [] ∧ namesOf (fragmentsAt i (framesOf parse lines)) ≠ []
  ended : (∃ reason, (reasons (framesOf parse lines)).getLast? = some reason ∧
      mapOpenaiFinishReason reason = .normal) ∨
    reasons (framesOf parse lines) = [] ∧ ∃ line ∈ lines, EndsStream line

variable {parse lines}

theorem mem_toolCalls {i : Nat} {buf : ToolCallBuf} : (i, buf) ∈ (accumulate parse lines).toolCalls ↔
    fragmentsAt i (framesOf parse lines) ≠ [] ∧ buf = ⟨(idsOf (fragmentsAt i (framesOf parse lines))).getLast?,
      (namesOf (fragmentsAt i (framesOf parse lines))).getLast?.getD "",
      String.join (argumentsOf (fragmentsAt i (framesOf parse lines)))⟩ := by
  rw [accumulate_toolCalls, mem_buckets, ← foldl_addFragment]
  exact Iff.rfl

theorem incompleteTool_iff (pieces : List StreamToolCallDelta) (args : String) :
    incompleteTool ⟨(idsOf pieces).getLast?, (namesOf pieces).getLast?.getD "", args⟩ = true ↔
      idsOf pieces = [] ∨ namesOf pieces = [] := by
  rw [incompleteTool, Bool.or_eq_true, decide_eq_true_eq]
  refine or_congr ?_ ?_
  · cases hid : (idsOf pieces).getLast? with
    | none => exact iff_of_true rfl (List.getLast?_eq_none_iff.mp hid)
    | some id =>
      have hmem := List.mem_of_getLast? hid
      rw [Option.all_some, decide_eq_true_eq]
      exact iff_of_false (idsOf_ne_empty hmem) (List.ne_nil_of_mem hmem)
  · cases hname : (namesOf pieces).getLast? with
    | none => exact iff_of_true rfl (List.getLast?_eq_none_iff.mp hname)
    | some name =>
      have hmem := List.mem_of_getLast? hname
      exact iff_of_false (namesOf_ne_empty hmem) (List.ne_nil_of_mem hmem)

theorem any_incomplete : (accumulate parse lines).toolCalls.any (fun call => incompleteTool call.2) = true ↔
    ∃ i, fragmentsAt i (framesOf parse lines) ≠ [] ∧ (idsOf (fragmentsAt i (framesOf parse lines)) = [] ∨
      namesOf (fragmentsAt i (framesOf parse lines)) = []) := by
  rw [List.any_eq_true]
  constructor
  · rintro ⟨⟨i, buf⟩, hmem, hincomplete⟩
    obtain ⟨hne, rfl⟩ := mem_toolCalls.mp hmem
    exact ⟨i, hne, (incompleteTool_iff _ _).mp hincomplete⟩
  · rintro ⟨i, hne, hmissing⟩
    exact ⟨(i, _), mem_toolCalls.mpr ⟨hne, rfl⟩, (incompleteTool_iff _ _).mpr hmissing⟩

theorem finish_normal : (finish (accumulate parse lines)).disposition = .normal ↔ Complete parse lines := by
  obtain ⟨hmalformed, hdone⟩ := @accumulate_flags _ parse lines
  rw [finish, accumulate_reason]
  dsimp only
  by_cases hbad : (accumulate parse lines).malformedData = true ∨
      (accumulate parse lines).toolCalls.any (fun call => incompleteTool call.2) = true
  · rw [if_pos hbad]
    rw [hmalformed, any_incomplete] at hbad
    refine iff_of_false (by rintro ⟨⟩) fun h => ?_
    obtain ⟨line, hline, hgarbled⟩ | ⟨i, hne, hmissing⟩ := hbad
    · exact h.readable line hline hgarbled
    · exact hmissing.elim (h.named i hne).1 (h.named i hne).2
  · rw [if_neg hbad]
    rw [hmalformed, any_incomplete, not_or] at hbad
    have hreadable : ∀ line ∈ lines, ¬ Garbled parse line := fun line hline hgarbled =>
      hbad.1 ⟨line, hline, hgarbled⟩
    have hnamed : ∀ i, fragmentsAt i (framesOf parse lines) ≠ [] →
        idsOf (fragmentsAt i (framesOf parse lines)) ≠ [] ∧
          namesOf (fragmentsAt i (framesOf parse lines)) ≠ [] := by
      intro i hne
      exact ⟨fun hnone => hbad.2 ⟨i, hne, Or.inl hnone⟩, fun hnone => hbad.2 ⟨i, hne, Or.inr hnone⟩⟩
    cases hlast : (reasons (framesOf parse lines)).getLast? with
    | some reason =>
      have hne : reasons (framesOf parse lines) ≠ [] := List.ne_nil_of_mem (List.mem_of_getLast? hlast)
      constructor
      · intro hnormal
        exact ⟨hreadable, hnamed, Or.inl ⟨reason, hlast, hnormal⟩⟩
      · intro h
        obtain ⟨last, heq, hnormal⟩ | ⟨hnone, -⟩ := h.ended
        · obtain rfl := Option.some.inj (hlast.symm.trans heq)
          exact hnormal
        · exact absurd hnone hne
    | none =>
      have hnone := List.getLast?_eq_none_iff.mp hlast
      have hnormal : (if (accumulate parse lines).sawDone = true then TerminalDisposition.normal else .incomplete) =
          .normal ↔ ∃ line ∈ lines, EndsStream line := by
        rw [← hdone]
        split_ifs with hsaw
        · exact iff_of_true rfl hsaw
        · exact iff_of_false (by rintro ⟨⟩) hsaw
      dsimp only
      rw [hnormal]
      constructor
      · intro hends
        exact ⟨hreadable, hnamed, Or.inr ⟨hnone, hends⟩⟩
      · intro h
        obtain ⟨last, heq, -⟩ | ⟨-, hends⟩ := h.ended
        · cases hlast.symm.trans heq
        · exact hends

variable (parse lines)

/-- Where a turn is taken for complete, an id tells which call a result belongs to, and what the calls
were given is handed on. -/
structure Unambiguous : Prop where
  ids : (finish (accumulate parse lines)).disposition = .normal →
    ((finish (accumulate parse lines)).wireCalls.map (·.id)).Nodup
  named : (finish (accumulate parse lines)).disposition = .normal →
    ∀ c ∈ (finish (accumulate parse lines)).wireCalls, c.id ≠ "" ∧ c.name ≠ ""
  arguments : (finish (accumulate parse lines)).disposition = .normal →
    ∀ i c, callAt i (accumulate parse lines) = some c →
      trim (String.join (argumentsOf (fragmentsAt i (framesOf parse lines)))).toList ≠ [] →
      c.arguments = String.join (argumentsOf (fragmentsAt i (framesOf parse lines)))

def SingleIds (frames : List (StreamChunk V)) : Prop :=
  ∀ i j, fragmentsAt i frames ≠ [] → fragmentsAt j frames ≠ [] →
    (idsOf (fragmentsAt i frames)).getLast? = (idsOf (fragmentsAt j frames)).getLast? → i = j

variable {parse lines}

theorem Complete.call (h : Complete parse lines) {i : Nat} {buf : ToolCallBuf}
    (hmem : (i, buf) ∈ (accumulate parse lines).toolCalls) :
    (idsOf (fragmentsAt i (framesOf parse lines))).getLast? = some (wireCall (i, buf)).id ∧
      (wireCall (i, buf)).id ≠ "" ∧ (wireCall (i, buf)).name ≠ "" := by
  obtain ⟨hne, rfl⟩ := mem_toolCalls.mp hmem
  obtain ⟨hids, hnames⟩ := h.named i hne
  have hid := List.getLast?_eq_some_getLast hids
  have hname := List.getLast?_eq_some_getLast hnames
  rw [wireCall, hid, hname]
  exact ⟨rfl, idsOf_ne_empty (List.getLast_mem hids), namesOf_ne_empty (List.getLast_mem hnames)⟩

theorem Complete.nodup_iff (h : Complete parse lines) :
    ((finish (accumulate parse lines)).wireCalls.map (·.id)).Nodup ↔ SingleIds (framesOf parse lines) := by
  have hordered : (accumulate parse lines).toolCalls.Nodup := by
    rw [accumulate_toolCalls]
    exact List.Nodup.of_map _ (buckets_ordered _).nodup
  rw [finish, List.map_map, List.nodup_map_iff_inj_on hordered]
  constructor
  · intro hinj i j hi hj hsame
    have hmemi := mem_toolCalls.mpr ⟨hi, rfl⟩
    have hmemj := mem_toolCalls.mpr ⟨hj, rfl⟩
    rw [(h.call hmemi).1, (h.call hmemj).1] at hsame
    exact congrArg Prod.fst (hinj _ hmemi _ hmemj (Option.some.inj hsame))
  · rintro hsingle ⟨i, buf⟩ hi ⟨j, buf'⟩ hj hsame
    obtain ⟨hnei, rfl⟩ := mem_toolCalls.mp hi
    obtain ⟨hnej, rfl⟩ := mem_toolCalls.mp hj
    obtain rfl := hsingle i j hnei hnej (by rw [(h.call hi).1, (h.call hj).1]; exact congrArg some hsame)
    rfl

theorem finalizeStreamedArgs_of_ne {raw : String} (h : trim raw.toList ≠ []) : finalizeStreamedArgs raw = raw := by
  rw [finalizeStreamedArgs, if_neg h]

/-- The calls of a turn can be told apart exactly if, where the stream is complete, no two indices end
up with one id. -/
theorem unambiguous_iff (parse : String → Option (StreamChunk V)) (lines : List (List Char)) :
    Unambiguous parse lines ↔ (Complete parse lines → SingleIds (framesOf parse lines)) := by
  constructor
  · intro h hcomplete
    exact hcomplete.nodup_iff.mp (h.ids (finish_normal.mpr hcomplete))
  · intro hsingle
    refine ⟨fun hnormal => ?_, fun hnormal c hc => ?_, fun _ i c hc hblank => ?_⟩
    · have hcomplete := finish_normal.mp hnormal
      exact hcomplete.nodup_iff.mpr (hsingle hcomplete)
    · obtain ⟨⟨i, buf⟩, hmem, rfl⟩ := List.mem_map.mp hc
      exact ((finish_normal.mp hnormal).call hmem).2
    · obtain ⟨⟨j, buf⟩, hget, rfl⟩ := Option.map_eq_some_iff.mp hc
      obtain ⟨hmem, rfl⟩ := Keyed.get_mem hget
      obtain ⟨-, rfl⟩ := mem_toolCalls.mp hmem
      rw [wireCall, finalizeStreamedArgs_of_ne hblank]

end Turns

def twinText : String :=
  "\x7b\"choices\":[\x7b\"delta\":\x7b\"tool_calls\":[" ++
    "\x7b\"index\":0,\"id\":\"call-1\",\"function\":\x7b\"name\":\"read_file\",\"arguments\":\"1\"\x7d\x7d," ++
    "\x7b\"index\":1,\"id\":\"call-1\",\"function\":\x7b\"name\":\"edit_file\",\"arguments\":\"2\"\x7d\x7d]" ++
    "\x7d,\"finish_reason\":\"tool_calls\"\x7d]\x7d"

def twinFrame : StreamChunk Unit where
  choices := [⟨⟨none, some [⟨some 0, some "call-1", some ⟨some "read_file", some "1"⟩⟩,
    ⟨some 1, some "call-1", some ⟨some "edit_file", some "2"⟩⟩]⟩, some "tool_calls"⟩]

def twinParse (text : String) : Option (StreamChunk Unit) := if text = twinText then some twinFrame else none

theorem ingestSseLine_frame {parse : String → Option (StreamChunk V)} {acc : StreamAccumulator V}
    {line rest payload : List Char} {chunk : StreamChunk V} (hkept : trimEndMatches '\r' line = line)
    (hstrip : stripPrefix "data:".toList line = some rest) (htrim : trim rest = payload) (hsome : payload ≠ [])
    (hdone : payload ≠ "[DONE]".toList) (hparse : parse (String.ofList payload) = some chunk) :
    ingestSseLine parse acc line = (true, ingestChunk acc chunk) := by
  rw [ingestSseLine, hkept, hstrip]
  dsimp only
  rw [htrim, if_neg hsome, if_neg hdone, hparse]

theorem twinText_head : twinText.toList.head? = some '\x7b' := by
  delta twinText
  simp only [String.toList_append]
  rw [String.toList_ofList]
  rfl

theorem twinText_last : twinText.toList.getLast? = some '\x7d' := by
  delta twinText
  rw [String.toList_append, List.getLast?_append, String.toList_ofList]
  rfl

theorem twin_line : ingestSseLine twinParse {} ("data: ".toList ++ twinText.toList) =
    (true, ingestChunk {} twinFrame) := by
  have hkept : trimEndMatches '\r' ("data: ".toList ++ twinText.toList) = "data: ".toList ++ twinText.toList := by
    obtain ⟨body, hbody⟩ := List.getLast?_eq_some_iff.mp twinText_last
    rw [hbody, ← List.append_assoc, trimEndMatches, List.reverse_append, List.reverse_singleton, List.singleton_append,
      List.dropWhile_cons_of_neg (by decide), List.reverse_cons, List.reverse_reverse]
  have htrim : trim (' ' :: twinText.toList) = twinText.toList := by
    rw [trim_cons (by decide)]
    exact trim_fixed (by simp [twinText_head, isWhiteSpace]) (by simp [twinText_last, isWhiteSpace])
  have hpayload : twinText.toList ≠ [] ∧ twinText.toList ≠ "[DONE]".toList :=
    ⟨fun h => by simpa [h] using twinText_head, fun h => by simpa [h] using twinText_head⟩
  have hstrip : stripPrefix "data:".toList ("data: ".toList ++ twinText.toList) = some (' ' :: twinText.toList) := by
    simp [stripPrefix]
  have hparse : twinParse (String.ofList twinText.toList) = some twinFrame := by
    rw [String.ofList_toList, twinParse, if_pos rfl]
  exact ingestSseLine_frame hkept hstrip htrim hpayload.1 hpayload.2 hparse

/-- A turn that is taken for complete hands on two calls of one id. -/
theorem unambiguous_twins : ¬ Unambiguous twinParse ["data: ".toList ++ twinText.toList] := by
  intro h
  have hread : accumulate twinParse ["data: ".toList ++ twinText.toList] = ingestChunk {} twinFrame := by
    rw [accumulate, List.foldl_cons, List.foldl_nil, twin_line]
  have hturn : finish (ingestChunk ({} : StreamAccumulator Unit) twinFrame) =
      ⟨none, [⟨"call-1", "read_file", "1"⟩, ⟨"call-1", "edit_file", "2"⟩], .normal⟩ := by
    simp [finish, ingestChunk, ingestChoice, twinFrame, put, Keyed.insert, Keyed.get, position, addFragment,
      wireCall, incompleteTool, mapOpenaiFinishReason, finalizeStreamedArgs, trim, isWhiteSpace,
      Option.filter]
  have hids := h.ids (by rw [hread, hturn])
  rw [hread, hturn] at hids
  exact absurd hids (by simp)

end Cosmon.Provider
