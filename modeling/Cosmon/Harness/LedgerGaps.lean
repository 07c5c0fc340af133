import Cosmon.Harness.Resume
import Cosmon.Lib.Checks
import Mathlib.Data.List.Count

namespace Cosmon.Harness.LedgerGaps

open Cosmon.Lib Cosmon.Lib.Checks Cosmon.Core.HarnessTurn

abbrev CallKey := Nat × String

def isIntent (key : CallKey) : TurnRecord → Bool
  | .toolIntent turn callId _ _ _ => turn = key.1 ∧ callId = key.2
  | _ => false

def isReceipt (key : CallKey) : TurnRecord → Bool
  | .toolReceipt turn callId _ _ _ => turn = key.1 ∧ callId = key.2
  | _ => false

def namedCalls : TurnRecord → List CallKey
  | .assistantReceived turn calls _ _ => calls.map fun c => (turn, c.callId)
  | _ => []

def boundary : TurnRecord → Option CheckpointRef
  | .checkpoint turn log toolsSpent => some ⟨turn, log, toolsSpent⟩
  | .resumed _ checkpointTurn log toolsSpent _ _ => some ⟨checkpointTurn, some log, toolsSpent⟩
  | _ => none

def assistantTurn : TurnRecord → Option Nat
  | .assistantReceived turn _ _ _ => some turn
  | _ => none

def resumedTurn : TurnRecord → Option Nat
  | .resumed _ checkpointTurn _ _ _ _ => some checkpointTurn
  | _ => none

def EndsAt (records before : List TurnRecord) (checkpoint : CheckpointRef) (after : List TurnRecord) : Prop :=
  ∃ last, records = before ++ last :: after ∧ boundary last = some checkpoint ∧ ∀ r ∈ after, boundary r = none

/-- Each named call has one intent and one receipt, both before the checkpoint that the plan
restores, and that is the one of the last response, or the one resumed from. -/
def Complete (records : List TurnRecord) (plan : ResumePlan) : Prop :=
  ∃ before checkpoint after, EndsAt records before checkpoint after ∧
    checkpoint.turn = plan.checkpointTurn ∧ checkpoint.log = some plan.log ∧
    (∀ key ∈ records.flatMap namedCalls,
      records.countP (isIntent key) = 1 ∧ before.countP (isIntent key) = 1 ∧
      records.countP (isReceipt key) = 1 ∧ before.countP (isReceipt key) = 1) ∧
    (∀ turn, (records.filterMap assistantTurn).getLast? = some turn → plan.checkpointTurn = turn) ∧
    ((records.filterMap assistantTurn).getLast? = none → plan.checkpointTurn ∈ records.filterMap resumedTurn)

/-- Each named call has one intent, no receipt comes after the last boundary, and the turn of
that one is not beyond the last response, or is the one resumed from. -/
def NoGap (records : List TurnRecord) : Prop :=
  ∃ before checkpoint after, EndsAt records before checkpoint after ∧
    (∀ key ∈ records.flatMap namedCalls, records.countP (isIntent key) = 1) ∧
    (∀ key, after.countP (isReceipt key) = 0) ∧
    (∀ turn, (records.filterMap assistantTurn).getLast? = some turn → checkpoint.turn ≤ turn) ∧
    ((records.filterMap assistantTurn).getLast? = none → checkpoint.turn ∈ records.filterMap resumedTurn)

section steps

def NamedCall.key (c : NamedCall) : CallKey := (c.turn, c.callId)

def openCall (f : Fold) (key : CallKey) : Option UnresolvedCall := Keyed.get UnresolvedCall.key (toLex key) f.intents

/-- What a record changes in the fold. -/
structure Applied (f : Fold) (r : TurnRecord) (f' : Fold) : Prop where
  named : f'.named.map NamedCall.key = f.named.map NamedCall.key ++ namedCalls r
  assistants : f'.out.assistants.map ReceivedAssistant.turn =
    f.out.assistants.map ReceivedAssistant.turn ++ (assistantTurn r).toList
  boundary : f'.out.lastCheckpoint = (boundary r).or f.out.lastCheckpoint
  intent : ∀ key, isIntent key r = true → key ∈ f.named.map NamedCall.key ∧ (openCall f' key).isSome
  receipt : ∀ key, isReceipt key r = true → (openCall f key).isSome ∧ openCall f' key = none
  other : ∀ key, isIntent key r = false → isReceipt key r = false → openCall f' key = openCall f key

theorem get_filter_ne {l : List UnresolvedCall} {k k' : Nat ×ₗ String} :
    Keyed.get UnresolvedCall.key k' (l.filter fun c => c.key ≠ k) =
      if k' = k then none else Keyed.get UnresolvedCall.key k' l := by
  split
  · rename_i h
    subst h
    rw [Keyed.get_none]
    intro hmem
    obtain ⟨c, hc, rfl⟩ := List.mem_map.mp hmem
    exact absurd rfl (of_decide_eq_true (List.mem_filter.mp hc).2)
  · rename_i h
    unfold Keyed.get
    rw [List.find?_filter]
    congr 1
    funext c
    by_cases hc : c.key = k'
    · simp [hc, h]
    · simp [hc]

theorem Applied.quiet {f f' : Fold} {r : TurnRecord} (hintents : f'.intents = f.intents)
    (hquiet : ∀ key, isIntent key r = false ∧ isReceipt key r = false)
    (hnamed : f'.named.map NamedCall.key = f.named.map NamedCall.key ++ namedCalls r)
    (hassistants : f'.out.assistants.map ReceivedAssistant.turn =
      f.out.assistants.map ReceivedAssistant.turn ++ (assistantTurn r).toList)
    (hboundary : f'.out.lastCheckpoint = (LedgerGaps.boundary r).or f.out.lastCheckpoint) : Applied f r f' where
  named := hnamed
  assistants := hassistants
  boundary := hboundary
  intent key h := absurd h (Bool.eq_false_iff.mp (hquiet key).1)
  receipt key h := absurd h (Bool.eq_false_iff.mp (hquiet key).2)
  other key _ _ := by rw [openCall, hintents, openCall]

theorem apply_intent {f f' : Fold} {turn : Nat} {callId tool : String} {digest : BlobDigest} {spent : Nat}
    (h : f.apply (.toolIntent turn callId tool digest spent) = .ok f') :
    Applied f (.toolIntent turn callId tool digest spent) f' := by
  simp only [Fold.apply] at h
  split_ifs at h with hnamed
  cases h
  obtain ⟨c, hc, hkey⟩ := List.any_eq_true.mp hnamed
  obtain ⟨rfl, rfl⟩ := of_decide_eq_true hkey
  have hopen : ∀ key, openCall { f with
        out := f.out.spend spent
        intents := Keyed.insert UnresolvedCall.key ⟨c.turn, c.callId, tool⟩ f.intents } key =
      if (c.turn, c.callId) = key then some ⟨c.turn, c.callId, tool⟩ else openCall f key :=
    fun key => Keyed.get_insert _ _ _
  have hiff : ∀ key : CallKey, isIntent key (.toolIntent c.turn c.callId tool digest spent) = true ↔
      (c.turn, c.callId) = key := by
    intro key
    rw [isIntent, decide_eq_true_eq, Prod.ext_iff]
  exact {
    named := (List.append_nil _).symm
    assistants := (List.append_nil _).symm
    boundary := rfl
    intent := fun key h => by
      obtain rfl := (hiff key).mp h
      refine ⟨List.mem_map.mpr ⟨c, hc, rfl⟩, ?_⟩
      rw [hopen, if_pos rfl]
      rfl
    receipt := fun key h => by cases h
    other := fun key h _ => by
      rw [hopen, if_neg fun heq => Bool.eq_false_iff.mp h ((hiff key).mpr heq)] }

theorem apply_receipt {f f' : Fold} {turn : Nat} {callId : String} {outcome : TurnToolOutcome}
    {result : Option BlobRef} {spent : Nat} (h : f.apply (.toolReceipt turn callId outcome result spent) = .ok f') :
    Applied f (.toolReceipt turn callId outcome result spent) f' := by
  simp only [Fold.apply] at h
  cases hget : Keyed.get UnresolvedCall.key (toLex (turn, callId)) f.intents with
  | none =>
    rw [hget] at h
    cases h
  | some call =>
    rw [hget] at h
    cases h
    have hiff : ∀ key : CallKey, isReceipt key (.toolReceipt turn callId outcome result spent) = true ↔
        (turn, callId) = key := by
      intro key
      rw [isReceipt, decide_eq_true_eq, Prod.ext_iff]
    exact {
      named := (List.append_nil _).symm
      assistants := (List.append_nil _).symm
      boundary := rfl
      intent := fun key h => by cases h
      receipt := fun key h => by
        obtain rfl := (hiff key).mp h
        refine ⟨?_, ?_⟩
        · rw [openCall, hget]
          rfl
        · exact get_filter_ne.trans (if_pos rfl)
      other := fun key _ h => by
        have hne : toLex key ≠ toLex (turn, callId) :=
          fun heq => Bool.eq_false_iff.mp h ((hiff key).mpr (toLex.injective heq).symm)
        exact get_filter_ne.trans (if_neg hne) }

theorem apply_applied {f f' : Fold} {r : TurnRecord} (h : f.apply r = .ok f') : Applied f r f' := by
  cases r with
  | toolIntent turn callId tool digest spent => exact apply_intent h
  | toolReceipt turn callId outcome result spent => exact apply_receipt h
  | attemptStarted limits pins =>
    simp only [Fold.apply] at h
    split_ifs at h
    cases h
    exact .quiet rfl (fun _ => ⟨rfl, rfl⟩) (List.append_nil _).symm (List.append_nil _).symm rfl
  | requestIntent turn estimated spent =>
    cases h
    exact .quiet rfl (fun _ => ⟨rfl, rfl⟩) (List.append_nil _).symm (List.append_nil _).symm rfl
  | inputsSelected turn inputs =>
    simp only [Fold.apply] at h
    split_ifs at h
    cases h
    exact .quiet rfl (fun _ => ⟨rfl, rfl⟩) (List.append_nil _).symm (List.append_nil _).symm rfl
  | requestFailed turn reason =>
    obtain ⟨openRequests, -, h⟩ := bind_ok h
    cases h
    exact .quiet rfl (fun _ => ⟨rfl, rfl⟩) (List.append_nil _).symm (List.append_nil _).symm rfl
  | compacted turn tokensBefore tokensAfter messagesRemoved =>
    cases h
    exact .quiet rfl (fun _ => ⟨rfl, rfl⟩) (List.append_nil _).symm (List.append_nil _).symm rfl
  | assistantReceived turn calls envelope spent =>
    obtain ⟨openRequests, -, h⟩ := bind_ok h
    cases h
    refine .quiet rfl (fun _ => ⟨rfl, rfl⟩) ?_ ?_ rfl
    · rw [List.map_append, List.map_map]
      rfl
    · rw [List.map_append]
      rfl
  | checkpoint turn log spent =>
    cases h
    exact .quiet rfl (fun _ => ⟨rfl, rfl⟩) (List.append_nil _).symm (List.append_nil _).symm rfl
  | resumed historyId turn log spent requests elapsed =>
    simp only [Fold.apply] at h
    split_ifs at h
    cases h
    exact .quiet rfl (fun _ => ⟨rfl, rfl⟩) (List.append_nil _).symm (List.append_nil _).symm rfl
  | terminal turn disposition partialText spent =>
    obtain ⟨openRequests, -, h⟩ := bind_ok h
    cases h
    exact .quiet rfl (fun _ => ⟨rfl, rfl⟩) (List.append_nil _).symm (List.append_nil _).symm rfl

end steps

section runs

/-- What the fold knows of one call: it answers each intent at most once, and leaves it open or answered. -/
structure CallKept (records : List TurnRecord) (f : Fold) (key : CallKey) : Prop where
  known : 0 < records.countP (isIntent key) → key ∈ records.flatMap namedCalls
  answered : records.countP (isReceipt key) ≤ records.countP (isIntent key)
  opened : (openCall f key).isSome → records.countP (isReceipt key) < records.countP (isIntent key)
  closed : openCall f key = none → 0 < records.countP (isIntent key) → 0 < records.countP (isReceipt key)

structure Tracks (records : List TurnRecord) (f : Fold) : Prop where
  named : f.named.map NamedCall.key = records.flatMap namedCalls
  assistants : f.out.assistants.map ReceivedAssistant.turn = records.filterMap assistantTurn
  boundary : f.out.lastCheckpoint = (records.filterMap LedgerGaps.boundary).getLast?
  calls : ∀ key, CallKept records f key

theorem countP_snoc (p : TurnRecord → Bool) (records : List TurnRecord) (r : TurnRecord) :
    (records ++ [r]).countP p = records.countP p + if p r = true then 1 else 0 := by
  rw [List.countP_append, List.countP_singleton]

theorem not_both (key : CallKey) (r : TurnRecord) (h : isIntent key r = true) : isReceipt key r = false := by
  cases r <;> first | rfl | cases h

theorem CallKept.step {records : List TurnRecord} {f f' : Fold} {r : TurnRecord} {key : CallKey}
    (h : CallKept records f key) (hnamed : f.named.map NamedCall.key = records.flatMap namedCalls)
    (happly : Applied f r f') : CallKept (records ++ [r]) f' key := by
  obtain ⟨hknown, hanswered, hopened, hclosed⟩ := h
  have hmore : key ∈ records.flatMap namedCalls → key ∈ (records ++ [r]).flatMap namedCalls := by
    rw [List.flatMap_append]
    exact List.mem_append_left _
  cases hintent : isIntent key r with
  | true =>
    obtain ⟨hin, hopen⟩ := happly.intent key hintent
    have hreceipt := not_both key r hintent
    constructor <;> simp only [countP_snoc, hintent, hreceipt, if_true, Bool.false_eq_true, if_false]
    · exact fun _ => hmore (hnamed ▸ hin)
    · omega
    · exact fun _ => by omega
    · intro hnone
      rw [hnone] at hopen
      cases hopen
  | false =>
    cases hreceipt : isReceipt key r with
    | true =>
      obtain ⟨hopen, hnone⟩ := happly.receipt key hreceipt
      have hlt := hopened hopen
      constructor <;> simp only [countP_snoc, hintent, hreceipt, if_true, Bool.false_eq_true, if_false]
      · exact fun hpos => hmore (hknown hpos)
      · omega
      · rw [hnone]
        exact fun h => by cases h
      · exact fun _ _ => Nat.succ_pos _
    | false =>
      have hsame := happly.other key hintent hreceipt
      constructor <;> simp only [countP_snoc, hintent, hreceipt, Bool.false_eq_true, if_false, Nat.add_zero, hsame]
      · exact fun hpos => hmore (hknown hpos)
      · exact hanswered
      · exact hopened
      · exact hclosed

theorem tracks_of_reads {records : List TurnRecord} {f : Fold} (h : records.foldlM Fold.apply {} = .ok f) :
    Tracks records f := by
  refine foldlM_ok (P := Tracks) ⟨rfl, rfl, rfl, fun key => ⟨?_, Nat.le_refl _, ?_, ?_⟩⟩ ?_ h
  · exact fun hpos => absurd hpos (Nat.lt_irrefl 0)
  · exact fun hopen => by cases hopen
  · exact fun _ hpos => absurd hpos (Nat.lt_irrefl 0)
  intro records f r f' htracks hstep
  obtain ⟨hnamed, hassistants, hboundary, hcalls⟩ := htracks
  have happly := apply_applied hstep
  refine ⟨?_, ?_, ?_, fun key => (hcalls key).step hnamed happly⟩
  · rw [happly.named, hnamed, List.flatMap_append, List.flatMap_singleton]
  · rw [happly.assistants, hassistants, List.filterMap_append]
    cases hr : assistantTurn r <;> simp [hr]
  · rw [happly.boundary, hboundary, List.filterMap_append]
    cases hr : LedgerGaps.boundary r <;> simp [hr]

variable {records before after : List TurnRecord} {checkpoint : CheckpointRef} {attempt : AttemptReconstruction}

theorem EndsAt.getLast? (h : EndsAt records before checkpoint after) :
    (records.filterMap boundary).getLast? = some checkpoint := by
  obtain ⟨last, rfl, hlast, hafter⟩ := h
  have hnone : after.filterMap boundary = [] := List.filterMap_eq_nil_iff.mpr hafter
  rw [List.filterMap_append, List.filterMap_cons, hlast, hnone]
  exact List.getLast?_concat

theorem EndsAt.countP_eq (h : EndsAt records before checkpoint after) {p : TurnRecord → Bool}
    (hp : ∀ r, p r = true → boundary r = none) : records.countP p = before.countP p + after.countP p := by
  obtain ⟨last, rfl, hlast, -⟩ := h
  have hfalse : ¬ p last = true := by
    intro htrue
    rw [hp last htrue] at hlast
    cases hlast
  rw [List.countP_append, List.countP_cons_of_neg hfalse]

theorem boundary_of_intent (key : CallKey) (r : TurnRecord) (h : isIntent key r = true) : boundary r = none := by
  cases r <;> first | rfl | cases h

theorem boundary_of_receipt (key : CallKey) (r : TurnRecord) (h : isReceipt key r = true) : boundary r = none := by
  cases r <;> first | rfl | cases h

theorem reads_before {f : Fold} (h : (before ++ after).foldlM Fold.apply {} = .ok f) :
    ∃ f', before.foldlM Fold.apply {} = .ok f' := by
  rw [List.foldlM_append] at h
  obtain ⟨f', hf', -⟩ := bind_ok h
  exact ⟨f', hf'⟩

/-- A plan restores a complete boundary exactly where the records have no gap that the fold passes over. -/
theorem complete_iff {historyId : String} {ownSpanSecs : Nat} {plan : ResumePlan}
    (hreads : reconstruct records = .ok attempt) (hplan : planResume historyId attempt ownSpanSecs = .ok plan) :
    Complete records plan ↔ NoGap records := by
  obtain ⟨f, hf, rfl⟩ := map_ok hreads
  obtain ⟨checkpoint, hcontinues⟩ := planResume_ok hplan
  have htracks := tracks_of_reads hf
  have hclosed : ∀ key, openCall f key = none := by
    intro key
    have hnil : f.intents = [] := hcontinues.calls
    rw [openCall, hnil]
    rfl
  have hlast : (records.filterMap boundary).getLast? = some checkpoint :=
    htracks.boundary.symm.trans hcontinues.lastCheckpoint
  constructor
  · rintro ⟨before, checkpoint', after, hends, hturn, -, hcalls, hsome, hnone⟩
    refine ⟨before, checkpoint', after, hends, fun key hkey => (hcalls key hkey).1, fun key => ?_,
      fun turn hlast' => ?_, fun hlast' => ?_⟩
    · by_contra hpos
      have hsplit := hends.countP_eq (boundary_of_receipt key)
      have hintents : 0 < records.countP (isIntent key) := by
        have hle := (htracks.calls key).answered
        omega
      obtain ⟨-, -, htotal, hbefore⟩ := hcalls key ((htracks.calls key).known hintents)
      omega
    · rw [hturn, hsome turn hlast']
    · rw [hturn]
      exact hnone hlast'
  · rintro ⟨before, checkpoint', after, hends, hintents, hreceipts, hsome, hnone⟩
    obtain rfl : checkpoint' = checkpoint := Option.some.inj (hends.getLast?.symm.trans hlast)
    refine ⟨before, checkpoint', after, hends, hcontinues.checkpointTurn.symm, hcontinues.log, fun key hkey => ?_,
      fun turn hlast' => ?_, fun hlast' => ?_⟩
    · have hone := hintents key hkey
      have hanswered := (htracks.calls key).answered
      have hpos := (htracks.calls key).closed (hclosed key) (by omega)
      have hsplit := hends.countP_eq (boundary_of_receipt key)
      have hsplit' := hends.countP_eq (boundary_of_intent key)
      have hafter := hreceipts key
      obtain ⟨last, rfl, -⟩ := hends
      obtain ⟨f', hf'⟩ := reads_before hf
      have hbefore := ((tracks_of_reads hf').calls key).answered
      exact ⟨hone, by omega, by omega, by omega⟩
    · have hmem : turn ∈ records.filterMap assistantTurn := List.mem_of_getLast? hlast'
      rw [← htracks.assistants] at hmem
      obtain ⟨a, ha, rfl⟩ := List.mem_map.mp hmem
      rw [hcontinues.checkpointTurn]
      exact Nat.le_antisymm (hsome a.turn hlast') (hcontinues.assistants a ha)
    · rw [hcontinues.checkpointTurn]
      exact hnone hlast'

/-- One turn with one call, and the records of the call's effect. -/
def oneTurn (effect : List TurnRecord) : List TurnRecord :=
  [.attemptStarted ⟨30, 64, 32768⟩ [], .requestIntent 0 10 0,
    .assistantReceived 0 [⟨"call-1", "write_file"⟩] none 0] ++ effect ++
    [.checkpoint 0 (some ⟨.logCheckpoint, "c0", 7, 1⟩) 1]

def oneTurnPlan : ResumePlan := ⟨"run-0", ⟨30, 64, 32768⟩, [], 1, 1, 1, 0, 0, ⟨.logCheckpoint, "c0", 7, 1⟩⟩

def oneTurnAttempt (completed : List CompletedCall) : AttemptReconstruction where
  limits := some ⟨30, 64, 32768⟩
  requestsSent := 1
  toolsSpent := 1
  assistants := [⟨0, [⟨"call-1", "write_file"⟩], none⟩]
  completedCalls := completed
  lastCheckpoint := some ⟨0, some ⟨.logCheckpoint, "c0", 7, 1⟩, 1⟩

def oneEffect : List TurnRecord :=
  [.toolIntent 0 "call-1" "write_file" "a0" 0, .toolReceipt 0 "call-1" .succeeded none 1]

theorem complete_iff_oneTurn : Complete (oneTurn oneEffect) oneTurnPlan ↔ NoGap (oneTurn oneEffect) :=
  @complete_iff (oneTurn oneEffect) (oneTurnAttempt [⟨0, "call-1", "write_file", .succeeded, none⟩]) "run-0" 0
    oneTurnPlan rfl rfl

/-- A call with no intent is not missed. -/
theorem resumes_over_gap : reconstruct (oneTurn []) = .ok (oneTurnAttempt []) ∧
    planResume "run-0" (oneTurnAttempt []) 0 = .ok oneTurnPlan ∧ ¬ Complete (oneTurn []) oneTurnPlan := by
  refine ⟨rfl, rfl, ?_⟩
  rintro ⟨before, checkpoint, after, -, -, -, hcalls, -⟩
  have hnamed : ((0, "call-1") : CallKey) ∈ (oneTurn []).flatMap namedCalls := by decide
  have hintents : (oneTurn []).countP (isIntent (0, "call-1")) = 0 := rfl
  have hone := (hcalls _ hnamed).1
  rw [hintents] at hone
  cases hone

end runs

end Cosmon.Harness.LedgerGaps
