import Cosmon.Harness.Readings

namespace Cosmon.Harness

open Cosmon.Core.HarnessTurn

variable {L A : Type}

/-- What a run holds in memory: its log, an answer that is not in it yet, the calls that still
lack their result, and the log as it was whenever a turn had all of them. -/
structure Memory (L A : Type) where
  log : L
  answer : Option (A × List ToolCall) := none
  awaited : List ToolCall := []
  boundaries : List (Nat × L) := []

def Memory.complete (m : Memory L A) (turn : Nat) : Memory L A :=
  if m.awaited = [] then { m with boundaries := m.boundaries ++ [(turn, m.log)] } else m

variable (ml : MessageLog L A) (config : Config)

/-- An answer gets into the log once its envelope is stored, and a result once its call has run. -/
def Memory.apply (m : Memory L A) : Event A → Memory L A
  | .sent _ (.ok (.toolCalls assistant calls)) => { m with answer := some (assistant, calls) }
  | .stored (.assistantReceived turn _ _ _) =>
    match m.answer with
    | some (assistant, calls) =>
      Memory.complete { m with log := turnLog ml config m.log assistant, answer := none, awaited := calls } turn
    | none => m
  | .ran turn call result =>
    Memory.complete
      { m with
        log := ml.appendToolResult m.log call.id call.name (resultText result)
        awaited := m.awaited.tail } turn
  | _ => m

variable {ml config} {digestOf : List UInt8 → BlobDigest} {execResult : String → Option ExecResult}
  {turn : Nat} {log : L} {spent : Nat}

def opens : Option (Except String (Turn A)) → Option (A × List ToolCall)
  | some (.ok (.toolCalls assistant calls)) => some (assistant, calls)
  | _ => none

theorem memory_request (inputs : Option (List InputEvidence)) (answer : Option (Except String (Turn A)))
    (boundaries : List (Nat × L)) :
    (requestEvents ml config turn log spent inputs answer).foldl (Memory.apply ml config)
      ⟨log, none, [], boundaries⟩ = ⟨log, opens answer, [], boundaries⟩ := by
  have hcompacted : (compactEvents ml config turn log).foldl (Memory.apply ml config) ⟨log, none, [], boundaries⟩ =
      ⟨log, none, [], boundaries⟩ := by
    rw [compactEvents]
    cases (maybeCompact ml config log).2 <;> rfl
  rw [requestEvents, List.foldl_append, hcompacted]
  cases answer with
  | none => cases inputs <;> rfl
  | some answer =>
    cases answer with
    | error _ => cases inputs <;> rfl
    | ok turn => cases turn <;> cases inputs <;> rfl

theorem memory_dispatched {calls : List ToolCall} {events : List (Event A)} {log' : L} {spent' : Nat}
    (h : CallsMade digestOf ml execResult config turn log spent calls events log' spent') (rest : List ToolCall)
    (boundaries : List (Nat × L)) :
    events.foldl (Memory.apply ml config) (Memory.complete ⟨log, none, calls ++ rest, boundaries⟩ turn) =
      Memory.complete ⟨log', none, rest, boundaries⟩ turn := by
  induction h generalizing rest with
  | nil => rfl
  | call _ call result _ ih =>
    rw [List.append_assoc, List.singleton_append, List.foldl_append, ih (call :: rest)]
    rfl

theorem memory_turn {made : List (Event A)} {after : L} {spent' : Nat} (inputs : Option (List InputEvidence))
    (assistant : A) (calls : List ToolCall)
    (h : CallsMade digestOf ml execResult config turn (turnLog ml config log assistant) spent calls made after spent')
    (boundaries : List (Nat × L)) :
    (dispatchEvents digestOf ml config turn log spent inputs assistant calls made ++
        [checkpointEvent digestOf ml turn after spent']).foldl (Memory.apply ml config) ⟨log, none, [], boundaries⟩ =
      ⟨after, none, [], boundaries ++ [(turn, after)]⟩ := by
  have hmade := memory_dispatched h [] boundaries
  rw [List.append_nil] at hmade
  rw [dispatchEvents, List.foldl_append, List.foldl_append, memory_request, List.foldl_cons]
  exact congrArg (fun m => Memory.apply ml config m (checkpointEvent digestOf ml turn after spent')) hmade

theorem memory_turns {first : Nat} {log₀ : L} {spent₀ : Nat} {events : List (Event A)}
    (h : Turns digestOf ml execResult config first log₀ spent₀ events turn log spent) :
    ∃ boundaries, events.foldl (Memory.apply ml config) ⟨log₀, none, [], []⟩ = ⟨log, none, [], boundaries⟩ ∧
      (turn = first ∧ boundaries = [] ∧ log = log₀ ∨
        first < turn ∧ boundaries.getLast? = some (turn - 1, log)) := by
  induction h with
  | start => exact ⟨[], rfl, .inl ⟨rfl, rfl, rfl⟩⟩
  | @turn events made turn before after spent' spent'' _ _ inputs assistant calls hmade ih =>
    obtain ⟨boundaries, hmemory, hlast⟩ := ih
    refine ⟨boundaries ++ [(turn, after)], ?_, .inr ⟨?_, List.getLast?_concat⟩⟩
    · rw [List.foldl_append, hmemory, memory_turn inputs assistant calls hmade]
    · obtain ⟨rfl, -⟩ | ⟨hlt, -⟩ := hlast
      · exact Nat.lt_succ_self _
      · exact Nat.lt_succ_of_lt hlt

theorem memory_quiet {rest : List (Event A)} (h : Quiet ml config turn log spent rest)
    (boundaries : List (Nat × L)) :
    (rest.foldl (Memory.apply ml config) ⟨log, none, [], boundaries⟩).boundaries = boundaries := by
  cases h with
  | idle => rfl
  | compacted =>
    rw [compactEvents]
    cases (maybeCompact ml config log).2 <;> rfl
  | failed inputs answer reason =>
    rw [List.foldl_append, memory_request]
    rfl

structure Attempt (A : Type) where
  config : Config
  trace : List (Event A)

def Attempt.startLog (digestOf : List UInt8 → BlobDigest) (ml : MessageLog L A) (attempt : Attempt A) : Option L :=
  match attempt.config.resume with
  | none => some (ml.fromBriefing (effectiveBriefing attempt.config))
  | some resume => (restore digestOf ml attempt.config resume).toOption

def Attempt.boundaries (digestOf : List UInt8 → BlobDigest) (ml : MessageLog L A) (attempt : Attempt A) :
    List (Nat × L) :=
  match attempt.startLog digestOf ml with
  | none => []
  | some log => (attempt.trace.foldl (Memory.apply ml attempt.config) { log }).boundaries

section Attempt

variable {trace : List (Event A)} {first : Nat}

theorem startLog_begins {head : List (Event A)} (h : Begins digestOf ml config head first log spent) :
    Attempt.startLog digestOf ml ⟨config, trace⟩ = some log := by
  cases h with
  | fresh hresume => rw [Attempt.startLog, hresume]
  | resumed hresume hrestore =>
    rw [Attempt.startLog, hresume]
    change (restore digestOf ml config _).toOption = _
    rw [hrestore]
    rfl

theorem memory_begins {head : List (Event A)} (h : Begins digestOf ml config head first log spent)
    (m : Memory L A) : head.foldl (Memory.apply ml config) m = m := by
  cases h <;> rfl

variable (digestOf ml execResult config) in
/-- Where a continuable run leads: to its own last boundary, or, if it completed no turn, to the
checkpoint that it restored itself. -/
theorem Paused.boundaries {span : Nat} {plan : ResumePlan}
    (h : Paused digestOf ml execResult config trace span plan first turn log spent) :
    (Attempt.boundaries digestOf ml ⟨config, trace⟩).getLast? = some (plan.checkpointTurn, log) ∧
        (ml.encodeCheckpoint log).map (blobRef digestOf .logCheckpoint) = some plan.log ∨
      Attempt.boundaries digestOf ml ⟨config, trace⟩ = [] ∧ ∃ resume, config.resume = some resume ∧
        resume.plan.log = plan.log ∧ resume.plan.checkpointTurn = plan.checkpointTurn := by
  obtain ⟨head, log₀, spent₀, events, rest, hhead, hevents, hquiet, rfl⟩ := h.shape
  obtain ⟨boundaries, hmemory, hlast⟩ := memory_turns hevents
  have hboundaries : Attempt.boundaries digestOf ml ⟨config, head ++ (events ++ rest)⟩ = boundaries := by
    rw [Attempt.boundaries, startLog_begins hhead]
    change ((head ++ (events ++ rest)).foldl (Memory.apply ml config) ⟨log₀, none, [], []⟩).boundaries = boundaries
    rw [List.foldl_append, memory_begins hhead, List.foldl_append, hmemory, memory_quiet hquiet]
  rw [hboundaries]
  generalize hcheckpoint : (some ⟨plan.checkpointTurn, some plan.log, spent⟩ : Option CheckpointRef) = checkpoint
  have hchecked := h.checkpoint
  rw [hcheckpoint] at hchecked
  cases hchecked with
  | fresh => cases hcheckpoint
  | @inherited resume _ hresume hrestore hfirst =>
    obtain ⟨-, hnil, -⟩ | ⟨hlt, -⟩ := hlast
    · have hfields := Option.some.inj hcheckpoint
      rw [CheckpointRef.mk.injEq] at hfields
      exact .inr ⟨hnil, resume, hresume, (Option.some.inj hfields.2.1).symm, hfields.1.symm⟩
    · exact absurd hlt (Nat.lt_irrefl _)
  | own turn _ _ hfirst hturn =>
    obtain ⟨heq, -, -⟩ | ⟨-, hlast⟩ := hlast
    · omega
    · have hfields := Option.some.inj hcheckpoint
      rw [CheckpointRef.mk.injEq] at hfields
      rw [hlast, hfields.1]
      exact .inl ⟨rfl, hfields.2.1.symm⟩

end Attempt

structure Batch where
  turn : Nat
  calls : List ToolCall

/-- The tools that ran are these batches, each of a later turn than the one before and from the
start of an answer that the turn was given. -/
structure Batches (trace : List (Event A)) (batches : List Batch) : Prop where
  tools : (tools trace).map (fun ran => (ran.turn, ran.call)) =
    batches.flatMap fun b => b.calls.map fun call => (b.turn, call)
  later : (batches.map Batch.turn).Pairwise (· < ·)
  answered : ∀ b ∈ batches, ∃ assistant calls,
    .sent b.turn (.ok (.toolCalls assistant calls)) ∈ trace ∧ b.calls <+: calls

theorem batches_nil {trace : List (Event A)} (h : tools trace = []) : Batches trace [] := by
  refine ⟨by rw [h]; rfl, List.Pairwise.nil, ?_⟩
  intro b hb
  cases hb

theorem Batches.append {front back : List (Event A)} {batches batches' : List Batch} (h : Batches front batches)
    (h' : Batches back batches') (hlater : ∀ b ∈ batches, ∀ b' ∈ batches', b.turn < b'.turn) :
    Batches (front ++ back) (batches ++ batches') where
  tools := by rw [tools_append, List.map_append, List.flatMap_append, h.tools, h'.tools]
  later := by
    rw [List.map_append, List.pairwise_append]
    refine ⟨h.later, h'.later, ?_⟩
    intro turn hturn turn' hturn'
    obtain ⟨b, hb, rfl⟩ := List.mem_map.mp hturn
    obtain ⟨b', hb', rfl⟩ := List.mem_map.mp hturn'
    exact hlater b hb b' hb'
  answered := by
    intro b hb
    obtain hb | hb := List.mem_append.mp hb
    · obtain ⟨assistant, calls, hsent, hcalls⟩ := h.answered b hb
      exact ⟨assistant, calls, List.mem_append_left _ hsent, hcalls⟩
    · obtain ⟨assistant, calls, hsent, hcalls⟩ := h'.answered b hb
      exact ⟨assistant, calls, List.mem_append_right _ hsent, hcalls⟩

theorem dispatched_tools {calls : List ToolCall} {events : List (Event A)} {log' : L} {spent' : Nat}
    (h : CallsMade digestOf ml execResult config turn log spent calls events log' spent') :
    (tools events).map (fun ran => (ran.turn, ran.call)) = calls.map fun call => (turn, call) := by
  induction h with
  | nil => rfl
  | call _ call result _ ih =>
    rw [tools_append, List.map_append, List.map_append, ih]
    rfl

theorem batches_dispatch {made : List (Event A)} {calls done : List ToolCall} (inputs : Option (List InputEvidence))
    (assistant : A) (h : (tools made).map (fun ran => (ran.turn, ran.call)) = done.map fun call => (turn, call))
    (hdone : done <+: calls) :
    Batches (dispatchEvents digestOf ml config turn log spent inputs assistant calls made) [⟨turn, done⟩] where
  tools := by
    rw [tools_dispatchEvents, h]
    simp
  later := List.pairwise_singleton _ _
  answered := by
    intro b hb
    obtain rfl := List.mem_singleton.mp hb
    refine ⟨assistant, calls, List.mem_append_left _ ?_, hdone⟩
    simp [requestEvents]

theorem turns_batches {first : Nat} {log₀ : L} {spent₀ : Nat} {events : List (Event A)}
    (h : Turns digestOf ml execResult config first log₀ spent₀ events turn log spent) :
    first ≤ turn ∧ ∃ batches, Batches events batches ∧ ∀ b ∈ batches, first ≤ b.turn ∧ b.turn < turn := by
  induction h with
  | start => exact ⟨Nat.le_refl _, [], batches_nil rfl, fun b hb => (by cases hb)⟩
  | @turn events made turn before after spent' spent'' _ _ inputs assistant calls hmade ih =>
    obtain ⟨hfirst, batches, hbatches, hturns⟩ := ih
    have hnew : Batches (dispatchEvents digestOf ml config turn before spent' inputs assistant calls made ++
        [checkpointEvent digestOf ml turn after spent'']) ([⟨turn, calls⟩] ++ []) :=
      (batches_dispatch inputs assistant (dispatched_tools hmade) (List.prefix_refl calls)).append
        (batches_nil rfl) (fun _ _ _ hb => (by cases hb))
    refine ⟨Nat.le_succ_of_le hfirst, _, hbatches.append hnew ?_, ?_⟩
    · intro b hb b' hb'
      obtain rfl := List.mem_singleton.mp hb'
      exact (hturns b hb).2
    · intro b hb
      obtain hb | hb := List.mem_append.mp hb
      · exact ⟨(hturns b hb).1, Nat.lt_succ_of_lt (hturns b hb).2⟩
      · obtain rfl := List.mem_singleton.mp hb
        exact ⟨hfirst, Nat.lt_succ_self turn⟩

theorem partly_batches {rest : List (Event A)} (h : Partly digestOf ml execResult config turn log spent rest) :
    ∃ batches, Batches rest batches ∧ ∀ b ∈ batches, b.turn = turn := by
  have hnone {rest : List (Event A)} (hrest : tools rest = []) :
      ∃ batches, Batches rest batches ∧ ∀ b ∈ batches, b.turn = turn :=
    ⟨[], batches_nil hrest, fun b hb => (by cases hb)⟩
  cases h with
  | idle => exact hnone rfl
  | compacted => exact hnone (tools_compactEvents ml config turn log)
  | asked hturn inputs answer => exact hnone (tools_requestEvents _ _ _ _ _)
  | failed hturn inputs answer reason => exact hnone (tools_quiet (.failed inputs answer reason))
  | received hturn inputs assistant calls rest hmade =>
    refine ⟨[⟨turn, calls⟩], batches_dispatch inputs assistant (dispatched_tools hmade) (List.prefix_append _ _), ?_⟩
    intro b hb
    rw [List.mem_singleton.mp hb]
  | @intended hturn inputs assistant calls rest call made log' spent' hmade hbudget result =>
    have htools := dispatched_tools hmade
    rw [← dispatchEvents_append]
    cases result with
    | none =>
      refine ⟨[⟨turn, calls⟩], batches_dispatch inputs assistant ?_ (List.prefix_append _ _), ?_⟩
      · rw [tools_append, List.map_append, htools]
        exact List.append_nil _
      · intro b hb
        rw [List.mem_singleton.mp hb]
    | some result =>
      have hcalls : calls ++ [call] <+: calls ++ call :: rest := by simp
      refine ⟨[⟨turn, calls ++ [call]⟩], batches_dispatch inputs assistant ?_ hcalls, ?_⟩
      · rw [tools_append, List.map_append, htools, List.map_append]
        rfl
      · intro b hb
        rw [List.mem_singleton.mp hb]
  | ended hturn inputs answer disposition text =>
    refine hnone ?_
    rw [tools_append, tools_requestEvents]
    rfl

theorem Begins.nextTurn {head : List (Event A)} {first : Nat}
    (h : Begins digestOf ml config head first log spent) {resume : ResumeState}
    (hresume : config.resume = some resume) : resume.plan.nextTurn = first := by
  cases h with
  | fresh hfresh =>
    rw [hfresh] at hresume
    cases hresume
  | resumed hsome =>
    rw [hsome] at hresume
    rw [Option.some.inj hresume]

theorem batches_stop {head events rest : List (Event A)} {first : Nat} {log₀ : L} {spent₀ : Nat}
    {batches' : List Batch} (hhead : Begins digestOf ml config head first log₀ spent₀)
    (hevents : Turns digestOf ml execResult config first log₀ spent₀ events turn log spent)
    (hrest : Batches rest batches') (hturns' : ∀ b ∈ batches', b.turn = turn) :
    ∃ batches, Batches (head ++ (events ++ rest)) (batches ++ batches') ∧ first ≤ turn ∧
      ∀ b ∈ batches, first ≤ b.turn ∧ b.turn < turn := by
  obtain ⟨hfirst, batches, hbatches, hturns⟩ := turns_batches hevents
  have hhead : Batches head [] := batches_nil (by cases hhead <;> rfl)
  refine ⟨batches, hhead.append (hbatches.append hrest ?_) fun b hb => (by cases hb), hfirst, hturns⟩
  intro b hb b' hb'
  rw [hturns' b' hb']
  exact (hturns b hb).2

theorem shape_batches {trace : List (Event A)} (h : Shape digestOf ml execResult config trace) :
    ∃ batches, Batches trace batches ∧
      ∀ resume, config.resume = some resume → ∀ b ∈ batches, resume.plan.nextTurn ≤ b.turn := by
  cases h with
  | silent => exact ⟨[], batches_nil rfl, fun _ _ b hb => (by cases hb)⟩
  | started => exact ⟨[], batches_nil rfl, fun _ _ b hb => (by cases hb)⟩
  | turns hhead hevents hrest =>
    obtain ⟨batches', hbatches', hturns'⟩ := partly_batches hrest
    obtain ⟨batches, hbatches, hfirst, hturns⟩ := batches_stop hhead hevents hbatches' hturns'
    refine ⟨_, hbatches, fun resume hresume b hb => ?_⟩
    rw [hhead.nextTurn hresume]
    obtain hb | hb := List.mem_append.mp hb
    · exact (hturns b hb).1
    · rw [hturns' b hb]
      exact hfirst

theorem Paused.batches {trace : List (Event A)} {span : Nat} {plan : ResumePlan} {first : Nat}
    (h : Paused digestOf ml execResult config trace span plan first turn log spent) :
    ∃ batches, Batches trace batches ∧ (∀ b ∈ batches, b.turn < plan.nextTurn) ∧
      ∀ resume, config.resume = some resume → ∀ b ∈ batches, resume.plan.nextTurn ≤ b.turn := by
  obtain ⟨head, log₀, spent₀, events, rest, hhead, hevents, hquiet, rfl⟩ := h.shape
  obtain ⟨batches, hbatches, -, hturns⟩ :=
    batches_stop hhead hevents (batches_nil (tools_quiet hquiet)) fun b hb => (by cases hb)
  rw [List.append_nil] at hbatches
  refine ⟨batches, hbatches, fun b hb => ?_, fun resume hresume b hb => ?_⟩
  · rw [h.nextTurn]
    exact (hturns b hb).2
  · rw [hhead.nextTurn hresume]
    exact (hturns b hb).1

end Cosmon.Harness
