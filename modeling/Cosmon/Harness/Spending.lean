import Cosmon.Harness.Chains

namespace Cosmon.Harness

open Cosmon.Core.HarnessTurn

variable {L A : Type} {digestOf : List UInt8 → BlobDigest} {ml : MessageLog L A}
  {execResult : String → Option ExecResult} {molId : String} {config : Config}

def firstTurn (config : Config) : Nat := (config.resume.map fun resume => resume.plan.nextTurn).getD 0

def spentBefore (config : Config) : Nat := (config.resume.map fun resume => resume.plan.toolsSpent).getD 0

theorem first_fresh (hresume : config.resume = none) : firstTurn config = 0 ∧ spentBefore config = 0 := by
  rw [firstTurn, spentBefore, hresume]
  exact ⟨rfl, rfl⟩

theorem first_resumed {resume : ResumeState} (hresume : config.resume = some resume) :
    firstTurn config = resume.plan.nextTurn ∧ spentBefore config = resume.plan.toolsSpent := by
  rw [firstTurn, spentBefore, hresume]
  exact ⟨rfl, rfl⟩

theorem begins_first {head : List (Event A)} {first : Nat} {log : L} {spent : Nat}
    (h : Begins digestOf ml config head first log spent) : first = firstTurn config ∧ spent = spentBefore config := by
  cases h with
  | fresh hresume =>
    obtain ⟨hfirst, hspent⟩ := first_fresh hresume
    exact ⟨hfirst.symm, hspent.symm⟩
  | resumed hresume =>
    obtain ⟨hfirst, hspent⟩ := first_resumed hresume
    exact ⟨hfirst.symm, hspent.symm⟩

section Tools

variable {turn : Nat} {log log' : L} {spent spent' : Nat}

theorem dispatched_spent (hcount : config.budget.maxToolCalls < 2 ^ 32 - 1)
    (hspent : spent ≤ config.budget.maxToolCalls) {calls : List ToolCall} {events : List (Event A)}
    (h : CallsMade digestOf ml execResult config turn log spent calls events log' spent') :
    spent' = spent + (tools events).length ∧ spent' ≤ config.budget.maxToolCalls := by
  induction h with
  | nil => exact ⟨rfl, hspent⟩
  | @call calls events log' spent' _ call result hbudget ih =>
    rw [tools_append, List.length_append]
    refine ⟨?_, hbudget⟩
    change saturatingSucc spent' = spent + ((tools events).length + 1)
    rw [saturatingSucc] at hbudget ⊢
    omega

theorem turns_spent (hcount : config.budget.maxToolCalls < 2 ^ 32 - 1) (hspent : spent ≤ config.budget.maxToolCalls)
    {first : Nat} {events : List (Event A)}
    (h : Turns digestOf ml execResult config first log spent events turn log' spent') :
    spent' = spent + (tools events).length ∧ spent' ≤ config.budget.maxToolCalls := by
  induction h with
  | start => exact ⟨rfl, hspent⟩
  | @turn events made turn before after spent' spent'' _ _ inputs assistant calls hmade ih =>
    obtain ⟨hspent'', hle⟩ := dispatched_spent hcount ih.2 hmade
    refine ⟨?_, hle⟩
    rw [tools_append, tools_append, tools_dispatchEvents, List.length_append, List.length_append, hspent'', ih.1]
    change _ = spent + ((tools events).length + ((tools made).length + 0))
    omega

theorem partly_spent (hcount : config.budget.maxToolCalls < 2 ^ 32 - 1) (hspent : spent ≤ config.budget.maxToolCalls)
    {rest : List (Event A)} (h : Partly digestOf ml execResult config turn log spent rest) :
    spent + (tools rest).length ≤ config.budget.maxToolCalls := by
  have hquiet {rest : List (Event A)} (hrest : tools rest = []) :
      spent + (tools rest).length ≤ config.budget.maxToolCalls := by
    rw [hrest]
    exact hspent
  cases h with
  | idle => exact hquiet rfl
  | compacted => exact hquiet (tools_compactEvents ml config turn log)
  | asked hturn inputs answer => exact hquiet (tools_requestEvents _ _ _ _ _)
  | failed hturn inputs answer reason => exact hquiet (tools_quiet (.failed inputs answer reason))
  | received hturn inputs assistant calls rest hmade =>
    obtain ⟨hspent', hle⟩ := dispatched_spent hcount hspent hmade
    rw [tools_dispatchEvents, ← hspent']
    exact hle
  | @intended hturn inputs assistant calls rest call made log' spent' hmade hbudget result =>
    obtain ⟨hspent', hle⟩ := dispatched_spent hcount hspent hmade
    have hresult : (tools (result.toList.map (Event.ran (A := A) turn call))).length ≤ 1 := by
      cases result with
      | none => exact Nat.zero_le 1
      | some result => exact Nat.le_refl 1
    rw [tools_append, tools_dispatchEvents, List.length_append]
    rw [saturatingSucc] at hbudget
    change spent + ((tools made).length + (tools (result.toList.map (Event.ran (A := A) turn call))).length) ≤ _
    omega
  | ended hturn inputs answer disposition text =>
    refine hquiet ?_
    rw [tools_append, tools_requestEvents]
    rfl

end Tools

section Requests

variable {turn : Nat} {log log' : L} {spent spent' : Nat}

theorem requests_requestEvents (turn : Nat) (log : L) (spent : Nat) (inputs : Option (List InputEvidence))
    (answer : Option (Except String (Turn A))) :
    requests (requestEvents ml config turn log spent inputs answer) = answer.toList.map (Request.mk turn) := by
  have hcompacted : requests (compactEvents (A := A) ml config turn log) = [] := by
    rw [compactEvents]
    cases (maybeCompact ml config log).2 <;> rfl
  rw [requestEvents, requests_append, hcompacted]
  cases inputs <;> cases answer <;> rfl

theorem requests_dispatched {calls : List ToolCall} {events : List (Event A)}
    (h : CallsMade digestOf ml execResult config turn log spent calls events log' spent') : requests events = [] := by
  induction h with
  | nil => rfl
  | call _ call result _ ih =>
    rw [requests_append, ih]
    rfl

theorem requests_dispatchEvents (turn : Nat) (log : L) (spent : Nat) (inputs : Option (List InputEvidence))
    (assistant : A) (calls : List ToolCall) {made : List (Event A)} (hmade : requests made = []) :
    requests (dispatchEvents digestOf ml config turn log spent inputs assistant calls made) =
      [⟨turn, .ok (.toolCalls assistant calls)⟩] := by
  have hreceived (log : L) : requests (receivedEvent digestOf ml config turn log spent assistant calls :: made) =
      requests made := rfl
  rw [dispatchEvents, requests_append, requests_requestEvents, hreceived, hmade]
  rfl

theorem turns_requests {first : Nat} {events : List (Event A)}
    (h : Turns digestOf ml execResult config first log spent events turn log' spent')
    (hfirst : first ≤ config.budget.maxTurns) :
    turn = first + (requests events).length ∧ turn ≤ config.budget.maxTurns := by
  induction h with
  | start => exact ⟨rfl, hfirst⟩
  | @turn events made turn before after spent' spent'' _ hturn inputs assistant calls hmade ih =>
    refine ⟨?_, hturn⟩
    rw [requests_append, requests_append, requests_dispatchEvents _ _ _ _ _ _ (requests_dispatched hmade),
      List.length_append, ih.1, Nat.add_assoc]
    rfl

theorem partly_requests {rest : List (Event A)} (h : Partly digestOf ml execResult config turn log spent rest)
    (hturn : turn ≤ config.budget.maxTurns) : turn + (requests rest).length ≤ config.budget.maxTurns := by
  have hanswered {rest : List (Event A)} (answer : Option (Except String (Turn A)))
      (hturn : turn < config.budget.maxTurns) (hrest : requests rest = answer.toList.map (Request.mk turn)) :
      turn + (requests rest).length ≤ config.budget.maxTurns := by
    rw [hrest]
    cases answer with
    | none => exact Nat.le_of_lt hturn
    | some answer => exact hturn
  cases h with
  | idle => exact hturn
  | compacted =>
    rw [compactEvents]
    cases (maybeCompact ml config log).2 <;> exact hturn
  | asked hturn inputs answer => exact hanswered answer hturn (requests_requestEvents _ _ _ _ _)
  | failed hturn inputs answer reason =>
    refine hanswered answer hturn ?_
    rw [requests_append, requests_requestEvents]
    exact List.append_nil _
  | received hturn inputs assistant calls rest hmade =>
    exact hanswered (some _) hturn (requests_dispatchEvents _ _ _ _ _ _ (requests_dispatched hmade))
  | intended hturn inputs assistant calls rest call hmade hbudget result =>
    refine hanswered (some (.ok (.toolCalls assistant (calls ++ call :: rest)))) hturn ?_
    rw [requests_append, requests_dispatchEvents _ _ _ _ _ _ (requests_dispatched hmade)]
    cases result <;> rfl
  | ended hturn inputs answer disposition text =>
    refine hanswered (some (.ok answer)) hturn ?_
    rw [requests_append, requests_requestEvents]
    rfl

end Requests

def Unfailed (trace : List (Event A)) : Prop :=
  ∀ request ∈ requests trace, ∀ reason, TurnRecord.requestFailed request.turn reason ∉ records trace

theorem requests_quiet {turn : Nat} {log : L} {spent : Nat} {front rest : List (Event A)}
    (h : Quiet ml config turn log spent rest) (hunfailed : Unfailed (front ++ rest)) : requests rest = [] := by
  cases h with
  | idle => rfl
  | compacted =>
    rw [compactEvents]
    cases (maybeCompact ml config log).2 <;> rfl
  | failed inputs answer reason =>
    have hrequests : requests (requestEvents ml config turn log spent inputs answer ++
        [.stored (.requestFailed turn reason)]) = answer.toList.map (Request.mk turn) := by
      rw [requests_append, requests_requestEvents]
      exact List.append_nil _
    rw [hrequests]
    cases answer with
    | none => rfl
    | some answer =>
      refine absurd ?_ (hunfailed ⟨turn, answer⟩ ?_ reason)
      · rw [records_append, records_append]
        exact List.mem_append_right _ (List.mem_append_right _ (List.mem_singleton_self _))
      · rw [requests_append, hrequests]
        exact List.mem_append_right _ (List.mem_singleton_self _)

section Run

variable {trace : List (Event A)} {span : Nat} {plan : ResumePlan} {first turn : Nat} {log : L} {spent : Nat}

theorem Paused.tools_length (h : Paused digestOf ml execResult config trace span plan first turn log spent)
    (hcount : config.budget.maxToolCalls < 2 ^ 32 - 1) (hspent : spentBefore config ≤ config.budget.maxToolCalls) :
    plan.toolsSpent = spentBefore config + (tools trace).length ∧ plan.toolsSpent ≤ config.budget.maxToolCalls := by
  obtain ⟨head, log₀, spent₀, events, rest, hhead, hevents, hquiet, rfl⟩ := h.shape
  have htools : tools (head ++ (events ++ rest)) = tools events := by
    rw [tools_append, tools_append, tools_quiet hquiet, List.append_nil]
    cases hhead <;> rfl
  obtain ⟨-, rfl⟩ := begins_first hhead
  rw [htools, h.toolsSpent]
  exact turns_spent hcount hspent hevents

theorem Paused.requests_length (h : Paused digestOf ml execResult config trace span plan first turn log spent)
    (hturns : firstTurn config ≤ config.budget.maxTurns) (hunfailed : Unfailed trace) :
    plan.nextTurn = firstTurn config + (requests trace).length ∧ plan.nextTurn ≤ config.budget.maxTurns := by
  obtain ⟨head, log₀, spent₀, events, rest, hhead, hevents, hquiet, rfl⟩ := h.shape
  have hrequests : requests (head ++ (events ++ rest)) = requests events := by
    rw [← List.append_assoc] at hunfailed
    rw [requests_append, requests_append, requests_quiet hquiet hunfailed, List.append_nil]
    cases hhead <;> rfl
  obtain ⟨rfl, -⟩ := begins_first hhead
  rw [hrequests, h.nextTurn]
  exact turns_requests hevents hturns

theorem shape_tools_length (h : Shape digestOf ml execResult config trace)
    (hcount : config.budget.maxToolCalls < 2 ^ 32 - 1) (hspent : spentBefore config ≤ config.budget.maxToolCalls) :
    spentBefore config + (tools trace).length ≤ config.budget.maxToolCalls := by
  cases h with
  | silent => exact hspent
  | started => exact hspent
  | @turns head events rest first turn log log' spent spent' hhead hevents hrest =>
    have htools : tools (head ++ (events ++ rest)) = tools events ++ tools rest := by
      rw [tools_append, tools_append]
      cases hhead <;> rfl
    obtain ⟨-, rfl⟩ := begins_first hhead
    obtain ⟨hspent', hle⟩ := turns_spent hcount hspent hevents
    rw [htools, List.length_append, ← Nat.add_assoc, ← hspent']
    exact partly_spent hcount hle hrest

theorem shape_requests_length (h : Shape digestOf ml execResult config trace)
    (hturns : firstTurn config ≤ config.budget.maxTurns) :
    firstTurn config + (requests trace).length ≤ config.budget.maxTurns := by
  cases h with
  | silent => exact hturns
  | started => exact hturns
  | @turns head events rest first turn log log' spent spent' hhead hevents hrest =>
    have hrequests : requests (head ++ (events ++ rest)) = requests events ++ requests rest := by
      rw [requests_append, requests_append]
      cases hhead <;> rfl
    obtain ⟨rfl, -⟩ := begins_first hhead
    obtain ⟨hturn, hle⟩ := turns_requests hevents hturns
    rw [hrequests, List.length_append, ← Nat.add_assoc, ← hturn]
    exact partly_requests hrest hle

end Run

section Chain

variable {ledger : List Envelope} {runs : List (Attempt A)} {blobs : Blobs} {candidate : ResumeState}

theorem Chain.toolsSpent (h : Chain digestOf ml execResult molId ledger runs) {maxToolCalls : Nat}
    (hcount : maxToolCalls < 2 ^ 32 - 1) (hbudget : ∀ run ∈ runs, run.config.budget.maxToolCalls = maxToolCalls)
    (hload : loadResumable digestOf blobs molId (.ok ledger) = .ok candidate) :
    candidate.plan.toolsSpent = (tools (runs.flatMap Attempt.trace)).length ∧
      candidate.plan.toolsSpent ≤ maxToolCalls := by
  refine (h.plan_induction (I := fun runs plan =>
    (∀ run ∈ runs, run.config.budget.maxToolCalls = maxToolCalls) →
      plan.toolsSpent = (tools (runs.flatMap Attempt.trace)).length ∧ plan.toolsSpent ≤ maxToolCalls)
    ?_ ?_ ?_ hload).2 hbudget
  · intro config trace span plan first turn log spent hresume h hbudget
    rw [List.forall_mem_singleton] at hbudget
    subst hbudget
    obtain ⟨-, hbefore⟩ := first_fresh hresume
    have hspent := h.tools_length hcount (hbefore ▸ Nat.zero_le _)
    rw [hbefore, Nat.zero_add] at hspent
    rw [List.flatMap_singleton]
    exact hspent
  · intro runs config trace resume span plan first turn log spent ih hresume h hbudget
    rw [List.forall_mem_append, List.forall_mem_singleton] at hbudget
    obtain ⟨hruns, hbudget⟩ := hbudget
    obtain ⟨htools, hle⟩ := ih hruns
    subst hbudget
    obtain ⟨-, hbefore⟩ := first_resumed hresume
    have hspent := h.tools_length hcount (hbefore ▸ hle)
    rw [hbefore, htools] at hspent
    rw [flatMap_concat, tools_append, List.length_append]
    exact hspent
  · intro runs config plan log ih hresume hbudget
    rw [List.forall_mem_append] at hbudget
    rw [flatMap_concat, List.append_nil]
    exact ih hbudget.1

theorem Chain.requestsSent (h : Chain digestOf ml execResult molId ledger runs) {maxTurns : Nat}
    (hbudget : ∀ run ∈ runs, run.config.budget.maxTurns = maxTurns) (hsent : ∀ run ∈ runs, Unfailed run.trace)
    (hload : loadResumable digestOf blobs molId (.ok ledger) = .ok candidate) :
    (requests (runs.flatMap Attempt.trace)).length ≤ candidate.plan.nextTurn ∧
      candidate.plan.nextTurn ≤ maxTurns := by
  refine (h.plan_induction (I := fun runs plan =>
    (∀ run ∈ runs, run.config.budget.maxTurns = maxTurns) → (∀ run ∈ runs, Unfailed run.trace) →
      (requests (runs.flatMap Attempt.trace)).length ≤ plan.nextTurn ∧ plan.nextTurn ≤ maxTurns)
    ?_ ?_ ?_ hload).2 hbudget hsent
  · intro config trace span plan first turn log spent hresume h hbudget hsent
    rw [List.forall_mem_singleton] at hbudget hsent
    subst hbudget
    obtain ⟨hfirst, -⟩ := first_fresh hresume
    obtain ⟨hnext, hle⟩ := h.requests_length (hfirst ▸ Nat.zero_le _) hsent
    rw [List.flatMap_singleton]
    exact ⟨hnext ▸ Nat.le_add_left _ _, hle⟩
  · intro runs config trace resume span plan first turn log spent ih hresume h hbudget hsent
    rw [List.forall_mem_append, List.forall_mem_singleton] at hbudget hsent
    obtain ⟨hruns, hbudget⟩ := hbudget
    obtain ⟨hearlier, hle⟩ := ih hruns hsent.1
    subst hbudget
    obtain ⟨hfirst, -⟩ := first_resumed hresume
    obtain ⟨hnext, hle⟩ := h.requests_length (hfirst ▸ hle) hsent.2
    rw [flatMap_concat, requests_append, List.length_append, hnext, hfirst]
    exact ⟨Nat.add_le_add_right hearlier _, hfirst ▸ hnext ▸ hle⟩
  · intro runs config plan log ih hresume hbudget hsent
    rw [List.forall_mem_append] at hbudget hsent
    rw [flatMap_concat, List.append_nil]
    exact ih hbudget.1 hsent.1

theorem Paused.elapsedSecs_le {trace : List (Event A)} {span : Nat} {plan : ResumePlan} {first turn : Nat} {log : L}
    {spent : Nat} (h : Paused digestOf ml execResult config trace span plan first turn log spent) :
    plan.elapsedSecs ≤ 2 ^ 64 - 1 := by
  rw [h.elapsedSecs]
  exact Nat.min_le_right _ _

theorem Chain.elapsedSecs (h : Chain digestOf ml execResult molId ledger runs)
    (hload : loadResumable digestOf blobs molId (.ok ledger) = .ok candidate) :
    candidate.plan.elapsedSecs ≤ 2 ^ 64 - 1 ∧ ∀ run ∈ runs, ∀ resume, run.config.resume = some resume →
      resume.plan.elapsedSecs ≤ candidate.plan.elapsedSecs := by
  refine (h.plan_induction (I := fun runs plan =>
    plan.elapsedSecs ≤ 2 ^ 64 - 1 ∧ ∀ run ∈ runs, ∀ resume, run.config.resume = some resume →
      resume.plan.elapsedSecs ≤ plan.elapsedSecs) ?_ ?_ ?_ hload).2
  · intro config trace span plan first turn log spent hresume h
    refine ⟨h.elapsedSecs_le, List.forall_mem_singleton.mpr fun resume hsome => ?_⟩
    rw [hresume] at hsome
    cases hsome
  · intro runs config trace resume span plan first turn log spent ih hresume h
    have hle : resume.plan.elapsedSecs ≤ plan.elapsedSecs := by
      have helapsed := h.elapsedSecs
      rw [hresume] at helapsed
      change plan.elapsedSecs = min (resume.plan.elapsedSecs + span) (2 ^ 64 - 1) at helapsed
      have hrange := ih.1
      omega
    refine ⟨h.elapsedSecs_le, List.forall_mem_append.mpr ⟨fun run hrun resume' hsome => ?_, ?_⟩⟩
    · exact Nat.le_trans (ih.2 run hrun resume' hsome) hle
    · refine List.forall_mem_singleton.mpr fun resume' hsome => ?_
      rw [hresume] at hsome
      cases hsome
      exact hle
  · intro runs config plan log ih hresume
    refine ⟨ih.1, List.forall_mem_append.mpr ⟨ih.2, List.forall_mem_singleton.mpr fun resume hsome => ?_⟩⟩
    rw [hresume] at hsome
    cases hsome
    exact Nat.le_refl _

theorem Chain.tools_le (h : Chain digestOf ml execResult molId ledger runs) {maxToolCalls : Nat}
    (hcount : maxToolCalls < 2 ^ 32 - 1) (hbudget : ∀ run ∈ runs, run.config.budget.maxToolCalls = maxToolCalls) :
    (tools (runs.flatMap Attempt.trace)).length ≤ maxToolCalls := by
  cases h with
  | @first _ _ _ env config hresume hturns hunused hnew happends =>
    rw [List.forall_mem_singleton] at hbudget
    obtain rfl : config.budget.maxToolCalls = maxToolCalls := hbudget
    obtain ⟨-, hbefore⟩ := first_fresh hresume
    have htools := shape_tools_length (attemptOf_shape digestOf ml execResult env config) hcount
      (hbefore ▸ Nat.zero_le _)
    rw [hbefore, Nat.zero_add] at htools
    rw [List.flatMap_singleton]
    exact htools
  | @next _ _ _ _ _ _ h hload env config hresume hturns hunused happends =>
    rw [List.forall_mem_append, List.forall_mem_singleton] at hbudget
    obtain ⟨hruns, hbudget⟩ := hbudget
    obtain ⟨hearlier, hle⟩ := h.toolsSpent hcount hruns hload
    obtain rfl : config.budget.maxToolCalls = maxToolCalls := hbudget
    obtain ⟨-, hbefore⟩ := first_resumed hresume
    have htools := shape_tools_length (attemptOf_shape digestOf ml execResult env config) hcount (hbefore ▸ hle)
    rw [hbefore, hearlier] at htools
    rw [flatMap_concat, tools_append, List.length_append]
    exact htools

/-- The requests of a chain stay within its turns, unless one that failed is sent again. -/
theorem Chain.requests_le (h : Chain digestOf ml execResult molId ledger runs) {maxTurns : Nat}
    (hbudget : ∀ run ∈ runs, run.config.budget.maxTurns = maxTurns)
    (hsent : ∀ run ∈ runs.dropLast, Unfailed run.trace) :
    (requests (runs.flatMap Attempt.trace)).length ≤ maxTurns := by
  cases h with
  | @first _ _ _ env config hresume hturns hunused hnew happends =>
    rw [List.forall_mem_singleton] at hbudget
    obtain rfl : config.budget.maxTurns = maxTurns := hbudget
    obtain ⟨hfirst, -⟩ := first_fresh hresume
    have hrequests := shape_requests_length (attemptOf_shape digestOf ml execResult env config) (hfirst ▸ Nat.zero_le _)
    rw [hfirst, Nat.zero_add] at hrequests
    rw [List.flatMap_singleton]
    exact hrequests
  | @next _ _ _ _ _ _ h hload env config hresume hturns hunused happends =>
    rw [List.forall_mem_append, List.forall_mem_singleton] at hbudget
    rw [List.dropLast_concat] at hsent
    obtain ⟨hruns, hbudget⟩ := hbudget
    obtain ⟨hearlier, hle⟩ := h.requestsSent hruns hsent hload
    obtain rfl : config.budget.maxTurns = maxTurns := hbudget
    obtain ⟨hfirst, -⟩ := first_resumed hresume
    have hrequests := shape_requests_length (attemptOf_shape digestOf ml execResult env config) (hfirst ▸ hle)
    rw [hfirst] at hrequests
    rw [flatMap_concat, requests_append, List.length_append]
    exact Nat.le_trans (Nat.add_le_add_right hearlier _) hrequests

end Chain

end Cosmon.Harness
