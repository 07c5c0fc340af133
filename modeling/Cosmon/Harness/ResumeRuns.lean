import Cosmon.Harness.Spending

namespace Cosmon.Harness

open Cosmon.Lib Cosmon.Lib.Effects Cosmon.Core.HarnessTurn

variable {L A : Type}

section Restored

variable {digestOf : List UInt8 → BlobDigest} {ml : MessageLog L A}

theorem readBlob_ok {blobs : Blobs} {reference : BlobRef} {bytes : List UInt8}
    (h : readBlob digestOf blobs reference = .ok bytes) : blobs reference.digest = .ok (some bytes) := by
  rw [readBlob] at h
  split_ifs at h
  split at h
  · cases h
  · cases h
  · rename_i stored hstored
    split_ifs at h
    cases h
    exact hstored

end Restored

section Refused

variable (env : Env L A) (digestOf : List UInt8 → BlobDigest) (ml : MessageLog L A)
  (execResult : String → Option ExecResult) (prepared : Except LoadRefusal (Option ResumeState × Nat))
  (config : Config)

def preparedTrace : List (Event A) :=
  match prepared with
  | .error _ => []
  | .ok (resume, _) => (runLoop env digestOf ml execResult { config with resume := resume } {}).2.trace

/-- A continuation is refused when it is prepared, or by the loop before its first record. -/
inductive Refused : Prop where
  | attempt {refusal : LoadRefusal} (h : prepared = .error refusal)
  | loop {resume : ResumeState} {remaining : Nat} {refusal : ResumeRefusal}
      (h : prepared = .ok (some resume, remaining))
      (hrestore : restore digestOf ml { config with resume := some resume } resume = .error refusal)

variable {digestOf ml prepared config}

theorem runLoop_refused {resume : ResumeState} (hresume : config.resume = some resume) {refusal : ResumeRefusal}
    (hrestore : restore digestOf ml config resume = .error refusal) :
    (runLoop env digestOf ml execResult config {}).2.trace = [] := by
  have hfails (w : World A) : (Effect.ofExcept ((restore digestOf ml config resume).mapError
      fun e => Halt.error (.resume e)) : Run A L) w = (.error (.error (.resume refusal)), w) := by
    rw [hrestore]
    rfl
  rw [runLoop]
  split
  · rfl
  · rw [hresume]
    dsimp only
    rw [Effect.bind_of_error (hfails _)]

theorem Refused.silent (h : Refused digestOf ml prepared config) :
    preparedTrace env digestOf ml execResult prepared config = [] := by
  cases h with
  | attempt h => rw [h, preparedTrace]
  | loop h hrestore =>
    rw [h, preparedTrace]
    exact runLoop_refused env execResult rfl hrestore

end Refused

section Reading

def plainLog : MessageLog (List UInt8) (List UInt8) where
  fromBriefing briefing := textBytes briefing
  appendAssistant log assistant := log ++ assistant
  appendToolResult log _ _ result := log ++ textBytes ("\ntool: " ++ result)
  appendUser log content := log ++ textBytes content
  estimateTokens log := log.length / 4
  wellFormed _ := true
  compact log _ := (log, none)
  encodeAssistant _ assistant := some assistant
  encodeCheckpoint log := some log
  decodeCheckpoint bytes := some bytes

def digestTable : List (String × BlobDigest) := [
  ("Fix the build.", "sha256:3db1f6f665224ec45ad35be2a64d952dbf2a59bebd49215845176e748ca84ad1"),
  ("\x7b\"path\":\"src/lib.rs\"\x7d", "sha256:54047b442992a19c4f9c11c7c70f2fe9a8344276b07cdbe6b65c218cffa37ecd"),
  ("\nassistant: read_file src/lib.rs", "sha256:f1b829cb2245e132175993dd23ab8c7bbbbcba69175074842606c3727d6a462c"),
  ("pub fn main() \x7b\x7d", "sha256:58aab1efe80018a456ebbfa8d348f1516c7c14e203e8a4c06ea965761a8f2df8"),
  ("Fix the build.\nassistant: read_file src/lib.rs\ntool: pub fn main() \x7b\x7d",
    "sha256:4d763d22e18e44ee195b434195f3e7b9706231536a22bbf7ad7429d68d7a9db2")]

def sha256 (bytes : List UInt8) : BlobDigest :=
  ((digestTable.find? fun d => textBytes d.1 = bytes).map Prod.snd).getD "sha256:"

def blobDir : Blobs := fun digest => .ok ((digestTable.find? fun d => d.2 = digest).map fun d => textBytes d.1)

/-- The provider asks for a file and then fails. The process dies at the step, if it gets there. -/
def readOnce (crash : Nat) : Env (List UInt8) (List UInt8) where
  crashes n := n = crash
  appends _ := .stored
  blobs _ := none
  takes _ := .ok []
  receipts _ := none
  answers _ log :=
    if log = textBytes "Fix the build." then
      .ok (.toolCalls (textBytes "\nassistant: read_file src/lib.rs")
        [⟨"call_1", "read_file", "\x7b\"path\":\"src/lib.rs\"\x7d"⟩])
    else .error "http 503"
  tools _ _ := .ok "pub fn main() \x7b\x7d"

def twoTurns (resume : Option ResumeState) : Config where
  bootstrapPrefix := ""
  briefing := "Fix the build."
  budget := ⟨2, 8, 4000⟩
  compactionThreshold := 3000
  compactionTarget := 2000
  registryDigest := "sha256:4f53cda18c2baa0c0354bb5f9a3ecbe5ed12ab4d8e11ba873c2f11161202b945"
  journalPins := []
  turnInputs := false
  resume := resume

/-- A run of two turns at most, which dies at the step. -/
def readingRun (crash : Nat) (resume : Option ResumeState) : Attempt (List UInt8) :=
  attemptOf sha256 plainLog (fun _ => none) (readOnce crash) (twoTurns resume)

def linesOf (historyId : String) : Int → List TurnRecord → List Envelope
  | _, [] => []
  | time, record :: rest =>
    ⟨time, .harnessTurnRecorded "task-20261003-aaaa" ⟨harnessTurnSchemaVersion, historyId, record⟩⟩ ::
      linesOf historyId (time + 1000000000) rest

theorem ownRows_linesOf (historyId : String) (time : Int) (records : List TurnRecord) :
    (ownRows "task-20261003-aaaa" (linesOf historyId time records)).map Prod.snd = rowsOf historyId records := by
  induction records generalizing time with
  | nil => rfl
  | cons record rest ih => exact congrArg (List.cons _) (ih _)

theorem unused_linesOf {historyId other : String} (hother : historyId ≠ other) (time : Int)
    (records : List TurnRecord) : Unused "task-20261003-aaaa" other (linesOf historyId time records) := by
  intro row hrow
  have hmem := List.mem_map_of_mem (f := Prod.snd) hrow
  rw [ownRows_linesOf, rowsOf] at hmem
  obtain ⟨record, -, heq⟩ := List.mem_map.mp hmem
  rw [← heq]
  exact hother

theorem appends_linesOf (historyId : String) (time : Int) (records : List TurnRecord) (ledger : List Envelope) :
    Appends "task-20261003-aaaa" historyId records ledger (ledger ++ linesOf historyId time records) :=
  ⟨_, rfl, ownRows_linesOf historyId time records⟩

def interruptedLedger (crash : Nat) : List Envelope := linesOf "run-0" 0 (records (readingRun crash none).trace)

def afterFirstTurn (fromHistoryId : String) (requestsSent elapsedSecs : Nat) : ResumeState where
  plan := {
    fromHistoryId := fromHistoryId
    limits := ⟨2, 8, 4000⟩
    pins := loopPins sha256 (twoTurns none)
    nextTurn := 1
    toolsSpent := 1
    requestsSent := requestsSent
    elapsedSecs := elapsedSecs
    checkpointTurn := 0
    log := blobRef sha256 .logCheckpoint
      (textBytes "Fix the build.\nassistant: read_file src/lib.rs\ntool: pub fn main() \x7b\x7d") }
  log := textBytes "Fix the build.\nassistant: read_file src/lib.rs\ntool: pub fn main() \x7b\x7d"

def resumedLedger (crash : Nat) (candidate : ResumeState) (crash' : Nat) : List Envelope :=
  interruptedLedger crash ++ linesOf "run-1" 60000000000 (records (readingRun crash' (some candidate)).trace)

theorem chain_reading (crash : Nat) {candidate : ResumeState}
    (hload : loadResumable sha256 blobDir "task-20261003-aaaa" (.ok (interruptedLedger crash)) = .ok candidate)
    (crash' : Nat) :
    Chain sha256 plainLog (fun _ => none) "task-20261003-aaaa" (resumedLedger crash candidate crash')
      [readingRun crash none, readingRun crash' (some candidate)] := by
  have hfirst : Chain sha256 plainLog (fun _ => none) "task-20261003-aaaa" (interruptedLedger crash)
      [readingRun crash none] :=
    .first (readOnce crash) rfl (by decide) (fun _ hrow => (by cases hrow)) (.inl rfl)
      (appends_linesOf "run-0" 0 _ [])
  have hturns : 2 ≤ 2 ^ 32 - 1 := by decide
  exact .next hfirst hload (readOnce crash') rfl hturns (unused_linesOf (by decide) 0 _)
    (appends_linesOf "run-1" 60000000000 _ _)

theorem loads_reading :
    loadResumable sha256 blobDir "task-20261003-aaaa" (.ok (interruptedLedger 11)) = .ok (afterFirstTurn "run-0" 1 5) ∧
    loadResumable sha256 blobDir "task-20261003-aaaa" (.ok (interruptedLedger 99)) = .ok (afterFirstTurn "run-0" 2 7) ∧
    loadResumable sha256 blobDir "task-20261003-aaaa" (.ok (resumedLedger 11 (afterFirstTurn "run-0" 1 5) 99)) =
      .ok (afterFirstTurn "run-1" 2 8) ∧
    loadResumable sha256 blobDir "task-20261003-aaaa" (.ok (resumedLedger 11 (afterFirstTurn "run-0" 1 5) 1)) =
      .error .noCheckpoint ∧
    [readingRun 11 none, readingRun 99 (some (afterFirstTurn "run-0" 1 5))].flatMap
      (Attempt.boundaries sha256 plainLog) = [(0, (afterFirstTurn "run-0" 1 5).log)] ∧
    blobDir (sha256 (afterFirstTurn "run-0" 1 5).log) = .ok (some (afterFirstTurn "run-0" 1 5).log) := by
  decide +kernel

end Reading

/-- Over every chain of runs with the same budget, the tools that run stay within it, and the
requests too if no request that was sent is recorded as failed and then continued from. The time
of the plans never goes back. -/
theorem budgets_spent (digestOf : List UInt8 → BlobDigest) (ml : MessageLog L A)
    (execResult : String → Option ExecResult) (molId : String) {ledger : List Envelope} {runs : List (Attempt A)}
    (h : Chain digestOf ml execResult molId ledger runs) {maxTurns maxToolCalls : Nat}
    (hbudget : ∀ run ∈ runs, run.config.budget.maxTurns = maxTurns ∧ run.config.budget.maxToolCalls = maxToolCalls)
    (hcount : maxToolCalls < 2 ^ 32 - 1) (hsent : ∀ run ∈ runs.dropLast, Unfailed run.trace) :
    (tools (runs.flatMap Attempt.trace)).length ≤ maxToolCalls ∧
    (requests (runs.flatMap Attempt.trace)).length ≤ maxTurns ∧
    ∀ blobs candidate, loadResumable digestOf blobs molId (.ok ledger) = .ok candidate →
      ∀ run ∈ runs, ∀ resume, run.config.resume = some resume →
        resume.plan.elapsedSecs ≤ candidate.plan.elapsedSecs := by
  refine ⟨h.tools_le hcount ?_, h.requests_le ?_ hsent, ?_⟩
  · exact fun run hrun => (hbudget run hrun).2
  · exact fun run hrun => (hbudget run hrun).1
  · exact fun blobs candidate hload => (h.elapsedSecs hload).2

theorem budgets_spent_reading :
    (tools ([readingRun 11 none, readingRun 99 (some (afterFirstTurn "run-0" 1 5))].flatMap Attempt.trace)).length ≤ 8 ∧
    (requests ([readingRun 11 none, readingRun 99 (some (afterFirstTurn "run-0" 1 5))].flatMap
      Attempt.trace)).length ≤ 2 := by
  have hbudget : ∀ run ∈ [readingRun 11 none, readingRun 99 (some (afterFirstTurn "run-0" 1 5))],
      run.config.budget.maxTurns = 2 ∧ run.config.budget.maxToolCalls = 8 := by
    simp [readingRun, attemptOf, twoTurns]
  have hunfailed : Unfailed (readingRun 11 none).trace := by
    have hnone : (records (readingRun 11 none).trace).all
        (fun record => match record with | .requestFailed _ _ => false | _ => true) = true := by decide +kernel
    intro request _ reason hreason
    exact Bool.false_ne_true (List.all_eq_true.mp hnone _ hreason)
  obtain ⟨htools, hrequests, -⟩ := budgets_spent sha256 plainLog (fun _ => none) "task-20261003-aaaa"
    (chain_reading 11 loads_reading.1 99) hbudget (by decide) (List.forall_mem_singleton.mpr hunfailed)
  exact ⟨htools, hrequests⟩

/-- A request that fails in two runs is sent in both, and then there are three of them for two
turns. -/
theorem failing_exceeds_turns :
    loadResumable sha256 blobDir "task-20261003-aaaa" (.ok (interruptedLedger 99)) =
      .ok (afterFirstTurn "run-0" 2 7) ∧
    Chain sha256 plainLog (fun _ => none) "task-20261003-aaaa" (resumedLedger 99 (afterFirstTurn "run-0" 2 7) 99)
      [readingRun 99 none, readingRun 99 (some (afterFirstTurn "run-0" 2 7))] ∧
    (twoTurns none).budget.maxTurns = 2 ∧
    (requests ([readingRun 99 none, readingRun 99 (some (afterFirstTurn "run-0" 2 7))].flatMap
      Attempt.trace)).length = 3 := by
  have hload : loadResumable sha256 blobDir "task-20261003-aaaa" (.ok (interruptedLedger 99)) =
      .ok (afterFirstTurn "run-0" 2 7) := loads_reading.2.1
  exact ⟨hload, chain_reading 99 hload 99, rfl, by decide +kernel⟩

section Unsent

variable {digestOf : List UInt8 → BlobDigest} {ml : MessageLog L A} {execResult : String → Option ExecResult}
  {config : Config}

def Unsent (trace : List (Event A)) : Prop :=
  ∀ turn estimated spent, TurnRecord.requestIntent turn estimated spent ∉ records trace

theorem unsent_append {front back : List (Event A)} (h : Unsent (front ++ back)) : Unsent front ∧ Unsent back := by
  constructor <;> intro turn estimated spent hmem <;> apply h turn estimated spent <;> rw [records_append]
  · exact List.mem_append_left _ hmem
  · exact List.mem_append_right _ hmem

theorem not_unsent_requestEvents (turn : Nat) (log : L) (spent : Nat) (inputs : Option (List InputEvidence))
    (answer : Option (Except String (Turn A))) : ¬Unsent (requestEvents ml config turn log spent inputs answer) := by
  intro h
  rw [requestEvents] at h
  exact (unsent_append h).2 _ _ _ List.mem_cons_self

theorem not_unsent_dispatchEvents (turn : Nat) (log : L) (spent : Nat) (inputs : Option (List InputEvidence))
    (assistant : A) (calls : List ToolCall) (made : List (Event A)) :
    ¬Unsent (dispatchEvents digestOf ml config turn log spent inputs assistant calls made) :=
  fun h => not_unsent_requestEvents _ _ _ _ _ (unsent_append h).1

theorem shape_unsent {resume : ResumeState} (hresume : config.resume = some resume) {trace : List (Event A)}
    (h : Shape digestOf ml execResult config trace) (hunsent : Unsent trace) :
    records trace = [] ∨
    records trace = [.attemptStarted config.budget.limits (effectivePins digestOf config)] ∨
    ∃ log, trace = [startedEvent digestOf config, resumedEvent resume.plan] ++
      compactEvents ml config resume.plan.nextTurn log ∨
      trace = [startedEvent digestOf config, resumedEvent resume.plan] := by
  cases h with
  | silent => exact .inl rfl
  | started => exact .inr (.inl rfl)
  | @turns head events rest first turn log log' spent spent' hhead hevents hrest =>
    obtain ⟨hevents', hrest'⟩ := unsent_append (unsent_append hunsent).2
    cases hhead with
    | fresh hfresh =>
      rw [hfresh] at hresume
      cases hresume
    | resumed hsome =>
      rw [hsome] at hresume
      cases hresume
      cases hevents with
      | turn _ _ inputs assistant calls =>
        exact absurd (unsent_append (unsent_append hevents').2).1 (not_unsent_dispatchEvents _ _ _ _ _ _ _)
      | start =>
        refine .inr (.inr ⟨log, ?_⟩)
        cases hrest with
        | idle => exact .inr rfl
        | compacted => exact .inl rfl
        | asked hturn inputs answer => exact absurd hrest' (not_unsent_requestEvents _ _ _ _ _)
        | failed hturn inputs answer reason =>
          exact absurd (unsent_append hrest').1 (not_unsent_requestEvents _ _ _ _ _)
        | received hturn inputs assistant calls rest hmade =>
          exact absurd hrest' (not_unsent_dispatchEvents _ _ _ _ _ _ _)
        | intended hturn inputs assistant calls rest call hmade hbudget result =>
          exact absurd (unsent_append hrest').1 (not_unsent_dispatchEvents _ _ _ _ _ _ _)
        | ended hturn inputs answer disposition text =>
          exact absurd (unsent_append hrest').1 (not_unsent_requestEvents _ _ _ _ _)

def unsentAttempt (digestOf : List UInt8 → BlobDigest) (config : Config) (plan : ResumePlan)
    (compactions : List CompactionEvidence) : AttemptReconstruction where
  limits := some config.budget.limits
  pins := effectivePins digestOf config
  toolsSpent := plan.toolsSpent
  compactions := compactions
  lastCheckpoint := some ⟨plan.checkpointTurn, some plan.log, plan.toolsSpent⟩
  resumedFrom := some ⟨plan.fromHistoryId, plan.checkpointTurn, plan.requestsSent, plan.elapsedSecs⟩

theorem reconstruct_unsent (digestOf : List UInt8 → BlobDigest) (config : Config) (plan : ResumePlan)
    (ml : MessageLog L A) (log : L) :
    (∃ compactions, reconstruct (records ([startedEvent (A := A) digestOf config, resumedEvent plan] ++
      compactEvents ml config plan.nextTurn log)) = .ok (unsentAttempt digestOf config plan compactions)) ∧
    reconstruct (records [startedEvent (A := A) digestOf config, resumedEvent plan]) =
      .ok (unsentAttempt digestOf config plan []) := by
  have hmax : max 0 plan.toolsSpent = plan.toolsSpent := Nat.zero_max _
  have hresumed : reconstruct (records [startedEvent (A := A) digestOf config, resumedEvent plan]) =
      .ok { unsentAttempt digestOf config plan [] with toolsSpent := max 0 plan.toolsSpent } := rfl
  refine ⟨?_, hresumed.trans (by rw [hmax]; rfl)⟩
  rw [compactEvents]
  cases (maybeCompact ml config log).2 with
  | none => exact ⟨[], hresumed.trans (by rw [hmax]; rfl)⟩
  | some report =>
    have hcompacted : reconstruct (records ([startedEvent (A := A) digestOf config, resumedEvent plan] ++
        [.stored (.compacted plan.nextTurn report.tokensBefore report.tokensAfter (clamp report.messagesRemoved))])) =
        .ok { unsentAttempt digestOf config plan [⟨plan.nextTurn, report.tokensBefore, report.tokensAfter,
          clamp report.messagesRemoved⟩] with toolsSpent := max 0 plan.toolsSpent } := rfl
    exact ⟨_, hcompacted.trans (by rw [hmax]; rfl)⟩

theorem planResume_unsent (historyId : String) (plan : ResumePlan) (compactions : List CompactionEvidence)
    (span : Nat) :
    planResume historyId (unsentAttempt digestOf config plan compactions) span = .ok {
      fromHistoryId := historyId
      limits := config.budget.limits
      pins := effectivePins digestOf config
      nextTurn := saturatingSucc plan.checkpointTurn
      toolsSpent := max plan.toolsSpent plan.toolsSpent
      requestsSent := saturatingAdd 32 plan.requestsSent 0
      elapsedSecs := saturatingAdd 64 plan.elapsedSecs span
      checkpointTurn := plan.checkpointTurn
      log := plan.log } := rfl

def Grows (blobs blobs' : Blobs) : Prop :=
  ∀ digest bytes, blobs digest = .ok (some bytes) → blobs' digest = .ok (some bytes)

theorem readBlob_grows {blobs blobs' : Blobs} (hblobs : Grows blobs blobs') {reference : BlobRef} {bytes : List UInt8}
    (h : readBlob digestOf blobs reference = .ok bytes) : readBlob digestOf blobs' reference = .ok bytes := by
  have hstored := readBlob_ok h
  rw [readBlob, hstored] at h
  rw [readBlob, hblobs _ _ hstored]
  exact h

theorem blobProblem_none_iff {blobs : Blobs} {references : List BlobRef} :
    blobProblem digestOf blobs references = none ↔
      ∀ reference ∈ references, ∃ bytes, readBlob digestOf blobs reference = .ok bytes := by
  rw [blobProblem, List.findSome?_eq_none_iff]
  refine forall₂_congr fun reference _ => ?_
  cases readBlob digestOf blobs reference <;> simp

/-- The later candidate is at the same boundary and has spent as much. -/
structure SameFooting (candidate later : ResumeState) : Prop where
  checkpointTurn : later.plan.checkpointTurn = candidate.plan.checkpointTurn
  log : later.log = candidate.log
  toolsSpent : later.plan.toolsSpent = candidate.plan.toolsSpent
  requestsSent : later.plan.requestsSent = candidate.plan.requestsSent

variable {molId historyId : String} {blobs blobs' : Blobs} {ledger ledger' : List Envelope} {candidate : ResumeState}

theorem sameFooting_idle (hload : loadResumable digestOf blobs molId (.ok ledger) = .ok candidate)
    (hblobs : Grows blobs blobs') (happends : Appends molId historyId [] ledger ledger') :
    ∃ later, loadResumable digestOf blobs' molId (.ok ledger') = .ok later ∧ SameFooting candidate later := by
  obtain ⟨last, attempt, hplanning, hproblem, hread⟩ := loadResumable_ok hload
  have hplanning' : Planning molId ledger' last attempt candidate.plan :=
    ⟨happends.idle ▸ hplanning.latest, hplanning.records, hplanning.plan⟩
  have hproblem' : blobProblem digestOf blobs' (blobRefs attempt) = none := by
    rw [blobProblem_none_iff] at hproblem ⊢
    intro reference hreference
    obtain ⟨bytes, hbytes⟩ := hproblem reference hreference
    exact ⟨bytes, readBlob_grows hblobs hbytes⟩
  exact ⟨_, loadResumable_of hplanning' hproblem' (readBlob_grows hblobs hread), rfl, rfl, rfl, rfl⟩

theorem sameFooting_resumed (hload : loadResumable digestOf blobs molId (.ok ledger) = .ok candidate)
    (hblobs : Grows blobs blobs') (hunused : Unused molId historyId ledger) {records : List TurnRecord}
    (happends : Appends molId historyId records ledger ledger') {compactions : List CompactionEvidence}
    (hrecords : reconstruct records = .ok (unsentAttempt digestOf config candidate.plan compactions))
    (hne : records ≠ []) :
    ∃ later, loadResumable digestOf blobs' molId (.ok ledger') = .ok later ∧ SameFooting candidate later := by
  obtain ⟨last, attempt, hplanning, -, hread⟩ := loadResumable_ok hload
  obtain ⟨attempts, hattempts, -⟩ := hplanning.latest
  obtain ⟨first, final, hgathered⟩ := happends.latest hunused hne hattempts
  have hplanning' : Planning molId ledger' ⟨historyId, records, first, final⟩ _ _ :=
    ⟨⟨_, hgathered, List.getLast?_concat⟩, hrecords, planResume_unsent historyId candidate.plan compactions _⟩
  have hproblem' : blobProblem digestOf blobs' (blobRefs (unsentAttempt digestOf config candidate.plan compactions)) =
      none := by
    have hrefs : blobRefs (unsentAttempt digestOf config candidate.plan compactions) = [candidate.plan.log] := rfl
    rw [hrefs, blobProblem_none_iff, List.forall_mem_singleton]
    exact ⟨candidate.log, readBlob_grows hblobs hread⟩
  refine ⟨_, loadResumable_of hplanning' hproblem' (readBlob_grows hblobs hread), rfl, rfl, Nat.max_self _, ?_⟩
  have hrange : candidate.plan.requestsSent ≤ 2 ^ 32 - 1 := by
    obtain ⟨_, hcontinues⟩ := planResume_ok hplanning.plan
    rw [hcontinues.requestsSent]
    exact Nat.min_le_right _ _
  exact Nat.min_eq_left hrange

theorem not_load_started (hunused : Unused molId historyId ledger) {limits : TurnLimits} {pins : Pins}
    (happends : Appends molId historyId [.attemptStarted limits pins] ledger ledger') (later : ResumeState) :
    loadResumable digestOf blobs' molId (.ok ledger') ≠ .ok later := by
  intro hload
  obtain ⟨last, attempt, hplanning, -, -⟩ := loadResumable_ok hload
  obtain ⟨-, hlast⟩ := hplanning.appends happends hunused (List.cons_ne_nil _ _)
  have hrecords := hplanning.records
  rw [hlast] at hrecords
  cases hrecords
  obtain ⟨_, hcontinues⟩ := planResume_ok hplanning.plan
  cases hcontinues.lastCheckpoint

end Unsent

/-- A continuation that ends before it has recorded a request leaves its successor where it
started itself, unless its start is the only record of it. -/
theorem unsent_continuation_iff (env : Env L A) (digestOf : List UInt8 → BlobDigest) (ml : MessageLog L A)
    (execResult : String → Option ExecResult) (config : Config) {molId historyId : String} {blobs blobs' : Blobs}
    {ledger ledger' : List Envelope} {candidate : ResumeState}
    (hload : loadResumable digestOf blobs molId (.ok ledger) = .ok candidate) (hresume : config.resume = some candidate)
    (hblobs : Grows blobs blobs') (hunused : Unused molId historyId ledger)
    (happends : Appends molId historyId (records (attemptOf digestOf ml execResult env config).trace) ledger ledger')
    (hunsent : Unsent (attemptOf digestOf ml execResult env config).trace) :
    (∃ later, loadResumable digestOf blobs' molId (.ok ledger') = .ok later ∧ SameFooting candidate later) ↔
      records (attemptOf digestOf ml execResult env config).trace ≠
        [.attemptStarted config.budget.limits (effectivePins digestOf config)] := by
  obtain hnone | hstarted | ⟨log, hcompacted⟩ :=
    shape_unsent hresume (attemptOf_shape digestOf ml execResult env config) hunsent
  · rw [hnone] at happends ⊢
    exact iff_of_true (sameFooting_idle hload hblobs happends) (List.cons_ne_nil _ _).symm
  · rw [hstarted] at happends ⊢
    refine iff_of_false ?_ (not_not.mpr rfl)
    rintro ⟨later, hlater, -⟩
    exact not_load_started hunused happends later hlater
  · obtain ⟨compactions, hrecords⟩ : ∃ compactions,
        reconstruct (records (attemptOf digestOf ml execResult env config).trace) =
          .ok (unsentAttempt digestOf config candidate.plan compactions) := by
      obtain ⟨hsome, hidle⟩ := reconstruct_unsent digestOf config candidate.plan ml log
      obtain htrace | htrace := hcompacted
      · rw [htrace]
        exact hsome
      · rw [htrace]
        exact ⟨[], hidle⟩
    have hlong : 1 < (records (attemptOf digestOf ml execResult env config).trace).length := by
      obtain htrace | htrace := hcompacted <;> rw [htrace] <;>
        simp [records, startedEvent, resumedEvent, Event.recorded]
    refine iff_of_true (sameFooting_resumed hload hblobs hunused happends hrecords ?_) ?_
    · intro hnone
      rw [hnone] at hlong
      exact absurd hlong (by decide)
    · intro hstarted
      rw [hstarted] at hlong
      exact absurd hlong (Nat.lt_irrefl 1)

/-- The process dies before its first request. -/
theorem unsent_continuation_reading :
    ∃ later, loadResumable sha256 blobDir "task-20261003-aaaa"
      (.ok (resumedLedger 11 (afterFirstTurn "run-0" 1 5) 2)) = .ok later ∧
        SameFooting (afterFirstTurn "run-0" 1 5) later := by
  have hrecords : records (readingRun 2 (some (afterFirstTurn "run-0" 1 5))).trace =
      [.attemptStarted ⟨2, 8, 4000⟩ (loopPins sha256 (twoTurns none)),
        .resumed "run-0" 0 (afterFirstTurn "run-0" 1 5).plan.log 1 1 5] := by decide +kernel
  refine (unsent_continuation_iff (readOnce 2) sha256 plainLog (fun _ => none)
    (twoTurns (some (afterFirstTurn "run-0" 1 5))) loads_reading.1 rfl (fun _ _ => id) (unused_linesOf (by decide) 0 _)
    (appends_linesOf "run-1" 60000000000 _ _) ?_).mpr ?_
  · intro turn estimated spent hmem
    change _ ∈ records (readingRun 2 (some (afterFirstTurn "run-0" 1 5))).trace at hmem
    rw [hrecords] at hmem
    simp at hmem
  · change records (readingRun 2 (some (afterFirstTurn "run-0" 1 5))).trace ≠ _
    rw [hrecords]
    simp

/-- The process dies between the two first records, and nothing can be continued any more. -/
theorem started_continuation_refused :
    loadResumable sha256 blobDir "task-20261003-aaaa" (.ok (interruptedLedger 11)) =
      .ok (afterFirstTurn "run-0" 1 5) ∧
    (records (readingRun 1 (some (afterFirstTurn "run-0" 1 5))).trace).length = 1 ∧
    loadResumable sha256 blobDir "task-20261003-aaaa" (.ok (resumedLedger 11 (afterFirstTurn "run-0" 1 5) 1)) =
      .error .noCheckpoint :=
  ⟨loads_reading.1, by decide +kernel, loads_reading.2.2.2.1⟩

end Cosmon.Harness
