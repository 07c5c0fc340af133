import Cosmon.Harness.Boundaries
import Cosmon.Harness.Ledgers

namespace Cosmon.Harness

open Cosmon.Core.HarnessTurn

variable {L A : Type} {digestOf : List UInt8 → BlobDigest} {ml : MessageLog L A}
  {execResult : String → Option ExecResult} {molId : String}

section Ledger

variable {ledger ledger' : List Envelope} {last last' : GatheredAttempt} {attempt attempt' : AttemptReconstruction}
  {plan plan' : ResumePlan}

theorem Planning.unique (h : Planning molId ledger last attempt plan) (h' : Planning molId ledger' last' attempt' plan')
    (hrows : ownRows molId ledger' = ownRows molId ledger) : plan' = plan := by
  obtain ⟨attempts, hattempts, hlast⟩ := h.latest
  obtain ⟨attempts', hattempts', hlast'⟩ := h'.latest
  rw [hrows, hattempts] at hattempts'
  cases hattempts'
  rw [hlast] at hlast'
  cases hlast'
  have hattempt := h.records.symm.trans h'.records
  cases hattempt
  exact Except.ok.inj (h'.plan.symm.trans h.plan)

theorem Planning.ownRows_ne (h : Planning molId ledger last attempt plan) : ownRows molId ledger ≠ [] := by
  intro hnone
  obtain ⟨attempts, hattempts, hlast⟩ := h.latest
  rw [hnone] at hattempts
  cases hattempts
  cases hlast

end Ledger

theorem Shape.eq_nil {config : Config} {trace : List (Event A)} (h : Shape digestOf ml execResult config trace)
    (hrecords : records trace = []) : trace = [] := by
  cases h with
  | silent => rfl
  | started => cases hrecords
  | turns hhead => cases hhead <;> cases hrecords

variable (digestOf ml execResult) in
def attemptOf (env : Env L A) (config : Config) : Attempt A :=
  ⟨config, (runLoop env digestOf ml execResult config {}).2.trace⟩

theorem attemptOf_shape (digestOf : List UInt8 → BlobDigest) (ml : MessageLog L A)
    (execResult : String → Option ExecResult) (env : Env L A) (config : Config) :
    Shape digestOf ml execResult config (attemptOf digestOf ml execResult env config).trace := runLoop_shape env

variable (digestOf ml execResult molId) in
/-- Runs of a molecule's loop with what the ledger shows of them. Each may stop anywhere, and is
continued by the next only if the ledger licenses it. -/
inductive Chain : List Envelope → List (Attempt A) → Prop where
  | first {ledger ledger' : List Envelope} {historyId : String} (env : Env L A) {config : Config}
      (hresume : config.resume = none) (hturns : config.budget.maxTurns ≤ 2 ^ 32 - 1)
      (hunused : Unused molId historyId ledger)
      (hnew : ownRows molId ledger = [] ∨ records (attemptOf digestOf ml execResult env config).trace ≠ [])
      (happends : Appends molId historyId (records (attemptOf digestOf ml execResult env config).trace) ledger
        ledger') :
      Chain ledger' [attemptOf digestOf ml execResult env config]
  | next {ledger ledger' : List Envelope} {runs : List (Attempt A)} {blobs : Blobs} {candidate : ResumeState}
      {historyId : String} (h : Chain ledger runs)
      (hload : loadResumable digestOf blobs molId (.ok ledger) = .ok candidate) (env : Env L A) {config : Config}
      (hresume : config.resume = some candidate) (hturns : config.budget.maxTurns ≤ 2 ^ 32 - 1)
      (hunused : Unused molId historyId ledger)
      (happends : Appends molId historyId (records (attemptOf digestOf ml execResult env config).trace) ledger
        ledger') :
      Chain ledger' (runs ++ [attemptOf digestOf ml execResult env config])

theorem attemptOf_paused {env : Env L A} {config : Config} (hconfig : Configured config)
    {ledger ledger' : List Envelope} {historyId : String} {last : GatheredAttempt} {attempt : AttemptReconstruction}
    {plan : ResumePlan} (hplanning : Planning molId ledger' last attempt plan)
    (happends : Appends molId historyId (records (attemptOf digestOf ml execResult env config).trace) ledger ledger')
    (hunused : Unused molId historyId ledger)
    (hrecords : records (attemptOf digestOf ml execResult env config).trace ≠ []) :
    ∃ span first turn log spent, Paused digestOf ml execResult config
      (attemptOf digestOf ml execResult env config).trace span plan first turn log spent := by
  obtain ⟨-, hlast⟩ := hplanning.appends happends hunused hrecords
  have hattempt := hplanning.records
  rw [hlast] at hattempt
  exact ⟨last.ownSpanSecs, shape_plan hconfig (attemptOf_shape _ _ _ env config) hattempt hplanning.plan⟩

/-- What a chain's next plan says of the chain. A run that recorded nothing leaves the plan that it
was given. -/
theorem Chain.plan_induction {I : List (Attempt A) → ResumePlan → Prop}
    (hfirst : ∀ config trace span plan first turn log spent, config.resume = none →
      Paused digestOf ml execResult config trace span plan first turn log spent → I [⟨config, trace⟩] plan)
    (hnext : ∀ runs config trace resume span plan first turn log spent, I runs resume.plan →
      config.resume = some resume → Paused digestOf ml execResult config trace span plan first turn log spent →
      I (runs ++ [⟨config, trace⟩]) plan)
    (hidle : ∀ runs config plan log, I runs plan → config.resume = some ⟨plan, log⟩ → I (runs ++ [⟨config, []⟩]) plan)
    {ledger : List Envelope} {runs : List (Attempt A)} (h : Chain digestOf ml execResult molId ledger runs)
    {blobs : Blobs} {candidate : ResumeState}
    (hload : loadResumable digestOf blobs molId (.ok ledger) = .ok candidate) :
    Planned candidate.plan ∧ I runs candidate.plan := by
  induction h generalizing blobs candidate with
  | @first ledger ledger' historyId env config hresume hturns hunused hnew happends =>
    obtain ⟨last, attempt, hplanning, -, -⟩ := loadResumable_ok hload
    have hconfig : Configured config := by
      refine ⟨hturns, fun resume hsome => ?_⟩
      rw [hresume] at hsome
      cases hsome
    have hrecords : records (attemptOf digestOf ml execResult env config).trace ≠ [] := by
      refine hnew.elim (fun hnone hrecords => ?_) id
      rw [hrecords] at happends
      exact hplanning.ownRows_ne (happends.idle.trans hnone)
    obtain ⟨span, first, turn, log, spent, hpaused⟩ := attemptOf_paused hconfig hplanning happends hunused hrecords
    exact ⟨hpaused.planned, hfirst _ _ _ _ _ _ _ _ hresume hpaused⟩
  | @next ledger ledger' runs blobs₀ candidate₀ historyId h hload₀ env config hresume hturns hunused happends ih =>
    obtain ⟨last, attempt, hplanning, -, -⟩ := loadResumable_ok hload
    obtain ⟨hplanned, hI⟩ := ih hload₀
    by_cases hrecords : records (attemptOf digestOf ml execResult env config).trace = []
    · rw [hrecords] at happends
      obtain ⟨_, _, hplanning₀, -, -⟩ := loadResumable_ok hload₀
      have hplan : candidate.plan = candidate₀.plan := hplanning₀.unique hplanning happends.idle
      have htrace : attemptOf digestOf ml execResult env config = ⟨config, []⟩ :=
        congrArg (Attempt.mk config) ((attemptOf_shape _ _ _ env config).eq_nil hrecords)
      rw [hplan, htrace]
      exact ⟨hplanned, hidle _ _ _ _ hI hresume⟩
    · have hconfig : Configured config := by
        refine ⟨hturns, fun resume hsome => ?_⟩
        rw [hresume] at hsome
        cases hsome
        exact hplanned
      obtain ⟨span, first, turn, log, spent, hpaused⟩ := attemptOf_paused hconfig hplanning happends hunused hrecords
      exact ⟨hpaused.planned, hnext _ _ _ _ _ _ _ _ _ _ hI hresume hpaused⟩

section Continuable

variable (digestOf ml) in
/-- What holds of a chain that can be continued: no tool of a later turn has run, none of them was
the shell, and the last complete turn of them all is the one that the plan names. -/
structure Continuable (runs : List (Attempt A)) (plan : ResumePlan) : Prop where
  batches : ∃ batches, Batches (runs.flatMap Attempt.trace) batches ∧ ∀ b ∈ batches, b.turn < plan.nextTurn
  shell : ∀ ran ∈ tools (runs.flatMap Attempt.trace), ran.call.name ≠ shellToolName
  boundary : ∃ log, (runs.flatMap (Attempt.boundaries digestOf ml)).getLast? = some (plan.checkpointTurn, log) ∧
    (ml.encodeCheckpoint log).map (blobRef digestOf .logCheckpoint) = some plan.log

variable {config : Config} {trace : List (Event A)} {span : Nat} {plan : ResumePlan} {first turn : Nat} {log : L}
  {spent : Nat} {runs : List (Attempt A)}

theorem flatMap_concat {α β : Type} (f : α → List β) (l : List α) (a : α) :
    (l ++ [a]).flatMap f = l.flatMap f ++ f a := by
  rw [List.flatMap_append, List.flatMap_singleton]

theorem Paused.continuable (hresume : config.resume = none)
    (h : Paused digestOf ml execResult config trace span plan first turn log spent) :
    Continuable digestOf ml [⟨config, trace⟩] plan := by
  obtain ⟨batches, hbatches, hturns, -⟩ := h.batches
  constructor
  · rw [List.flatMap_singleton]
    exact ⟨batches, hbatches, hturns⟩
  · rw [List.flatMap_singleton]
    exact h.shell
  · rw [List.flatMap_singleton]
    obtain ⟨hlast, hlog⟩ | ⟨-, resume, hsome, -⟩ := h.boundaries
    · exact ⟨log, hlast, hlog⟩
    · rw [hresume] at hsome
      cases hsome

theorem Paused.nextTurn_le {resume : ResumeState} (hresume : config.resume = some resume)
    (h : Paused digestOf ml execResult config trace span plan first turn log spent) :
    resume.plan.nextTurn ≤ plan.nextTurn := by
  obtain ⟨head, log₀, spent₀, events, rest, hhead, hevents, -, -⟩ := h.shape
  rw [hhead.nextTurn hresume, h.nextTurn]
  exact (turns_batches hevents).1

theorem Continuable.next {resume : ResumeState} (hruns : Continuable digestOf ml runs resume.plan)
    (hresume : config.resume = some resume)
    (h : Paused digestOf ml execResult config trace span plan first turn log spent) :
    Continuable digestOf ml (runs ++ [⟨config, trace⟩]) plan := by
  obtain ⟨earlier, hearlier, hbefore⟩ := hruns.batches
  obtain ⟨batches, hbatches, hturns, hfirst⟩ := h.batches
  constructor
  · rw [flatMap_concat]
    refine ⟨_, hearlier.append hbatches ?_, ?_⟩
    · intro b hb b' hb'
      exact Nat.lt_of_lt_of_le (hbefore b hb) (hfirst resume hresume b' hb')
    · intro b hb
      obtain hb | hb := List.mem_append.mp hb
      · exact Nat.lt_of_lt_of_le (hbefore b hb) (h.nextTurn_le hresume)
      · exact hturns b hb
  · rw [flatMap_concat, tools_append]
    intro ran hran
    obtain hran | hran := List.mem_append.mp hran
    · exact hruns.shell ran hran
    · exact h.shell ran hran
  · rw [flatMap_concat]
    obtain ⟨hlast, hlog⟩ | ⟨hnone, resume', hsome, hlog, hturn⟩ := h.boundaries
    · exact ⟨log, by rw [List.getLast?_append, hlast, Option.some_or], hlog⟩
    · rw [hresume] at hsome
      cases hsome
      rw [hnone, List.append_nil, ← hturn, ← hlog]
      exact hruns.boundary

theorem boundaries_idle (config : Config) : Attempt.boundaries digestOf ml ⟨config, []⟩ = [] := by
  rw [Attempt.boundaries]
  cases Attempt.startLog digestOf ml ⟨config, []⟩ <;> rfl

theorem Continuable.idle (h : Continuable digestOf ml runs plan) (config : Config) :
    Continuable digestOf ml (runs ++ [⟨config, []⟩]) plan := by
  have htrace : (runs ++ [(⟨config, []⟩ : Attempt A)]).flatMap Attempt.trace = runs.flatMap Attempt.trace := by
    rw [flatMap_concat, List.append_nil]
  refine ⟨htrace ▸ h.batches, htrace ▸ h.shell, ?_⟩
  rw [flatMap_concat, boundaries_idle, List.append_nil]
  exact h.boundary

theorem Chain.continuable {ledger : List Envelope} (h : Chain digestOf ml execResult molId ledger runs)
    {blobs : Blobs} {candidate : ResumeState}
    (hload : loadResumable digestOf blobs molId (.ok ledger) = .ok candidate) :
    Planned candidate.plan ∧ Continuable digestOf ml runs candidate.plan := by
  refine h.plan_induction ?_ ?_ ?_ hload
  · intro config trace span plan first turn log spent hresume h
    exact h.continuable hresume
  · intro runs config trace resume span plan first turn log spent hruns hresume h
    exact hruns.next hresume h
  · intro runs config plan log h hresume
    exact h.idle config

end Continuable

/-- Over a whole chain, the calls of a turn run in their order and once, and turns never go back. -/
theorem Chain.batches {ledger : List Envelope} {runs : List (Attempt A)}
    (h : Chain digestOf ml execResult molId ledger runs) :
    ∃ batches, Batches (runs.flatMap Attempt.trace) batches := by
  cases h with
  | first env hresume hturns hunused hnew happends =>
    obtain ⟨batches, hbatches, -⟩ := shape_batches (attemptOf_shape digestOf ml execResult env _)
    rw [List.flatMap_singleton]
    exact ⟨batches, hbatches⟩
  | next h hload env hresume hturns hunused happends =>
    obtain ⟨-, hruns⟩ := h.continuable hload
    obtain ⟨earlier, hearlier, hbefore⟩ := hruns.batches
    obtain ⟨batches, hbatches, hfirst⟩ := shape_batches (attemptOf_shape digestOf ml execResult env _)
    rw [flatMap_concat]
    refine ⟨_, hearlier.append hbatches fun b hb b' hb' => ?_⟩
    exact Nat.lt_of_lt_of_le (hbefore b hb) (hfirst _ hresume b' hb')

end Cosmon.Harness
