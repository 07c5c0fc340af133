import Cosmon.Runtime.TeardownStages

namespace Cosmon.Runtime.TeardownFrames

open Cosmon.Lib.Effects.Effect Cosmon.Runtime.Resident Cosmon.Runtime.ResidentLoop Cosmon.Runtime.TeardownStages

section Decisions

variable {id : String}

def concerns (id : String) (d : Decision) : Bool := d.moleculeId = id

theorem doneSweep_cons (merged : Finset String) (m : EnsembleMolecule) (rest : List EnsembleMolecule) :
    (m.status = "completed" ∧ m.id ∉ merged ∧ doneSweep merged (m :: rest) =
      ((doneSweep (insert m.id merged) rest).1, .done m.id :: (doneSweep (insert m.id merged) rest).2)) ∨
    doneSweep merged (m :: rest) = doneSweep merged rest := by
  rw [doneSweep]
  split
  · next h =>
    split
    · exact .inr rfl
    · split
      · exact .inr rfl
      · split
        · exact .inr rfl
        · exact .inl ⟨h.1, h.2, rfl⟩
  · exact .inr rfl

theorem subset_doneSweep (merged : Finset String) (molecules : List EnsembleMolecule) :
    merged ⊆ (doneSweep merged molecules).1 := by
  induction molecules generalizing merged with
  | nil => exact Finset.Subset.refl _
  | cons m rest ih =>
    obtain ⟨-, -, heq⟩ | heq := doneSweep_cons merged m rest
    · rw [heq]
      exact (Finset.subset_insert _ _).trans (ih _)
    · rw [heq]
      exact ih _

theorem doneSweep_concerns (id : String) (merged : Finset String) (molecules : List EnsembleMolecule) :
    (doneSweep merged molecules).2.countP (concerns id) ≤ 1 ∧
      (id ∈ merged → (doneSweep merged molecules).2.countP (concerns id) = 0) ∧
      (0 < (doneSweep merged molecules).2.countP (concerns id) →
        id ∈ (doneSweep merged molecules).1 ∧ ∃ m ∈ molecules, m.id = id ∧ m.status = "completed") := by
  induction molecules generalizing merged with
  | nil => exact ⟨Nat.zero_le 1, fun _ => rfl, fun h => absurd h (Nat.lt_irrefl 0)⟩
  | cons m rest ih =>
    obtain ⟨hcompleted, hnew, heq⟩ | heq := doneSweep_cons merged m rest
    · rw [heq]
      obtain ⟨hle, hzero, hmark⟩ := ih (insert m.id merged)
      by_cases hid : m.id = id
      · subst hid
        have hrest := hzero (Finset.mem_insert_self _ _)
        rw [List.countP_cons_of_pos (by simp [concerns, Decision.moleculeId]), hrest]
        refine ⟨Nat.le_refl 1, fun hmem => absurd hmem hnew, fun _ => ⟨?_, m, List.mem_cons_self, rfl, hcompleted⟩⟩
        exact subset_doneSweep _ rest (Finset.mem_insert_self _ _)
      · rw [List.countP_cons_of_neg (by simp [concerns, Decision.moleculeId, hid])]
        refine ⟨hle, fun hmem => hzero (Finset.mem_insert_of_mem hmem), fun hpos => ?_⟩
        obtain ⟨hin, m', hm', hprops⟩ := hmark hpos
        exact ⟨hin, m', List.mem_cons_of_mem m hm', hprops⟩
    · rw [heq]
      obtain ⟨hle, hzero, hmark⟩ := ih merged
      refine ⟨hle, hzero, fun hpos => ?_⟩
      obtain ⟨hin, m', hm', hprops⟩ := hmark hpos
      exact ⟨hin, m', List.mem_cons_of_mem m hm', hprops⟩

theorem countP_concerns_tackleSweep (s : ReadyFrontierScheduler) (cleared : List String) (tackled : Finset String)
    (molecules : List EnsembleMolecule) :
    (tackleSweep s cleared tackled molecules).2.countP (concerns id) =
      (tackleSweep s cleared tackled molecules).2.countP (Decision.tackles id) := by
  apply List.countP_congr
  intro d hd
  obtain ⟨m, -, rfl, -⟩ := mem_tackleSweep hd
  rfl

theorem nextDecisions_concerns (id : String) (s : ReadyFrontierScheduler) (snapshot : EnsembleSnapshot) :
    (s.nextDecisions snapshot).2.countP (concerns id) ≤ 1 ∧
      (id ∈ s.tackled → id ∈ (s.nextDecisions snapshot).1.tackled) ∧
      (id ∈ s.merged → id ∈ (s.nextDecisions snapshot).1.merged) ∧
      (id ∈ s.tackled → id ∈ s.merged → (s.nextDecisions snapshot).2.countP (concerns id) = 0) ∧
      (.done id ∈ (s.nextDecisions snapshot).2 →
        id ∈ (s.nextDecisions snapshot).1.tackled ∧ id ∈ (s.nextDecisions snapshot).1.merged) := by
  have hmarked : ∀ {i}, i ∈ markMoved s.tackled snapshot.molecules → i ∈ (s.nextDecisions snapshot).1.tackled :=
    fun h => subset_tackleSweep _ h
  have hcount : (s.nextDecisions snapshot).2.countP (concerns id) =
      (doneSweep s.merged snapshot.molecules).2.countP (concerns id) +
        (tackleSweep s snapshot.cleared (markMoved s.tackled snapshot.molecules) snapshot.molecules).2.countP
          (Decision.tackles id) := by
    rw [← countP_concerns_tackleSweep, ← List.countP_append]
    rfl
  obtain ⟨hle, hzero, hmark⟩ := doneSweep_concerns id s.merged snapshot.molecules
  have hmoved : 0 < (doneSweep s.merged snapshot.molecules).2.countP (concerns id) →
      id ∈ markMoved s.tackled snapshot.molecules := by
    intro hpos
    obtain ⟨-, m, hm, hid, hcompleted⟩ := hmark hpos
    exact mem_markMoved.mpr (.inr ⟨m, hm, hid, by rw [hcompleted]; decide⟩)
  have hquiet : id ∈ markMoved s.tackled snapshot.molecules →
      (tackleSweep s snapshot.cleared (markMoved s.tackled snapshot.molecules) snapshot.molecules).2.countP
        (Decision.tackles id) = 0 := countP_tackleSweep_marked _
  have htackles : (tackleSweep s snapshot.cleared (markMoved s.tackled snapshot.molecules)
      snapshot.molecules).2.countP (Decision.tackles id) ≤ 1 := countP_tackleSweep_le id snapshot.molecules
  refine ⟨?_, fun h => hmarked (mem_markMoved.mpr (.inl h)), fun h => subset_doneSweep _ _ h, fun ht hm => ?_,
    fun hdone => ?_⟩
  · rw [hcount]
    obtain hdones | hdones := Nat.eq_zero_or_pos ((doneSweep s.merged snapshot.molecules).2.countP (concerns id))
    · rw [hdones, Nat.zero_add]
      exact htackles
    · rw [hquiet (hmoved hdones)]
      exact hle
  · rw [hcount, hzero hm, hquiet (mem_markMoved.mpr (.inl ht))]
  · obtain hin | hin := mem_nextDecisions hdone
    · have hconcerns : concerns id (.done id) = true := by simp [concerns, Decision.moleculeId]
      have hpos := List.countP_pos_iff.mpr ⟨_, hin, hconcerns⟩
      exact ⟨hmarked (hmoved hpos), (hmark hpos).1⟩
    · obtain ⟨m, -, hd, -⟩ := mem_tackleSweep hin
      cases hd

end Decisions

section Frames

variable {σ δ α β : Type} {id : String}

/-- Nothing has changed for a molecule. -/
structure Elsewhere (id : String) (l l' : Loop σ δ) : Prop where
  tackled : id ∈ l'.scheduler.tackled ↔ id ∈ l.scheduler.tackled
  merged : id ∈ l'.scheduler.merged ↔ id ∈ l.scheduler.merged
  retries : ∀ r, (id, r) ∈ l'.teardownRetries ↔ (id, r) ∈ l.teardownRetries
  events : ∃ others, l'.events = l.events ++ others ∧ ∀ e ∈ others, about id e = false ∧ ∀ ids, e ≠ .sighted ids

instance : Std.Refl (Elsewhere id : Loop σ δ → Loop σ δ → Prop) where
  refl l := ⟨Iff.rfl, Iff.rfl, fun _ => Iff.rfl, [], (List.append_nil _).symm, by simp⟩

instance : IsTrans (Loop σ δ) (Elsewhere id) where
  trans l l₁ l₂ h₁ h₂ := by
    obtain ⟨others₁, heq₁, hothers₁⟩ := h₁.events
    obtain ⟨others₂, heq₂, hothers₂⟩ := h₂.events
    refine ⟨h₂.tackled.trans h₁.tackled, h₂.merged.trans h₁.merged,
      fun r => (h₂.retries r).trans (h₁.retries r), others₁ ++ others₂, ?_, ?_⟩
    · rw [heq₂, heq₁, List.append_assoc]
    · rw [List.forall_mem_append]
      exact ⟨hothers₁, hothers₂⟩

theorem Elsewhere.silent {l l' : Loop σ δ} (htackled : id ∈ l'.scheduler.tackled ↔ id ∈ l.scheduler.tackled)
    (hmerged : id ∈ l'.scheduler.merged ↔ id ∈ l.scheduler.merged)
    (hretries : ∀ r, (id, r) ∈ l'.teardownRetries ↔ (id, r) ∈ l.teardownRetries) (hevents : l'.events = l.events) :
    Elsewhere id l l' :=
  ⟨htackled, hmerged, hretries, [], hevents.trans (List.append_nil _).symm, List.forall_mem_nil _⟩

theorem Elsewhere.of_books {l l' : Loop σ δ} (hscheduler : l'.scheduler = l.scheduler)
    (hretries : l'.teardownRetries = l.teardownRetries) (hevents : l'.events = l.events) : Elsewhere id l l' := by
  refine .silent ?_ ?_ (fun r => ?_) hevents
  · rw [hscheduler]
  · rw [hscheduler]
  · rw [hretries]

theorem keeps_ask (f : σ → α × σ) : Keeps (Elsewhere id) (ask f : Run σ δ α) := fun _ => .of_books rfl rfl rfl

theorem keeps_call (f : σ → Except ResidentError α × σ) : Keeps (Elsewhere id) (call f : Run σ δ α) :=
  fun _ => .of_books rfl rfl rfl

theorem keeps_count (f : RunSummary → RunSummary) : Keeps (Elsewhere id) (count f : Run σ δ Unit) :=
  fun _ => .of_books rfl rfl rfl

theorem keeps_current : Keeps (Elsewhere id) (current : Run σ δ (Loop σ δ)) := keeps_read _

theorem keeps_emit {e : Event} (habout : about id e = false) (hsight : ∀ ids, e ≠ .sighted ids) :
    Keeps (Elsewhere id) (emit e : Run σ δ Unit) :=
  fun _ => ⟨Iff.rfl, Iff.rfl, fun _ => Iff.rfl, [e], rfl, by simpa using ⟨habout, hsight⟩⟩

theorem keeps_forgetDispatch {i : String} (h : i ≠ id) : Keeps (Elsewhere id) (forgetDispatch i : Run σ δ Unit) := by
  refine Keeps.bind (keeps_modify fun l => .silent ?_ ?_ (fun _ => Iff.rfl) rfl)
    fun _ => keeps_emit (by simpa [about] using h) (by simp)
  · simp [ReadyFrontierScheduler.forgetDispatch, Ne.symm h]
  · simp [ReadyFrontierScheduler.forgetDispatch, Ne.symm h]

theorem keeps_putRetry {i : String} (h : i ≠ id) (entry : TeardownRetry) :
    Keeps (Elsewhere id) (putRetry i entry : Run σ δ Unit) := by
  refine keeps_modify fun l => .silent Iff.rfl Iff.rfl (fun r => ?_) rfl
  simp [Ne.symm h]

theorem keeps_removeRetry {i : String} (h : i ≠ id) : Keeps (Elsewhere id) (removeRetry i : Run σ δ Unit) := by
  refine keeps_modify fun l => .silent Iff.rfl Iff.rfl (fun r => ?_) rfl
  simp [Ne.symm h]

section Parts

variable (host : Host σ δ) (config : RuntimeLoopConfig)

theorem keeps_writeTick {action basis : String} {before after error : Option String} :
    Keeps (Elsewhere id) (writeTick host action basis before after error : Run σ δ Unit) := keeps_call _

theorem keeps_surfaceTeardownBlock {moleculeId : String} {attempts : Nat} {reason : String} :
    Keeps (Elsewhere id) (surfaceTeardownBlock host moleculeId attempts reason : Run σ δ Unit) := by
  apply keeps_each
  intro p _
  refine Keeps.bind (keeps_ask _) fun result => ?_
  cases result with
  | ok _ => exact keeps_pure ()
  | error e => exact keeps_writeTick host

theorem keeps_retryEntry (moleculeId : String) :
    Keeps (Elsewhere id) (retryEntry host moleculeId : Run σ δ TeardownRetry) := by
  refine Keeps.bind keeps_current fun l => ?_
  cases l.teardownRetries.lookup moleculeId with
  | some entry => exact keeps_pure entry
  | none => exact Keeps.bind (keeps_ask _) fun now => keeps_pure _

theorem keeps_parkOrBackOff {moleculeId : String} (h : moleculeId ≠ id) {reason hashAfter : String} :
    Keeps (Elsewhere id) (parkOrBackOffTeardown host config moleculeId reason hashAfter : Run σ δ Bool) := by
  refine Keeps.bind (keeps_retryEntry host moleculeId) fun entry => keeps_ite (keeps_pure false) (keeps_ite ?_ ?_)
  · exact Keeps.bind (keeps_ask _) fun now => Keeps.bind (keeps_putRetry h _) fun _ =>
      Keeps.bind (keeps_writeTick host) fun _ => keeps_pure false
  · exact Keeps.bind (keeps_putRetry h _) fun _ => Keeps.bind (keeps_writeTick host) fun _ =>
      Keeps.bind (keeps_surfaceTeardownBlock host) fun _ => keeps_pure true

theorem keeps_vetoed {d : Decision} (h : d.moleculeId ≠ id) (hashBefore invocation : String) :
    Keeps (Elsewhere id) (vetoed host hashBefore invocation d : Run σ δ Bool) := by
  cases d with
  | done i => exact keeps_pure false
  | tackle i adapter base harness =>
    exact Keeps.bind (keeps_ask _) fun verdict => keeps_ite (keeps_pure false)
      (Keeps.bind (keeps_ask _) fun hash => Keeps.bind (keeps_call _) fun _ =>
        Keeps.bind (keeps_forgetDispatch h) fun _ => keeps_pure true)

theorem keeps_drifts [DecidableEq δ] (snapshot : EnsembleSnapshot) (d : Decision) :
    Keeps (Elsewhere id) (drifts host snapshot d : Run σ δ Bool) := by
  refine Keeps.bind (keeps_ask _) fun launched => Keeps.bind keeps_current fun l =>
    keeps_ite (keeps_pure false) (Keeps.bind (keeps_ask _) fun surface => keeps_ite ?_ ?_)
  · exact Keeps.bind (keeps_call _) fun _ => keeps_pure true
  · exact Keeps.bind (keeps_writeTick host) fun _ =>
      Keeps.bind (keeps_modify fun l => .of_books rfl rfl rfl) fun _ =>
        Keeps.bind (keeps_count _) fun _ => keeps_pure false

theorem keeps_settle {d : Decision} (h : d.moleculeId ≠ id) (hashAfter : String) (result : Except ResidentError Unit) :
    Keeps (Elsewhere id) (settle host config hashAfter d result : Run σ δ Unit) := by
  cases d with
  | tackle i adapter base harness =>
    cases result with
    | ok _ => exact keeps_count _
    | error e => exact keeps_ite (keeps_count _) (keeps_forgetDispatch h)
  | done i =>
    cases result with
    | ok _ => exact Keeps.bind (keeps_count _) fun _ => keeps_removeRetry h
    | error e =>
      refine Keeps.bind (keeps_parkOrBackOff host config h) fun parked => keeps_ite ?_ (keeps_pure ())
      have hi : i ≠ id := h
      exact Keeps.bind (keeps_emit (by simpa [about] using hi) (by simp)) fun _ => keeps_count _

theorem keeps_enact [DecidableEq δ] {d : Decision} (h : d.moleculeId ≠ id) (snapshot : EnsembleSnapshot)
    (hashBefore : String) :
    Keeps (Elsewhere id) (enact host config snapshot hashBefore d : Run σ δ (Option Halt)) := by
  refine Keeps.bind (keeps_drifts host snapshot d) fun drifted => keeps_ite (keeps_pure _)
    (Keeps.bind (keeps_ask _) fun invocation => Keeps.bind (keeps_vetoed host h hashBefore invocation) fun veto =>
      keeps_ite (keeps_pure _) (Keeps.bind ?_ fun result => Keeps.bind (keeps_ask _) fun hashAfter =>
        keeps_ite (keeps_pure _) (Keeps.bind (keeps_call _) fun _ =>
          Keeps.bind (keeps_settle host config h hashAfter result) fun _ => keeps_pure _)))
  exact Keeps.bind (keeps_ask _) fun result =>
    Keeps.bind (keeps_emit (by simpa [about] using h) (by simp)) fun _ => keeps_pure result

theorem keeps_operatorSignal : Keeps (Elsewhere id) (operatorSignal host : Run σ δ (Option ExitReason)) :=
  Keeps.bind (keeps_writeTick host) fun _ => keeps_pure _

theorem keeps_overBudget : Keeps (Elsewhere id) (overBudget host config : Run σ δ Bool) := by
  unfold overBudget
  cases config.maxRuntime with
  | none => exact keeps_pure false
  | some budget => exact Keeps.bind (keeps_ask _) fun elapsed => keeps_pure _

theorem keeps_readFailed (hashBefore : String) (e : ResidentError) :
    Keeps (Elsewhere id) (readFailed host hashBefore e : Run σ δ (Option ExitReason)) := by
  refine keeps_ite (keeps_operatorSignal host) (Keeps.bind (keeps_ask _) fun down =>
    keeps_ite (keeps_operatorSignal host) ?_)
  exact Keeps.bind (keeps_writeTick host) fun _ => Keeps.bind (keeps_ask _) fun _ => keeps_pure none

theorem keeps_closeTick : Keeps (Elsewhere id) (closeTick host : Run σ δ (Option ExitReason)) :=
  Keeps.bind (keeps_count _) fun _ => Keeps.bind (keeps_ask _) fun _ => keeps_pure none

theorem keeps_reap (hashAfter : String) : Keeps (Elsewhere id) (reap host hashAfter : Run σ δ Unit) := by
  refine Keeps.bind (keeps_ask _) fun reaped => Keeps.bind (keeps_ask _) fun hashPost => ?_
  cases reaped with
  | ok n => exact Keeps.bind (keeps_writeTick host) fun _ => keeps_count _
  | error e => exact keeps_writeTick host

theorem keeps_idle (snapshot : EnsembleSnapshot) (hashBefore : String) :
    Keeps (Elsewhere id) (idle host snapshot hashBefore : Run σ δ (Option ExitReason)) := by
  refine Keeps.bind (keeps_ask _) fun hashAfter => Keeps.bind (keeps_writeTick host) fun _ =>
    keeps_ite (keeps_pure _) (Keeps.bind ?_ fun _ => keeps_closeTick host)
  refine Keeps.bind (keeps_modify fun l => .of_books rfl rfl rfl) fun _ => Keeps.bind keeps_current fun l =>
    keeps_ite ?_ (keeps_pure ())
  exact Keeps.bind (keeps_reap host hashAfter) fun _ => keeps_modify fun l => .of_books rfl rfl rfl

theorem keeps_launch : Keeps (Elsewhere id) (launch host : Run σ δ Unit) :=
  Keeps.bind (keeps_call _) fun _ => Keeps.bind (keeps_ask _) fun _ => Keeps.bind (keeps_ask _) fun _ =>
    Keeps.bind (keeps_modify fun _ => .of_books rfl rfl rfl) fun _ =>
      Keeps.bind (keeps_writeTick host) fun _ => keeps_call _

end Parts

end Frames

end Cosmon.Runtime.TeardownFrames
