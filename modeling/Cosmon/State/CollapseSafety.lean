import Cosmon.State.CollapseCommit

namespace Cosmon.State.CollapseSafety

open Cosmon.Core Cosmon.Lib.Runs Cosmon.State.Molecule Cosmon.Core.CollapseContract
open Cosmon.Filestore.Layout Cosmon.Filestore.Receipts Cosmon.State.Collapse
open Cosmon.State.CollapseRuns Cosmon.State.CollapseSerial Cosmon.State.CollapseCommit

variable {env : Env} {s : FileStore} {ops : List Op}

section Sample

theorem fleetStore_sound : Sound sampleEnv fleetStore := by
  have hempty : Housed sampleEnv emptyStore := by
    constructor
    · intro f id h
      cases h
    · intro d id m h
      cases h
  have hhoused : Housed sampleEnv fleetStore := hempty.put rfl
  apply sound_fresh hhoused
  · intro stem
    rfl
  · intro d id m hm
    simp only [fleetStore, FileStore.put] at hm
    split at hm
    · cases hm
      rfl
    · cases hm

theorem fleetStore_migrated : Migrated sampleEnv fleetStore := by
  intro id h
  cases h

def legacyStore : FileStore where
  fleets := []
  records := fun d id => if d = .legacy ∧ id = sampleMol.id then some sampleMol else none
  keys := fun _ => none
  keyed := by
    intro d id m hm
    split at hm
    · rename_i h
      cases hm
      exact h.2.symm
    · cases hm
  listed := by simp

theorem legacyStore_sound : Sound sampleEnv legacyStore := by
  have hrecord : ∀ d id m, legacyStore.records d id = some m → d = .legacy ∧ m = sampleMol := by
    intro d id m hm
    simp only [legacyStore] at hm
    split at hm
    · rename_i h
      exact ⟨h.1, (Option.some.inj hm).symm⟩
    · cases hm
  apply sound_fresh
  · constructor
    · intro f id h
      obtain ⟨m, hm⟩ := Option.isSome_iff_exists.mp h
      cases (hrecord _ _ _ hm).1
    · intro d id m hm
      rw [(hrecord d id m hm).2]
      rfl
  · intro stem
    rfl
  · intro d id m hm
    rw [(hrecord d id m hm).2]
    rfl

end Sample

section Lookups

/-- Where a molecule carries the receipt of a key, the record of the key can
be read, now and later. -/
theorem readCollapseKey_carried (hs : Sound env s) {id : MoleculeId} {receipt : CollapseReceipt}
    (hr : Carries env s id receipt) : ∃ record, s.readCollapseKey env receipt.key = .ok (some record) := by
  obtain ⟨record, hget, hkey, -⟩ := (hs.bound_of_carries hr).2
  exact ⟨record, by simp [FileStore.readCollapseKey, hget, hkey]⟩

end Lookups

section ExactlyOnce

/-- A step takes a keyed call to its commit point under `key`. -/
def CommitsUnder (env : Env) (w : World) (op : Op) (key : IdempotencyKey) : Prop :=
  ∃ p choice c d view updated receipt, op = .advance p choice ∧ c.key = key ∧
    (w.step env op).calls p = .stateSaved c d view updated receipt

/-- The decision table has no refusal for a call on the store as it is. -/
def Admissible (env : Env) (s : FileStore) (c : Call) (lease : Option String) (now : Instant) : Prop :=
  ∃ m record, s.current c.id = some m ∧ s.readCollapseKey env c.key = .ok record ∧
    ∀ refusal, CollapseContract.decide
      (c.decisionInput env ⟨record, m, env.revisionOf m, lease⟩ now) ≠ .refuse refusal

def retried (env : Env) (w : World) (p : Nat) (c : Call) (choice : Choice) (steps : Nat) : World :=
  (.call p c :: List.replicate steps (.advance p choice)).foldl (World.step env) w

/-- A call that has decided to replay, or was admitted under a key that is
bound to it, and everything that becomes of it short of a failure. -/
def Underway : CallState → Prop
  | .decided _ _ _ _ _ reserve => reserve = false
  | .reserved _ _ _ _ => True
  | .stateSaved _ _ _ _ _ => True
  | .finalizing _ _ _ _ => True
  | .returning _ _ result => ∃ k, result = .ok k ∧ k.outcome.isSuccess
  | .ended _ result => ∃ k, result = .ok k ∧ k.outcome.isSuccess
  | .crashed _ => True
  | _ => False

theorem collapsible_ne (status : CollapsibleStatus) : status.status ≠ .collapsed := by
  cases status <;> exact nofun

theorem save_watched {c : Call} {d : Dir} {view : View} {now : Instant}
    (h : Watches env s (.reserved c d view now)) :
    ∃ s', s.saveMoleculeDurable env (c.updated env view now) = .ok s' := by
  obtain ⟨⟨hcurrent, -⟩, hstatus, -⟩ := h
  have hid : (c.updated env view now).id = c.id :=
    (collapsedRecord_id view.mol c.request c.cause (some (c.receipt env view now)) now).1.trans
      (s.keyed _ _ _ hcurrent)
  have hopen : view.mol.status ≠ .collapsed := hstatus ▸ collapsible_ne _
  refine ⟨s.put (c.updated env view now), ?_⟩
  simp [FileStore.saveMoleculeDurable, FileStore.writeMoleculeChecked, hid, hcurrent, refusesSave, hopen]

theorem next_underway {pc : CallState} (hw : Watches env s pc) (h : Underway pc)
    (free : Dir × MoleculeId → Bool) (choice : Choice) :
    Underway (pc.next env s free choice).1 := by
  cases pc with
  | decided c d view second now reserve =>
    cases h
    trivial
  | reserved c d view now =>
    obtain ⟨s', hsave⟩ := save_watched hw
    simp only [CallState.next, hsave]
    trivial
  | stateSaved c d view updated receipt => exact ⟨_, rfl, rfl⟩
  | finalizing c d view receipt => exact ⟨_, rfl, rfl⟩
  | returning c d result => exact h
  | ended c result => exact h
  | crashed c => trivial
  | _ => cases h

theorem step_underway {w : World} (h : Guarded env w) {p : Nat} (hp : Underway (w.calls p)) (op : Op) :
    Underway ((w.step env op).calls p) := by
  apply steps_call hp _ _ _ (step_steps env w op)
  · intro hidle
    rw [hidle] at hp
    exact hp
  · exact next_underway (h.watches p) hp _
  · exact fun _ _ => trivial

def Finishes (env : Env) (choice : Choice) (p : Nat) (c : Call) (w : World) : Prop :=
  ∃ steps k, ((List.replicate steps (.advance p choice)).foldl (World.step env) w).calls p =
    .ended c (.ok k) ∧ k.outcome.isSuccess

variable {w : World} {p : Nat} {c : Call} {d : Dir} {view : View} {choice : Choice}

theorem Finishes.step (h : Finishes env choice p c (w.step env (.advance p choice))) :
    Finishes env choice p c w := by
  obtain ⟨steps, k, h⟩ := h
  exact ⟨steps + 1, k, h⟩

theorem advance_watches (hw : Watches env w.store (w.calls p)) (choice : Choice) :
    Watches env (w.step env (.advance p choice)).store ((w.step env (.advance p choice)).calls p) := by
  rw [advance_calls]
  exact moves_watches hw (next_moves (w.calls p) w.store (fun l => (w.locks l).isNone) choice)

theorem finishes_returning {k : KeyedCollapse} (h : w.calls p = .returning c d (.ok k))
    (hk : k.outcome.isSuccess) : Finishes env choice p c w := by
  apply Finishes.step
  refine ⟨0, k, ?_, hk⟩
  exact (advance_calls env w p choice).trans (by rw [h]; rfl)

theorem finishes_stateSaved {updated : MoleculeData} {receipt : CollapseReceipt}
    (h : w.calls p = .stateSaved c d view updated receipt) : Finishes env choice p c w := by
  apply Finishes.step
  apply finishes_returning ((advance_calls env w p choice).trans (by rw [h]; rfl))
  rfl

theorem finishes_finalizing {receipt : CollapseReceipt}
    (h : w.calls p = .finalizing c d view receipt) : Finishes env choice p c w := by
  apply Finishes.step
  apply finishes_returning ((advance_calls env w p choice).trans (by rw [h]; rfl))
  rfl

theorem finishes_reserved {now : Instant} (h : w.calls p = .reserved c d view now)
    (hw : Watches env w.store (w.calls p)) : Finishes env choice p c w := by
  rw [h] at hw
  obtain ⟨s', hsave⟩ := save_watched hw
  apply Finishes.step
  have hnext := advance_calls env w p choice
  rw [h] at hnext
  simp only [CallState.next, hsave] at hnext
  exact finishes_stateSaved hnext

theorem finishes_decided {second reserve : Bool} {now : Instant}
    (h : w.calls p = .decided c d view second now reserve) (hw : Watches env w.store (w.calls p))
    (hkey : reserve = true → w.store.keys (env.fileStem c.key) = none) :
    Finishes env choice p c w := by
  apply Finishes.step
  have hnext := advance_calls env w p choice
  rw [h] at hnext
  cases reserve with
  | false => exact finishes_reserved hnext (advance_watches hw choice)
  | true =>
    have hnone : w.store.keys (env.fileStem (c.reservation env).key) = none := hkey rfl
    simp only [CallState.next, FileStore.reserveCollapseKey, hnone] at hnext
    exact finishes_reserved hnext (advance_watches hw choice)

theorem finishes_deciding {second : Bool} (h : w.calls p = .deciding c d view second)
    (hw : Watches env w.store (w.calls p))
    (hkey : view.keyRecord = none → w.store.keys (env.fileStem c.key) = none)
    (hdecide : ∀ refusal, CollapseContract.decide (c.decisionInput env view choice.now) ≠ .refuse refusal) :
    Finishes env choice p c w := by
  apply Finishes.step
  have hnext := advance_calls env w p choice
  rw [h] at hnext
  cases hd : CollapseContract.decide (c.decisionInput env view choice.now) with
  | refuse refusal => exact absurd hd (hdecide refusal)
  | replay receipt finalize =>
    cases finalize with
    | true =>
      simp only [CallState.next, hd] at hnext
      exact finishes_finalizing hnext
    | false =>
      simp only [CallState.next, hd] at hnext
      exact finishes_returning hnext rfl
  | admitted reserve =>
    simp only [CallState.next, hd] at hnext
    apply finishes_decided hnext (advance_watches hw choice)
    rintro rfl
    obtain ⟨-, -, -, -, -, hreserve⟩ := decide_admitted hd
    have hstore : (w.step env (.advance p choice)).store = w.store := by
      show ((w.calls p).next env w.store (fun l => (w.locks l).isNone) choice).2 = w.store
      rw [h]
      simp only [CallState.next, hd]
    rw [hstore]
    exact hkey (Option.isNone_iff_eq_none.mp hreserve.symm)

theorem finishes_call {lease : Option String} (hidle : w.calls p = .idle)
    (hfree : w.locks (w.store.moleculeDir c.id, c.id) = none)
    (h : Admissible env w.store c lease choice.now) (hlease : choice.lease = .ok lease) :
    Finishes env choice p c (w.step env (.call p c)) := by
  obtain ⟨m, record, hm, hrecord, hdecide⟩ := h
  -- The world after each read: only the call's own place and its lock differ.
  let w₁ := w.step env (.call p c)
  let w₂ := w₁.step env (.advance p choice)
  let w₃ := w₂.step env (.advance p choice)
  let w₄ := w₃.step env (.advance p choice)
  let w₅ := w₄.step env (.advance p choice)
  have h₁ : w₁.calls p = .waiting c ∧ w₁.store = w.store ∧ w₁.locks = w.locks := by
    simp [w₁, World.step, hidle, World.become, CallState.holds, relock]
  have h₂ : w₂.calls p = .queued c (w.store.moleculeDir c.id) ∧ w₂.store = w.store ∧
      w₂.locks = w.locks := by
    simp [w₂, World.step, World.become, h₁, CallState.next, FileStore.loadMolecule, hm, CallState.holds,
      relock]
  have h₃ : w₃.calls p = .locked c (w.store.moleculeDir c.id) ∧ w₃.store = w.store := by
    simp [w₃, World.step, World.become, h₂, CallState.next, hfree]
  have h₄ : w₄.calls p = .keyRead c (w.store.moleculeDir c.id) record ∧ w₄.store = w.store := by
    simp [w₄, World.step, World.become, h₃, CallState.next, hrecord]
  have h₅ : w₅.calls p = .deciding c (w.store.moleculeDir c.id) ⟨record, m, env.revisionOf m, lease⟩ false ∧
      w₅.store = w.store := by
    simp [w₅, World.step, World.become, h₄, CallState.next, FileStore.loadMoleculeRevisioned, hm, hlease]
  apply Finishes.step
  apply Finishes.step
  apply Finishes.step
  apply Finishes.step
  apply finishes_deciding h₅.1 _ _ hdecide
  · rw [h₅.1, h₅.2]
    exact ⟨hm, rfl⟩
  · intro hnone
    rw [h₅.2]
    exact (readCollapseKey_ok hrecord).1.trans hnone

/-- A call whose receipt is in the state is admissible, whatever became of its
preconditions. -/
theorem settled_admissible (hs : Sound env s) {receipt : CollapseReceipt} (h : Settles env s c receipt)
    (lease : Option String) (now : Instant) : Admissible env s c lease now := by
  obtain ⟨record, hrecord⟩ := readCollapseKey_carried hs h.carries
  rw [h.key] at hrecord
  obtain ⟨hget, -⟩ := readCollapseKey_ok hrecord
  obtain ⟨record', hget', -, hmol, hdigest⟩ := h.boundTo hs
  rw [hget] at hget'
  cases hget'
  obtain ⟨m, hm, hreceipt⟩ := h.carries
  refine ⟨m, some record, hs.housed.current_of_atHome hm, hrecord, fun refusal hrefuse => ?_⟩
  have hagrees : (c.decisionInput env ⟨some record, m, env.revisionOf m, lease⟩ now).RecordAgrees := by
    rintro r ⟨⟩
    exact ⟨hmol, hdigest⟩
  obtain ⟨finalize, hreplay⟩ := decide_of_stateReceipt hagrees hreceipt h.key h.digest
  rw [hreplay] at hrefuse
  cases hrefuse

theorem success_settles {w : World} (h : Inv env w) {p : Nat} {c : Call} {k : KeyedCollapse}
    (hp : w.calls p = .ended c (.ok k)) (hk : k.outcome.isSuccess) :
    ∃ r, k.receipt = some r ∧ Settles env w.store c r := by
  have hknows := h.calls p
  rw [hp] at hknows
  exact (hknows k rfl).success hk

theorem settles_unique (hs : Sound env s) {c c' : Call} {r r' : CollapseReceipt}
    (h : Settles env s c r) (h' : Settles env s c' r') (hkey : c.key = c'.key) : r = r' := by
  have hbound := h.boundTo hs
  have hbound' := h'.boundTo hs
  rw [BoundTo, hkey] at hbound
  have hcarries := h.carries
  rw [(bound_unique hbound hbound').1] at hcarries
  exact carries_unique hcarries h'.carries

theorem write_bound {s' : FileStore} {pc : CallState} (hs : Sound env s) (h : Write env s pc s')
    (hc : pc.call = some c) (hg : Grows env s s') (hne : s' ≠ s) : BoundTo env s' c := by
  cases h with
  | nothing h => exact absurd h hne
  | reserve c' d hc' hd hnone h =>
    rw [hc] at hc'
    cases hc'
    subst h
    exact (hs.reserve c.id (c.digest env) hnone).2.2
  | save c' d view now hc' hd hview hbound h =>
    rw [hc] at hc'
    cases hc'
    exact hg.bound _ _ _ hbound
  | commit c' d record receipt hc' hd hbound hmol h =>
    rw [hc] at hc'
    cases hc'
    exact hg.bound _ _ _ hbound

/-- What a store promises about keyed collapses, whatever they are and however
they, their crashes, other writers and lookups interleave. -/
structure ExactlyOnce (env : Env) (s : FileStore) (ops : List Op) : Prop where
  /-- A key is bound for good, and to one molecule and digest. -/
  bound : ∀ i j key molecule digest, i ≤ j → Bound env (worldAt env s ops i).store key molecule digest →
    Bound env (worldAt env s ops j).store key molecule digest ∧
      ∀ molecule' digest', Bound env (worldAt env s ops j).store key molecule' digest' →
        molecule' = molecule ∧ digest' = digest
  /-- At most one step of the run is a commit point under a key. -/
  transition : ∀ i j op op' key, ops[i]? = some op → ops[j]? = some op' →
    CommitsUnder env (worldAt env s ops i) op key → CommitsUnder env (worldAt env s ops j) op' key → i = j
  /-- All calls that succeed under a key return one receipt. -/
  receipt : ∀ i j p q c c' k k', (worldAt env s ops i).calls p = .ended c (.ok k) →
    (worldAt env s ops j).calls q = .ended c' (.ok k') → c.key = c'.key → k.outcome.isSuccess →
    k'.outcome.isSuccess → ∃ r, k.receipt = some r ∧ k'.receipt = some r
  /-- A call that differs from the binding of its key, now or later, writes nothing. -/
  mismatch : ∀ n j p choice c molecule digest, ops[n]? = some (.advance p choice) →
    ((worldAt env s ops n).calls p).call = some c →
    Bound env (worldAt env s ops j).store c.key molecule digest →
    (molecule ≠ c.id ∨ digest ≠ c.digest env) →
    (worldAt env s ops (n + 1)).store = (worldAt env s ops n).store
  /-- At most one call under a key reports the transition as announced. -/
  announced : ∀ i j p q c c' k k', (worldAt env s ops i).calls p = .ended c (.ok k) →
    (worldAt env s ops j).calls q = .ended c' (.ok k') → c.key = c'.key → k.announced →
    k'.announced → p = q
  /-- A retry that is admissible and finds its lock free succeeds, with the one
  receipt of its key. -/
  retry : ∀ n p c lease now, (worldAt env s ops n).calls p = .idle →
    (worldAt env s ops n).locks ((worldAt env s ops n).store.moleculeDir c.id, c.id) = none →
    Admissible env (worldAt env s ops n).store c lease now →
    ∃ steps k r, (retried env (worldAt env s ops n) p c ⟨.ok lease, now⟩ steps).calls p =
        .ended c (.ok k) ∧ k.outcome.isSuccess ∧ k.receipt = some r ∧
      ∀ q c' k', (retried env (worldAt env s ops n) p c ⟨.ok lease, now⟩ steps).calls q =
        .ended c' (.ok k') → c'.key = c.key → k'.outcome.isSuccess → k'.receipt = some r
  /-- Once a call has written its state, its retries stay admissible. -/
  settled : ∀ n p cm c lease now, (worldAt env s ops n).commits p = some cm → c.key = cm.call.key →
    c.id = cm.call.id → c.digest env = cm.call.digest env →
    Admissible env (worldAt env s ops n).store c lease now
  /-- A call that replays, or is admitted under a key bound to it, can end in
  success only, if no step changes its molecule's record behind its back. -/
  underway : (∀ n op, ops[n]? = some op → Undisturbed env (worldAt env s ops n) op) →
    ∀ i j p, i ≤ j → Underway ((worldAt env s ops i).calls p) → Underway ((worldAt env s ops j).calls p)

theorem transition_once (hs : Sound env s) (hm : Migrated env s) {i j : Nat} {op op' : Op}
    {key : IdempotencyKey} (hi : ops[i]? = some op) (hj : ops[j]? = some op')
    (hcommit : CommitsUnder env (worldAt env s ops i) op key)
    (hcommit' : CommitsUnder env (worldAt env s ops j) op' key) : ¬i < j := by
  intro hlt
  obtain ⟨p, choice, c, d, view, updated, receipt, rfl, rfl, hp⟩ := hcommit
  obtain ⟨q, choice', c', d', view', updated', receipt', rfl, hkey, hq⟩ := hcommit'
  -- After the first commit point the molecule carries its receipt for good.
  have hknows := (run_inv hs ops (i + 1)).calls p
  rw [worldAt_succ hi, hp] at hknows
  rw [← worldAt_succ hi] at hknows
  have hcarries := (run_grows hs ops (Nat.succ_le_of_lt hlt)).carries _ _ hknows.2.carries
  rw [advance_calls] at hq
  obtain ⟨now, hreserved, -⟩ := moves_saved (next_moves _ _ _ _) hq
  apply (run_serial hs hm ops j).reserved_unsettled (run_inv hs ops j) hreserved hcarries
  rw [hkey, hknows.2.key]

/-- Where no molecule is left in the flat layout alone, keyed collapses happen
exactly once. -/
theorem collapses_once (hs : Sound env s) (hm : Migrated env s) (ops : List Op) :
    ExactlyOnce env s ops where
  bound := by
    intro i j key molecule digest hij hbound
    have hlater := (run_grows hs ops hij).bound _ _ _ hbound
    exact ⟨hlater, fun _ _ h => bound_unique h hlater⟩
  transition := by
    intro i j op op' key hi hj hcommit hcommit'
    have hij := transition_once hs hm hi hj hcommit hcommit'
    have hji := transition_once hs hm hj hi hcommit' hcommit
    omega
  receipt := by
    intro i j p q c c' k k' hp hq hkey hk hk'
    have hinv := run_inv hs ops (max i j)
    obtain ⟨r, hr, hsettles⟩ := success_settles hinv (run_ended (Nat.le_max_left i j) hp) hk
    obtain ⟨r', hr', hsettles'⟩ := success_settles hinv (run_ended (Nat.le_max_right i j) hq) hk'
    rw [settles_unique hinv.sound hsettles hsettles' hkey] at hr
    exact ⟨r', hr, hr'⟩
  mismatch := by
    intro n j p choice c molecule digest hop hc hbound hne
    by_contra hchanged
    have hinv := run_inv hs ops n
    have hwrite := moves_write hinv.sound (hinv.calls p)
      (next_moves _ _ (fun l => ((worldAt env s ops n).locks l).isNone) choice)
    have hgrows := (step_inv hinv (.advance p choice)).2
    rw [worldAt_succ hop] at hchanged
    have hown := write_bound hinv.sound hwrite hc hgrows hchanged
    -- Both bindings hold from the later of the two moments on.
    have hstep : BoundTo env (worldAt env s ops (n + 1)).store c := by
      rw [worldAt_succ hop]
      exact hown
    have hown' := (run_grows hs ops (Nat.le_max_left (n + 1) j)).bound _ _ _ hstep
    have hbound' := (run_grows hs ops (Nat.le_max_right (n + 1) j)).bound _ _ _ hbound
    obtain ⟨hmol, hdigest⟩ := bound_unique hbound' hown'
    exact hne.elim (fun h => h hmol) (fun h => h hdigest)
  announced := by
    intro i j p q c c' k k' hp hq hkey hk hk'
    apply (run_serial hs hm ops (max i j)).told p q c.key
    · rw [run_ended (Nat.le_max_left i j) hp]
      exact if_pos hk
    · rw [run_ended (Nat.le_max_right i j) hq, hkey]
      exact if_pos hk'
  retry := by
    intro n p c lease now hidle hfree hadmissible
    have hinv := run_inv hs ops n
    have hfinishes : Finishes env ⟨.ok lease, now⟩ p c _ := finishes_call hidle hfree hadmissible rfl
    obtain ⟨steps, k, hended, hk⟩ := hfinishes
    have hinv' : Inv env (retried env (worldAt env s ops n) p c ⟨.ok lease, now⟩ steps) := by
      rw [retried, ← stateAt_length]
      exact stateAt_preserves _ (fun _ op _ h => (step_inv h op).1) (Nat.zero_le _) hinv
    obtain ⟨r, hr, hsettles⟩ := success_settles hinv' hended hk
    refine ⟨steps, k, r, hended, hk, hr, fun q c' k' hq hkey hk' => ?_⟩
    obtain ⟨r', hr', hsettles'⟩ := success_settles hinv' hq hk'
    rw [hr', settles_unique hinv'.sound hsettles' hsettles hkey]
  settled := by
    intro n p cm c lease now hcm hkey hid hdigest
    have hinv := run_inv hs ops n
    obtain ⟨hsettles, -⟩ := hinv.commits p cm hcm
    have hsame : Settles env (worldAt env s ops n).store c cm.receipt :=
      ⟨hsettles.key.trans hkey.symm, hsettles.digest.trans hdigest.symm, hid ▸ hsettles.carries⟩
    exact settled_admissible hinv.sound hsame lease now
  underway := by
    intro hrun i j p hij h
    apply worldAt_preserves (P := fun w => Underway (w.calls p)) _ hij h
    intro n op _ h
    exact step_underway (run_guarded hrun n) h op

/-- A call killed after its commit point, and its retry. -/
def retryOps : List Op :=
  [.call 0 sampleCall] ++ List.replicate 7 (.advance 0 {}) ++ [.crash 0, .call 1 sampleCall] ++
    List.replicate 7 (.advance 1 {})

theorem collapses_once_retried :
    ExactlyOnce sampleEnv fleetStore retryOps ∧
      ∃ k, (worldAt sampleEnv fleetStore retryOps 17).calls 1 = .ended sampleCall (.ok k) ∧
        k.outcome = .replayed ∧ k.announced :=
  ⟨collapses_once fleetStore_sound fleetStore_migrated retryOps, _, rfl, rfl, rfl⟩

/-- A call paused after its commit point, and an identical one meanwhile. -/
def twoLocksOps : List Op :=
  [.call 0 sampleCall] ++ List.replicate 7 (.advance 0 {}) ++ [.call 1 sampleCall] ++
    List.replicate 7 (.advance 1 {}) ++ List.replicate 2 (.advance 0 {})

/-- In the flat layout the save of a call moves its molecule to another
directory, and with it the lock the next call takes: both announce. -/
theorem collapses_not_once :
    Sound sampleEnv legacyStore ∧ ¬ExactlyOnce sampleEnv legacyStore twoLocksOps ∧
      ∃ k k', (worldAt sampleEnv legacyStore twoLocksOps 18).calls 0 = .ended sampleCall (.ok k) ∧
        (worldAt sampleEnv legacyStore twoLocksOps 18).calls 1 = .ended sampleCall (.ok k') ∧
        k.announced ∧ k'.announced := by
  refine ⟨legacyStore_sound, fun h => ?_, _, _, rfl, rfl, rfl, rfl⟩
  have hsame := h.announced 18 18 0 1 sampleCall sampleCall _ _ rfl rfl rfl rfl rfl
  cases hsame

end ExactlyOnce

end Cosmon.State.CollapseSafety
