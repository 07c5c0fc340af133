import Cosmon.State.CollapseRuns

namespace Cosmon.State.CollapseSerial

open Cosmon.State.Molecule Cosmon.Core.CollapseContract
open Cosmon.Filestore.Layout Cosmon.Filestore.Receipts Cosmon.State.Collapse
open Cosmon.State.CollapseRuns

variable {env : Env} {s s' : FileStore} {id : MoleculeId}
variable {free : Dir × MoleculeId → Bool} {choice : Choice} {pc : CallState}
variable {next : CallState × FileStore}

def Migrated (env : Env) (s : FileStore) : Prop :=
  ∀ id, (s.records .legacy id).isSome → (atHome env s id).isSome

theorem Migrated.mono (hg : Grows env s s') (h : Migrated env s) : Migrated env s' := by
  intro id hid
  rw [hg.legacy] at hid
  exact hg.present id (h id hid)

theorem Migrated.moleculeDir (h : Migrated env s) (hs : Housed env s) {m : MoleculeData}
    (hm : s.current id = some m) : s.moleculeDir id = .fleet (env.home id) := by
  apply hs.moleculeDir_of_atHome
  rw [hs.current_eq] at hm
  cases hhome : atHome env s id with
  | some m' => rfl
  | none =>
    rw [hhome, Option.none_or] at hm
    have := h id (by rw [hm]; rfl)
    rw [hhome] at this
    exact this

/-- The write a step of a call makes, with what the call knows when it makes
it. A call that writes holds its molecule's lock. -/
inductive Write (env : Env) (s : FileStore) (pc : CallState) (s' : FileStore) : Prop where
  | nothing (h : s' = s)
  | reserve (c : Call) (d : Dir) (hc : pc.call = some c) (hd : pc.holds = some (d, c.id))
      (hnone : s.keys (env.fileStem c.key) = none) (h : s' = s.setKey env (c.reservation env))
  | save (c : Call) (d : Dir) (view : View) (now : Instant) (hc : pc.call = some c)
      (hd : pc.holds = some (d, c.id)) (hview : ViewKnown env s c view) (hbound : BoundTo env s c)
      (h : s.saveMoleculeDurable env (c.updated env view now) = .ok s')
  | commit (c : Call) (d : Dir) (record : CollapseKeyRecord) (receipt : CollapseReceipt)
      (hc : pc.call = some c) (hd : pc.holds = some (d, c.id)) (hbound : BoundTo env s c)
      (hmol : record.molecule = c.id) (h : s' = s.commitCollapseKey env (record.committed receipt))

theorem moves_write (hs : Sound env s) (hk : Knows env s pc) (h : Moves env s free choice pc next) :
    Write env s pc next.2 := by
  cases h with
  | reserves c d view second now hnone => exact .reserve c d rfl rfl hnone rfl
  | saves c d view now s' hsave => exact .save c d view now rfl rfl hk.1 hk.2.2 hsave
  | commits c d view updated receipt =>
    exact .commit c d (c.reservation env) receipt rfl rfl hk.1 rfl rfl
  | finishes c d view receipt =>
    apply Write.commit c d (view.keyRecord.getD (c.reservation env)) receipt rfl rfl
      (hk.1.boundTo hs) _ rfl
    cases hview : view.keyRecord with
    | none => rfl
    | some r => exact (hk.2 r hview).2.1
  | _ => exact .nothing rfl

def Done (env : Env) (s : FileStore) (c : Call) : Prop :=
  ∃ record, s.keys (env.fileStem c.key) = some record ∧ record.molecule = c.id ∧
    record.phase = .committed

/-- Nothing new was settled for molecule `id`. -/
structure Spares (env : Env) (s s' : FileStore) (id : MoleculeId) : Prop where
  carries : ∀ r, Carries env s' id r → Carries env s id r
  done : ∀ c : Call, c.id = id → Done env s' c → Done env s c

theorem Spares.refl (env : Env) (s : FileStore) (id : MoleculeId) : Spares env s s id :=
  ⟨fun _ h => h, fun _ _ h => h⟩

theorem done_setKey {record : CollapseKeyRecord} {c : Call}
    (h : Done env (s.setKey env record) c) :
    Done env s c ∨ (record.molecule = c.id ∧ record.phase = .committed) := by
  obtain ⟨r, hr, hmol, hphase⟩ := h
  by_cases hstem : env.fileStem c.key = env.fileStem record.key
  · rw [hstem, setKey_self] at hr
    cases hr
    exact .inr ⟨hmol, hphase⟩
  · exact .inl ⟨r, (Function.update_of_ne hstem _ _).symm.trans hr, hmol, hphase⟩

theorem Write.spares {pc : CallState} (h : Write env s pc s')
    (hid : ∀ c d, pc.call = some c → pc.holds = some (d, c.id) → c.id ≠ id) : Spares env s s' id := by
  cases h with
  | nothing h =>
    subst h
    exact .refl env s' id
  | reserve c d hc hd hnone h =>
    subst h
    refine ⟨fun _ hr => hr, fun c' _ hdone => (done_setKey hdone).resolve_right ?_⟩
    rintro ⟨-, hphase⟩
    cases hphase
  | save c d view now hc hd hview hbound h =>
    obtain ⟨rfl, -⟩ := writeMoleculeChecked_ok h
    refine ⟨fun r hr => ?_, fun c' _ hdone => hdone⟩
    obtain ⟨m, hm, hr⟩ := hr
    have hne : id ≠ (c.updated env view now).id := by
      rw [(updated_id hview now).1]
      exact (hid c d hc hd).symm
    exact ⟨m, (atHome_put_of_ne hne).symm.trans hm, hr⟩
  | commit c d record receipt hc hd hbound hmol h =>
    subst h
    refine ⟨fun _ hr => hr, fun c' hc' hdone => (done_setKey hdone).resolve_right ?_⟩
    rintro ⟨hmol', -⟩
    exact hid c d hc hd (hmol.symm.trans (hmol'.trans hc'))

theorem spares_put {data : MoleculeData} (hd : data.fleetId = env.home data.id)
    (hreceipt : ∀ r, data.collapseReceipt = some r → Carries env s data.id r) (id : MoleculeId) :
    Spares env s (s.put data) id := by
  refine ⟨fun r hr => ?_, fun _ _ hdone => hdone⟩
  obtain ⟨m, hm, hr⟩ := hr
  by_cases hid : id = data.id
  · subst hid
    rw [atHome_put hd] at hm
    cases hm
    exact hreceipt r hr
  · exact ⟨m, (atHome_put_of_ne hid).symm.trans hm, hr⟩

def KeyFresh (env : Env) (s : FileStore) (c : Call) (record : Option CollapseKeyRecord) : Prop :=
  Done env s c → ∃ r, record = some r ∧ r.phase = .committed

def StateFresh (env : Env) (s : FileStore) (c : Call) (view : View) : Prop :=
  ∀ r, Carries env s c.id r → view.mol.collapseReceipt = some r

/-- What the dispatch lock protects: until a call commits its key, nobody else
settles its molecule behind its back. -/
def Fresh (env : Env) (s : FileStore) : CallState → Prop
  | .keyRead c _ record => KeyFresh env s c record
  | .deciding c _ view _ => KeyFresh env s c view.keyRecord ∧ StateFresh env s c view
  | .decided c _ view _ _ _ => KeyFresh env s c view.keyRecord ∧ StateFresh env s c view
  | .outrun c _ view _ => StateFresh env s c view
  | .reserved c _ view _ => ¬Done env s c ∧ StateFresh env s c view
  | .stateSaved c _ _ _ _ => ¬Done env s c
  | .finalizing c _ _ _ => ¬Done env s c
  | _ => True

theorem Fresh.spared {pc : CallState} (h : Fresh env s pc)
    (hsp : ∀ d id, pc.holds = some (d, id) → Spares env s s' id) : Fresh env s' pc := by
  have hkey : ∀ c record, Spares env s s' c.id → KeyFresh env s c record → KeyFresh env s' c record :=
    fun c record hsp hf hdone => hf (hsp.done c rfl hdone)
  have hstate : ∀ c view, Spares env s s' c.id → StateFresh env s c view → StateFresh env s' c view :=
    fun c view hsp hf r hr => hf r (hsp.carries r hr)
  cases pc with
  | idle | waiting _ | queued _ _ | locked _ _ | returning _ _ _ | ended _ _ | crashed _ => trivial
  | keyRead c d record => exact hkey c record (hsp d c.id rfl) h
  | deciding c d view second =>
    exact ⟨hkey c _ (hsp d c.id rfl) h.1, hstate c view (hsp d c.id rfl) h.2⟩
  | decided c d view second now reserve =>
    exact ⟨hkey c _ (hsp d c.id rfl) h.1, hstate c view (hsp d c.id rfl) h.2⟩
  | outrun c d view second => exact hstate c view (hsp d c.id rfl) h
  | reserved c d view now =>
    exact ⟨fun hdone => h.1 ((hsp d c.id rfl).done c rfl hdone), hstate c view (hsp d c.id rfl) h.2⟩
  | stateSaved c d view updated receipt => exact fun hdone => h ((hsp d c.id rfl).done c rfl hdone)
  | finalizing c d view receipt => exact fun hdone => h ((hsp d c.id rfl).done c rfl hdone)

theorem keyFresh_read {c : Call} {record : Option CollapseKeyRecord}
    (h : s.readCollapseKey env c.key = .ok record) : KeyFresh env s c record := by
  rintro ⟨r, hr, -, hphase⟩
  rw [(readCollapseKey_ok h).1] at hr
  exact ⟨r, hr, hphase⟩

theorem KeyFresh.not_done {c : Call} {record : Option CollapseKeyRecord} (h : KeyFresh env s c record)
    (hpending : ∀ r, record = some r → r.phase ≠ .committed) : ¬Done env s c := by
  intro hdone
  obtain ⟨r, hr, hphase⟩ := h hdone
  exact hpending r hr hphase

theorem moves_fresh (hs : Sound env s) (hk : Knows env s pc) (hf : Fresh env s pc)
    (h : Moves env s free choice pc next) : Fresh env next.2 next.1 := by
  cases h with
  | stays _ hholds => exact hf
  | readsKey c d record hread => exact keyFresh_read hread
  | loads c d record m lease hm hlease =>
    refine ⟨hf, fun r hr => ?_⟩
    obtain ⟨m', hm', hr⟩ := hr
    rw [hs.housed.current_of_atHome hm'] at hm
    cases hm
    exact hr
  | resumes c d view second receipt hdecide =>
    have hrecord := (settles_of_decide hk hdecide).2 rfl
    exact hf.1.not_done fun r hr => (hrecord r hr).2.2.2
  | decides c d view second reserve hdecide => exact hf
  | reserves c d view second now hnone =>
    have hnot : ¬Done env s c := hf.1.not_done hk.2.1.pending
    refine ⟨fun hdone => hnot ((done_setKey hdone).resolve_right ?_), hf.2⟩
    rintro ⟨-, hphase⟩
    cases hphase
  | outruns c d view second now hsome => exact hf.2
  | goesOn c d view second now => exact ⟨hf.1.not_done hk.2.1.pending, hf.2⟩
  | rereads c d view record hread => exact ⟨keyFresh_read hread, hf⟩
  | saves c d view now s' hsave =>
    obtain ⟨rfl, -⟩ := writeMoleculeChecked_ok hsave
    exact hf.1
  | _ => trivial

theorem moves_holds (h : Moves env s free choice pc next) :
    next.1.holds = none ∨ next.1.holds = pc.holds ∨
      ∃ l, next.1.holds = some l ∧ pc.holds = none ∧ free l := by
  cases h with
  | missing c e => exact .inl rfl
  | locks c d hfree => exact .inr (.inr ⟨_, rfl, rfl, hfree⟩)
  | fails _ c d e hc hd => exact .inr (.inl hd.symm)
  | returns c d result => exact .inl rfl
  | _ => exact .inr (.inl rfl)

def aims : CallState → Option (Dir × MoleculeId)
  | .queued c d => some (d, c.id)
  | pc => pc.holds

theorem aims_of_holds {l : Dir × MoleculeId} (h : pc.holds = some l) : aims pc = some l := by
  cases pc with
  | queued c d => cases h
  | _ => exact h

theorem moves_aims (h : Moves env s free choice pc next) :
    aims next.1 = none ∨ aims next.1 = aims pc ∨
      ∃ id m, aims next.1 = some (s.moleculeDir id, id) ∧ s.current id = some m := by
  cases h with
  | missing c e => exact .inl rfl
  | queues c m hm => exact .inr (.inr ⟨c.id, m, rfl, hm⟩)
  | fails _ c d e hc hd => exact .inr (.inl (aims_of_holds hd).symm)
  | returns c d result => exact .inl rfl
  | _ => exact .inr (.inl rfl)

theorem moves_saved (h : Moves env s free choice pc next) {c : Call} {d : Dir} {view : View}
    {updated : MoleculeData} {receipt : CollapseReceipt}
    (hnext : next.1 = .stateSaved c d view updated receipt) :
    ∃ now, pc = .reserved c d view now ∧ receipt = c.receipt env view now := by
  cases h with
  | saves c d view now s' hsave =>
    cases hnext
    exact ⟨now, rfl, rfl⟩
  | stays _ hholds =>
    dsimp only at hnext
    subst hnext
    cases hholds
  | _ => cases hnext

def announces : CallState → Option IdempotencyKey
  | .returning c _ (.ok k) => if k.announced then some c.key else none
  | .ended c (.ok k) => if k.announced then some c.key else none
  | _ => none

theorem moves_announces (hs : Sound env s) (hk : Knows env s pc) (hf : Fresh env s pc)
    (h : Moves env s free choice pc next) {key : IdempotencyKey} (ha : announces next.1 = some key) :
    announces pc = some key ∨ ∃ c, c.key = key ∧ BoundTo env s c ∧ ¬Done env s c := by
  cases h with
  | stays _ hholds => exact .inl ha
  | commits c d view updated receipt =>
    cases ha
    exact .inr ⟨c, rfl, hk.1, hf⟩
  | finishes c d view receipt =>
    cases ha
    exact .inr ⟨c, rfl, hk.1.boundTo hs, hf⟩
  | returns c d result =>
    cases result with
    | error e => cases ha
    | ok k => exact .inl ha
  | _ => cases ha

theorem announces_committed (hs : Sound env s) (hk : Knows env s pc) {key : IdempotencyKey}
    (ha : announces pc = some key) :
    ∃ record, s.keys (env.fileStem key) = some record ∧ record.phase = .committed := by
  obtain ⟨receipt, record, hrecord, -, hreceipt⟩ : ∃ r, Committed env s key r := by
    cases pc with
    | returning c d result =>
      cases result with
      | error e => cases ha
      | ok k =>
        simp only [announces] at ha
        split at ha
        · rename_i hannounced
          cases ha
          exact (hk k rfl).announced hannounced
        · cases ha
    | ended c result =>
      cases result with
      | error e => cases ha
      | ok k =>
        simp only [announces] at ha
        split at ha
        · rename_i hannounced
          cases ha
          exact (hk k rfl).announced hannounced
        · cases ha
    | _ => cases ha
  refine ⟨record, hrecord, ?_⟩
  cases hs.phase _ _ hrecord with
  | inl hreserved =>
    rw [hreserved.2] at hreceipt
    cases hreceipt
  | inr hcommitted =>
    obtain ⟨r, hphase, -⟩ := hcommitted
    exact hphase

/-- The keyed calls on one molecule are serialised by its dispatch lock. -/
structure Serial (env : Env) (w : World) : Prop where
  migrated : Migrated env w.store
  held : ∀ p l, (w.calls p).holds = some l → w.locks l = some p
  homed : ∀ p d id, aims (w.calls p) = some (d, id) → d = .fleet (env.home id)
  fresh : ∀ p, Fresh env w.store (w.calls p)
  told : ∀ p q key, announces (w.calls p) = some key → announces (w.calls q) = some key → p = q

theorem start_serial (h : Migrated env s) : Serial env (World.start s) where
  migrated := h
  held := by
    intro p l hl
    cases hl
  homed := by
    intro p d id hl
    cases hl
  fresh := fun _ => trivial
  told := by
    intro p q key h
    cases h

theorem Serial.holder_unique {w : World} (h : Serial env w) {p q : Nat} {d d' : Dir}
    (hp : (w.calls p).holds = some (d, id)) (hq : (w.calls q).holds = some (d', id)) : p = q := by
  rw [h.homed p d id (aims_of_holds hp)] at hp
  rw [h.homed q d' id (aims_of_holds hq)] at hq
  exact Option.some.inj ((h.held p _ hp).symm.trans (h.held q _ hq))

/-- How the locks follow a call that takes a free one, keeps its own or gives
it back. -/
theorem relock_held {w : World} (h : Serial env w) {p : Nat} {after : Option (Dir × MoleculeId)}
    (hafter : after = none ∨ after = (w.calls p).holds ∨
      ∃ l, after = some l ∧ (w.calls p).holds = none ∧ w.locks l = none) :
    (∀ l, after = some l → relock w.locks p (w.calls p).holds after l = some p) ∧
      ∀ q l, q ≠ p → (w.calls q).holds = some l →
        relock w.locks p (w.calls p).holds after l = some q := by
  rcases hafter with rfl | rfl | ⟨l₀, rfl, hnone, hfree⟩
  · refine ⟨fun l hl => absurd hl (by simp), fun q l hq hl => ?_⟩
    cases hp : (w.calls p).holds with
    | none => exact h.held q l hl
    | some l₀ =>
      have hne : l ≠ l₀ := by
        rintro rfl
        exact hq (Option.some.inj ((h.held q l hl).symm.trans (h.held p l hp)))
      simpa [relock, Function.update_of_ne hne] using h.held q l hl
  · have hsame : relock w.locks p (w.calls p).holds (w.calls p).holds = w.locks := by
      cases (w.calls p).holds <;> rfl
    rw [hsame]
    exact ⟨fun l hl => h.held p l hl, fun q l _ hl => h.held q l hl⟩
  · rw [hnone]
    refine ⟨fun l hl => ?_, fun q l hq hl => ?_⟩
    · cases hl
      simp [relock]
    · have hne : l ≠ l₀ := by
        rintro rfl
        rw [h.held q l hl] at hfree
        cases hfree
      simpa [relock, Function.update_of_ne hne] using h.held q l hl

theorem Serial.become {w : World} (h : Serial env w) {p : Nat} {next : CallState × FileStore}
    (hgrows : Grows env w.store next.2)
    (hholds : next.1.holds = none ∨ next.1.holds = (w.calls p).holds ∨
      ∃ l, next.1.holds = some l ∧ (w.calls p).holds = none ∧ w.locks l = none)
    (haims : ∀ d id, aims next.1 = some (d, id) → d = .fleet (env.home id))
    (hfresh : Fresh env next.2 next.1)
    (hspares : ∀ q d id, q ≠ p → (w.calls q).holds = some (d, id) → Spares env w.store next.2 id)
    (htold : ∀ key, announces next.1 = some key →
      announces (w.calls p) = some key ∨ ∀ q, announces (w.calls q) ≠ some key) :
    Serial env (w.become p next) := by
  have hlocks := relock_held h hholds
  constructor
  case migrated => exact h.migrated.mono hgrows
  case held =>
    intro q l hl
    by_cases hq : q = p
    · subst hq
      simp only [World.become, Function.update_self] at hl
      exact hlocks.1 l hl
    · simp only [World.become, Function.update_of_ne hq] at hl
      exact hlocks.2 q l hq hl
  case homed =>
    intro q d id hl
    by_cases hq : q = p
    · subst hq
      simp only [World.become, Function.update_self] at hl
      exact haims d id hl
    · simp only [World.become, Function.update_of_ne hq] at hl
      exact h.homed q d id hl
  case fresh =>
    intro q
    by_cases hq : q = p
    · subst hq
      simpa [World.become] using hfresh
    · simpa [World.become, Function.update_of_ne hq] using
        (h.fresh q).spared fun d id hd => hspares q d id hq hd
  case told =>
    have hannounces : ∀ q key, announces ((w.become p next).calls q) = some key →
        announces (w.calls q) = some key ∨ (q = p ∧ ∀ q', announces (w.calls q') ≠ some key) := by
      intro q key ha
      by_cases hq : q = p
      · subst hq
        simp only [World.become, Function.update_self] at ha
        exact (htold key ha).imp_right fun hnone => ⟨rfl, hnone⟩
      · simp only [World.become, Function.update_of_ne hq] at ha
        exact .inl ha
    intro q q' key ha ha'
    rcases hannounces q key ha with hold | ⟨rfl, hnone⟩
    · rcases hannounces q' key ha' with hold' | ⟨rfl, hnone'⟩
      · exact h.told q q' key hold hold'
      · exact absurd hold (hnone' q)
    · rcases hannounces q' key ha' with hold' | ⟨rfl, -⟩
      · exact absurd hold' (hnone q')
      · rfl

/-- A call that is about to save has a key under which nothing is settled: it
would have read the receipt. -/
theorem Serial.reserved_unsettled {w : World} (hinv : Inv env w) (h : Serial env w) {p : Nat} {d : Dir}
    {c : Call} {view : View} {now : Instant} (hp : w.calls p = .reserved c d view now)
    {r : CollapseReceipt} (hr : Carries env w.store id r) : c.key ≠ r.key := by
  intro hkey
  have hknows := hinv.calls p
  have hfresh := h.fresh p
  rw [hp] at hknows hfresh
  obtain ⟨hview, hadmitted, hbound⟩ := hknows
  have hbound' := (hinv.sound.bound_of_carries hr).2
  rw [← hkey] at hbound'
  rw [← (bound_unique hbound hbound').1] at hr
  exact hadmitted.live (hview.receipt _ (hfresh.2 _ hr)).2

theorem advance_serial {w : World} (hinv : Inv env w) (h : Serial env w) (p : Nat) (choice : Choice) :
    Serial env (w.step env (.advance p choice)) := by
  have hmoves : Moves env w.store _ choice (w.calls p) _ :=
    next_moves (w.calls p) w.store (fun l => (w.locks l).isNone) choice
  have hadvances := hmoves.advances hinv.sound (hinv.calls p)
  apply h.become hadvances.grows
  · apply (moves_holds hmoves).imp_right (Or.imp_right _)
    rintro ⟨l, hnew, hnone, hfree⟩
    exact ⟨l, hnew, hnone, by simpa using hfree⟩
  · -- The lock a call goes for is the one in its molecule's own fleet directory.
    intro d id haims
    rcases moves_aims hmoves with hnone | hsame | ⟨id', m, hnew, hm⟩
    · rw [hnone] at haims
      cases haims
    · exact h.homed p d id (hsame ▸ haims)
    · rw [h.migrated.moleculeDir hinv.sound.housed hm] at hnew
      rw [hnew] at haims
      cases haims
      rfl
  · exact moves_fresh hinv.sound (hinv.calls p) (h.fresh p) hmoves
  · intro q d id hq hd
    apply (moves_write hinv.sound (hinv.calls p) hmoves).spares
    rintro c d' - hd' rfl
    exact hq (h.holder_unique hd hd')
  · intro key ha
    apply (moves_announces hinv.sound (hinv.calls p) (h.fresh p) hmoves ha).imp_right
    rintro ⟨c, rfl, hbound, hnot⟩ q hq
    obtain ⟨record, hrecord, hphase⟩ := announces_committed hinv.sound (hinv.calls q) hq
    obtain ⟨record', hrecord', -, hmol, -⟩ := hbound
    rw [hrecord] at hrecord'
    cases hrecord'
    exact hnot ⟨record, hrecord, hmol, hphase⟩

theorem Serial.save {w : World} (h : Serial env w) (hgrows : Grows env w.store s')
    (hspares : ∀ id, Spares env w.store s' id) : Serial env { w with store := s' } :=
  { h with
    migrated := h.migrated.mono hgrows
    fresh := fun p => (h.fresh p).spared fun _ id _ => hspares id }

theorem steps_serial {w w' : World} (hinv : Inv env w) (h : Serial env w) {op : Op}
    (hstep : Steps env w op w') : Serial env w' := by
  -- A call that starts or is cut off writes and announces nothing.
  have hquiet : ∀ p pc, aims pc = none → Fresh env w.store pc → announces pc = none →
      Serial env (w.become p (pc, w.store)) := by
    intro p pc haims hfresh hannounces
    have hholds : pc.holds = none := by
      by_contra hsome
      obtain ⟨l, hl⟩ := Option.ne_none_iff_exists'.mp hsome
      rw [aims_of_holds hl] at haims
      cases haims
    apply h.become (.refl _ _) (.inl hholds) _ hfresh (fun _ _ id _ _ => .refl env w.store id)
    · intro key hkey
      rw [hannounces] at hkey
      cases hkey
    · intro d id hid
      rw [haims] at hid
      cases hid
  cases hstep with
  | nothing => exact h
  | starts p c hidle => exact hquiet p (.waiting c) rfl trivial rfl
  | advances p choice => exact advance_serial hinv h p choice
  | crashes p c hcall hopen => exact hquiet p (.crashed c) rfl trivial rfl
  | saves q edit checked m s' hm hsave =>
    obtain ⟨hfleet, hreceipt⟩ := edit_known (hinv.writers q m hm) edit
    have hgrows := hinv.sound.save_grows hfleet hsave
    obtain ⟨rfl, -⟩ := writeMoleculeChecked_ok hsave
    exact h.save hgrows (spares_put hfleet hreceipt)
  | creates data s' hsave =>
    have hgrows := hinv.sound.save_grows rfl hsave
    obtain ⟨rfl, -⟩ := writeMoleculeChecked_ok hsave
    refine h.save hgrows (spares_put rfl ?_)
    intro r hr
    cases hr
  | loads q id m hm => exact { h with }
  | asks l id key hidle => exact { h with }
  | answers l id key record hread => exact { h with }

theorem run_serial (hs : Sound env s) (hm : Migrated env s) (ops : List Op) (n : Nat) :
    Serial env (worldAt env s ops n) := by
  apply worldAt_preserves (P := Serial env) _ (Nat.zero_le n) (start_serial hm)
  intro n op _ h
  exact steps_serial (run_inv hs ops n) h (step_steps env _ op)

end Cosmon.State.CollapseSerial
