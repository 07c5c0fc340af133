import Cosmon.Filestore.Receipts
import Cosmon.Lib.Runs
import Cosmon.State.Collapse

namespace Cosmon.State.CollapseRuns

open Cosmon.Core Cosmon.Lib.Runs Cosmon.State.Molecule Cosmon.Core.CollapseContract
open Cosmon.Filestore.Layout Cosmon.Filestore.Receipts Cosmon.State.Collapse

variable {env : Env} {s s' : FileStore}

/-- What the record read for a key says for good. -/
def RecordKnown (env : Env) (s : FileStore) (key : IdempotencyKey)
    (record : Option CollapseKeyRecord) : Prop :=
  ∀ r, record = some r → r.key = key ∧ Bound env s key r.molecule r.digest ∧
    ((r.phase = .reserved ∧ r.receipt = none) ∨
      ∃ receipt, r.phase = .committed ∧ r.receipt = some receipt ∧ receipt.key = key ∧
        receipt.digest = r.digest ∧ Carries env s r.molecule receipt)

/-- What a call knows of the record and the state it read. -/
structure ViewKnown (env : Env) (s : FileStore) (c : Call) (view : View) : Prop where
  record : RecordKnown env s c.key view.keyRecord
  id : view.mol.id = c.id
  fleet : view.mol.fleetId = env.home c.id
  revision : view.revision = env.revisionOf view.mol
  receipt : ∀ r, view.mol.collapseReceipt = some r →
    Carries env s c.id r ∧ view.mol.status = .collapsed

/-- What a call that was admitted has checked on what it read. -/
structure Admitted (c : Call) (view : View) : Prop where
  live : view.mol.status ≠ .collapsed
  status : view.mol.status = c.condition.expectStatus.status
  revision : view.revision = c.condition.expectRevision
  pending : ∀ r, view.keyRecord = some r → r.phase ≠ .committed

/-- A receipt that settles a call: the one its molecule carries under its key. -/
structure Settles (env : Env) (s : FileStore) (c : Call) (receipt : CollapseReceipt) : Prop where
  key : receipt.key = c.key
  digest : receipt.digest = c.digest env
  carries : Carries env s c.id receipt

def BoundTo (env : Env) (s : FileStore) (c : Call) : Prop := Bound env s c.key c.id (c.digest env)

structure ResultKnown (env : Env) (s : FileStore) (c : Call) (k : KeyedCollapse) : Prop where
  success : k.outcome.isSuccess → ∃ r, k.receipt = some r ∧ Settles env s c r
  announced : k.announced → ∃ r, Committed env s c.key r

/-- What a keyed call knows about the store where it stands. Nothing of it can
be taken back by anybody. -/
def Knows (env : Env) (s : FileStore) : CallState → Prop
  | .keyRead c _ record => RecordKnown env s c.key record
  | .deciding c _ view _ => ViewKnown env s c view
  | .decided c _ view _ _ reserve =>
    ViewKnown env s c view ∧ Admitted c view ∧ (reserve = false → BoundTo env s c)
  | .outrun c _ view _ => ViewKnown env s c view
  | .reserved c _ view _ => ViewKnown env s c view ∧ Admitted c view ∧ BoundTo env s c
  | .stateSaved c _ _ _ receipt => BoundTo env s c ∧ Settles env s c receipt
  | .finalizing c _ view receipt =>
    Settles env s c receipt ∧ ∀ r, view.keyRecord = some r →
      r.key = c.key ∧ r.molecule = c.id ∧ r.digest = c.digest env ∧ r.phase ≠ .committed
  | .returning c _ result => ∀ k, result = .ok k → ResultKnown env s c k
  | .ended c result => ∀ k, result = .ok k → ResultKnown env s c k
  | _ => True

theorem RecordKnown.mono {key : IdempotencyKey} {record : Option CollapseKeyRecord}
    (hg : Grows env s s') (h : RecordKnown env s key record) : RecordKnown env s' key record := by
  intro r hr
  obtain ⟨hkey, hbound, hphase⟩ := h r hr
  refine ⟨hkey, hg.bound _ _ _ hbound, hphase.imp_right ?_⟩
  rintro ⟨receipt, hp, hrec, hk, hd, hcarries⟩
  exact ⟨receipt, hp, hrec, hk, hd, hg.carries _ _ hcarries⟩

theorem ViewKnown.mono {c : Call} {view : View} (hg : Grows env s s') (h : ViewKnown env s c view) :
    ViewKnown env s' c view :=
  { h with
    record := h.record.mono hg
    receipt := fun r hr => ⟨hg.carries _ _ (h.receipt r hr).1, (h.receipt r hr).2⟩ }

theorem Settles.mono {c : Call} {receipt : CollapseReceipt} (hg : Grows env s s')
    (h : Settles env s c receipt) : Settles env s' c receipt :=
  { h with carries := hg.carries _ _ h.carries }

theorem ResultKnown.mono {c : Call} {k : KeyedCollapse} (hg : Grows env s s')
    (h : ResultKnown env s c k) : ResultKnown env s' c k where
  success := fun hs => (h.success hs).imp fun _ hr => ⟨hr.1, hr.2.mono hg⟩
  announced := fun ha => (h.announced ha).imp fun _ hr => hg.committed _ _ hr

theorem Knows.mono (hg : Grows env s s') {pc : CallState} (h : Knows env s pc) : Knows env s' pc := by
  cases pc with
  | keyRead c d record => exact RecordKnown.mono hg h
  | deciding c d view second => exact ViewKnown.mono hg h
  | decided c d view second now reserve =>
    exact ⟨h.1.mono hg, h.2.1, fun hr => hg.bound _ _ _ (h.2.2 hr)⟩
  | outrun c d view second => exact ViewKnown.mono hg h
  | reserved c d view now => exact ⟨h.1.mono hg, h.2.1, hg.bound _ _ _ h.2.2⟩
  | stateSaved c d view updated receipt => exact ⟨hg.bound _ _ _ h.1, h.2.mono hg⟩
  | finalizing c d view receipt => exact ⟨h.1.mono hg, h.2⟩
  | returning c d result => exact fun k hk => (h k hk).mono hg
  | ended c result => exact fun k hk => (h k hk).mono hg
  | idle => trivial
  | waiting c => trivial
  | queued c d => trivial
  | locked c d => trivial
  | crashed c => trivial

theorem Settles.boundTo {c : Call} {receipt : CollapseReceipt} (hs : Sound env s)
    (h : Settles env s c receipt) : BoundTo env s c := by
  have hbound := (hs.bound_of_carries h.carries).2
  rw [h.key, h.digest] at hbound
  exact hbound

theorem recordKnown_read (hs : Sound env s) {key : IdempotencyKey} {record : Option CollapseKeyRecord}
    (h : s.readCollapseKey env key = .ok record) : RecordKnown env s key record := by
  obtain ⟨hget, hkey⟩ := readCollapseKey_ok h
  intro r hr
  subst hr
  have hk := hkey r rfl
  refine ⟨hk, ⟨r, hget, hk, rfl, rfl⟩, ?_⟩
  cases hs.phase _ _ hget with
  | inl hreserved => exact .inl hreserved
  | inr hcommitted =>
    obtain ⟨receipt, hp, hrec, hrk, hrd, hcarries⟩ := hcommitted
    exact .inr ⟨receipt, hp, hrec, hrk.trans hk, hrd, hcarries⟩

theorem viewKnown_load (hs : Sound env s) {c : Call} {record : Option CollapseKeyRecord}
    {mol : MoleculeData} (hrecord : RecordKnown env s c.key record)
    (hm : s.current c.id = some mol) (lease : Option String) :
    ViewKnown env s c ⟨record, mol, env.revisionOf mol, lease⟩ := by
  obtain ⟨hid, hfleet⟩ := hs.housed.current_fleetId hm
  exact { record := hrecord, id := hid, fleet := hfleet, revision := rfl,
          receipt := fun r hr => hs.current_receipt hm hr }

theorem admitted_of_decide {c : Call} {view : View} {now : Instant} {reserve : Bool}
    (hview : ViewKnown env s c view)
    (h : CollapseContract.decide (c.decisionInput env view now) = .admitted reserve) :
    Admitted c view ∧ (reserve = false → BoundTo env s c) := by
  obtain ⟨hagrees, hreplayed, hopen, hstatus, hrevision, hreserve⟩ := decide_admitted h
  refine ⟨⟨hopen, hstatus, hrevision, fun r hr hphase => ?_⟩, fun hfalse => ?_⟩
  · -- A committed record holds its receipt, which would have been replayed.
    have hnone := not_committed_of_admitted hreplayed hr hphase
    cases (hview.record r hr).2.2 with
    | inl hreserved =>
      rw [hreserved.1] at hphase
      cases hphase
    | inr hcommitted =>
      obtain ⟨receipt, -, hrec, -⟩ := hcommitted
      rw [hrec] at hnone
      cases hnone
  · subst hfalse
    cases hrecord : view.keyRecord with
    | none => simp [Call.decisionInput, hrecord] at hreserve
    | some r =>
      obtain ⟨hmol, hdigest⟩ := hagrees r hrecord
      have hbound := (hview.record r hrecord).2.1
      rw [hmol, hdigest] at hbound
      exact hbound

theorem settles_of_decide {c : Call} {view : View} {now : Instant} {receipt : CollapseReceipt}
    {finalize : Bool} (hview : ViewKnown env s c view)
    (h : CollapseContract.decide (c.decisionInput env view now) = .replay receipt finalize) :
    Settles env s c receipt ∧ (finalize = true → ∀ r, view.keyRecord = some r →
      r.key = c.key ∧ r.molecule = c.id ∧ r.digest = c.digest env ∧ r.phase ≠ .committed) := by
  obtain ⟨hagrees, hsource⟩ := decide_replay h
  cases hsource with
  | inl hstate =>
    obtain ⟨hstate, hkey, hdigest, hfinalize⟩ := hstate
    refine ⟨⟨hkey, hdigest, (hview.receipt receipt hstate).1⟩, fun htrue r hr => ?_⟩
    obtain ⟨hmol, hd⟩ := hagrees r hr
    refine ⟨(hview.record r hr).1, hmol, hd, ?_⟩
    have hr' : (c.decisionInput env view now).keyRecord = some r := hr
    rw [htrue, hr', Option.all_some] at hfinalize
    simpa using hfinalize.symm
  | inr hrecord =>
    obtain ⟨hfalse, r, hr, hphase, hreceipt⟩ := hrecord
    obtain ⟨hmol, hd⟩ := hagrees r hr
    refine ⟨?_, fun htrue => absurd (hfalse.symm.trans htrue) Bool.false_ne_true⟩
    cases (hview.record r hr).2.2 with
    | inl hreserved =>
      rw [hreserved.1] at hphase
      cases hphase
    | inr hcommitted =>
      obtain ⟨receipt', -, hrec, hk, hdigest, hcarries⟩ := hcommitted
      rw [hreceipt] at hrec
      cases hrec
      rw [hmol] at hcarries
      exact ⟨hk, hdigest.trans hd, hcarries⟩

/-- What one step of a keyed call can do: where it goes from where it stands,
and what it writes. -/
inductive Moves (env : Env) (s : FileStore) (free : Dir × MoleculeId → Bool) (choice : Choice) :
    CallState → CallState × FileStore → Prop where
  | stays (pc : CallState) (h : pc.holds = none) : Moves env s free choice pc (pc, s)
  | missing (c : Call) (e : CosmonError) :
      Moves env s free choice (.waiting c) (.ended c (.error (.fromCosmon c.id e)), s)
  | queues (c : Call) (m : MoleculeData) (hm : s.current c.id = some m) :
      Moves env s free choice (.waiting c) (.queued c (s.moleculeDir c.id), s)
  | locks (c : Call) (d : Dir) (hfree : free (d, c.id)) :
      Moves env s free choice (.queued c d) (.locked c d, s)
  | fails (pc : CallState) (c : Call) (d : Dir) (e : CollapseError) (hc : pc.call = some c)
      (hd : pc.holds = some (d, c.id)) :
      Moves env s free choice pc (.returning c d (.error e), s)
  | readsKey (c : Call) (d : Dir) (record : Option CollapseKeyRecord)
      (h : s.readCollapseKey env c.key = .ok record) :
      Moves env s free choice (.locked c d) (.keyRead c d record, s)
  | loads (c : Call) (d : Dir) (record : Option CollapseKeyRecord) (m : MoleculeData)
      (lease : Option String) (hm : s.current c.id = some m) (hlease : choice.lease = .ok lease) :
      Moves env s free choice (.keyRead c d record) (.deciding c d ⟨record, m, env.revisionOf m, lease⟩ false, s)
  | refuses (c : Call) (d : Dir) (view : View) (second : Bool) (refusal : CollapseRefusal)
      (h : CollapseContract.decide (c.decisionInput env view choice.now) = .refuse refusal) :
      Moves env s free choice (.deciding c d view second)
        (.returning c d (.ok (c.refused env view refusal)), s)
  | resumes (c : Call) (d : Dir) (view : View) (second : Bool) (receipt : CollapseReceipt)
      (h : CollapseContract.decide (c.decisionInput env view choice.now) = .replay receipt true) :
      Moves env s free choice (.deciding c d view second) (.finalizing c d view receipt, s)
  | replays (c : Call) (d : Dir) (view : View) (second : Bool) (receipt : CollapseReceipt)
      (h : CollapseContract.decide (c.decisionInput env view choice.now) = .replay receipt false) :
      Moves env s free choice (.deciding c d view second)
        (.returning c d (.ok (c.replayed env view receipt false)), s)
  | decides (c : Call) (d : Dir) (view : View) (second reserve : Bool)
      (h : CollapseContract.decide (c.decisionInput env view choice.now) = .admitted reserve) :
      Moves env s free choice (.deciding c d view second)
        (.decided c d view second choice.now reserve, s)
  | reserves (c : Call) (d : Dir) (view : View) (second : Bool) (now : Instant)
      (h : s.keys (env.fileStem c.key) = none) :
      Moves env s free choice (.decided c d view second now true)
        (.reserved c d view now, s.setKey env (c.reservation env))
  | outruns (c : Call) (d : Dir) (view : View) (second : Bool) (now : Instant)
      (h : (s.keys (env.fileStem c.key)).isSome) :
      Moves env s free choice (.decided c d view second now true) (.outrun c d view second, s)
  | goesOn (c : Call) (d : Dir) (view : View) (second : Bool) (now : Instant) :
      Moves env s free choice (.decided c d view second now false) (.reserved c d view now, s)
  | rereads (c : Call) (d : Dir) (view : View) (record : Option CollapseKeyRecord)
      (h : s.readCollapseKey env c.key = .ok record) :
      Moves env s free choice (.outrun c d view false)
        (.deciding c d { view with keyRecord := record } true, s)
  | saves (c : Call) (d : Dir) (view : View) (now : Instant) (s' : FileStore)
      (h : s.saveMoleculeDurable env (c.updated env view now) = .ok s') :
      Moves env s free choice (.reserved c d view now)
        (.stateSaved c d view (c.updated env view now) (c.receipt env view now), s')
  | commits (c : Call) (d : Dir) (view : View) (updated : MoleculeData) (receipt : CollapseReceipt) :
      Moves env s free choice (.stateSaved c d view updated receipt)
        (.returning c d (.ok (c.transitioned env view updated receipt)),
          s.commitCollapseKey env ((c.reservation env).committed receipt))
  | finishes (c : Call) (d : Dir) (view : View) (receipt : CollapseReceipt) :
      Moves env s free choice (.finalizing c d view receipt)
        (.returning c d (.ok (c.replayed env view receipt true)),
          s.commitCollapseKey env ((view.keyRecord.getD (c.reservation env)).committed receipt))
  | returns (c : Call) (d : Dir) (result : Except CollapseError KeyedCollapse) :
      Moves env s free choice (.returning c d result) (.ended c result, s)

theorem next_moves (pc : CallState) (s : FileStore) (free : Dir × MoleculeId → Bool) (choice : Choice) :
    Moves env s free choice pc (pc.next env s free choice) := by
  cases pc with
  | idle | ended _ _ | crashed _ => exact .stays _ rfl
  | waiting c =>
    simp only [CallState.next, FileStore.loadMolecule]
    cases hm : s.current c.id with
    | none => exact .missing c _
    | some m => exact .queues c m hm
  | queued c d =>
    simp only [CallState.next]
    split
    · rename_i hfree
      exact .locks c d hfree
    · exact .stays _ rfl
  | locked c d =>
    simp only [CallState.next]
    split
    · exact .fails _ c d _ rfl rfl
    · rename_i record hread
      exact .readsKey c d record hread
  | keyRead c d record =>
    simp only [CallState.next, FileStore.loadMoleculeRevisioned]
    cases hm : s.current c.id with
    | none => exact .fails _ c d _ rfl rfl
    | some m =>
      cases hlease : choice.lease with
      | error e => exact .fails _ c d _ rfl rfl
      | ok lease => exact .loads c d record m lease hm hlease
  | deciding c d view second =>
    simp only [CallState.next]
    split
    · rename_i refusal h
      exact .refuses c d view second refusal h
    · rename_i receipt h
      exact .resumes c d view second receipt h
    · rename_i receipt h
      exact .replays c d view second receipt h
    · rename_i reserve h
      exact .decides c d view second reserve h
  | decided c d view second now reserve =>
    cases reserve with
    | false => exact .goesOn c d view second now
    | true =>
      simp only [CallState.next, FileStore.reserveCollapseKey, if_true]
      by_cases hkey : (s.keys (env.fileStem (c.reservation env).key)).isSome
      · simp only [hkey, if_true]
        exact .outruns c d view second now hkey
      · simp only [hkey]
        exact .reserves c d view second now (Option.not_isSome_iff_eq_none.mp hkey)
  | outrun c d view second =>
    simp only [CallState.next]
    split
    · exact .fails _ c d _ rfl rfl
    · rename_i record hread
      cases second with
      | true => exact .fails _ c d _ rfl rfl
      | false => exact .rereads c d view record hread
  | reserved c d view now =>
    simp only [CallState.next]
    split
    · exact .fails _ c d _ rfl rfl
    · rename_i s' hsave
      exact .saves c d view now s' hsave
  | stateSaved c d view updated receipt => exact .commits c d view updated receipt
  | finalizing c d view receipt => exact .finishes c d view receipt
  | returning c d result => exact .returns c d result

/-- A step of a call leaves a consistent store that takes nothing back, and
the call knows where it then stands. -/
structure Advances (env : Env) (s : FileStore) (next : CallState × FileStore) : Prop where
  grows : Grows env s next.2
  sound : Sound env next.2
  knows : Knows env next.2 next.1

theorem Advances.reads (hs : Sound env s) {pc : CallState} (h : Knows env s pc) :
    Advances env s (pc, s) :=
  ⟨.refl env s, hs, h⟩

theorem knows_failed {c : Call} {d : Dir} {e : CollapseError} :
    Knows env s (.returning c d (.error e)) := by
  intro k hk
  cases hk

theorem resultKnown_refused {c : Call} {view : View} (refusal : CollapseRefusal) :
    ResultKnown env s c (c.refused env view refusal) where
  success := fun h => absurd h (by simp [Call.refused, kind_not_success])
  announced := fun h => absurd h Bool.false_ne_true

theorem updated_id {c : Call} {view : View} (h : ViewKnown env s c view) (now : Instant) :
    (c.updated env view now).id = c.id ∧
      (c.updated env view now).fleetId = env.home (c.updated env view now).id := by
  obtain ⟨hid, hfleet⟩ := collapsedRecord_id view.mol c.request c.cause
    (some (c.receipt env view now)) now
  have hid' : (c.updated env view now).id = c.id := hid.trans h.id
  exact ⟨hid', by rw [hid']; exact hfleet.trans h.fleet⟩

section Moves

variable {free : Dir × MoleculeId → Bool} {choice : Choice} {pc : CallState}
  {next : CallState × FileStore}

theorem Moves.call_eq (h : Moves env s free choice pc next) : next.1.call = pc.call := by
  cases h with
  | fails _ c d e hc hd => exact hc.symm
  | _ => rfl

theorem advances_reserve (hs : Sound env s) {c : Call} {d : Dir} {view : View} {now : Instant}
    (hview : ViewKnown env s c view) (hadmitted : Admitted c view)
    (hnone : s.keys (env.fileStem c.key) = none) :
    Advances env s (.reserved c d view now, s.setKey env (c.reservation env)) := by
  obtain ⟨hgrows, hsound, hbound⟩ := hs.reserve c.id (c.digest env) hnone
  exact ⟨hgrows, hsound, hview.mono hgrows, hadmitted, hbound⟩

theorem advances_save (hs : Sound env s) {c : Call} {d : Dir} {view : View} {now : Instant}
    (hview : ViewKnown env s c view) (hbound : BoundTo env s c)
    (hsave : s.saveMoleculeDurable env (c.updated env view now) = .ok s') :
    Advances env s (.stateSaved c d view (c.updated env view now) (c.receipt env view now), s') := by
  obtain ⟨hid, hfleet⟩ := updated_id hview now
  have hgrows := hs.save_grows hfleet hsave
  refine ⟨hgrows, hs.save hfleet hsave ?_, hgrows.bound _ _ _ hbound, rfl, rfl, ?_⟩
  · intro r hr
    cases hr
    exact .inr ⟨rfl, hid.symm, by rw [hid]; exact hbound⟩
  · obtain ⟨rfl, -⟩ := writeMoleculeChecked_ok hsave
    exact ⟨c.updated env view now, by rw [← hid]; exact atHome_put hfleet, rfl⟩

theorem advances_commit (hs : Sound env s) {c : Call} {d : Dir} {record : CollapseKeyRecord}
    {receipt : CollapseReceipt} {k : KeyedCollapse} (hsettles : Settles env s c receipt)
    (hkey : record.key = c.key) (hmol : record.molecule = c.id) (hdigest : record.digest = c.digest env)
    (hk : k.receipt = some receipt) :
    Advances env s (.returning c d (.ok k), s.commitCollapseKey env (record.committed receipt)) := by
  have hbound : Bound env s record.key record.molecule record.digest := by
    rw [hkey, hmol, hdigest]
    exact hsettles.boundTo hs
  obtain ⟨hgrows, hsound, hcommitted⟩ := hs.commit hbound (by rw [hmol]; exact hsettles.carries)
    (hsettles.key.trans hkey.symm) (hsettles.digest.trans hdigest.symm)
  rw [hkey] at hcommitted
  refine ⟨hgrows, hsound, fun k' hk' => ?_⟩
  cases hk'
  exact ⟨fun _ => ⟨receipt, hk, hsettles.mono hgrows⟩, fun _ => ⟨receipt, hcommitted⟩⟩

theorem Moves.advances (hs : Sound env s) (hk : Knows env s pc) (h : Moves env s free choice pc next) :
    Advances env s next := by
  cases h with
  | stays _ hholds => exact .reads hs hk
  | missing c e =>
    apply Advances.reads hs
    intro k hk
    cases hk
  | queues c m hm => exact .reads hs trivial
  | locks c d hfree => exact .reads hs trivial
  | fails _ c d e hc hd => exact .reads hs knows_failed
  | readsKey c d record hread => exact .reads hs (recordKnown_read hs hread)
  | loads c d record m lease hm hlease => exact .reads hs (viewKnown_load hs hk hm lease)
  | refuses c d view second refusal hdecide =>
    apply Advances.reads hs
    intro k hk
    cases hk
    exact resultKnown_refused refusal
  | resumes c d view second receipt hdecide =>
    obtain ⟨hsettles, hrecord⟩ := settles_of_decide hk hdecide
    exact .reads hs ⟨hsettles, hrecord rfl⟩
  | replays c d view second receipt hdecide =>
    have hsettles := (settles_of_decide hk hdecide).1
    apply Advances.reads hs
    intro k hk
    cases hk
    exact ⟨fun _ => ⟨receipt, rfl, hsettles⟩, fun ha => absurd ha Bool.false_ne_true⟩
  | decides c d view second reserve hdecide =>
    obtain ⟨hadmitted, hbound⟩ := admitted_of_decide hk hdecide
    exact .reads hs ⟨hk, hadmitted, hbound⟩
  | reserves c d view second now hnone => exact advances_reserve hs hk.1 hk.2.1 hnone
  | outruns c d view second now hsome => exact .reads hs hk.1
  | goesOn c d view second now => exact .reads hs ⟨hk.1, hk.2.1, hk.2.2 rfl⟩
  | rereads c d view record hread =>
    apply Advances.reads hs
    exact { ViewKnown.mono (.refl env s) hk with record := recordKnown_read hs hread }
  | saves c d view now s' hsave => exact advances_save hs hk.1 hk.2.2 hsave
  | commits c d view updated receipt => exact advances_commit hs hk.2 rfl rfl rfl rfl
  | finishes c d view receipt =>
    cases hview : view.keyRecord with
    | none => exact advances_commit hs hk.1 rfl rfl rfl rfl
    | some r =>
      obtain ⟨hkey, hmol, hdigest, -⟩ := hk.2 r hview
      exact advances_commit hs hk.1 hkey hmol hdigest rfl
  | returns c d result => exact .reads hs hk

end Moves

theorem commit_some {pc : CallState} {cm : Commit} (h : pc.commit s = some cm) :
    ∃ d view updated, pc = .stateSaved cm.call d view updated cm.receipt ∧
      cm.replaced = s.current updated.id := by
  cases pc with
  | stateSaved c d view updated receipt =>
    cases h
    exact ⟨d, view, updated, rfl, rfl⟩
  | _ => cases h

theorem classifyLookup_committed (hs : Sound env s) {id : MoleculeId} {key : IdempotencyKey}
    {record : Option CollapseKeyRecord} {m : MoleculeData} (hrecord : RecordKnown env s key record)
    (hm : s.current id = some m) (hhere : record.any (fun r => r.molecule ≠ id) = false)
    {receipt : CollapseReceipt} (hstate : m.collapseReceipt.filter (fun r => r.key = key) = some receipt) :
    Carries env s id receipt ∧ receipt.key = key ∧
      classifyLookup id key record m.status m.collapseReceipt = .committed receipt := by
  obtain ⟨hreceipt, hkey⟩ : m.collapseReceipt = some receipt ∧ receipt.key = key := by
    simpa [Option.filter_eq_some_iff] using hstate
  obtain ⟨hcarries, hcollapsed⟩ := hs.current_receipt hm hreceipt
  refine ⟨hcarries, hkey, ?_⟩
  have hbound := (hs.bound_of_carries hcarries).2
  rw [hkey] at hbound
  have hdigest : record.any (fun r => r.digest ≠ receipt.digest) = false := by
    cases record with
    | none => rfl
    | some r => simpa using (bound_unique (hrecord r rfl).2.1 hbound).2
  have hstored : record.any (fun r => r.receipt.any (fun stored => stored ≠ receipt)) = false := by
    cases record with
    | none => rfl
    | some r =>
      cases (hrecord r rfl).2.2 with
      | inl hreserved => simp [hreserved.2]
      | inr hcommitted =>
        obtain ⟨stored, -, hstored, -, -, hcarries'⟩ := hcommitted
        rw [(bound_unique (hrecord r rfl).2.1 hbound).1] at hcarries'
        simp [hstored, carries_unique hcarries' hcarries]
  simp only [classifyLookup, hhere, hstate, hcollapsed]
  cases record with
  | none => rfl
  | some r => simp only [hdigest, hstored, ne_eq, not_true_eq_false, Bool.false_eq_true, if_false]

theorem classifyLookup_open {id : MoleculeId} {key : IdempotencyKey} {record : Option CollapseKeyRecord}
    {m : MoleculeData} (hrecord : RecordKnown env s key record)
    (hhere : record.any (fun r => r.molecule ≠ id) = false)
    (hstate : m.collapseReceipt.filter (fun r => r.key = key) = none)
    (hnone : ∀ r, Carries env s id r → r.key ≠ key) :
    classifyLookup id key record m.status m.collapseReceipt = .unknown ∨
      ∃ d, classifyLookup id key record m.status m.collapseReceipt = .reservedNotApplied d := by
  cases record with
  | none => exact .inl (by simp [classifyLookup, hstate])
  | some r =>
    have hmol : r.molecule = id := by simpa using hhere
    cases (hrecord r rfl).2.2 with
    | inl hreserved => exact .inr ⟨r.digest, by simp [classifyLookup, hstate, hmol, hreserved.1]⟩
    | inr hcommitted =>
      obtain ⟨receipt, -, -, hk, -, hcarries⟩ := hcommitted
      rw [hmol] at hcarries
      exact absurd hk (hnone receipt hcarries)

theorem classifyLookup_known (hs : Sound env s) {id : MoleculeId} {key : IdempotencyKey}
    {record : Option CollapseKeyRecord} {m : MoleculeData} (hrecord : RecordKnown env s key record)
    (hm : s.current id = some m) :
    (classifyLookup id key record m.status m.collapseReceipt = .boundElsewhere ∧
        ∃ r, record = some r ∧ r.molecule ≠ id) ∨
      (∃ r, Carries env s id r ∧ r.key = key ∧
        classifyLookup id key record m.status m.collapseReceipt = .committed r) ∨
      ((∀ r, Carries env s id r → r.key ≠ key) ∧
        (classifyLookup id key record m.status m.collapseReceipt = .unknown ∨
          ∃ d, classifyLookup id key record m.status m.collapseReceipt = .reservedNotApplied d)) := by
  have hcarried : ∀ r, Carries env s id r → m.collapseReceipt = some r := by
    intro r hr
    obtain ⟨m', hm', hr'⟩ := hr
    rw [hs.housed.current_of_atHome hm'] at hm
    cases hm
    exact hr'
  by_cases helse : ∃ r, record = some r ∧ r.molecule ≠ id
  · obtain ⟨r, rfl, hne⟩ := helse
    exact .inl ⟨by simp [classifyLookup, hne], r, rfl, hne⟩
  · right
    have hhere : record.any (fun r => r.molecule ≠ id) = false := by
      cases record with
      | none => rfl
      | some r => simpa using helse
    cases hstate : m.collapseReceipt.filter (fun r => r.key = key) with
    | some receipt => exact .inl ⟨receipt, classifyLookup_committed hs hrecord hm hhere hstate⟩
    | none =>
      have hnone : ∀ r, Carries env s id r → r.key ≠ key := by
        intro r hr hkey
        simp [hcarried r hr, hkey] at hstate
      exact .inr ⟨hnone, classifyLookup_open hrecord hhere hstate hnone⟩

def WriterKnown (env : Env) (s : FileStore) (m : MoleculeData) : Prop :=
  m.fleetId = env.home m.id ∧ ∀ r, m.collapseReceipt = some r → Carries env s m.id r

/-- What a lookup has learnt, and that it did not answer `Inconsistent`. -/
def LookupKnown (env : Env) (s : FileStore) : LookupState → Prop
  | .idle => True
  | .keyRead _ key record => RecordKnown env s key record
  | .answered id key answer => ∀ a, answer = .ok a →
    (∀ detail, a ≠ .inconsistent detail) ∧ ∀ r, a = .committed r → r.key = key ∧ Carries env s id r

theorem LookupKnown.mono (hg : Grows env s s') {l : LookupState} (h : LookupKnown env s l) :
    LookupKnown env s' l := by
  cases l with
  | idle => trivial
  | keyRead id key record => exact RecordKnown.mono hg h
  | answered id key answer =>
    exact fun a ha => ⟨(h a ha).1, fun r hr => ⟨((h a ha).2 r hr).1, hg.carries _ _ ((h a ha).2 r hr).2⟩⟩

theorem lookupKey_known (hs : Sound env s) (id : MoleculeId) (key : IdempotencyKey) :
    LookupKnown env s (lookupKey env s id key) := by
  simp only [lookupKey]
  split
  · intro a ha
    cases ha
  · rename_i record hread
    exact recordKnown_read hs hread

theorem lookupState_known (hs : Sound env s) {id : MoleculeId} {key : IdempotencyKey}
    {record : Option CollapseKeyRecord} (h : RecordKnown env s key record) :
    LookupKnown env s (lookupState s id key record) := by
  simp only [lookupState, FileStore.loadMolecule]
  cases hm : s.current id with
  | none =>
    intro a ha
    cases ha
  | some m =>
    intro a ha
    cases ha
    rcases classifyLookup_known hs h hm with ⟨hc, -⟩ | ⟨r, hr, hk, hc⟩ | ⟨-, hc | ⟨d, hc⟩⟩
    · simp [hc]
    · simpa [hc] using ⟨hk, hr⟩
    · simp [hc]
    · simp [hc]

/-- The invariant of every run from a consistent store. -/
structure Inv (env : Env) (w : World) : Prop where
  sound : Sound env w.store
  calls : ∀ p, Knows env w.store (w.calls p)
  commits : ∀ p cm, w.commits p = some cm →
    Settles env w.store cm.call cm.receipt ∧ (w.calls p).call = some cm.call
  writers : ∀ q m, w.writers q = some m → WriterKnown env w.store m
  lookups : ∀ l, LookupKnown env w.store (w.lookups l)

theorem start_inv (hs : Sound env s) : Inv env (World.start s) where
  sound := hs
  calls := fun _ => trivial
  commits := by
    intro p cm h
    cases h
  writers := by
    intro q m h
    cases h
  lookups := fun _ => trivial

theorem Inv.grow {w : World} (h : Inv env w) (hg : Grows env w.store s') (hs : Sound env s') :
    Inv env { w with store := s' } where
  sound := hs
  calls := fun p => (h.calls p).mono hg
  commits := fun p cm hcm => ⟨(h.commits p cm hcm).1.mono hg, (h.commits p cm hcm).2⟩
  writers := fun q m hm => ⟨(h.writers q m hm).1, fun r hr => hg.carries _ _ ((h.writers q m hm).2 r hr)⟩
  lookups := fun l => (h.lookups l).mono hg

theorem Inv.become {w : World} (h : Inv env w) {p : Nat} {next : CallState × FileStore}
    (hnext : Advances env w.store next)
    (hcall : (w.calls p).call = none ∨ next.1.call = (w.calls p).call) :
    Inv env (w.become p next) where
  sound := hnext.sound
  calls := by
    intro q
    by_cases hq : q = p
    · subst hq
      simpa [World.become] using hnext.knows
    · simpa [World.become, Function.update_of_ne hq] using (h.calls q).mono hnext.grows
  commits := by
    intro q cm hcm
    by_cases hq : q = p
    · subst hq
      simp only [World.become, Function.update_self] at hcm ⊢
      cases hnew : next.1.commit w.store with
      | some cm' =>
        rw [hnew, Option.some_or] at hcm
        cases hcm
        obtain ⟨d, view, updated, hpc, -⟩ := commit_some hnew
        have hknows := hnext.knows
        rw [hpc] at hknows ⊢
        exact ⟨hknows.2, rfl⟩
      | none =>
        rw [hnew, Option.none_or] at hcm
        obtain ⟨hsettles, hsame⟩ := h.commits q cm hcm
        refine ⟨hsettles.mono hnext.grows, ?_⟩
        cases hcall with
        | inl hnone =>
          rw [hnone] at hsame
          cases hsame
        | inr heq => exact heq.trans hsame
    · simp only [World.become, Function.update_of_ne hq] at hcm ⊢
      exact ⟨(h.commits q cm hcm).1.mono hnext.grows, (h.commits q cm hcm).2⟩
  writers := fun q m hm =>
    ⟨(h.writers q m hm).1, fun r hr => hnext.grows.carries _ _ ((h.writers q m hm).2 r hr)⟩
  lookups := fun l => (h.lookups l).mono hnext.grows

theorem Inv.setLookup {w : World} (h : Inv env w) (l : Nat) {st : LookupState}
    (hst : LookupKnown env w.store st) :
    Inv env { w with lookups := Function.update w.lookups l st } :=
  { h with
    lookups := by
      intro l'
      dsimp only
      by_cases hl : l' = l
      · rw [hl, Function.update_self]
        exact hst
      · rw [Function.update_of_ne hl]
        exact h.lookups l' }

theorem edit_known {m : MoleculeData} (h : WriterKnown env s m) (edit : Edit) :
    (edit.apply m).fleetId = env.home (edit.apply m).id ∧
      ∀ r, (edit.apply m).collapseReceipt = some r → Carries env s (edit.apply m).id r := by
  refine ⟨by rw [edit.fleet, edit.id]; exact h.1, fun r hr => ?_⟩
  rw [edit.id]
  cases edit.receipt m with
  | inl hkeep => exact h.2 r (hkeep.symm.trans hr)
  | inr hnone =>
    rw [hnone] at hr
    cases hr

inductive Steps (env : Env) (w : World) : Op → World → Prop where
  | nothing (op : Op) : Steps env w op w
  | starts (p : Nat) (c : Call) (hidle : w.calls p = .idle) :
      Steps env w (.call p c) (w.become p (.waiting c, w.store))
  | advances (p : Nat) (choice : Choice) :
      Steps env w (.advance p choice)
        (w.become p ((w.calls p).next env w.store (fun l => (w.locks l).isNone) choice))
  | crashes (p : Nat) (c : Call) (hcall : (w.calls p).call = some c)
      (hopen : ∀ c result, w.calls p ≠ .ended c result) :
      Steps env w (.crash p) (w.become p (.crashed c, w.store))
  | loads (q : Nat) (id : MoleculeId) (m : MoleculeData) (hm : w.store.current id = some m) :
      Steps env w (.load q id) { w with writers := Function.update w.writers q (some m) }
  | saves (q : Nat) (edit : Edit) (checked : Bool) (m : MoleculeData) (s' : FileStore)
      (hm : w.writers q = some m)
      (hsave : w.store.writeMoleculeChecked env (edit.apply m)
        (if checked then some (env.revisionOf m) else none) = .ok s') :
      Steps env w (.save q edit checked) { w with store := s' }
  | creates (data : MoleculeData) (s' : FileStore)
      (hsave : w.store.saveMolecule env
        { data with fleetId := env.home data.id, collapseReceipt := none } = .ok s') :
      Steps env w (.create data) { w with store := s' }
  | asks (l : Nat) (id : MoleculeId) (key : IdempotencyKey) (hidle : w.lookups l = .idle) :
      Steps env w (.lookup l id key)
        { w with lookups := Function.update w.lookups l (lookupKey env w.store id key) }
  | answers (l : Nat) (id : MoleculeId) (key : IdempotencyKey) (record : Option CollapseKeyRecord)
      (hread : w.lookups l = .keyRead id key record) :
      Steps env w (.answer l)
        { w with lookups := Function.update w.lookups l (lookupState w.store id key record) }

theorem step_steps (env : Env) (w : World) (op : Op) : Steps env w op (w.step env op) := by
  cases op with
  | call p c =>
    simp only [World.step]
    split
    · rename_i hidle
      exact .starts p c hidle
    · exact .nothing _
  | advance p choice => exact .advances p choice
  | crash p =>
    simp only [World.step]
    split
    · exact .nothing _
    · rename_i hopen
      split
      · exact .nothing _
      · rename_i c hcall
        exact .crashes p c hcall hopen
  | load q id =>
    simp only [World.step, FileStore.loadMolecule]
    cases hm : w.store.current id with
    | none => exact .nothing _
    | some m => exact .loads q id m hm
  | save q edit checked =>
    simp only [World.step, save_eq]
    split
    · exact .nothing _
    · rename_i m hm
      split
      · exact .nothing _
      · rename_i s' hsave
        exact .saves q edit checked m s' hm hsave
  | create data =>
    simp only [World.step]
    split
    · exact .nothing _
    · split
      · exact .nothing _
      · rename_i s' hsave
        exact .creates data s' hsave
  | lookup l id key =>
    simp only [World.step]
    split
    · rename_i hidle
      exact .asks l id key hidle
    · exact .nothing _
  | answer l =>
    simp only [World.step]
    split
    · rename_i id key record hread
      exact .answers l id key record hread
    · exact .nothing _

theorem Inv.load {w : World} (h : Inv env w) (q : Nat) {id : MoleculeId} {m : MoleculeData}
    (hm : w.store.current id = some m) :
    Inv env { w with writers := Function.update w.writers q (some m) } :=
  { h with
    writers := by
      intro q' m' hm'
      dsimp only at hm' ⊢
      by_cases hq : q' = q
      · subst hq
        rw [Function.update_self] at hm'
        cases hm'
        obtain ⟨hid, hfleet⟩ := h.sound.housed.current_fleetId hm
        refine ⟨hid.symm ▸ hfleet, fun r hr => ?_⟩
        rw [hid]
        exact (h.sound.current_receipt hm hr).1
      · rw [Function.update_of_ne hq] at hm'
        exact h.writers q' m' hm' }

theorem Steps.inv {w w' : World} {op : Op} (hstep : Steps env w op w') (h : Inv env w) :
    Inv env w' ∧ Grows env w.store w'.store := by
  cases hstep with
  | nothing => exact ⟨h, .refl _ _⟩
  | starts p c hidle =>
    exact ⟨h.become (.reads h.sound trivial) (.inl (by rw [hidle]; rfl)), .refl _ _⟩
  | advances p choice =>
    have hmoves : Moves env w.store _ choice (w.calls p) _ :=
      next_moves (w.calls p) w.store (fun l => (w.locks l).isNone) choice
    have hnext := hmoves.advances h.sound (h.calls p)
    exact ⟨h.become hnext (.inr hmoves.call_eq), hnext.grows⟩
  | crashes p c hcall hopen =>
    exact ⟨h.become (.reads h.sound trivial) (.inr (by rw [hcall]; rfl)), .refl _ _⟩
  | loads q id m hm => exact ⟨h.load q hm, .refl _ _⟩
  | saves q edit checked m s' hm hsave =>
    obtain ⟨hfleet, hreceipt⟩ := edit_known (h.writers q m hm) edit
    have hg := h.sound.save_grows hfleet hsave
    exact ⟨h.grow hg (h.sound.save hfleet hsave fun r hr => .inl (hreceipt r hr)), hg⟩
  | creates data s' hsave =>
    have hg := h.sound.save_grows rfl hsave
    refine ⟨h.grow hg (h.sound.save rfl hsave ?_), hg⟩
    intro r hr
    cases hr
  | asks l id key hidle => exact ⟨h.setLookup l (lookupKey_known h.sound id key), .refl _ _⟩
  | answers l id key record hread =>
    have hknown := h.lookups l
    rw [hread] at hknown
    exact ⟨h.setLookup l (lookupState_known h.sound hknown), .refl _ _⟩

theorem step_inv {w : World} (h : Inv env w) (op : Op) :
    Inv env (w.step env op) ∧ Grows env w.store (w.step env op).store :=
  (step_steps env w op).inv h

variable {ops : List Op}

/-- The state of a run from store `s` before its `n`-th step. -/
def worldAt (env : Env) (s : FileStore) (ops : List Op) (n : Nat) : World :=
  stateAt (World.step env) (World.start s) ops n

theorem worldAt_succ {n : Nat} {op : Op} (h : ops[n]? = some op) :
    worldAt env s ops (n + 1) = (worldAt env s ops n).step env op :=
  stateAt_succ _ h _

theorem worldAt_preserves {P : World → Prop}
    (hstep : ∀ n op, ops[n]? = some op → P (worldAt env s ops n) → P ((worldAt env s ops n).step env op))
    {i j : Nat} (hij : i ≤ j) (h : P (worldAt env s ops i)) : P (worldAt env s ops j) :=
  stateAt_preserves (World.start s) hstep hij h

theorem run_inv (hs : Sound env s) (ops : List Op) (n : Nat) : Inv env (worldAt env s ops n) :=
  worldAt_preserves (fun _ op _ h => (step_inv h op).1) (Nat.zero_le n) (start_inv hs)

theorem run_grows (hs : Sound env s) (ops : List Op) {i j : Nat} (hij : i ≤ j) :
    Grows env (worldAt env s ops i).store (worldAt env s ops j).store := by
  apply worldAt_preserves (P := fun w => Grows env (worldAt env s ops i).store w.store) _ hij (.refl _ _)
  intro n op _ h
  exact h.trans (step_inv (run_inv hs ops n) op).2

end Cosmon.State.CollapseRuns
