import Cosmon.Runtime.TeardownFrames

namespace Cosmon.Runtime.TeardownCeiling

open Cosmon.Core.HarnessTurn Cosmon.Lib.Effects.Effect Cosmon.Runtime.Resident Cosmon.Runtime.ResidentLoop
  Cosmon.Runtime.TeardownStages Cosmon.Runtime.TeardownFrames

section Assertions

variable {σ δ α : Type} {id : String}

def At (id : String) (stage : Stage) (l : Loop σ δ) : Prop := stageOf id l.events = some stage

def Legal (id : String) (l : Loop σ δ) : Prop := ∃ stage, At id stage l

structure Retrying (id : String) (n : Nat) (l : Loop σ δ) : Prop where
  bound : n < teardownAttemptCeiling
  entry : ∀ r, (id, r) ∈ l.teardownRetries → r.parked = false ∧ r.attempts = n
  fresh : (∀ r, (id, r) ∉ l.teardownRetries) → n = 0

def Marked (id : String) (l : Loop σ δ) : Prop := id ∈ l.scheduler.tackled ∧ id ∈ l.scheduler.merged

/-- The loop is through with the molecule: its marks stay, for there is nothing to put it up again. -/
structure GivenUp (id : String) (l : Loop σ δ) : Prop where
  marked : Marked id l
  entry : ∀ r, (id, r) ∈ l.teardownRetries → r.parked = true

def Waiting (id : String) (n : Nat) (l : Loop σ δ) : Prop := At id (.waiting n) l ∧ Retrying id n l

def Settled (id : String) (l : Loop σ δ) : Prop := At id .settled l ∧ GivenUp id l

/-- Between two decisions the loop keeps its books as the stages say. -/
def Tracked (id : String) (l : Loop σ δ) : Prop := (∃ n, Waiting id n l) ∨ Settled id l

def Ready (id : String) (d : Decision) (l : Loop σ δ) : Prop :=
  (∃ n, Waiting id n l) ∧ (d = .done id → Marked id l)

def Tried (id : String) (n : Nat) (ok : Bool) (l : Loop σ δ) : Prop :=
  At id (afterDone n ok) l ∧ Retrying id n l ∧ Marked id l

/-- What holds of a molecule whatever happens elsewhere, and of legal events only. -/
structure Framed (id : String) (P : Loop σ δ → Prop) : Prop where
  moves : ∀ l l', Elsewhere id l l' → P l → P l'
  legal : ∀ l, P l → Legal id l

theorem Framed.keeps {P : Loop σ δ → Prop} (hP : Framed id P) {x : Run σ δ α} (hx : Keeps (Elsewhere id) x) :
    Triple P x (fun _ => P) (Legal id) :=
  (hx.triple hP.moves).fault hP.legal

section Moves

variable {l l' : Loop σ δ}

theorem At.moves {stage : Stage} (h : Elsewhere id l l') (hat : At id stage l) : At id stage l' := by
  obtain ⟨others, heq, hothers⟩ := h.events
  rw [At, heq, stageOf, List.foldlM_append]
  unfold At stageOf at hat
  rw [hat]
  exact foldlM_other hothers

theorem Retrying.moves {n : Nat} (h : Elsewhere id l l') (hr : Retrying id n l) : Retrying id n l' :=
  ⟨hr.bound, fun r hmem => hr.entry r ((h.retries r).mp hmem),
    fun hnone => hr.fresh fun r hmem => hnone r ((h.retries r).mpr hmem)⟩

theorem Marked.moves (h : Elsewhere id l l') (hm : Marked id l) : Marked id l' :=
  ⟨h.tackled.mpr hm.1, h.merged.mpr hm.2⟩

theorem GivenUp.moves (h : Elsewhere id l l') (hg : GivenUp id l) : GivenUp id l' :=
  ⟨hg.marked.moves h, fun r hmem => hg.entry r ((h.retries r).mp hmem)⟩

end Moves

theorem framed_legal : Framed id fun l : Loop σ δ => Legal id l where
  moves := fun _ _ h ⟨stage, hat⟩ => ⟨stage, hat.moves h⟩
  legal := fun _ h => h

theorem framed_waiting : Framed id fun l : Loop σ δ => ∃ n, Waiting id n l where
  moves := fun _ _ h ⟨n, hat, hr⟩ => ⟨n, hat.moves h, hr.moves h⟩
  legal := fun _ ⟨n, hat, _⟩ => ⟨.waiting n, hat⟩

theorem framed_givenUp (stage : Stage) : Framed id fun l : Loop σ δ => At id stage l ∧ GivenUp id l where
  moves := fun _ _ h ⟨hat, hg⟩ => ⟨hat.moves h, hg.moves h⟩
  legal := fun _ ⟨hat, _⟩ => ⟨stage, hat⟩

theorem framed_tracked : Framed id fun l : Loop σ δ => Tracked id l where
  moves := fun l l' h ht => ht.imp (framed_waiting.moves l l' h) ((framed_givenUp .settled).moves l l' h)
  legal := fun l ht => ht.elim (framed_waiting.legal l) ((framed_givenUp .settled).legal l)

theorem framed_ready (d : Decision) : Framed id fun l : Loop σ δ => Ready id d l where
  moves := fun l l' h hready => ⟨framed_waiting.moves l l' h hready.1, fun hd => (hready.2 hd).moves h⟩
  legal := fun l hready => framed_waiting.legal l hready.1

theorem framed_tried (n : Nat) (ok : Bool) : Framed id fun l : Loop σ δ => Tried id n ok l where
  moves := fun _ _ h ⟨hat, hr, hm⟩ => ⟨hat.moves h, hr.moves h, hm.moves h⟩
  legal := fun _ ⟨hat, _⟩ => ⟨afterDone n ok, hat⟩

theorem framed_attempted (ok : Bool) : Framed id fun l : Loop σ δ => ∃ n, Tried id n ok l where
  moves := fun l l' h ⟨n, ht⟩ => ⟨n, (framed_tried n ok).moves l l' h ht⟩
  legal := fun l ⟨n, ht⟩ => (framed_tried n ok).legal l ht

end Assertions

section Steps

variable {σ δ : Type} {id : String} (host : Host σ δ) (config : RuntimeLoopConfig)

theorem at_concat {l l' : Loop σ δ} {stage stage' : Stage} {e : Event} (hat : At id stage l)
    (hevents : l'.events = l.events ++ [e]) (h : advance id stage e = some stage') : At id stage' l' := by
  unfold At at hat ⊢
  rw [hevents, stageOf_concat, hat]
  exact h

theorem forget_waiting (i : String) :
    Triple (fun l : Loop σ δ => ∃ n, Waiting id n l) (forgetDispatch i) (fun _ l => ∃ n, Waiting id n l)
      (Legal id) := by
  refine Triple.bind (Q := fun _ l => ∃ n, Waiting id n l) (triple_modify ?_) fun _ => triple_modify ?_
  · rintro l ⟨n, hat, hr⟩
    exact ⟨n, hat, hr.bound, hr.entry, hr.fresh⟩
  · rintro l ⟨n, hat, hr⟩
    exact ⟨n, at_concat hat rfl rfl, hr.bound, hr.entry, hr.fresh⟩

theorem forget_tracked {i : String} (h : i ≠ id) :
    Triple (fun l : Loop σ δ => Tracked id l) (forgetDispatch i) (fun _ l => Tracked id l) (Legal id) :=
  framed_tracked.keeps (keeps_forgetDispatch h)

theorem rearm_tracked :
    Triple (fun l : Loop σ δ => Tracked id l) (rearm host) (fun _ l => Tracked id l) (Legal id) := by
  refine Triple.bind (framed_tracked.keeps (keeps_ask _)) fun now => ?_
  refine triple_get.bind fun books => ?_
  by_cases hid : id ∈ (books.teardownRetries.filter (due now)).map Prod.fst
  · have hwaiting : Triple (fun l : Loop σ δ => ∃ n, Waiting id n l)
        (each forgetDispatch ((books.teardownRetries.filter (due now)).map Prod.fst))
        (fun _ l => ∃ n, Waiting id n l) (Legal id) := triple_each fun i _ => forget_waiting i
    refine (hwaiting.post fun _ l h => .inl h).pre ?_
    rintro l ⟨rfl, hw | hs⟩
    · exact hw
    · obtain ⟨⟨i, r⟩, hr, rfl⟩ := List.mem_map.mp hid
      obtain ⟨hr, hdue⟩ := List.mem_filter.mp hr
      have hparked := hs.2.entry r hr
      simp [due, hparked] at hdue
  · refine Triple.pre (triple_each fun i hi => forget_tracked ?_) fun l h => h.2
    rintro rfl
    exact hid hi

theorem retain_tracked (snapshot : EnsembleSnapshot) :
    Triple (fun l : Loop σ δ => Tracked id l) (retain snapshot) (fun _ l => Tracked id l) (Legal id) := by
  apply triple_modify
  rintro l (⟨n, hat, hr⟩ | ⟨hat, hg⟩)
  · by_cases hid : id ∈ snapshot.molecules.map EnsembleMolecule.id
    · refine .inl ⟨n, at_concat hat rfl ?_, hr.bound, fun r hmem => hr.entry r (List.mem_filter.mp hmem).1, ?_⟩
      · simp only [advance, fromWaiting, if_pos hid]
      · intro hnone
        exact hr.fresh fun r hmem => hnone r (List.mem_filter.mpr ⟨hmem, decide_eq_true hid⟩)
    · have hgone : ∀ r, (id, r) ∉ l.teardownRetries.filter
          fun p => p.1 ∈ snapshot.molecules.map EnsembleMolecule.id := by
        intro r hmem
        exact hid (of_decide_eq_true (List.mem_filter.mp hmem).2)
      refine .inl ⟨0, at_concat hat rfl ?_, Nat.zero_lt_succ 4, fun r hmem => absurd hmem (hgone r), fun _ => rfl⟩
      simp only [advance, fromWaiting, if_neg hid]
  · exact .inr ⟨at_concat hat rfl rfl, hg.marked, fun r hmem => hg.entry r (List.mem_filter.mp hmem).1⟩

/-- The decisions of a tick about the molecule: one at most, and none if the loop is through
with it. -/
def Pending (id : String) (ds : List Decision) (l : Loop σ δ) : Prop :=
  Tracked id l ∧ ds.countP (concerns id) ≤ 1 ∧ ∀ d ∈ ds, d.moleculeId = id → Ready id d l

theorem framed_pending (ds : List Decision) : Framed id fun l : Loop σ δ => Pending id ds l where
  moves := fun l l' h ⟨ht, hone, hready⟩ => ⟨framed_tracked.moves l l' h ht, hone,
    fun d hd hid => (framed_ready d).moves l l' h (hready d hd hid)⟩
  legal := fun l h => framed_tracked.legal l h.1

theorem nextDecisions_pending (snapshot : EnsembleSnapshot) :
    Triple (fun l : Loop σ δ => Tracked id l) (nextDecisions snapshot) (Pending id) (Legal id) := by
  constructor
  · rintro l ds l' ht hx
    cases hx
    obtain ⟨hone, htackled, hmerged, hnone, hdone⟩ := nextDecisions_concerns id l.scheduler snapshot
    obtain ⟨n, hat, hr⟩ | ⟨hat, hg⟩ := ht
    · have hwaiting : Waiting id n { l with scheduler := (l.scheduler.nextDecisions snapshot).1 } :=
        ⟨hat, hr.bound, hr.entry, hr.fresh⟩
      exact ⟨.inl ⟨n, hwaiting⟩, hone, fun d hd _ => ⟨⟨n, hwaiting⟩, fun h => hdone (h ▸ hd)⟩⟩
    · refine ⟨.inr ⟨hat, ⟨htackled hg.marked.1, hmerged hg.marked.2⟩, hg.entry⟩, hone, fun d hd hid => ?_⟩
      have hzero := List.countP_eq_zero.mp (hnone hg.marked.1 hg.marked.2) d hd
      exact absurd (decide_eq_true hid) hzero
  · rintro l e l' - hx
    cases hx

theorem putRetry_entry {i : String} {entry r : TeardownRetry} {retries : List (String × TeardownRetry)}
    (h : (i, r) ∈ (i, entry) :: retries.filter fun p => p.1 ≠ i) : r = entry := by
  obtain h | h := List.mem_cons.mp h
  · exact (Prod.ext_iff.mp h).2
  · exact absurd rfl (of_decide_eq_true (List.mem_filter.mp h).2)

theorem retryEntry_tried :
    Triple (fun l : Loop σ δ => ∃ n, Tried id n false l) (retryEntry host id)
      (fun entry l => entry.parked = false ∧ Tried id entry.attempts false l) (Legal id) := by
  refine triple_get.bind fun books => ?_
  cases hlookup : books.teardownRetries.lookup id with
  | some entry =>
    refine triple_pure ?_
    rintro l ⟨rfl, n, hat, hr, hm⟩
    obtain ⟨front, back, hsplit, -⟩ := List.lookup_eq_some_iff.mp hlookup
    have hmem : (id, entry) ∈ books.teardownRetries := by
      rw [hsplit]
      exact List.mem_append_right front List.mem_cons_self
    obtain ⟨hparked, hattempts⟩ := hr.entry entry hmem
    rw [hattempts]
    exact ⟨hparked, hat, hr, hm⟩
  | none =>
    have hfresh : Triple (fun l : Loop σ δ => books = l ∧ ∃ n, Tried id n false l) (ask host.now)
        (fun _ l => Tried id 0 false l) (Legal id) := by
      refine Triple.pre ((framed_tried 0 false).keeps (keeps_ask _)) ?_
      rintro l ⟨rfl, n, hat, hr, hm⟩
      have hn : n = 0 := hr.fresh fun r hmem => by
        simpa using List.lookup_eq_none_iff.mp hlookup _ hmem
      subst hn
      exact ⟨hat, hr, hm⟩
    exact hfresh.bind fun now => triple_pure fun l h => ⟨rfl, h⟩

theorem parkOrBackOff_tried (reason hashAfter : String) :
    Triple (fun l : Loop σ δ => ∃ n, Tried id n false l) (parkOrBackOffTeardown host config id reason hashAfter)
      (fun gaveUp l => if gaveUp then At id .blocked l ∧ GivenUp id l else Tracked id l) (Legal id) := by
  refine (retryEntry_tried host).bind fun entry => Triple.given fun hparked => ?_
  rw [if_neg (by rw [hparked]; exact Bool.false_ne_true)]
  have hcount : ∀ l : Loop σ δ, Tried id entry.attempts false l →
      saturatingSucc entry.attempts = entry.attempts + 1 := by
    rintro l ⟨-, hr, -⟩
    have hbound : entry.attempts < 5 := hr.bound
    unfold saturatingSucc
    omega
  by_cases hattempts : saturatingSucc entry.attempts < teardownAttemptCeiling
  · rw [if_pos hattempts]
    refine ((framed_tried entry.attempts false).keeps (keeps_ask _)).bind fun now => ?_
    refine Triple.bind (Q := fun _ l => Tracked id l) (triple_modify fun l ht => ?_) fun _ =>
      (framed_tracked.keeps (keeps_writeTick host)).bind fun _ => triple_pure fun l ht => ht
    have hsucc := hcount l ht
    rw [hsucc] at hattempts ⊢
    obtain ⟨hat, -, -⟩ := ht
    refine .inl ⟨entry.attempts + 1, ?_, hattempts, fun r hmem => ?_, fun hnone => ?_⟩
    · rwa [afterDone, if_neg Bool.false_ne_true, if_pos hattempts] at hat
    · rw [putRetry_entry hmem]
      exact ⟨hparked, rfl⟩
    · exact absurd List.mem_cons_self (hnone _)
  · rw [if_neg hattempts]
    refine Triple.bind (Q := fun _ l => At id .blocked l ∧ GivenUp id l) (triple_modify fun l ht => ?_) fun _ =>
      ((framed_givenUp .blocked).keeps (keeps_writeTick host)).bind fun _ =>
        ((framed_givenUp .blocked).keeps (keeps_surfaceTeardownBlock host)).bind fun _ => triple_pure fun l hl => hl
    have hsucc := hcount l ht
    rw [hsucc] at hattempts
    obtain ⟨hat, -, hm⟩ := ht
    refine ⟨?_, hm, fun r hmem => ?_⟩
    · rwa [afterDone, if_neg Bool.false_ne_true, if_neg hattempts] at hat
    · rw [putRetry_entry hmem]

theorem removeRetry_tried :
    Triple (fun l : Loop σ δ => ∃ n, Tried id n true l) (removeRetry id) (fun _ l => Tracked id l) (Legal id) := by
  apply triple_modify
  rintro l ⟨n, hat, -, hm⟩
  refine .inr ⟨hat, hm, fun r hmem => ?_⟩
  exact absurd rfl (of_decide_eq_true (List.mem_filter.mp hmem).2)

theorem harvestFailed_tried (e : ResidentError) (hashAfter : String) :
    Triple (fun l : Loop σ δ => ∃ n, Tried id n false l) (harvestFailed host config id e hashAfter)
      (fun _ l => Tracked id l) (Legal id) := by
  refine (parkOrBackOff_tried host config e.text hashAfter).bind fun gaveUp => ?_
  cases gaveUp with
  | false => exact triple_pure fun l h => h
  | true =>
    refine Triple.bind (Q := fun _ l => Tracked id l) (triple_modify ?_) fun _ => framed_tracked.keeps (keeps_count _)
    rintro l ⟨hat, hg⟩
    exact .inr ⟨at_concat hat rfl (if_pos rfl), hg.marked, hg.entry⟩

theorem settle_done (hashAfter : String) (result : Except ResidentError Unit) :
    Triple (fun l : Loop σ δ => ∃ n, Tried id n result.isOk l) (settle host config hashAfter (.done id) result)
      (fun _ l => Tracked id l) (Legal id) := by
  cases result with
  | ok _ => exact ((framed_attempted true).keeps (keeps_count _)).bind fun _ => removeRetry_tried
  | error e => exact harvestFailed_tried host config e hashAfter

theorem settle_tackle {adapter base : Option String} {harness : HarnessMap} (hashAfter : String)
    (result : Except ResidentError Unit) :
    Triple (fun l : Loop σ δ => ∃ n, Waiting id n l)
      (settle host config hashAfter (.tackle id adapter base harness) result) (fun _ l => Tracked id l)
      (Legal id) := by
  refine Triple.post (Q := fun _ l => ∃ n, Waiting id n l) ?_ fun _ l h => .inl h
  cases result with
  | ok _ => exact framed_waiting.keeps (keeps_count _)
  | error e => exact triple_ite (framed_waiting.keeps (keeps_count _)) (forget_waiting id)

theorem attempt_done :
    Triple (fun l : Loop σ δ => Ready id (.done id) l) (attempt host (.done id))
      (fun result l => ∃ n, Tried id n result.isOk l) (Legal id) := by
  refine ((framed_ready (.done id)).keeps (keeps_ask _)).bind fun result => ?_
  refine Triple.bind (Q := fun _ l => ∃ n, Tried id n result.isOk l) (triple_modify ?_) fun _ =>
    triple_pure fun l h => h
  rintro l ⟨⟨n, hat, hr⟩, hm⟩
  refine ⟨n, at_concat hat rfl ?_, ⟨hr.bound, hr.entry, hr.fresh⟩, hm rfl⟩
  simp only [advance, fromWaiting, ↓reduceIte]

theorem attempt_tackle {adapter base : Option String} {harness : HarnessMap} :
    Triple (fun l : Loop σ δ => ∃ n, Waiting id n l) (attempt host (.tackle id adapter base harness))
      (fun _ l => ∃ n, Waiting id n l) (Legal id) := by
  refine (framed_waiting.keeps (keeps_ask _)).bind fun result => ?_
  refine Triple.bind (Q := fun _ l => ∃ n, Waiting id n l) (triple_modify ?_) fun _ => triple_pure fun l h => h
  rintro l ⟨n, hat, hr⟩
  refine ⟨n, at_concat hat rfl ?_, hr.bound, hr.entry, hr.fresh⟩
  simp only [advance, fromWaiting, reduceCtorEq, ↓reduceIte]

def Through {α : Type} (id : String) (stop : Option α) (l : Loop σ δ) : Prop :=
  Legal id l ∧ (stop = none → Tracked id l)

theorem through_none {α : Type} {l : Loop σ δ} (h : Tracked id l) : Through id (none : Option α) l :=
  ⟨framed_tracked.legal l h, fun _ => h⟩

theorem through_some {α : Type} {stop : α} {l : Loop σ δ} (h : Legal id l) : Through id (some stop) l :=
  ⟨h, fun heq => by cases heq⟩

theorem through_keeps {α : Type} {x : Run σ δ (Option α)} (hx : Keeps (Elsewhere id) x) :
    Triple (fun l : Loop σ δ => Tracked id l) x (Through id) (Legal id) :=
  (framed_tracked.keeps hx).post fun _ l h => ⟨framed_tracked.legal l h, fun _ => h⟩

theorem vetoed_ready (d : Decision) (hd : d.moleculeId = id) (hashBefore invocation : String) :
    Triple (fun l : Loop σ δ => Ready id d l) (vetoed host hashBefore invocation d) (fun _ l => Ready id d l)
      (Legal id) := by
  cases d with
  | done i => exact triple_pure fun l h => h
  | tackle i adapter base harness =>
    have hforget : Triple (fun l : Loop σ δ => Ready id (.tackle i adapter base harness) l) (forgetDispatch i)
        (fun _ l => Ready id (.tackle i adapter base harness) l) (Legal id) :=
      ((forget_waiting i).pre fun l h => h.1).post fun _ l h => ⟨h, fun hdone => by cases hdone⟩
    exact ((framed_ready _).keeps (keeps_ask _)).bind fun verdict => triple_ite (triple_pure fun l h => h)
      (((framed_ready _).keeps (keeps_ask _)).bind fun hash => ((framed_ready _).keeps (keeps_call _)).bind fun _ =>
        hforget.bind fun _ => triple_pure fun l h => h)

end Steps

section Ticks

variable {σ δ : Type} [DecidableEq δ] {id : String} (host : Host σ δ) (config : RuntimeLoopConfig)

theorem enact_through {d : Decision} (hd : d.moleculeId = id) {A : Except ResidentError Unit → Loop σ δ → Prop}
    (hA : ∀ result, Framed id (A result))
    (hattempt : Triple (fun l : Loop σ δ => Ready id d l) (attempt host d) A (Legal id))
    (hsettle : ∀ hashAfter result, Triple (A result) (settle host config hashAfter d result)
      (fun _ l => Tracked id l) (Legal id)) (snapshot : EnsembleSnapshot) (hashBefore : String) :
    Triple (fun l : Loop σ δ => Ready id d l) (enact host config snapshot hashBefore d) (Through id) (Legal id) := by
  have hready : Framed id fun l : Loop σ δ => Ready id d l := framed_ready d
  refine (hready.keeps (keeps_drifts host snapshot d)).bind fun drifted => triple_ite
    (triple_pure fun l h => through_some (hready.legal l h)) ?_
  refine (hready.keeps (keeps_ask _)).bind fun invocation =>
    (vetoed_ready host d hd hashBefore invocation).bind fun veto => triple_ite
      (triple_pure fun l h => through_none (.inl h.1)) ?_
  refine hattempt.bind fun result => ((hA result).keeps (keeps_ask _)).bind fun hashAfter => triple_ite
    (triple_pure fun l h => through_some ((hA result).legal l h)) ?_
  exact ((hA result).keeps (keeps_call _)).bind fun _ => (hsettle hashAfter result).bind fun _ =>
    triple_pure fun l h => through_none h

theorem enact_ready {d : Decision} (hd : d.moleculeId = id) (snapshot : EnsembleSnapshot) (hashBefore : String) :
    Triple (fun l : Loop σ δ => Ready id d l) (enact host config snapshot hashBefore d) (Through id) (Legal id) := by
  cases d with
  | done i =>
    obtain rfl : i = id := hd
    exact enact_through host config (d := .done i) rfl (fun result => framed_attempted result.isOk) (attempt_done host)
      (fun hashAfter result => settle_done host config hashAfter result) snapshot hashBefore
  | tackle i adapter base harness =>
    obtain rfl : i = id := hd
    exact enact_through host config (d := .tackle i adapter base harness) rfl (fun _ => framed_waiting)
      ((attempt_tackle host).pre fun l h => h.1)
      (fun hashAfter result => settle_tackle host config hashAfter result) snapshot hashBefore

theorem enactAll_pending (snapshot : EnsembleSnapshot) (hashBefore : String) (ds : List Decision) :
    Triple (Pending id ds) (enactAll host config snapshot hashBefore ds : Run σ δ (Option Halt)) (Through id)
      (Legal id) := by
  induction ds with
  | nil => exact triple_pure fun l h => through_none h.1
  | cons d rest ih =>
    by_cases hd : d.moleculeId = id
    · have hrest : ∀ l : Loop σ δ, (d :: rest).countP (concerns id) ≤ 1 → Tracked id l → Pending id rest l := by
        intro l hone ht
        rw [List.countP_cons_of_pos (show concerns id d = true from decide_eq_true hd)] at hone
        have hnone : rest.countP (concerns id) = 0 := by omega
        exact ⟨ht, by omega, fun d' hd' hid => absurd (decide_eq_true hid) (List.countP_eq_zero.mp hnone d' hd')⟩
      refine Triple.pre (P := fun l => (d :: rest).countP (concerns id) ≤ 1 ∧ Ready id d l)
        (Triple.given fun hone => ?_) fun l h => ⟨h.2.1, h.2.2 d List.mem_cons_self hd⟩
      refine (enact_ready host config hd snapshot hashBefore).bind fun stop => ?_
      cases stop with
      | some halt => exact triple_pure fun l h => through_some h.1
      | none => exact ih.pre fun l h => hrest l hone (h.2 rfl)
    · have hrest : ∀ l : Loop σ δ, Pending id (d :: rest) l → Pending id rest l := by
        rintro l ⟨ht, hone, hready⟩
        rw [List.countP_cons_of_neg (by simpa [concerns] using hd)] at hone
        exact ⟨ht, hone, fun d' hd' => hready d' (List.mem_cons_of_mem d hd')⟩
      refine Triple.bind (((framed_pending rest).keeps (keeps_enact host config hd snapshot hashBefore)).pre hrest)
        fun stop => ?_
      cases stop with
      | some halt => exact triple_pure fun l h => through_some ((framed_pending rest).legal l h)
      | none => exact ih

theorem act_pending (snapshot : EnsembleSnapshot) (hashBefore : String) (ds : List Decision) :
    Triple (Pending id ds) (act host config snapshot hashBefore ds : Run σ δ (Option ExitReason)) (Through id)
      (Legal id) := by
  have hmove : Keeps (Elsewhere id)
      (modify fun l => { l with consecutiveStallTicks := 0 } : Run σ δ Unit) := fun _ => .of_books rfl rfl rfl
  refine ((framed_pending ds).keeps hmove).bind fun _ =>
    (enactAll_pending host config snapshot hashBefore ds).bind fun stop => ?_
  cases stop with
  | none => exact (through_keeps (keeps_closeTick host)).pre fun l h => h.2 rfl
  | some halt =>
    cases halt with
    | drifted => exact triple_pure fun l h => through_some h.1
    | interrupted =>
      refine Triple.pre ?_ fun l h => h.1
      exact (framed_legal.keeps (keeps_writeTick host)).bind fun _ => triple_pure fun l h => through_some h

theorem tick_through :
    Triple (fun l : Loop σ δ => Tracked id l) (tick host config) (Through id) (Legal id) := by
  have hask : ∀ {α : Type} (f : σ → α × σ), Triple (fun l : Loop σ δ => Tracked id l) (ask f)
      (fun _ l => Tracked id l) (Legal id) := fun f => framed_tracked.keeps (keeps_ask f)
  refine (hask _).bind fun down => triple_ite (through_keeps (keeps_operatorSignal host)) ?_
  refine (framed_tracked.keeps (keeps_overBudget host config)).bind fun spent => triple_ite ?_ ?_
  · exact through_keeps (Keeps.bind (keeps_writeTick host) fun _ => keeps_pure _)
  · refine (hask _).bind fun hashBefore => (hask _).bind fun sight => ?_
    cases sight with
    | error e => exact through_keeps (keeps_readFailed host hashBefore e)
    | ok snapshot =>
      refine (retain_tracked snapshot).bind fun _ => (rearm_tracked host).bind fun _ =>
        (nextDecisions_pending snapshot).bind fun ds => triple_ite ?_ (act_pending host config snapshot hashBefore ds)
      exact (through_keeps (keeps_idle host snapshot hashBefore)).pre fun l h => h.1

theorem ticks_through (k : Nat) :
    Triple (fun l : Loop σ δ => Tracked id l) (ticks host config k) (Through id) (Legal id) := by
  induction k with
  | zero => exact triple_pure fun l h => through_none h
  | succ k ih =>
    refine (tick_through host config).bind fun stop => ?_
    cases stop with
    | some exit => exact triple_pure fun l h => through_some h.1
    | none => exact ih.pre fun l h => h.2 rfl

theorem run_legal (k : Nat) :
    Triple (fun l : Loop σ δ => Tracked id l) (run host config k) (fun _ l => Legal id l) (Legal id) := by
  refine (framed_tracked.keeps (keeps_launch host)).bind fun _ => (ticks_through host config k).bind fun stop => ?_
  cases stop with
  | none => exact triple_pure fun l h => h.1
  | some exit =>
    refine Triple.pre ?_ fun l h => h.1
    exact (framed_legal.keeps (keeps_call _)).bind fun _ => (framed_legal.keeps keeps_current).bind fun _ =>
      triple_pure fun l h => h

/-- Whatever the snapshots and whatever fails: of the harvests of a molecule no more fail than the
ceiling allows while every snapshot has it, it is parked once at most, and then left alone. -/
theorem run_bounded (world : σ) (scheduler : ReadyFrontierScheduler) (surface : δ) (k : Nat) :
    Bounded id (run host config k (newLoop world scheduler surface)).2.events := by
  have hstart : Tracked id (newLoop world scheduler surface) :=
    .inl ⟨0, rfl, Nat.zero_lt_succ 4, fun r hmem => absurd hmem List.not_mem_nil, fun _ => rfl⟩
  obtain ⟨stage, hat⟩ := (run_legal host config k).ends (I := Legal id) (fun _ _ h => h) (fun _ h => h) hstart
  exact bounded_of_stage hat

end Ticks

section Flapping

def flappingSnapshot (turn : Nat) : EnsembleSnapshot :=
  { molecules := { id := "b", status := "running" } ::
      match turn % 3 with
      | 0 => [{ id := "a", status := "completed" }]
      | 1 => [{ id := "a", status := "completed", tags := ["hold:human"] }]
      | _ => [] }

/-- The world is the number of the turn. Each harvest fails; after it the molecule is first held
by a person and then gone. -/
def flappingHost : Host Nat Unit where
  openTrace w := (.ok (), w)
  write _ w := (.ok (), w)
  flush w := (.ok (), w)
  spawnWatcher w := (.ok (), w)
  isShutdown w := (false, w)
  elapsed w := (w, w)
  now w := (w * 10 ^ 12, w)
  stateHash w := ("", w)
  configSeal w := ("", w)
  dispatchSurface w := ((), w)
  affectsDispatchedMolecules _ _ _ := false
  readEnsemble w := (.ok (flappingSnapshot w), w)
  invocationUuid w := ("", w)
  recheckTackleCandidate _ w := (.dispatch, w)
  dispatch d w := (.error (.csInvocation d.verb d.moleculeId "exit 1: "), w)
  reapPhantomRunning w := (.ok 0, w)
  shellOutRaw _ w := (.ok (), w)
  waitForEvent w := w + 1
  processId := 1

/-- Six harvests of one molecule fail in a run. -/
theorem run_beyond_ceiling : teardownAttemptCeiling <
    (run flappingHost {} 16 (newLoop 0 {} ())).2.events.countP (failedDone "a") := by
  decide +kernel

end Flapping

end Cosmon.Runtime.TeardownCeiling
