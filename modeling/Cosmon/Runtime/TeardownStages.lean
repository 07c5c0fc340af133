import Cosmon.Runtime.ResidentLoop

namespace Cosmon.Runtime.TeardownStages

open Cosmon.Runtime.Resident Cosmon.Runtime.ResidentLoop

/-- Where the harvest of one molecule stands: waiting after some failures, failed for the last
time, or settled. -/
inductive Stage where
  | waiting (failed : Nat)
  | blocked
  | settled
deriving DecidableEq

def about (id : String) : Event → Bool
  | .sighted _ => false
  | .rearmed i => i = id
  | .attempted d _ => d.moleculeId = id
  | .parked i => i = id

def failedDone (id : String) (e : Event) : Bool := e = .attempted (.done id) false

def afterDone (failed : Nat) (ok : Bool) : Stage :=
  if ok then .settled
  else if failed + 1 < teardownAttemptCeiling then .waiting (failed + 1)
  else .blocked

/-- What may happen to a molecule that waits. Failures are counted from the last sight of the
molecules that lacks it. -/
def fromWaiting (id : String) (n : Nat) : Event → Option Stage
  | .sighted ids => some (.waiting (if id ∈ ids then n else 0))
  | .rearmed _ => some (.waiting n)
  | .attempted d ok => some (if d = .done id then afterDone n ok else .waiting n)
  | .parked i => if i = id then none else some (.waiting n)

def advance (id : String) (stage : Stage) (e : Event) : Option Stage :=
  match stage with
  | .waiting n => fromWaiting id n e
  | .blocked => if e = .parked id then some .settled else if about id e then none else some .blocked
  | .settled => if about id e then none else some .settled

def stageOf (id : String) (events : List Event) : Option Stage := events.foldlM (advance id) (.waiting 0)

def Stage.level : Stage → Nat
  | .waiting n => n
  | .blocked => teardownAttemptCeiling
  | .settled => teardownAttemptCeiling

section Traces

variable {id : String} {events : List Event} {stage stage' : Stage}

theorem stageOf_concat (e : Event) : stageOf id (events ++ [e]) = (stageOf id events).bind fun s => advance id s e := by
  rw [stageOf, List.foldlM_append]
  cases h : List.foldlM (advance id) (.waiting 0) events with
  | none => simp [stageOf, h]
  | some s => simp [stageOf, h]

theorem foldlM_cons_some {e : Event} (h : (e :: events).foldlM (advance id) stage = some stage') :
    ∃ s, advance id stage e = some s ∧ events.foldlM (advance id) s = some stage' := by
  rw [List.foldlM_cons] at h
  exact Option.bind_eq_some_iff.mp h

theorem foldlM_append_some {front : List Event} (h : (front ++ events).foldlM (advance id) stage = some stage') :
    ∃ s, front.foldlM (advance id) stage = some s ∧ events.foldlM (advance id) s = some stage' := by
  rw [List.foldlM_append] at h
  exact Option.bind_eq_some_iff.mp h

theorem settled_rest (h : events.foldlM (advance id) .settled = some stage) : ∀ e ∈ events, about id e = false := by
  induction events with
  | nil => simp
  | cons e rest ih =>
    obtain ⟨s, hs, hrest⟩ := foldlM_cons_some h
    cases habout : about id e with
    | true => simp [advance, habout] at hs
    | false =>
      simp only [advance, habout, Bool.false_eq_true, ↓reduceIte, Option.some.injEq] at hs
      subst hs
      exact List.forall_mem_cons.mpr ⟨habout, ih hrest⟩

theorem advance_parked (h : advance id stage (.parked id) = some stage') : stage' = .settled := by
  cases stage with
  | waiting n => simp [advance, fromWaiting] at h
  | blocked =>
    rw [advance, if_pos rfl] at h
    exact (Option.some.inj h).symm
  | settled => simp [advance, about] at h

theorem after_parked {front back : List Event} (h : stageOf id (front ++ .parked id :: back) = some stage) :
    ∀ e ∈ back, about id e = false := by
  obtain ⟨s, -, h⟩ := foldlM_append_some h
  obtain ⟨s', hs', h⟩ := foldlM_cons_some h
  rw [advance_parked hs'] at h
  exact settled_rest h

theorem level_afterDone {n : Nat} (hn : n < teardownAttemptCeiling) (ok : Bool) :
    n + (if ok then 0 else 1) ≤ (afterDone n ok).level := by
  unfold afterDone
  cases ok with
  | true => exact Nat.le_of_lt hn
  | false =>
    simp only [Bool.false_eq_true, ↓reduceIte]
    split
    · exact Nat.le_refl _
    · exact hn

def Stage.Fair : Stage → Prop
  | .waiting n => n < teardownAttemptCeiling
  | _ => True

theorem afterDone_fair (n : Nat) (ok : Bool) : (afterDone n ok).Fair := by
  unfold afterDone
  cases ok with
  | true => trivial
  | false =>
    simp only [Bool.false_eq_true, ↓reduceIte]
    split
    · assumption
    · trivial

theorem Stage.Fair.level_le (h : stage.Fair) : stage.level ≤ teardownAttemptCeiling := by
  cases stage with
  | waiting n => exact Nat.le_of_lt h
  | blocked => exact Nat.le_refl _
  | settled => exact Nat.le_refl _

theorem advance_fair (hfair : stage.Fair) {e : Event} (h : advance id stage e = some stage') : stage'.Fair := by
  cases stage with
  | waiting n =>
    cases e with
    | sighted ids =>
      cases h
      split
      · exact hfair
      · exact Nat.zero_lt_succ 4
    | rearmed i =>
      cases h
      exact hfair
    | attempted d ok =>
      cases h
      split
      · exact afterDone_fair n ok
      · exact hfair
    | parked i =>
      simp only [advance, fromWaiting] at h
      split at h <;> cases h
      exact hfair
  | blocked =>
    simp only [advance] at h
    split at h
    · cases h
      trivial
    · split at h <;> cases h
      trivial
  | settled =>
    simp only [advance] at h
    split at h <;> cases h
    trivial

theorem failedDone_of_not_about {e : Event} (h : about id e = false) : failedDone id e = false := by
  rw [failedDone, decide_eq_false_iff_not]
  rintro rfl
  simp [about, Decision.moleculeId] at h

theorem advance_other {e : Event} (habout : about id e = false) (hsight : ∀ ids, e ≠ .sighted ids) :
    advance id stage e = some stage := by
  cases stage with
  | waiting n =>
    cases e with
    | sighted ids => exact absurd rfl (hsight ids)
    | rearmed i => rfl
    | attempted d ok =>
      have hd : d ≠ .done id := by
        rintro rfl
        simp [about, Decision.moleculeId] at habout
      simp only [advance, fromWaiting, if_neg hd]
    | parked i =>
      have hi : i ≠ id := by simpa [about] using habout
      simp only [advance, fromWaiting, if_neg hi]
  | blocked =>
    have he : e ≠ .parked id := by
      rintro rfl
      simp [about] at habout
    simp only [advance, if_neg he, habout, Bool.false_eq_true, ↓reduceIte]
  | settled => simp only [advance, habout, Bool.false_eq_true, ↓reduceIte]

theorem foldlM_other {others : List Event} (h : ∀ e ∈ others, about id e = false ∧ ∀ ids, e ≠ .sighted ids) :
    others.foldlM (advance id) stage = some stage := by
  induction others with
  | nil => rfl
  | cons e rest ih =>
    rw [List.forall_mem_cons] at h
    rw [List.foldlM_cons, advance_other h.1.1 h.1.2]
    exact ih h.2

theorem advance_counts (hfair : stage.Fair) {e : Event} (hsight : ∀ ids, e = .sighted ids → id ∈ ids)
    (h : advance id stage e = some stage') :
    stage.level + (if failedDone id e then 1 else 0) ≤ stage'.level := by
  cases stage with
  | waiting n =>
    cases e with
    | sighted ids =>
      cases h
      rw [if_pos (hsight ids rfl)]
      exact Nat.le_refl n
    | rearmed i =>
      cases h
      exact Nat.le_refl n
    | attempted d ok =>
      cases h
      by_cases hd : d = .done id
      · subst hd
        rw [if_pos rfl]
        have hlevel := level_afterDone hfair ok
        cases ok <;> simpa [failedDone, Stage.level] using hlevel
      · simp [failedDone, hd, Stage.level]
    | parked i =>
      simp only [advance, fromWaiting] at h
      split at h <;> cases h
      exact Nat.le_refl n
  | blocked =>
    simp only [advance] at h
    split at h
    · next heq =>
      cases h
      rw [heq]
      exact Nat.le_refl _
    · split at h <;> cases h
      next habout =>
        rw [failedDone_of_not_about (Bool.eq_false_of_not_eq_true habout)]
        exact Nat.le_refl _
  | settled =>
    simp only [advance] at h
    split at h <;> cases h
    next habout =>
      rw [failedDone_of_not_about (Bool.eq_false_of_not_eq_true habout)]
      exact Nat.le_refl _

/-- In a stretch that the molecule is always in sight, no more fail than the ceiling allows. -/
theorem stretch_bounded {stretch : List Event} (hfair : stage.Fair)
    (hsight : ∀ ids, .sighted ids ∈ stretch → id ∈ ids) (h : stretch.foldlM (advance id) stage = some stage') :
    stage.level + stretch.countP (failedDone id) ≤ teardownAttemptCeiling := by
  induction stretch generalizing stage with
  | nil => exact hfair.level_le
  | cons e rest ih =>
    obtain ⟨s, hs, hrest⟩ := foldlM_cons_some h
    have hstep := advance_counts hfair (fun ids he => hsight ids (he ▸ List.mem_cons_self)) hs
    have htail := ih (advance_fair hfair hs) (fun ids hmem => hsight ids (List.mem_cons_of_mem e hmem)) hrest
    rw [List.countP_cons]
    omega

theorem foldlM_fair (hfair : stage.Fair) (h : events.foldlM (advance id) stage = some stage') : stage'.Fair := by
  induction events generalizing stage with
  | nil =>
    cases h
    exact hfair
  | cons e rest ih =>
    obtain ⟨s, hs, hrest⟩ := foldlM_cons_some h
    exact ih (advance_fair hfair hs) hrest

end Traces

/-- What a run promises for a molecule. -/
structure Bounded (id : String) (events : List Event) : Prop where
  failures : ∀ front stretch back, events = front ++ stretch ++ back → (∀ ids, .sighted ids ∈ stretch → id ∈ ids) →
    stretch.countP (failedDone id) ≤ teardownAttemptCeiling
  once : events.count (.parked id) ≤ 1
  untouched : ∀ front back, events = front ++ .parked id :: back → ∀ e ∈ back, about id e = false

theorem bounded_of_stage {id : String} {events : List Event} {stage : Stage} (h : stageOf id events = some stage) :
    Bounded id events := by
  have hstart : (Stage.waiting 0).Fair := Nat.zero_lt_succ 4
  constructor
  · rintro front stretch back rfl hsight
    obtain ⟨s, hs, -⟩ := foldlM_append_some h
    obtain ⟨s', hfront, hstretch⟩ := foldlM_append_some hs
    have hbound := stretch_bounded (foldlM_fair hstart hfront) hsight hstretch
    omega
  · by_cases hmem : .parked id ∈ events
    · have hlast : ∀ front back, events = front ++ .parked id :: back → .parked id ∉ back := by
        rintro front back rfl hback
        simpa [about] using after_parked h (.parked id) hback
      obtain ⟨front, back, hsplit⟩ := List.append_of_mem hmem
      have hfront : .parked id ∉ front := by
        intro hin
        obtain ⟨first, rest, rfl⟩ := List.append_of_mem hin
        rw [List.append_assoc, List.cons_append] at hsplit
        exact hlast first _ hsplit (List.mem_append_right rest List.mem_cons_self)
      rw [hsplit, List.count_append, List.count_cons_self, List.count_eq_zero_of_not_mem hfront,
        List.count_eq_zero_of_not_mem (hlast front back hsplit)]
    · rw [List.count_eq_zero_of_not_mem hmem]
      exact Nat.zero_le 1
  · rintro front back rfl
    exact after_parked h

end Cosmon.Runtime.TeardownStages
