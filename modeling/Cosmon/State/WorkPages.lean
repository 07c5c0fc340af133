import Cosmon.State.WorkBinding

namespace Cosmon.State.WorkPages

open Cosmon.State.Molecule Cosmon.Core.WorkMessage
open Cosmon.State.WorkStore Cosmon.State.WorkOps Cosmon.State.WorkBinding Cosmon.Lib.Checks

/-- What a transport makes of a candidate: it takes the message, or it can never carry it. -/
inductive Verdict where
  | takes (message : PulledMessage)
  | skips (envelope : Envelope)
deriving DecidableEq

def taken (verdicts : List Verdict) : List PulledMessage :=
  verdicts.filterMap fun
    | .takes message => some message
    | .skips _ => none

def skipped (verdicts : List Verdict) : List Envelope :=
  verdicts.filterMap fun
    | .takes _ => none
    | .skips envelope => some envelope

@[simp] theorem taken_takes (message : PulledMessage) (verdicts : List Verdict) :
    taken (.takes message :: verdicts) = message :: taken verdicts := rfl

@[simp] theorem taken_skips (envelope : Envelope) (verdicts : List Verdict) :
    taken (.skips envelope :: verdicts) = taken verdicts := rfl

@[simp] theorem skipped_skips (envelope : Envelope) (verdicts : List Verdict) :
    skipped (.skips envelope :: verdicts) = envelope :: skipped verdicts := rfl

section Verdicts

variable (hashing : Hashing) (s : Store) (maxPayloadBytes : UInt64)
  (decide : List PulledMessage → PulledMessage → Except StoreError PageDecision)

/-- The verdicts on all candidates in their order, up to the first one on which the
transport stops or fails. No limit on messages is in force here. -/
def verdicts : List Envelope → List PulledMessage → List Verdict
  | [], _ => []
  | envelope :: rest, seen =>
    if maxPayloadBytes < envelope.payloadBytes then .skips envelope :: verdicts rest seen
    else
      match s.readPayload hashing envelope with
      | .error _ => []
      | .ok payload =>
        match decide seen ⟨envelope, payload⟩ with
        | .ok .include_ => .takes ⟨envelope, payload⟩ :: verdicts rest (seen ++ [⟨envelope, payload⟩])
        | .ok .skip => .skips envelope :: verdicts rest (seen ++ [⟨envelope, payload⟩])
        | .ok .stop | .error _ => []

end Verdicts

/-- With `m` messages on the page and `n` envelopes beside it, every message that still fits
on the page comes before the skipped envelopes have used up the limit. -/
def Unblocked (maxMessages m n : Nat) (verdicts : List Verdict) : Prop :=
  ∀ before message after, verdicts = before ++ .takes message :: after →
    m + (taken before).length < maxMessages → n + (skipped before).length < maxMessages

section Unblocked

variable {maxMessages m n : Nat} {verdicts : List Verdict}

theorem unblocked_full (h : maxMessages ≤ m) : Unblocked maxMessages m n verdicts := by
  intro before message after _ hroom
  omega

theorem unblocked_stuck (hm : m < maxMessages) (hn : maxMessages ≤ n) :
    Unblocked maxMessages m n verdicts ↔ taken verdicts = [] := by
  constructor
  · intro h
    induction verdicts with
    | nil => rfl
    | cons verdict rest ih =>
      cases verdict with
      | takes message =>
        have hleft := h [] message rest rfl hm
        rw [skipped, List.filterMap_nil, List.length_nil] at hleft
        omega
      | skips envelope =>
        refine ih fun before message after hsplit hroom => ?_
        have hleft := h (.skips envelope :: before) message after (congrArg _ hsplit) hroom
        rw [skipped_skips, List.length_cons] at hleft
        omega
  · rintro hnone before message after rfl
    rw [taken, List.filterMap_append, List.append_eq_nil_iff] at hnone
    cases hnone.2

theorem unblocked_takes (hn : n < maxMessages) (message : PulledMessage) :
    Unblocked maxMessages m n (.takes message :: verdicts) ↔ Unblocked maxMessages (m + 1) n verdicts := by
  constructor
  · intro h before other after hsplit hroom
    refine h (.takes message :: before) other after (congrArg _ hsplit) ?_
    rw [taken_takes, List.length_cons]
    omega
  · intro h before other after hsplit hroom
    cases before with
    | nil => exact hn
    | cons first before =>
      obtain ⟨rfl, hrest⟩ := List.cons.inj hsplit
      rw [taken_takes, List.length_cons] at hroom
      exact h before other after hrest (by omega)

theorem unblocked_skips (envelope : Envelope) :
    Unblocked maxMessages m n (.skips envelope :: verdicts) ↔ Unblocked maxMessages m (n + 1) verdicts := by
  constructor
  · intro h before other after hsplit hroom
    have hleft := h (.skips envelope :: before) other after (congrArg _ hsplit) hroom
    rw [skipped_skips, List.length_cons] at hleft
    omega
  · intro h before other after hsplit hroom
    cases before with
    | nil => cases hsplit
    | cons first before =>
      obtain ⟨rfl, hrest⟩ := List.cons.inj hsplit
      have hleft := h before other after hrest hroom
      rw [skipped_skips, List.length_cons]
      omega

end Unblocked

section Pages

variable {hashing : Hashing} {s : Store} {maxMessages : Nat} {maxPayloadBytes : UInt64}
  {decide : List PulledMessage → PulledMessage → Except StoreError PageDecision}

theorem selectPage_messages {candidates : List Envelope} {seen : List PulledMessage} {page page' : BoundedPull}
    (h : selectPage hashing s maxMessages maxPayloadBytes decide candidates seen page = .ok page') :
    page'.messages = page.messages ++
        (taken (verdicts hashing s maxPayloadBytes decide candidates seen)).take
          (maxMessages - page.messages.length) ↔
      Unblocked maxMessages page.messages.length page.undeliverable.length
        (verdicts hashing s maxPayloadBytes decide candidates seen) := by
  induction candidates generalizing seen page with
  | nil =>
    cases h
    refine ⟨fun _ before message after hsplit => ?_, fun _ => ?_⟩
    · rw [verdicts] at hsplit
      simp at hsplit
    · rw [verdicts, taken, List.filterMap_nil, List.take_nil, List.append_nil]
  | cons envelope rest ih =>
    rw [selectPage] at h
    by_cases hfull : maxMessages ≤ page.messages.length
    · rw [if_pos (Or.inl hfull)] at h
      cases h
      rw [Nat.sub_eq_zero_of_le hfull, List.take_zero, List.append_nil]
      exact iff_of_true rfl (unblocked_full hfull)
    by_cases hstuck : maxMessages ≤ page.undeliverable.length
    · rw [if_pos (Or.inr hstuck)] at h
      cases h
      rw [unblocked_stuck (Nat.lt_of_not_le hfull) hstuck, List.self_eq_append_right, List.take_eq_nil_iff]
      exact or_iff_right (Nat.sub_ne_zero_of_lt (Nat.lt_of_not_le hfull))
    rw [if_neg (not_or.mpr ⟨hfull, hstuck⟩)] at h
    have hmore (message : PulledMessage) (verdicts : List Verdict) :
        page.messages ++ (taken (.takes message :: verdicts)).take (maxMessages - page.messages.length) =
          page.messages ++ [message] ++ (taken verdicts).take (maxMessages - (page.messages.length + 1)) := by
      rw [taken_takes, List.append_assoc, ← Nat.sub_sub]
      obtain ⟨room, hroom⟩ := Nat.exists_eq_add_one.mpr (Nat.sub_pos_of_lt (Nat.lt_of_not_le hfull))
      rw [hroom, List.take_succ_cons]
      rfl
    by_cases hlarge : maxPayloadBytes < envelope.payloadBytes
    · rw [if_pos hlarge] at h
      rw [verdicts, if_pos hlarge, unblocked_skips, taken_skips]
      have hrest := ih h
      rwa [List.length_append, List.length_singleton] at hrest
    rw [if_neg hlarge] at h
    obtain ⟨payload, hread, h⟩ := bind_ok h
    obtain ⟨decision, hdecide, h⟩ := bind_ok h
    rw [verdicts, if_neg hlarge]
    simp only [hread, hdecide]
    cases decision with
    | include_ =>
      rw [hmore, unblocked_takes (Nat.lt_of_not_le hstuck)]
      have hrest := ih h
      rwa [List.length_append, List.length_singleton] at hrest
    | skip =>
      rw [unblocked_skips, taken_skips]
      have hrest := ih h
      rwa [List.length_append, List.length_singleton] at hrest
    | stop =>
      cases h
      refine iff_of_true ?_ fun before message after hsplit => ?_
      · rw [taken, List.filterMap_nil, List.take_nil, List.append_nil]
      · simp at hsplit

/-- A pull returns the first messages that its transport takes, up to the limit, exactly when
no limit's worth of envelopes that it cannot carry lies before one of them. -/
theorem pull_first_messages {caller : AdmittedWorkCaller} {request : PullRequest} {now : Instant}
    {projection : WorkProjection} {page : BoundedPull}
    (hcurrent : currentProjection hashing s caller request.scopeRevision now = .ok projection)
    (hpull : (pullBounded hashing s caller request now maxMessages maxPayloadBytes decide).2 = .ok page) :
    page.messages = (taken (verdicts hashing s maxPayloadBytes decide
        (deliverable projection caller.seat request.adapter now) [])).take maxMessages ↔
      Unblocked maxMessages 0 0 (verdicts hashing s maxPayloadBytes decide
        (deliverable projection caller.seat request.adapter now) []) := by
  rw [pullBounded, pullPage, hcurrent] at hpull
  cases hselect : selectPage hashing s maxMessages maxPayloadBytes decide
      (deliverable projection caller.seat request.adapter now) [] ⟨[], []⟩ with
  | error e =>
    simp only [bind, Except.bind, hselect] at hpull
    cases hpull
  | ok selected =>
    simp only [bind, Except.bind, hselect] at hpull
    obtain ⟨_, _, rfl⟩ := map_ok hpull
    exact selectPage_messages hselect

def sendAs (key : MessageKey) : SendRequest := ⟨"bb", "b", some key, 1000000000000, none, none, .internal, none⟩

def queuedRun : List Op :=
  [.declare WorkRuns.pairScope, .send senderA (sendAs "m1") [102, 105, 110] 1000000000000,
    .send senderA (sendAs "m2") WorkRuns.findingBytes 1000000000000]

def queued : Store := (worldAt WorkBinding.rosterHashing queuedRun 3).store

def takeAll (_ : List PulledMessage) (_ : PulledMessage) : Except StoreError PageDecision := .ok .include_

theorem pull_first_messages_queued :
    ∃ projection page, currentProjection rosterHashing queued holderB "bb" 1000000000001 = .ok projection ∧
      (pullBounded rosterHashing queued holderB (pullUnder "bb") 1000000000001 2 3 takeAll).2 = .ok page ∧
        (page.messages = (taken (verdicts rosterHashing queued 3 takeAll
            (deliverable projection "b" .pull 1000000000001) [])).take 2 ↔
          Unblocked 2 0 0 (verdicts rosterHashing queued 3 takeAll
            (deliverable projection "b" .pull 1000000000001) [])) :=
  ⟨_, _, rfl, rfl, pull_first_messages
    (rfl : currentProjection rosterHashing queued holderB (pullUnder "bb").scopeRevision 1000000000001 = _) rfl⟩

/-- The first message is too large for a page of one: the second one waits behind it. -/
theorem pull_held_back :
    ∃ projection page, currentProjection rosterHashing queued holderB "bb" 1000000000001 = .ok projection ∧
      (pullBounded rosterHashing queued holderB (pullUnder "bb") 1000000000001 1 2 takeAll).2 = .ok page ∧
        page.messages ≠ (taken (verdicts rosterHashing queued 2 takeAll
          (deliverable projection "b" .pull 1000000000001) [])).take 1 := by
  refine ⟨_, _, rfl, rfl, ?_⟩
  decide

end Pages

end Cosmon.State.WorkPages
