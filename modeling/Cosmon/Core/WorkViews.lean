import Cosmon.Core.WorkProjection

namespace Cosmon.Core.WorkViews

open Cosmon.State.Molecule Cosmon.Core.PilotLeases Cosmon.Core.WorkMessage Cosmon.Core.WorkProjection
open Cosmon.Lib Cosmon.Lib.Checks

section Views

def receiptsOf (key : MessageKey) (receipts : List Receipt) : List Receipt :=
  receipts.filter fun receipt => receipt.key = key

def viewsUnder (key : MessageKey) (views : List EnvelopeView) : List EnvelopeView :=
  views.filter fun view => view.key = key

variable {folded folded' : List EnvelopeView × List ProjectionFinding} {receipt : Receipt} {key : MessageKey}

theorem noteReceipt_other (h : receipt.key ≠ key) :
    viewsUnder key (noteReceipt folded receipt).1 = viewsUnder key folded.1 := by
  rw [noteReceipt]
  cases hget : Keyed.get EnvelopeView.key receipt.key folded.1 with
  | none => rfl
  | some view =>
    refine Keyed.filter_set_of_ne ?_ _
    rwa [note_key, (Keyed.get_mem hget).2]

theorem noteReceipt_congr (h : viewsUnder receipt.key folded.1 = viewsUnder receipt.key folded'.1) :
    viewsUnder receipt.key (noteReceipt folded receipt).1 =
      viewsUnder receipt.key (noteReceipt folded' receipt).1 := by
  have hsame : Keyed.get EnvelopeView.key receipt.key folded'.1 =
      Keyed.get EnvelopeView.key receipt.key folded.1 := by
    rw [Keyed.get_eq_head, Keyed.get_eq_head]
    exact congrArg List.head? h.symm
  rw [noteReceipt, noteReceipt, hsame]
  cases hget : Keyed.get EnvelopeView.key receipt.key folded.1 with
  | none => exact h
  | some view =>
    have hkey : (view.note receipt).1.key = receipt.key := (note_key view receipt).trans (Keyed.get_mem hget).2
    exact (Keyed.filter_set hkey _).trans ((congrArg _ h).trans (Keyed.filter_set hkey _).symm)

theorem foldl_noteReceipt_under (receipts : List Receipt)
    (h : viewsUnder key folded.1 = viewsUnder key folded'.1) :
    viewsUnder key (receipts.foldl noteReceipt folded).1 =
      viewsUnder key ((receiptsOf key receipts).foldl noteReceipt folded').1 := by
  induction receipts generalizing folded folded' with
  | nil => exact h
  | cons receipt rest ih =>
    rw [receiptsOf, List.foldl_cons]
    by_cases hkey : receipt.key = key
    · rw [List.filter_cons_of_pos (by rwa [decide_eq_true_eq]), List.foldl_cons]
      subst hkey
      exact ih (noteReceipt_congr h)
    · rw [List.filter_cons_of_neg (by rwa [decide_eq_true_eq])]
      exact ih ((noteReceipt_other hkey).trans h)

def offeredUnder (key : MessageKey) (p : WorkProjection) (seat : AdvisorySeatId) (adapter : DeliveryAdapter)
    (now : Instant) : List Envelope :=
  (deliverable p seat adapter now).filter fun envelope => envelope.key = key

theorem offeredUnder_eq (key : MessageKey) (p : WorkProjection) (seat : AdvisorySeatId)
    (adapter : DeliveryAdapter) (now : Instant) : offeredUnder key p seat adapter now =
      deliverable { p with envelopes := viewsUnder key p.envelopes } seat adapter now := by
  rw [offeredUnder, deliverable, deliverable, List.filter_map, viewsUnder, List.filter_filter, List.filter_filter]
  congr 2
  funext view
  exact Bool.and_comm _ _

theorem under_congr {p p' : WorkProjection} (hbudget : p.budget = p'.budget)
    (h : viewsUnder key p.envelopes = viewsUnder key p'.envelopes) (seat : AdvisorySeatId)
    (adapter : DeliveryAdapter) (now : Instant) :
    (p.get key, offeredUnder key p seat adapter now) = (p'.get key, offeredUnder key p' seat adapter now) := by
  have hget : p.get key = p'.get key := by
    rw [WorkProjection.get, WorkProjection.get, Keyed.get_eq_head, Keyed.get_eq_head]
    exact congrArg List.head? h
  have hoffered : offeredUnder key p seat adapter now = offeredUnder key p' seat adapter now := by
    rw [offeredUnder_eq, offeredUnder_eq, h, deliverable, deliverable]
    dsimp only
    rw [hbudget]
  rw [hget, hoffered]

/-- The view of an envelope, and whether it is offered, are made by the receipts that name
its key, in their order. -/
theorem foldWithHistory_under (hashing : Hashing) (scope : WorkScope) (history : List WorkScope)
    (envelopes : List Envelope) (receipts : List Receipt) (opened : Instant) (key : MessageKey)
    (seat : AdvisorySeatId) (adapter : DeliveryAdapter) (now : Instant) :
    (foldWithHistory hashing scope history envelopes receipts opened).map
        (fun p => (p.get key, offeredUnder key p seat adapter now)) =
      (foldWithHistory hashing scope history envelopes (receiptsOf key receipts) opened).map
        (fun p => (p.get key, offeredUnder key p seat adapter now)) := by
  unfold foldWithHistory
  cases scope.revision hashing with
  | error e => rfl
  | ok revision =>
    simp only [bind, Except.bind]
    cases revisions hashing history with
    | error e => rfl
    | ok earlier =>
      refine congrArg Except.ok (under_congr ?_ (foldl_noteReceipt_under receipts ?_) seat adapter now)
      · rfl
      · rfl

end Views

section Attempts

def attemptTime (envelope : Envelope) (adapter : DeliveryAdapter) (receipt : Receipt) : Option Instant :=
  if receipt.key = envelope.key ∧ receipt.payloadDigest = envelope.payloadDigest then
    match receipt.stage with
    | .deliveryAttempted tried _ _ => if tried = adapter then some receipt.at_ else none
    | .admitted | .contextDelivered _ _ | .consumed _ _ _ | .expired => none
  else none

def EnvelopeView.attemptTimes (view : EnvelopeView) (adapter : DeliveryAdapter) : List Instant :=
  (view.attemptsBy adapter).map DeliveryAttemptView.at_

theorem attemptTime_other {envelope : Envelope} {receipt : Receipt} (h : receipt.key ≠ envelope.key)
    (adapter : DeliveryAdapter) : attemptTime envelope adapter receipt = none := if_neg fun hboth => h hboth.1

theorem note_attempts {view : EnvelopeView} {receipt : Receipt} (hkey : view.key = receipt.key)
    (adapter : DeliveryAdapter) : EnvelopeView.attemptTimes (view.note receipt).1 adapter =
      EnvelopeView.attemptTimes view adapter ++ (attemptTime view.envelope adapter receipt).toList := by
  unfold EnvelopeView.note
  split
  · rename_i hdigest
    rw [attemptTime, if_neg fun hboth => hdigest hboth.2]
    exact (List.append_nil _).symm
  · rename_i hdigest
    rw [attemptTime, if_pos ⟨hkey.symm, of_not_not hdigest⟩]
    cases receipt.stage with
    | admitted | expired => exact (List.append_nil _).symm
    | contextDelivered _ _ | consumed _ _ _ =>
      dsimp only
      split_ifs <;> exact (List.append_nil _).symm
    | deliveryAttempted tried mechanism outcome =>
      dsimp only
      rw [EnvelopeView.attemptTimes, EnvelopeView.attemptsBy, List.filter_append, List.map_append]
      by_cases htried : tried = adapter
      · rw [if_pos htried, List.filter_cons_of_pos (by rwa [decide_eq_true_eq])]
        rfl
      · rw [if_neg htried, List.filter_cons_of_neg (by rwa [decide_eq_true_eq])]
        rfl

def Recounted (adapter : DeliveryAdapter) (receipts : List Receipt) (views : List EnvelopeView) : Prop :=
  (views.map EnvelopeView.key).Nodup ∧ ∀ view ∈ views,
    EnvelopeView.attemptTimes view adapter = receipts.filterMap (attemptTime view.envelope adapter)

variable {adapter : DeliveryAdapter} {receipts : List Receipt}

theorem Recounted.step {folded : List EnvelopeView × List ProjectionFinding}
    (h : Recounted adapter receipts folded.1) (receipt : Receipt) :
    Recounted adapter (receipts ++ [receipt]) (noteReceipt folded receipt).1 := by
  obtain ⟨hkeys, hviews⟩ := h
  refine ⟨?_, fun view hmem => ?_⟩
  · rwa [keys_of_envelopes (noteReceipt_envelopes hkeys)]
  · rw [List.filterMap_append]
    obtain ⟨known, hknown, hkey, rfl⟩ | ⟨hview, hne⟩ := noteReceipt_mem hmem
    · rw [note_attempts hkey, hviews known hknown, note_envelope, List.filterMap_cons, List.filterMap_nil]
      cases attemptTime known.envelope adapter receipt <;> rfl
    · rw [List.filterMap_cons_none (attemptTime_other hne.symm adapter), List.filterMap_nil, List.append_nil]
      exact hviews view hview

theorem Recounted.of_receipts {views : List EnvelopeView} {findings : List ProjectionFinding}
    (h : Recounted adapter [] views) :
    Recounted adapter receipts (receipts.foldl noteReceipt (views, findings)).1 := by
  induction receipts using List.reverseRecOn with
  | nil => exact h
  | append_singleton receipts receipt ih =>
    rw [List.foldl_append]
    exact ih.step receipt

variable {hashing : Hashing} {scope : WorkScope} {history : List WorkScope} {envelopes : List Envelope}
  {now : Instant} {p : WorkProjection}

theorem foldWithHistory_attempts (hkeys : (envelopes.map Envelope.key).Nodup)
    (h : foldWithHistory hashing scope history envelopes receipts now = .ok p) (adapter : DeliveryAdapter) :
    ∀ view ∈ p.envelopes,
      EnvelopeView.attemptTimes view adapter = receipts.filterMap (attemptTime view.envelope adapter) := by
  obtain ⟨revision, _, h⟩ := bind_ok h
  obtain ⟨earlier, _, h⟩ := bind_ok h
  dsimp only at h
  have hperm := Keyed.foldl_insert_perm EnvelopeView.key (openView scope revision earlier now) envelopes
    (by rwa [List.map_map])
  have hopened : Recounted adapter [] (envelopes.foldl (fun views envelope =>
      Keyed.insert EnvelopeView.key (openView scope revision earlier now envelope) views) []) := by
    refine ⟨?_, fun view hview => ?_⟩
    · rw [(hperm.map EnvelopeView.key).nodup_iff, List.map_map]
      exact hkeys
    · obtain ⟨envelope, _, rfl⟩ := List.mem_map.mp (hperm.subset hview)
      rfl
  cases h
  exact (Recounted.of_receipts hopened).2

theorem rested_attempts {view : EnvelopeView} {budget : MessageBudget}
    (h : view.rested budget adapter now = true) :
    (EnvelopeView.attemptTimes view adapter).length < view.envelope.maxDeliveryAttempts.toNat ∧
      ∀ t ∈ EnvelopeView.attemptTimes view adapter,
        t + budget.redeliverAfterSecs.toNat * nanosPerSecond ≤ now := by
  obtain ⟨hcount, hwait⟩ := Bool.and_eq_true_iff.mp h
  rw [decide_eq_true_eq] at hcount
  refine ⟨by rwa [EnvelopeView.attemptTimes, List.length_map], fun t hmem => ?_⟩
  rw [EnvelopeView.attemptTimes] at hmem
  cases hlast : ((view.attemptsBy adapter).map DeliveryAttemptView.at_).max? with
  | none =>
    rw [List.max?_eq_none_iff.mp hlast] at hmem
    exact absurd hmem List.not_mem_nil
  | some last =>
    simp only [hlast] at hwait
    have hle : t ≤ last := (List.max?_le_iff hlast).mp (Int.le_refl last) t hmem
    obtain ⟨ready, hready, hnow⟩ := (Option.any_eq_true _ _).mp hwait
    obtain ⟨wait, hwait, hadd⟩ := Option.bind_eq_some_iff.mp hready
    unfold trySeconds at hwait
    unfold checkedAddSigned at hadd
    split_ifs at hwait hadd
    cases hwait
    cases hadd
    exact (Int.add_le_add_right hle _).trans (of_decide_eq_true hnow)

/-- What may be offered was tried less often than its envelope allows, and not lately. -/
theorem deliverable_rested {seat : AdvisorySeatId} {envelope : Envelope}
    (hkeys : (envelopes.map Envelope.key).Nodup)
    (h : foldWithHistory hashing scope history envelopes receipts now = .ok p)
    (hmem : envelope ∈ deliverable p seat adapter now) :
    (receipts.filterMap (attemptTime envelope adapter)).length < envelope.maxDeliveryAttempts.toNat ∧
      ∀ t ∈ receipts.filterMap (attemptTime envelope adapter),
        t + scope.budget.redeliverAfterSecs.toNat * nanosPerSecond ≤ now := by
  obtain ⟨view, hview, rfl⟩ := List.mem_map.mp hmem
  obtain ⟨hview, hopen⟩ := List.mem_filter.mp hview
  obtain ⟨_, _, _, hfolded⟩ := foldWithHistory_ok hkeys h
  have hrested := rested_attempts (Bool.and_eq_true_iff.mp hopen).2
  rwa [foldWithHistory_attempts hkeys h adapter view hview, hfolded.budget] at hrested

end Attempts

end Cosmon.Core.WorkViews
