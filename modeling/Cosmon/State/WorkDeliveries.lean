import Cosmon.State.WorkBinding
import Cosmon.Core.WorkViews

namespace Cosmon.State.WorkDeliveries

open Cosmon.State.Molecule Cosmon.Core.PilotLeases Cosmon.Core.WorkMessage Cosmon.Core.WorkProjection
open Cosmon.Core.WorkViews Cosmon.State.WorkStore Cosmon.State.WorkOps Cosmon.State.WorkBinding
open Cosmon.Lib.Checks Cosmon.Lib.Runs

section Pages

variable {hashing : Hashing} {s : Store} {maxMessages : Nat} {maxPayloadBytes : UInt64}
  {decide : List PulledMessage → PulledMessage → Except StoreError PageDecision}

/-- A pull that hands a page over: its messages are candidates, each of them once, and every
observation on them is on record afterwards. -/
structure HandedOver (hashing : Hashing) (s : Store) (caller : AdmittedWorkCaller) (request : PullRequest)
    (now : Instant) (page : BoundedPull) (t : Store) : Prop where
  nodup : (page.messages.map PulledMessage.envelope).Nodup
  rested : ∀ message ∈ page.messages, ∃ (scope : WorkScope) (receipts : List Receipt), s.scope = some scope ∧
    s.lines = receipts.map ReceiptLine.record ∧
      (receipts.filterMap (attemptTime message.envelope request.adapter)).length <
          message.envelope.maxDeliveryAttempts.toNat ∧
        ∀ t ∈ receipts.filterMap (attemptTime message.envelope request.adapter),
          t + scope.budget.redeliverAfterSecs.toNat * nanosPerSecond ≤ now
  lines : request.peek = false →
    t.lines.Perm (s.lines ++ addedLines (page.messages.flatMap (request.observations now)))

theorem pullBounded_ok (hs : Readable hashing s) {caller : AdmittedWorkCaller} {request : PullRequest}
    {now : Instant} {page : BoundedPull} {t : Store}
    (h : pullBounded hashing s caller request now maxMessages maxPayloadBytes decide = (t, .ok page)) :
    HandedOver hashing s caller request now page t := by
  rw [pullBounded] at h
  cases hpage : pullPage hashing s caller request now maxMessages maxPayloadBytes decide with
  | error e =>
    simp only [hpage] at h
    cases h
  | ok pulled =>
    obtain ⟨selected, writes⟩ := pulled
    simp only [hpage] at h
    have hready : Ready hashing Fitting s writes :=
      ready_fitting (fun receipt hmem => (pull_receipts hs hpage receipt hmem).1) fun _ hmem => hmem
    obtain ⟨_, done, _, hwritten, hall⟩ := hs.writeAll hready
    obtain ⟨rfl, hanswer⟩ := Prod.mk.inj h
    obtain ⟨_, hdone, rfl⟩ := map_ok hanswer
    obtain ⟨projection, hprojection, hrest⟩ := bind_ok hpage
    obtain ⟨found, hselect, hrest⟩ := bind_ok hrest
    cases hrest
    obtain ⟨records, scope, hload, hscope, hfold⟩ := currentProjection_ok hprojection
    obtain ⟨hlines, hrecords⟩ := loadAll_ok hload
    rw [hrecords] at hscope hfold
    obtain ⟨chosen, _, hchosen, _, hmessages, _⟩ := selectPage_sublist hselect
    rw [List.map_nil, List.nil_append] at hmessages
    obtain ⟨_, _, _, hfolded⟩ := foldWithHistory_ok hs.keys hfold
    have hnodup : (deliverable projection caller.seat request.adapter now).Nodup := by
      refine List.Nodup.sublist ((List.filter_sublist).map _) (hfolded.perm.nodup_iff.mpr ?_)
      exact hs.keys.of_map _
    refine ⟨?_, fun message hmem => ⟨scope, records.receipts, hscope, hlines, ?_⟩, fun hpeek => ?_⟩
    · rw [hmessages]
      exact hnodup.sublist hchosen
    · refine deliverable_rested hs.keys hfold (hchosen.subset ?_)
      rw [← hmessages]
      exact List.mem_map_of_mem hmem
    · rw [hall hdone, hpeek] at hwritten
      rw [hpeek]
      exact hwritten

end Pages

section Deliveries

def lineAttempt (envelope : Envelope) (adapter : DeliveryAdapter) : ReceiptLine → Option Instant
  | .record receipt => attemptTime envelope adapter receipt
  | .malformed => none

def attemptsOn (s : Store) (envelope : Envelope) (adapter : DeliveryAdapter) : List Instant :=
  s.lines.filterMap (lineAttempt envelope adapter)

variable (hashing : Hashing)

/-- When an operation hands the envelope over to the adapter. A peek hands nothing over. -/
def deliveriesBy (s : Store) (envelope : Envelope) (adapter : DeliveryAdapter) : Op → List Instant
  | .pull caller request now maxMessages maxPayloadBytes decide =>
    if request.peek = false ∧ request.adapter = adapter then
      match (pullBounded hashing s caller request now maxMessages maxPayloadBytes decide).2 with
      | .ok page => (page.messages.filter fun message => message.envelope = envelope).map fun _ => now
      | .error _ => []
    else []
  | .declare _ | .send _ _ _ _ | .acknowledge _ _ _ => []

/-- The deliveries of the `n`-th operation of a run, and those before it. -/
def deliveriesAt (ops : List Op) (envelope : Envelope) (adapter : DeliveryAdapter) (n : Nat) : List Instant :=
  ops[n]?.toList.flatMap (deliveriesBy hashing (worldAt hashing ops n).store envelope adapter)

def deliveries (ops : List Op) (envelope : Envelope) (adapter : DeliveryAdapter) (n : Nat) : List Instant :=
  (List.range n).flatMap (deliveriesAt hashing ops envelope adapter)

variable {hashing} {s t : Store} {envelope : Envelope} {adapter : DeliveryAdapter}

theorem attemptsOn_records {receipts : List Receipt} (h : s.lines = receipts.map ReceiptLine.record) :
    attemptsOn s envelope adapter = receipts.filterMap (attemptTime envelope adapter) := by
  rw [attemptsOn, h, List.filterMap_map]
  rfl

theorem attemptsOn_subperm (h : s.lines.Subperm t.lines) :
    (attemptsOn s envelope adapter).Subperm (attemptsOn t envelope adapter) := by
  obtain ⟨lines, hperm, hsublist⟩ := h
  exact ⟨_, hperm.filterMap _, hsublist.filterMap _⟩

theorem observations_attempt (request : PullRequest) (now : Instant) (message : PulledMessage) :
    (addedLines (request.observations now message)).filterMap (lineAttempt message.envelope request.adapter) =
      [now] := by
  have hattempt : lineAttempt message.envelope request.adapter (.record (Receipt.forEnvelope message.envelope
      (.adapter request.adapter) now (.deliveryAttempted request.adapter request.mechanism .submitted))) =
        some now := (if_pos ⟨rfl, rfl⟩).trans (if_pos rfl)
  rw [PullRequest.observations]
  cases request.contextObservation with
  | none => exact List.filterMap_cons_some hattempt
  | some observation =>
    have hcontext : lineAttempt message.envelope request.adapter (.record (Receipt.forEnvelope message.envelope
        (.adapter request.adapter) now (.contextDelivered request.adapter observation))) = none := if_pos ⟨rfl, rfl⟩
    refine (List.filterMap_cons_some hattempt).trans (congrArg (now :: ·) ?_)
    exact List.filterMap_cons_none hcontext

theorem delivered_sublist (request : PullRequest) (now : Instant) (messages : List PulledMessage)
    (envelope : Envelope) :
    ((messages.filter fun message => message.envelope = envelope).map fun _ => now).Sublist
      ((addedLines (messages.flatMap (request.observations now))).filterMap
        (lineAttempt envelope request.adapter)) := by
  induction messages with
  | nil => exact List.nil_sublist _
  | cons message rest ih =>
    have hsplit : addedLines ((message :: rest).flatMap (request.observations now)) =
        addedLines (request.observations now message) ++ addedLines (rest.flatMap (request.observations now)) :=
      addedLines_append _ _
    rw [hsplit, List.filterMap_append]
    by_cases hmessage : message.envelope = envelope
    · rw [List.filter_cons_of_pos (by rwa [decide_eq_true_eq]), List.map_cons]
      subst hmessage
      rw [observations_attempt, List.singleton_append]
      exact ih.cons_cons now
    · rw [List.filter_cons_of_neg (by rwa [decide_eq_true_eq])]
      exact ih.trans (List.sublist_append_right _ _)

end Deliveries

section Runs

variable {hashing : Hashing} {s : Store} {w : World} {envelope : Envelope} {adapter : DeliveryAdapter}

theorem step_readable (hw : Readable hashing w.store) (op : Op) : Readable hashing (w.step hashing op).store := by
  rw [World.step]
  cases op with
  | declare scope =>
    obtain hsame | ⟨revision, scopes, _, hstore, _⟩ := declare_cases hashing w.store scope
    · rw [Op.apply, hsame]
      exact hw
    · rw [Op.apply, hstore]
      exact ⟨hw.keys, hw.lines, hw.terminated, hw.files, hw.notes⟩
  | send caller request payload admittedAt => exact (send_carries hw caller request payload admittedAt).1.readable
  | pull caller request now maxMessages maxPayloadBytes decide =>
    exact (pull_carries hw caller request now maxMessages maxPayloadBytes decide).1.readable
  | acknowledge caller request now => exact (acknowledge_carries hw caller request now).1.readable

theorem readable_worldAt (hashing : Hashing) (ops : List Op) (n : Nat) :
    Readable hashing (worldAt hashing ops n).store := by
  refine stateAt_preserves (P := fun w : World => Readable hashing w.store) World.empty
    (fun _ op _ hw => step_readable hw op) (Nat.zero_le n) ?_
  refine ⟨List.nodup_nil, fun _ h => absurd h List.not_mem_nil, fun _ h => absurd h List.not_mem_nil,
    List.nodup_nil, fun _ _ h => ?_⟩
  cases h

theorem writeAll_subperm (hs : Readable hashing s) {writes : List Write}
    (hready : Ready hashing Fitting s writes) : s.lines.Subperm (s.writeAll hashing writes).1.lines := by
  obtain ⟨_, done, _, hlines, _⟩ := hs.writeAll hready
  exact (List.sublist_append_left _ _).subperm.trans hlines.symm.subperm

theorem apply_lines (hs : Readable hashing s) (op : Op) : s.lines.Subperm (op.apply hashing s).lines := by
  cases op with
  | declare scope =>
    obtain hsame | ⟨revision, scopes, _, hstore, _⟩ := declare_cases hashing s scope
    · rw [Op.apply, hsame]
    · rw [Op.apply, hstore]
      exact List.Subperm.refl _
  | send caller request payload admittedAt =>
    rw [Op.apply, WorkOps.send, Store.submit]
    cases hadmission : s.admission hashing (request.submission hashing caller payload) payload admittedAt with
    | error e => exact List.Subperm.refl _
    | ok decided => exact writeAll_subperm hs (send_ready hs hadmission).1
  | pull caller request now maxMessages maxPayloadBytes decide =>
    rw [Op.apply, pullBounded]
    cases hpage : pullPage hashing s caller request now maxMessages maxPayloadBytes decide with
    | error e => exact List.Subperm.refl _
    | ok pulled =>
      exact writeAll_subperm hs (ready_fitting (fun receipt hmem => (pull_receipts hs hpage receipt hmem).1)
        fun _ hmem => hmem)
  | acknowledge caller request now =>
    rw [Op.apply, WorkOps.acknowledge]
    cases hack : acknowledgment hashing s caller request now with
    | error e => exact List.Subperm.refl _
    | ok answered =>
      refine writeAll_subperm hs (ready_fitting (fun receipt hmem => ?_) fun _ hmem => hmem)
      obtain ⟨projection, view, haccepted, hview, _, rfl, _⟩ := acknowledgment_receipts hs hack receipt hmem
      exact ⟨view.envelope, hview, (report_consumes haccepted).1⟩

theorem deliveriesBy_mem {op : Op} {t : Instant} (h : t ∈ deliveriesBy hashing s envelope adapter op) :
    ∃ caller request maxMessages maxPayloadBytes decide next page,
      op = .pull caller request t maxMessages maxPayloadBytes decide ∧ request.peek = false ∧
        request.adapter = adapter ∧
          pullBounded hashing s caller request t maxMessages maxPayloadBytes decide = (next, .ok page) ∧
            ∃ message ∈ page.messages, message.envelope = envelope := by
  cases op with
  | declare _ | send _ _ _ _ | acknowledge _ _ _ => exact absurd h List.not_mem_nil
  | pull caller request now maxMessages maxPayloadBytes decide =>
    rw [deliveriesBy] at h
    split_ifs at h with hkind
    · cases hpull : pullBounded hashing s caller request now maxMessages maxPayloadBytes decide with
      | mk next outcome =>
        simp only [hpull] at h
        cases outcome with
        | error e => exact absurd h List.not_mem_nil
        | ok page =>
          obtain ⟨message, hmem, rfl⟩ := List.mem_map.mp h
          obtain ⟨hmem, henvelope⟩ := List.mem_filter.mp hmem
          exact ⟨caller, request, maxMessages, maxPayloadBytes, decide, next, page, rfl, hkind.1, hkind.2, hpull,
            message, hmem, of_decide_eq_true henvelope⟩
    · exact absurd h List.not_mem_nil

theorem deliveriesBy_subperm (hs : Readable hashing s) (op : Op) :
    (attemptsOn s envelope adapter ++ deliveriesBy hashing s envelope adapter op).Subperm
      (attemptsOn (op.apply hashing s) envelope adapter) := by
  have hquiet (hnone : deliveriesBy hashing s envelope adapter op = []) :
      (attemptsOn s envelope adapter ++ deliveriesBy hashing s envelope adapter op).Subperm
        (attemptsOn (op.apply hashing s) envelope adapter) := by
    rw [hnone, List.append_nil]
    exact attemptsOn_subperm (apply_lines hs op)
  cases op with
  | declare _ | send _ _ _ _ | acknowledge _ _ _ => exact hquiet rfl
  | pull caller request now maxMessages maxPayloadBytes decide =>
    by_cases hkind : request.peek = false ∧ request.adapter = adapter
    · obtain ⟨hpeek, rfl⟩ := hkind
      cases hpull : pullBounded hashing s caller request now maxMessages maxPayloadBytes decide with
      | mk next outcome =>
        cases outcome with
        | error e =>
          refine hquiet ?_
          rw [deliveriesBy, if_pos ⟨hpeek, rfl⟩, hpull]
        | ok page =>
          have hlines := ((pullBounded_ok hs hpull).lines hpeek).filterMap (lineAttempt envelope request.adapter)
          rw [List.filterMap_append] at hlines
          rw [deliveriesBy, if_pos ⟨hpeek, rfl⟩, Op.apply, hpull]
          refine List.Subperm.trans ?_ hlines.symm.subperm
          exact ((delivered_sublist request now page.messages envelope).append_left _).subperm
    · exact hquiet (if_neg hkind)

theorem deliveriesBy_length (hs : Readable hashing s) (op : Op) :
    (deliveriesBy hashing s envelope adapter op).length ≤ 1 := by
  cases op with
  | declare _ | send _ _ _ _ | acknowledge _ _ _ => exact Nat.zero_le 1
  | pull caller request now maxMessages maxPayloadBytes decide =>
    rw [deliveriesBy]
    split_ifs
    · cases hpull : pullBounded hashing s caller request now maxMessages maxPayloadBytes decide with
      | mk next outcome =>
        cases outcome with
        | error e => exact Nat.zero_le 1
        | ok page =>
          have hcount := List.nodup_iff_count_le_one.mp (pullBounded_ok hs hpull).nodup envelope
          rw [List.count_eq_countP, List.countP_map, List.countP_eq_length_filter] at hcount
          rw [List.length_map]
          exact hcount
    · exact Nat.zero_le 1

/-- A delivery is within the bound on attempts, and long enough after every attempt on record. -/
theorem deliveriesBy_rested (hs : Readable hashing s) {op : Op} {t : Instant}
    (h : t ∈ deliveriesBy hashing s envelope adapter op) :
    (attemptsOn s envelope adapter).length < envelope.maxDeliveryAttempts.toNat ∧
      ∃ scope, s.scope = some scope ∧ ∀ earlier ∈ attemptsOn s envelope adapter,
        earlier + scope.budget.redeliverAfterSecs.toNat * nanosPerSecond ≤ t := by
  obtain ⟨caller, request, maxMessages, maxPayloadBytes, decide, next, page, rfl, _, rfl, hpull, message, hmem,
    rfl⟩ := deliveriesBy_mem h
  obtain ⟨scope, receipts, hscope, hlines, hcount, hpause⟩ := (pullBounded_ok hs hpull).rested message hmem
  rw [attemptsOn_records hlines]
  exact ⟨hcount, scope, hscope, hpause⟩

variable {ops : List Op}

theorem deliveries_succ (n : Nat) : deliveries hashing ops envelope adapter (n + 1) =
    deliveries hashing ops envelope adapter n ++ deliveriesAt hashing ops envelope adapter n := by
  rw [deliveries, List.range_succ, List.flatMap_append, List.flatMap_singleton]
  rfl

theorem deliveriesAt_some {n : Nat} {op : Op} (h : ops[n]? = some op) :
    deliveriesAt hashing ops envelope adapter n =
      deliveriesBy hashing (worldAt hashing ops n).store envelope adapter op := by
  rw [deliveriesAt, h]
  exact List.flatMap_singleton _ _

theorem deliveriesAt_none {n : Nat} (h : ops[n]? = none) : deliveriesAt hashing ops envelope adapter n = [] := by
  rw [deliveriesAt, h]
  rfl

theorem deliveries_subperm (n : Nat) : (deliveries hashing ops envelope adapter n).Subperm
    (attemptsOn (worldAt hashing ops n).store envelope adapter) := by
  induction n with
  | zero => exact List.nil_subperm
  | succ n ih =>
    rw [deliveries_succ]
    cases hop : ops[n]? with
    | none =>
      have hsame : worldAt hashing ops (n + 1) = worldAt hashing ops n := stateAt_none _ hop _
      rw [deliveriesAt_none hop, List.append_nil, hsame]
      exact ih
    | some op =>
      have hnext : worldAt hashing ops (n + 1) = (worldAt hashing ops n).step hashing op := stateAt_succ _ hop _
      rw [deliveriesAt_some hop, hnext]
      refine List.Subperm.trans ?_ (deliveriesBy_subperm (readable_worldAt hashing ops n) op)
      exact (List.subperm_append_right _).mpr ih

theorem deliveriesAt_rested {n : Nat} {t : Instant} (h : t ∈ deliveriesAt hashing ops envelope adapter n) :
    (deliveries hashing ops envelope adapter n).length < envelope.maxDeliveryAttempts.toNat ∧
      ∃ scope, (worldAt hashing ops n).store.scope = some scope ∧
        ∀ earlier ∈ deliveries hashing ops envelope adapter n,
          earlier + scope.budget.redeliverAfterSecs.toNat * nanosPerSecond ≤ t := by
  obtain ⟨op, hop, hmem⟩ := List.mem_flatMap.mp h
  obtain ⟨hcount, scope, hscope, hpause⟩ := deliveriesBy_rested (readable_worldAt hashing ops n) hmem
  have hrecord : (deliveries hashing ops envelope adapter n).Subperm
      (attemptsOn (worldAt hashing ops n).store envelope adapter) := deliveries_subperm n
  exact ⟨Nat.lt_of_le_of_lt hrecord.length_le hcount, scope, hscope,
    fun earlier hearlier => hpause earlier (hrecord.subset hearlier)⟩

/-- An adapter gets an envelope at most as often as the envelope allows, once from a pull at
most, and with a pause between two pulls. -/
structure Rationed (hashing : Hashing) (ops : List Op) (envelope : Envelope) (adapter : DeliveryAdapter) :
    Prop where
  bounded : ∀ n, (deliveries hashing ops envelope adapter n).length ≤ envelope.maxDeliveryAttempts.toNat
  once : ∀ n, (deliveriesAt hashing ops envelope adapter n).length ≤ 1
  apart : ∀ i j t t', i < j → t ∈ deliveriesAt hashing ops envelope adapter i →
    t' ∈ deliveriesAt hashing ops envelope adapter j →
      ∃ scope, (worldAt hashing ops j).store.scope = some scope ∧
        t + scope.budget.redeliverAfterSecs.toNat * nanosPerSecond ≤ t'

theorem deliveriesAt_length (n : Nat) : (deliveriesAt hashing ops envelope adapter n).length ≤ 1 := by
  cases hop : ops[n]? with
  | none =>
    rw [deliveriesAt_none hop]
    exact Nat.zero_le 1
  | some op =>
    rw [deliveriesAt_some hop]
    exact deliveriesBy_length (readable_worldAt hashing ops n) op

theorem deliveries_length (n : Nat) :
    (deliveries hashing ops envelope adapter n).length ≤ envelope.maxDeliveryAttempts.toNat := by
  induction n with
  | zero => exact Nat.zero_le _
  | succ n ih =>
    rw [deliveries_succ, List.length_append]
    cases hat : deliveriesAt hashing ops envelope adapter n with
    | nil => exact ih
    | cons t rest =>
      have hmem : t ∈ deliveriesAt hashing ops envelope adapter n := hat ▸ List.mem_cons_self
      have hone : (deliveriesAt hashing ops envelope adapter n).length ≤ 1 := deliveriesAt_length n
      have hroom := (deliveriesAt_rested hmem).1
      rw [hat] at hone
      omega

/-- Whatever else happens in the work, an adapter gets an envelope a bounded number of times
with a pause in between; and the receipts of other envelopes change neither the view of an
envelope nor whether it is offered. -/
theorem deliveries_rationed (hashing : Hashing) (ops : List Op) (adapter : DeliveryAdapter) :
    (∀ envelope, Rationed hashing ops envelope adapter) ∧
      ∀ (scope : WorkScope) (history : List WorkScope) (envelopes : List Envelope) (receipts : List Receipt)
        (opened : Instant) (key : MessageKey) (seat : AdvisorySeatId) (now : Instant),
        (foldWithHistory hashing scope history envelopes receipts opened).map
            (fun p => (p.get key, offeredUnder key p seat adapter now)) =
          (foldWithHistory hashing scope history envelopes (receiptsOf key receipts) opened).map
            (fun p => (p.get key, offeredUnder key p seat adapter now)) := by
  refine ⟨fun envelope => ⟨deliveries_length, deliveriesAt_length, fun i j t t' hij hi hj => ?_⟩,
    fun scope history envelopes receipts opened key seat now =>
      foldWithHistory_under hashing scope history envelopes receipts opened key seat adapter now⟩
  obtain ⟨_, scope, hscope, hpause⟩ := deliveriesAt_rested hj
  exact ⟨scope, hscope, hpause t (List.mem_flatMap.mpr ⟨i, List.mem_range.mpr hij, hi⟩)⟩

end Runs

end Cosmon.State.WorkDeliveries
