import Cosmon.Core.Committee

namespace Cosmon.Core.Committee

def RosterPlan.seats (plan : RosterPlan) : List AdmittedSeat := plan.generator :: plan.admitted

/-- The seat was seen to answer on the endpoint it was planned with, with no change
of model and no switch by hand. -/
def ObservedAs (seat : AdmittedSeat) (o : SeatOutcome) : Prop :=
  o.realizedEndpoint = some seat.endpoint ∧ (∀ m ∈ o.realizedModel, seat.model = some m) ∧
    o.switchedAfterDispatch = false

instance (seat : AdmittedSeat) (o : SeatOutcome) : Decidable (ObservedAs seat o) :=
  inferInstanceAs (Decidable (_ ∧ _ ∧ _))

/-- A reader must have delivered too; of the generator the fold asks no delivery. -/
def RosterPlan.AsPlanned (plan : RosterPlan) (seat : AdmittedSeat) (o : SeatOutcome) : Prop :=
  ObservedAs seat o ∧ (seat ∈ plan.admitted → o.delivery = .delivered)

instance (plan : RosterPlan) (seat : AdmittedSeat) (o : SeatOutcome) : Decidable (plan.AsPlanned seat o) :=
  inferInstanceAs (Decidable (_ ∧ (_ → _)))

section Plan

variable (generator : SeatCandidate)

/-- The loop has seen exactly the endpoints that it gave a seat, each once. -/
def Admission.Distinct (a : Admission) : Prop :=
  (∀ e, a.seenEndpoints.lookup e = none ↔ e ∉ generator.family.endpoint :: a.admitted.map (·.endpoint)) ∧
    (generator.family.endpoint :: a.admitted.map (·.endpoint)).Nodup

variable {generator}

theorem rejection_none {a : Admission} {seat : SeatCandidate} (h : a.rejection seat = none) :
    a.seenEndpoints.lookup seat.family.endpoint = none := by
  unfold Admission.rejection at h
  split at h
  · cases h
  · assumption

theorem Admission.Distinct.consider {a : Admission} (h : a.Distinct generator) (seat : SeatCandidate) :
    (a.consider seat).Distinct generator := by
  unfold Admission.consider
  split
  · exact h
  · rename_i hnone
    have hnew := (h.1 _).mp (rejection_none hnone)
    refine ⟨fun e => ?_, ?_⟩
    · rw [List.lookup_cons, List.map_append, ← List.cons_append, List.mem_append, not_or]
      by_cases he : e = seat.family.endpoint
      · simp [he, SeatCandidate.admitted]
      · rw [beq_false_of_ne he]
        exact (h.1 e).trans (by simp [SeatCandidate.admitted, he])
    · rw [List.map_append, ← List.cons_append, List.nodup_append]
      refine ⟨h.2, List.nodup_singleton _, fun e he e' he' heq => hnew ?_⟩
      rw [List.map_singleton, List.mem_singleton] at he'
      have hseat : e = seat.family.endpoint := heq.trans he'
      exact hseat ▸ he

variable (generator) (refuters : List SeatCandidate) (requirement : CommitteeRequirement)

theorem planCommittee_endpoints :
    ((planCommittee generator refuters requirement).seats.map (·.endpoint)).Nodup := by
  have hinit : Admission.Distinct generator
      { seenEndpoints := [(generator.family.endpoint, generator.seatId)]
        seenRoles := [(generator.persona.roleId, generator.seatId)] } := by
    refine ⟨fun e => ?_, List.nodup_singleton _⟩
    by_cases he : e = generator.family.endpoint
    · simp [he]
    · simp [List.lookup_cons, beq_false_of_ne he, he]
  have hfinal := List.foldlRecOn refuters Admission.consider hinit fun a ha seat _ => ha.consider seat
  exact hfinal.2

theorem planCommittee_floorMet :
    (planCommittee generator refuters requirement).floorMet = true ↔
      (requirement.required = true →
        requirement.minDistinctFamilies ≤ (planCommittee generator refuters requirement).distinctFamilies) := by
  cases hreq : requirement.required
  · simp [planCommittee, hreq]
  · simp [planCommittee, hreq, RosterPlan.distinctFamilies]

end Plan

section BySeat

variable {outcomes : List SeatOutcome} {seatId : String} {o : SeatOutcome}

theorem bySeat_mem (h : bySeat outcomes seatId = some o) : o ∈ outcomes ∧ o.seatId = seatId := by
  have hmem := List.mem_of_getLast? h
  rw [List.mem_filter, decide_eq_true_eq] at hmem
  exact hmem

theorem bySeat_none : bySeat outcomes seatId = none ↔ ∀ o ∈ outcomes, o.seatId ≠ seatId := by
  simp [bySeat]

theorem bySeat_concat : bySeat (outcomes ++ [o]) o.seatId = some o := by
  simp [bySeat]

theorem bySeat_append {later : List SeatOutcome} (ho : o ∈ later) (hid : o.seatId = seatId) :
    bySeat (outcomes ++ later) seatId = bySeat later seatId := by
  have hne : later.filter (·.seatId = seatId) ≠ [] :=
    List.ne_nil_of_mem (List.mem_filter.mpr ⟨ho, decide_eq_true hid⟩)
  rw [bySeat, List.filter_append, List.getLast?_append_of_ne_nil _ hne, bySeat]

end BySeat

section Tally

variable {outcomes : List SeatOutcome}

theorem seatDrift_none {seat : AdmittedSeat} {o : SeatOutcome} (hobserved : o.realizedEndpoint ≠ none) :
    seatDrift seat o = none ↔ ObservedAs seat o := by
  obtain ⟨e, he⟩ := Option.ne_none_iff_exists'.mp hobserved
  unfold seatDrift ObservedAs
  cases o.realizedModel with
  | none => simp [he]
  | some m =>
    have hcomm : some m = seat.model ↔ seat.model = some m := eq_comm
    simp [he, hcomm, and_assoc]

def Tally.Clean (t : Tally) : Prop := t.nonDelivering = [] ∧ t.drift = [] ∧ t.unobserved = []

theorem clean_generator {generator : AdmittedSeat} :
    (Tally.generator outcomes generator).Clean ↔
      ∃ o, bySeat outcomes generator.seatId = some o ∧ ObservedAs generator o := by
  unfold Tally.generator Tally.Clean
  cases ho : bySeat outcomes generator.seatId with
  | none => simp
  | some o =>
    cases he : o.realizedEndpoint with
    | none => simp [he, ObservedAs]
    | some e =>
      have hdrift : seatDrift generator o = none ↔ ObservedAs generator o :=
        seatDrift_none (by simp [he])
      simp [he, hdrift]

theorem families_generator {generator : AdmittedSeat} (h : (Tally.generator outcomes generator).Clean) :
    (Tally.generator outcomes generator).families = [generator.endpoint.family] := by
  obtain ⟨o, ho, hobs⟩ := clean_generator.mp h
  simp [Tally.generator, ho, hobs.1]

theorem clean_seat {t : Tally} {seat : AdmittedSeat} :
    (t.seat outcomes seat).Clean ↔
      t.Clean ∧ ∃ o, bySeat outcomes seat.seatId = some o ∧ o.delivery = .delivered ∧ ObservedAs seat o := by
  unfold Tally.seat Tally.Clean
  cases ho : bySeat outcomes seat.seatId with
  | none => simp
  | some o =>
    by_cases hd : o.delivery = .delivered
    · cases he : o.realizedEndpoint with
      | none => simp [he, hd, SeatDelivery.hasDelivered, ObservedAs]
      | some e =>
        have hdrift : seatDrift seat o = none ↔ ObservedAs seat o := seatDrift_none (by simp [he])
        simp [hd, SeatDelivery.hasDelivered, he, hdrift]
        tauto
    · simp [hd, SeatDelivery.hasDelivered]

theorem families_seat {t : Tally} {seat : AdmittedSeat} (h : (t.seat outcomes seat).Clean) :
    (t.seat outcomes seat).families = t.families ++ [seat.endpoint.family] := by
  obtain ⟨_, o, ho, hd, hobs⟩ := clean_seat.mp h
  simp [Tally.seat, ho, hd, SeatDelivery.hasDelivered, hobs.1]

theorem clean_foldl {seats : List AdmittedSeat} {t : Tally} :
    (seats.foldl (Tally.seat outcomes) t).Clean ↔
      t.Clean ∧ ∀ seat ∈ seats, ∃ o, bySeat outcomes seat.seatId = some o ∧ o.delivery = .delivered ∧
        ObservedAs seat o := by
  induction seats generalizing t with
  | nil => simp
  | cons seat seats ih => rw [List.foldl_cons, ih, clean_seat, and_assoc, List.forall_mem_cons]

theorem families_foldl {seats : List AdmittedSeat} {t : Tally} (h : (seats.foldl (Tally.seat outcomes) t).Clean) :
    (seats.foldl (Tally.seat outcomes) t).families = t.families ++ seats.map (·.endpoint.family) := by
  induction seats generalizing t with
  | nil => simp
  | cons seat seats ih =>
    rw [List.foldl_cons] at h ⊢
    rw [ih h, families_seat (clean_foldl.mp h).1, List.map_cons, List.append_assoc, List.singleton_append]

end Tally

/-- A jury is intact iff the outcome that the fold reads for each seat shows the seat
as planned, and the plan spans the floor. -/
theorem isIntact_iff {plan : RosterPlan} {outcomes : List SeatOutcome} :
    (juryIntegrity plan outcomes).isIntact = true ↔
      (plan.requirement.required = true → plan.requirement.minDistinctFamilies ≤ plan.distinctFamilies) ∧
        ∀ seat ∈ plan.seats, ∃ o, bySeat outcomes seat.seatId = some o ∧ plan.AsPlanned seat o := by
  have hclean : ((plan.admitted.foldl (Tally.seat outcomes) (Tally.generator outcomes plan.generator)).Clean ↔
      ∀ seat ∈ plan.seats, ∃ o, bySeat outcomes seat.seatId = some o ∧ plan.AsPlanned seat o) := by
    rw [clean_foldl, clean_generator, RosterPlan.seats, List.forall_mem_cons]
    constructor
    · rintro ⟨⟨g, hg, hobs⟩, hseats⟩
      refine ⟨⟨g, hg, hobs, fun hmem => ?_⟩, fun seat hseat => ?_⟩
      · obtain ⟨g', hg', hd, _⟩ := hseats _ hmem
        rw [hg, Option.some.injEq] at hg'
        exact hg' ▸ hd
      · obtain ⟨o, ho, hd, hobs⟩ := hseats seat hseat
        exact ⟨o, ho, hobs, fun _ => hd⟩
    · rintro ⟨⟨g, hg, hobs, _⟩, hseats⟩
      refine ⟨⟨g, hg, hobs⟩, fun seat hseat => ?_⟩
      obtain ⟨o, ho, hobs, hd⟩ := hseats seat hseat
      exact ⟨o, ho, hd hseat, hobs⟩
  have hfamilies : (plan.admitted.foldl (Tally.seat outcomes) (Tally.generator outcomes plan.generator)).Clean →
      (juryIntegrity plan outcomes).deliveredFamilies = plan.distinctFamilies := by
    intro h
    rw [juryIntegrity, families_foldl h, families_generator (clean_foldl.mp h).1, List.singleton_append]
    rfl
  rw [← hclean]
  constructor
  · intro h
    simp only [JuryIntegrity.isIntact, Bool.and_eq_true, List.isEmpty_iff] at h
    obtain ⟨⟨⟨hfloor, hnon⟩, hun⟩, hdrift⟩ := h
    have hc : (plan.admitted.foldl (Tally.seat outcomes) (Tally.generator outcomes plan.generator)).Clean :=
      ⟨hnon, hdrift, hun⟩
    refine ⟨fun hreq => ?_, hc⟩
    rw [← hfamilies hc]
    simpa [juryIntegrity, hreq] using hfloor
  · rintro ⟨hfloor, hc⟩
    simp only [JuryIntegrity.isIntact, Bool.and_eq_true, List.isEmpty_iff]
    refine ⟨⟨⟨?_, hc.1⟩, hc.2.2⟩, hc.2.1⟩
    rw [← hfamilies hc] at hfloor
    cases hreq : plan.requirement.required with
    | false => simp [juryIntegrity, hreq]
    | true => simpa [juryIntegrity, hreq] using hfloor hreq

def DoorOpen (outcomes : List SeatOutcome) : Prop :=
  (∀ o ∈ outcomes, o.isRed = false) ∧ (∃ o ∈ outcomes, o.delivery = .delivered) ∧
    ∀ o ∈ outcomes, o.delivery = .delivered → o.verdict = .confirmed

section Door

variable {plan : RosterPlan} {outcomes outcomes' : List SeatOutcome}

theorem fold_of_red (h : ∃ o ∈ outcomes, o.isRed = true) : (foldCommittee plan outcomes).verdict = .refuted := by
  have hany : outcomes.any (·.isRed) = true := List.any_eq_true.mpr h
  simp only [foldCommittee, hany, if_true]

theorem committeeVerdict_confirmed :
    committeeVerdict outcomes = .confirmed ↔
      (∀ o ∈ outcomes, o.isRed = false) ∧ outcomes ≠ [] ∧ ∀ o ∈ outcomes, o.verdict = .confirmed := by
  unfold committeeVerdict
  by_cases hany : outcomes.any (·.isRed) = true
  · obtain ⟨o, ho, hred⟩ := List.any_eq_true.mp hany
    simp only [hany, if_true, reduceCtorEq, false_iff]
    exact fun h => absurd (h.1 o ho) (by simp [hred])
  · have hnone : ∀ o ∈ outcomes, o.isRed = false := by simpa using hany
    have hred : ∀ o ∈ outcomes, o.falsifierRed = false := fun o ho => by
      have hisRed := hnone o ho
      simp only [SeatOutcome.isRed, Bool.or_eq_false_iff] at hisRed
      exact hisRed.2
    simp only [hany, if_false, Bool.false_eq_true]
    split
    · rename_i h
      simp only [List.all_eq_true, Bool.and_eq_true, decide_eq_true_eq] at h
      exact iff_of_true rfl ⟨hnone, h.1, fun o ho => (h.2 o ho).1⟩
    · rename_i h
      refine iff_of_false (by simp) fun hc => h ⟨hc.2.1, ?_⟩
      simp only [List.all_eq_true, Bool.and_eq_true, decide_eq_true_eq]
      exact fun o ho => ⟨hc.2.2 o ho, by simp [hred o ho]⟩

theorem doorOpen_iff (h : ∀ o ∈ outcomes, o.isRed = false) :
    committeeVerdict (outcomes.filter (·.delivery.hasDelivered)) = .confirmed ↔ DoorOpen outcomes := by
  rw [committeeVerdict_confirmed, DoorOpen]
  have hmem : ∀ o, o ∈ outcomes.filter (·.delivery.hasDelivered) ↔ o ∈ outcomes ∧ o.delivery = .delivered := by
    simp [SeatDelivery.hasDelivered]
  constructor
  · rintro ⟨_, hne, hconf⟩
    obtain ⟨o, ho⟩ := List.exists_mem_of_ne_nil _ hne
    exact ⟨h, ⟨o, (hmem o).mp ho⟩, fun o ho hd => hconf o ((hmem o).mpr ⟨ho, hd⟩)⟩
  · rintro ⟨_, ⟨o, ho⟩, hconf⟩
    refine ⟨fun o ho => h o ((hmem o).mp ho).1, List.ne_nil_of_mem ((hmem o).mpr ho), fun o ho => ?_⟩
    exact hconf o ((hmem o).mp ho).1 ((hmem o).mp ho).2

theorem fold_confirmed :
    (foldCommittee plan outcomes).verdict = .confirmed ↔
      DoorOpen outcomes ∧ (juryIntegrity plan outcomes).isIntact = true := by
  by_cases hred : ∃ o ∈ outcomes, o.isRed = true
  · rw [fold_of_red hred]
    obtain ⟨o, ho, hisRed⟩ := hred
    refine iff_of_false (by simp) fun h => absurd (h.1.1 o ho) (by simp [hisRed])
  · have hnone : ∀ o ∈ outcomes, o.isRed = false := by simpa using hred
    have hany : outcomes.any (·.isRed) = false := by simpa using hred
    rw [← doorOpen_iff hnone]
    simp only [foldCommittee, hany, Bool.false_eq_true, if_false]
    split
    · rename_i h
      exact iff_of_false (by simp) fun hc => absurd (h.2.symm.trans hc.2) (by simp)
    · rename_i h
      refine ⟨fun hdoor => ⟨hdoor, ?_⟩, fun h => h.1⟩
      by_contra hintact
      exact h ⟨hdoor, Bool.eq_false_of_not_eq_true hintact⟩

theorem fold_of_not_red (plan : RosterPlan) (h : ∀ o ∈ outcomes, o.isRed = false) :
    (foldCommittee plan outcomes).verdict = .confirmed ∨
      (foldCommittee plan outcomes).verdict = .inconclusive := by
  have hany : outcomes.any (·.isRed) = false := by simpa using h
  have hdelivered : (outcomes.filter (·.delivery.hasDelivered)).any (·.isRed) = false := by
    simpa using fun o ho _ => h o ho
  simp only [foldCommittee, hany, Bool.false_eq_true, if_false]
  split
  · exact Or.inr rfl
  · unfold committeeVerdict
    simp only [hdelivered, Bool.false_eq_true, if_false]
    split
    · exact Or.inl rfl
    · exact Or.inr rfl

theorem DoorOpen.perm (h : outcomes.Perm outcomes') (hopen : DoorOpen outcomes) : DoorOpen outcomes' := by
  obtain ⟨hred, ⟨o, ho, hd⟩, hconf⟩ := hopen
  exact ⟨fun o ho => hred o (h.mem_iff.mpr ho), ⟨o, h.mem_iff.mp ho, hd⟩, fun o ho => hconf o (h.mem_iff.mpr ho)⟩

end Door

end Cosmon.Core.Committee
