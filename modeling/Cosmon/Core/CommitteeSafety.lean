import Cosmon.Core.CommitteeFolds

namespace Cosmon.Core.Committee

section Order

variable {plan : RosterPlan} {outcomes outcomes' : List SeatOutcome}

/-- The outcomes hold a confirmation of this plan: for some choice of one outcome per
seat the fold would confirm. -/
structure CouldConfirm (plan : RosterPlan) (outcomes : List SeatOutcome) : Prop where
  distinct : (plan.seats.map (·.seatId)).Nodup
  floor : plan.floorMet = true
  door : DoorOpen outcomes
  attested : ∀ seat ∈ plan.seats, ∃ o ∈ outcomes, o.seatId = seat.seatId ∧ plan.AsPlanned seat o

/-- Every outcome filed under a seat of the plan shows the seat as planned. -/
def AllAsPlanned (plan : RosterPlan) (outcomes : List SeatOutcome) : Prop :=
  ∀ seat ∈ plan.seats, ∀ o ∈ outcomes, o.seatId = seat.seatId → plan.AsPlanned seat o

theorem exists_perm_intact (h : CouldConfirm plan outcomes)
    (hfloor : plan.requirement.required = true → plan.requirement.minDistinctFamilies ≤ plan.distinctFamilies) :
    ∃ outcomes', outcomes.Perm outcomes' ∧ (juryIntegrity plan outcomes').isIntact = true := by
  let good : SeatOutcome → Bool := fun o => plan.seats.any fun seat => o.seatId = seat.seatId && plan.AsPlanned seat o
  refine ⟨outcomes.filter (!good ·) ++ outcomes.filter good, ?_, ?_⟩
  · exact (List.perm_append_comm.trans (List.filter_append_perm good outcomes)).symm
  rw [isIntact_iff]
  refine ⟨hfloor, fun seat hseat => ?_⟩
  obtain ⟨o, ho, hid, hplanned⟩ := h.attested seat hseat
  have hgood : o ∈ outcomes.filter good := by
    refine List.mem_filter.mpr ⟨ho, List.any_eq_true.mpr ⟨seat, hseat, ?_⟩⟩
    simp [hid, hplanned]
  rw [bySeat_append hgood hid]
  cases hlast : bySeat (outcomes.filter good) seat.seatId with
  | none => exact absurd hid (bySeat_none.mp hlast o hgood)
  | some o' =>
    obtain ⟨hmem, hid'⟩ := bySeat_mem hlast
    refine ⟨o', rfl, ?_⟩
    obtain ⟨seat', hseat', hgood'⟩ := List.any_eq_true.mp (List.mem_filter.mp hmem).2
    simp only [Bool.and_eq_true, decide_eq_true_eq] at hgood'
    have hsame : seat' = seat := List.inj_on_of_nodup_map h.distinct hseat' hseat (hgood'.1.symm.trans hid')
    exact hsame ▸ hgood'.2

theorem exists_perm_compromised {seat : AdmittedSeat} (hseat : seat ∈ plan.seats) {o : SeatOutcome}
    (ho : o ∈ outcomes) (hid : o.seatId = seat.seatId) (hnot : ¬ plan.AsPlanned seat o) :
    ∃ outcomes', outcomes.Perm outcomes' ∧ (juryIntegrity plan outcomes').isIntact = false := by
  refine ⟨outcomes.erase o ++ [o], ?_, ?_⟩
  · exact (List.perm_cons_erase ho).trans (List.perm_append_singleton o _).symm
  · rw [Bool.eq_false_iff, Ne, isIntact_iff]
    rintro ⟨_, hall⟩
    obtain ⟨o', hlast, hplanned⟩ := hall seat hseat
    rw [← hid, bySeat_concat, Option.some.injEq] at hlast
    exact hnot (hlast ▸ hplanned)

/-- A jury that is intact could confirm: its seats have ids of their own, since one
outcome cannot show two endpoints. -/
theorem couldConfirm_of_intact (hendpoints : (plan.seats.map (·.endpoint)).Nodup)
    (hfloorMet : plan.floorMet = true ↔
      (plan.requirement.required = true → plan.requirement.minDistinctFamilies ≤ plan.distinctFamilies))
    (hdoor : DoorOpen outcomes) (h : (juryIntegrity plan outcomes).isIntact = true) :
    CouldConfirm plan outcomes := by
  obtain ⟨hfloor, hall⟩ := isIntact_iff.mp h
  refine ⟨?_, hfloorMet.mpr hfloor, hdoor, fun seat hseat => ?_⟩
  · refine (List.nodup_map_iff_inj_on hendpoints.of_map).mpr fun seat hseat seat' hseat' hid => ?_
    obtain ⟨o, ho, hplanned⟩ := hall seat hseat
    obtain ⟨o', ho', hplanned'⟩ := hall seat' hseat'
    rw [← hid, ho, Option.some.injEq] at ho'
    subst ho'
    have hendpoint := hplanned.1.1.symm.trans hplanned'.1.1
    rw [Option.some.injEq] at hendpoint
    exact List.inj_on_of_nodup_map hendpoints hseat hseat' hendpoint
  · obtain ⟨o, ho, hplanned⟩ := hall seat hseat
    exact ⟨o, (bySeat_mem ho).1, (bySeat_mem ho).2, hplanned⟩

theorem CouldConfirm.perm (h : outcomes.Perm outcomes') (hcould : CouldConfirm plan outcomes) :
    CouldConfirm plan outcomes' := by
  refine ⟨hcould.distinct, hcould.floor, hcould.door.perm h, fun seat hseat => ?_⟩
  obtain ⟨o, ho, hplanned⟩ := hcould.attested seat hseat
  exact ⟨o, h.mem_iff.mp ho, hplanned⟩

theorem intact_of_allAsPlanned (hcould : CouldConfirm plan outcomes) (hall : AllAsPlanned plan outcomes)
    (hfloor : plan.requirement.required = true → plan.requirement.minDistinctFamilies ≤ plan.distinctFamilies) :
    (juryIntegrity plan outcomes).isIntact = true := by
  rw [isIntact_iff]
  refine ⟨hfloor, fun seat hseat => ?_⟩
  obtain ⟨o, ho, hid, _⟩ := hcould.attested seat hseat
  cases hread : bySeat outcomes seat.seatId with
  | none => exact absurd hid (bySeat_none.mp hread o ho)
  | some o' => exact ⟨o', rfl, hall seat hseat o' (bySeat_mem hread).1 (bySeat_mem hread).2⟩

end Order

def familiesSpanned (outcomes : List SeatOutcome) : Nat :=
  ((outcomes.filterMap (·.realizedEndpoint)).map (·.family)).toFinset.card

/-- The outcome of an admitted seat that confirmed as the seat it was admitted as. -/
def ConfirmedAs (outcomes : List SeatOutcome) (seat : AdmittedSeat) (o : SeatOutcome) : Prop :=
  o ∈ outcomes ∧ o.seatId = seat.seatId ∧ o.delivery = .delivered ∧ o.verdict = .confirmed ∧ ObservedAs seat o

/-- The grounds of a confirmation: no red, a report of each admitted seat, an observed
generator, and the floor over the endpoints of these. -/
def Grounds (plan : RosterPlan) (outcomes : List SeatOutcome) : Prop :=
  (∀ o ∈ outcomes, o.isRed = false) ∧ ∃ g ∈ outcomes, ∃ reports,
    g.seatId = plan.generator.seatId ∧ ObservedAs plan.generator g ∧
      List.Forall₂ (ConfirmedAs outcomes) plan.admitted reports ∧
      plan.requirement.minDistinctFamilies ≤ familiesSpanned (g :: reports)

structure FoldSound (plan : RosterPlan) (outcomes : List SeatOutcome) : Prop where
  refutes : (∃ o ∈ outcomes, o.isRed = true) → (foldCommittee plan outcomes).verdict = .refuted
  grounded : (foldCommittee plan outcomes).verdict = .confirmed → Grounds plan outcomes
  anyOrder : ∀ outcomes', outcomes.Perm outcomes' →
    (foldCommittee plan outcomes').verdict = (foldCommittee plan outcomes).verdict

section Grounds

variable {plan : RosterPlan} {outcomes : List SeatOutcome}

theorem exists_reports {seats : List AdmittedSeat} (h : ∀ seat ∈ seats, ∃ o, ConfirmedAs outcomes seat o) :
    ∃ reports, List.Forall₂ (ConfirmedAs outcomes) seats reports := by
  induction seats with
  | nil => exact ⟨[], List.Forall₂.nil⟩
  | cons seat seats ih =>
    rw [List.forall_mem_cons] at h
    obtain ⟨o, ho⟩ := h.1
    obtain ⟨reports, hreports⟩ := ih h.2
    exact ⟨o :: reports, List.Forall₂.cons ho hreports⟩

theorem families_reports {seats : List AdmittedSeat} {reports : List SeatOutcome}
    (h : List.Forall₂ (ConfirmedAs outcomes) seats reports) :
    (reports.filterMap (·.realizedEndpoint)).map (·.family) = seats.map (·.endpoint.family) := by
  induction h with
  | nil => rfl
  | cons ho _ ih =>
    obtain ⟨_, _, _, _, hobs⟩ := ho
    rw [List.filterMap_cons_some hobs.1, List.map_cons, ih, List.map_cons]

theorem grounds_of_confirmed (hreq : plan.requirement.required = true)
    (h : (foldCommittee plan outcomes).verdict = .confirmed) : Grounds plan outcomes := by
  obtain ⟨hdoor, hintact⟩ := fold_confirmed.mp h
  obtain ⟨hfloor, hall⟩ := isIntact_iff.mp hintact
  obtain ⟨g, hg, hgen, _⟩ := hall plan.generator List.mem_cons_self
  have hseats : ∀ seat ∈ plan.admitted, ∃ o, ConfirmedAs outcomes seat o := fun seat hseat => by
    obtain ⟨o, ho, hobs, hd⟩ := hall seat (List.mem_cons_of_mem _ hseat)
    obtain ⟨hmem, hid⟩ := bySeat_mem ho
    exact ⟨o, hmem, hid, hd hseat, hdoor.2.2 o hmem (hd hseat), hobs⟩
  obtain ⟨reports, hreports⟩ := exists_reports hseats
  refine ⟨hdoor.1, g, (bySeat_mem hg).1, reports, (bySeat_mem hg).2, hgen, hreports, ?_⟩
  have hspan : familiesSpanned (g :: reports) = plan.distinctFamilies := by
    rw [familiesSpanned, List.filterMap_cons_some hgen.1, List.map_cons, families_reports hreports]
    rfl
  exact hspan ▸ hfloor hreq

end Grounds

section Sound

variable {plan : RosterPlan} {outcomes outcomes' : List SeatOutcome}
  (hendpoints : (plan.seats.map (·.endpoint)).Nodup)
  (hfloorMet : plan.floorMet = true ↔
    (plan.requirement.required = true → plan.requirement.minDistinctFamilies ≤ plan.distinctFamilies))

include hendpoints hfloorMet

theorem confirmed_perm (hperm : outcomes.Perm outcomes')
    (hall : CouldConfirm plan outcomes' → AllAsPlanned plan outcomes')
    (h : (foldCommittee plan outcomes).verdict = .confirmed) :
    (foldCommittee plan outcomes').verdict = .confirmed := by
  obtain ⟨hdoor, hintact⟩ := fold_confirmed.mp h
  have hcould : CouldConfirm plan outcomes' :=
    (couldConfirm_of_intact hendpoints hfloorMet hdoor hintact).perm hperm
  exact fold_confirmed.mpr
    ⟨hcould.door, intact_of_allAsPlanned hcould (hall hcould) (hfloorMet.mp hcould.floor)⟩

theorem verdict_perm (hall : CouldConfirm plan outcomes → AllAsPlanned plan outcomes)
    (hperm : outcomes.Perm outcomes') :
    (foldCommittee plan outcomes').verdict = (foldCommittee plan outcomes).verdict := by
  have hall' : CouldConfirm plan outcomes' → AllAsPlanned plan outcomes' :=
    fun hcould seat hseat o ho => hall (hcould.perm hperm.symm) seat hseat o (hperm.mem_iff.mpr ho)
  by_cases hred : ∃ o ∈ outcomes, o.isRed = true
  · obtain ⟨o, ho, hisRed⟩ := hred
    rw [fold_of_red ⟨o, ho, hisRed⟩, fold_of_red ⟨o, hperm.mem_iff.mp ho, hisRed⟩]
  have hnone : ∀ o ∈ outcomes, o.isRed = false := by simpa using hred
  have hnone' : ∀ o ∈ outcomes', o.isRed = false := fun o ho => hnone o (hperm.mem_iff.mpr ho)
  rcases fold_of_not_red plan hnone with hv | hv
  · rw [hv, confirmed_perm hendpoints hfloorMet hperm hall' hv]
  · rcases fold_of_not_red plan hnone' with hv' | hv'
    · rw [confirmed_perm hendpoints hfloorMet hperm.symm hall hv'] at hv
      cases hv
    · rw [hv, hv']

omit hendpoints in
/-- Two readings of outcomes that could confirm, one intact and one not, would answer
differently. -/
theorem allAsPlanned_of_anyOrder (hcould : CouldConfirm plan outcomes)
    (h : ∀ outcomes', outcomes.Perm outcomes' →
      (foldCommittee plan outcomes').verdict = (foldCommittee plan outcomes).verdict) :
    AllAsPlanned plan outcomes := by
  intro seat hseat o ho hid
  by_contra hnot
  obtain ⟨first, hfirst, hintact⟩ := exists_perm_intact hcould (hfloorMet.mp hcould.floor)
  obtain ⟨second, hsecond, hbroken⟩ := exists_perm_compromised hseat ho hid hnot
  have hconfirmed := fold_confirmed.mpr ⟨hcould.door.perm hfirst, hintact⟩
  rw [h first hfirst, ← h second hsecond] at hconfirmed
  rw [(fold_confirmed.mp hconfirmed).2] at hbroken
  cases hbroken

end Sound

/-- The fold certifies no compromised jury and reads no order into the outcomes, iff
outcomes that could confirm the plan all show their seats as planned: of several
outcomes of one seat only the last is examined. -/
theorem foldSound_iff (generator : SeatCandidate) (refuters : List SeatCandidate)
    (requirement : CommitteeRequirement) (hreq : requirement.required = true) (outcomes : List SeatOutcome) :
    FoldSound (planCommittee generator refuters requirement) outcomes ↔
      (CouldConfirm (planCommittee generator refuters requirement) outcomes →
        AllAsPlanned (planCommittee generator refuters requirement) outcomes) := by
  have hendpoints := planCommittee_endpoints generator refuters requirement
  have hfloorMet := planCommittee_floorMet generator refuters requirement
  constructor
  · intro h hcould
    exact allAsPlanned_of_anyOrder hfloorMet hcould h.anyOrder
  · intro h
    exact ⟨fold_of_red, grounds_of_confirmed hreq, fun outcomes' hperm =>
      verdict_perm hendpoints hfloorMet h hperm⟩

section Rescue

def rescuedGenerator : SeatCandidate where
  seatId := "generator"
  family := ⟨⟨"anthropic", "", "anthropic"⟩, some "opus"⟩
  persona := ⟨"author", none, none⟩

def rescuedRefuter : SeatCandidate where
  seatId := "reader"
  family := ⟨⟨"openai", "", "openai"⟩, some "sol"⟩
  persona := ⟨"refuter", some ⟨1, "9f", true⟩, some "falsification-attempt.md"⟩

def observedOutcome (seat : SeatCandidate) : SeatOutcome where
  seatId := seat.seatId
  verdict := .confirmed
  falsifierRed := false
  realizedEndpoint := some seat.family.endpoint
  realizedModel := seat.family.model

def rescuedOutcomes : List SeatOutcome :=
  [observedOutcome rescuedGenerator, { observedOutcome rescuedRefuter with switchedAfterDispatch := true },
    observedOutcome rescuedRefuter]

/-- The retry behind it hides the switch by hand, and in the other order it does not. -/
theorem rescued_not_foldSound :
    ¬ FoldSound (planCommittee rescuedGenerator [rescuedRefuter] ⟨true, 2⟩) rescuedOutcomes := by
  intro h
  have hswap : rescuedOutcomes.Perm [observedOutcome rescuedGenerator, observedOutcome rescuedRefuter,
      { observedOutcome rescuedRefuter with switchedAfterDispatch := true }] :=
    (List.Perm.swap _ _ _).cons _
  have hsame := h.anyOrder _ hswap
  revert hsame
  decide +kernel

/-- Each seat reports once. -/
theorem observed_foldSound :
    FoldSound (planCommittee rescuedGenerator [rescuedRefuter] ⟨true, 2⟩)
      [observedOutcome rescuedGenerator, observedOutcome rescuedRefuter] :=
  (foldSound_iff rescuedGenerator [rescuedRefuter] ⟨true, 2⟩ rfl _).mpr fun _ => by
    unfold AllAsPlanned
    decide +kernel

end Rescue

end Cosmon.Core.Committee
