import Mathlib.Data.List.Perm.Basic
import Mathlib.Data.List.Sort

namespace Cosmon.Core.Routing

inductive CriticalityLevel where
  | routine
  | root
  | security
  | max
deriving DecidableEq

def CriticalityLevel.requiresCommittee : CriticalityLevel → Bool
  | .routine => false
  | _ => true

inductive ObservationStatus where
  | fresh
  | stale
  | missing
  | historyUnavailable
deriving DecidableEq

structure Observation where
  value : Option Int64
  status : ObservationStatus
deriving DecidableEq

inductive LocalConsumption where
  | available (count : Nat)
  | unavailable
deriving DecidableEq

def LocalConsumption.headroom (consumption : LocalConsumption) (cap : Nat) : Option Nat :=
  match consumption with
  | .available n => some (cap - n)
  | .unavailable => none

def LocalConsumption.isKnown : LocalConsumption → Bool
  | .available _ => true
  | .unavailable => false

structure CalibrationObs where
  scorePermille : Option Int64
  status : ObservationStatus
deriving DecidableEq

structure SorCandidate where
  adapter : String
  model : Option String
  effort : Option String
  spawnable : Bool
  honorsPin : Bool
  capacityOk : Bool
  diversityOk : Bool
  consumption : LocalConsumption
  budgetCap : Option Nat
  calibration : CalibrationObs
  availability : Observation
  cost : Observation
deriving DecidableEq

def SorCandidate.id (candidate : SorCandidate) : String :=
  match candidate.model with
  | some model => candidate.adapter ++ "/" ++ model
  | none => candidate.adapter

inductive RejectReason where
  | notSpawnable
  | pinMismatch
  | capacityExhausted
  | missingCalibrationOnCritical
  | staleCalibrationOnCritical
  | localHistoryUnavailableOnCritical
  | budgetExhausted
  | diversityRequirementUnmet
deriving DecidableEq

structure SorRequest where
  subject : String
  revision : String
  criticality : CriticalityLevel
  criticalityActors : List String
  policyDigest : String
  attempt : Nat
  supersedes : Option Nat
deriving DecidableEq

structure RejectRecord where
  candidate : String
  reason : RejectReason
deriving DecidableEq

structure CandidateScore where
  candidate : String
  version : Nat
  qualityTerm : Int64
  headroomTerm : Int64
  availabilityTerm : Int64
  costTerm : Int64
  stalePenalty : Int64
  total : Int64
deriving DecidableEq

structure ScoreWeights where
  quality : Int64 := 10
  headroom : Int64 := 5
  availability : Int64 := 3
  cost : Int64 := 2
  stalePenalty : Int64 := 1000
deriving DecidableEq

structure ChosenIncarnation where
  adapter : String
  model : Option String
  effort : Option String
deriving DecidableEq

def SCORE_VERSION : Nat := 1

def RECEIPT_SCHEMA_VERSION : Nat := 1

structure RoutingReceipt (τ : Type) where
  schemaVersion : Nat
  scoreVersion : Nat
  subject : String
  revision : String
  attempt : Nat
  supersedes : Option Nat
  policyDigest : String
  criticality : CriticalityLevel
  criticalityActors : List String
  decidedAt : τ
  candidatesConsidered : List String
  rejects : List RejectRecord
  scores : List CandidateScore
  chosen : ChosenIncarnation
  receiptHash : String

structure SorDecision (τ : Type) where
  chosen : ChosenIncarnation
  receipt : RoutingReceipt τ

inductive SorRefusal where
  | noAdmissibleCandidate (subject : String) (rejects : List RejectRecord)
  | noCandidatesOffered (subject : String)
deriving DecidableEq

def candidateIsCritical (level : CriticalityLevel) : Bool := level.requiresCommittee

def admitCritical (candidate : SorCandidate) : Except RejectReason Unit :=
  match candidate.calibration.status with
  | .missing | .historyUnavailable => .error .missingCalibrationOnCritical
  | .stale => .error .staleCalibrationOnCritical
  | .fresh =>
    if candidate.consumption.isKnown then .ok () else .error .localHistoryUnavailableOnCritical

/-- `admit`: the hard constraints, one after the other. -/
def admitCandidate (candidate : SorCandidate) (request : SorRequest) : Except RejectReason Unit := do
  if candidate.spawnable = false then .error .notSpawnable
  if candidate.honorsPin = false then .error .pinMismatch
  if candidate.capacityOk = false then .error .capacityExhausted
  if candidate.diversityOk = false then .error .diversityRequirementUnmet
  if candidateIsCritical request.criticality then admitCritical candidate
  if candidate.budgetCap.bind candidate.consumption.headroom = some 0 then .error .budgetExhausted

def stale (status : ObservationStatus) (weights : ScoreWeights) : Int64 :=
  if status = .stale then weights.stalePenalty else 0

def scoreCandidate (weights : ScoreWeights) (candidate : SorCandidate) : CandidateScore :=
  let qualityTerm := candidate.calibration.scorePermille.getD 0 * weights.quality
  let headroomTerm :=
    ((candidate.budgetCap.bind candidate.consumption.headroom).map fun h => Int64.ofNat h * weights.headroom).getD 0
  let availabilityTerm := candidate.availability.value.getD 0 * weights.availability
  let costTerm := -(candidate.cost.value.getD 0) * weights.cost
  let stalePenalty :=
    0 + stale candidate.availability.status weights + stale candidate.cost.status weights +
      stale candidate.calibration.status weights
  { candidate := candidate.id
    version := SCORE_VERSION
    qualityTerm := qualityTerm
    headroomTerm := headroomTerm
    availabilityTerm := availabilityTerm
    costTerm := costTerm
    stalePenalty := stalePenalty
    total := qualityTerm + headroomTerm + availabilityTerm + costTerm - stalePenalty }

def sift (request : SorRequest) (s : List RejectRecord × List SorCandidate) (candidate : SorCandidate) :
    List RejectRecord × List SorCandidate :=
  match admitCandidate candidate request with
  | .ok () => (s.1, s.2 ++ [candidate])
  | .error reason => (s.1 ++ [⟨candidate.id, reason⟩], s.2)

/-- The higher total first, then the lesser adapter, then the lesser model. -/
def tieBreak : SorCandidate × CandidateScore → SorCandidate × CandidateScore → Ordering :=
  compareLex (fun a b => compare b.2.total a.2.total)
    (compareLex (compareOn fun s => s.1.adapter) (compareOn fun s => s.1.model))

def rank (weights : ScoreWeights) (admissible : List SorCandidate) : List (SorCandidate × CandidateScore) :=
  (admissible.map fun c => (c, scoreCandidate weights c)).mergeSort fun a b => (tieBreak a b).isLE

theorem rank_ne_nil {weights : ScoreWeights} {admissible : List SorCandidate} (h : admissible ≠ []) :
    rank weights admissible ≠ [] := by
  rw [rank, ne_eq, ← List.length_eq_zero_iff, List.length_mergeSort, List.length_map, List.length_eq_zero_iff]
  exact h

def SorCandidate.incarnation (candidate : SorCandidate) : ChosenIncarnation :=
  ⟨candidate.adapter, candidate.model, candidate.effort⟩

section Select

variable {τ : Type} (hashCanonical : RoutingReceipt τ → String)

/-- The hash covers every field but itself. -/
def RoutingReceipt.seal (receipt : RoutingReceipt τ) : RoutingReceipt τ :=
  { receipt with receiptHash := hashCanonical { receipt with receiptHash := "" } }

def select (request : SorRequest) (candidates : List SorCandidate) (weights : ScoreWeights) (now : τ) :
    Except SorRefusal (SorDecision τ) :=
  if candidates = [] then .error (.noCandidatesOffered request.subject)
  else
    let sifted := candidates.foldl (sift request) ([], [])
    if hnone : sifted.2 = [] then .error (.noAdmissibleCandidate request.subject sifted.1)
    else
      let ranked := rank weights sifted.2
      let winner := (ranked.head (rank_ne_nil hnone)).1
      let chosen := winner.incarnation
      let receipt : RoutingReceipt τ :=
        { schemaVersion := RECEIPT_SCHEMA_VERSION
          scoreVersion := SCORE_VERSION
          subject := request.subject
          revision := request.revision
          attempt := request.attempt
          supersedes := request.supersedes
          policyDigest := request.policyDigest
          criticality := request.criticality
          criticalityActors := request.criticalityActors
          decidedAt := now
          candidatesConsidered := candidates.map SorCandidate.id
          rejects := sifted.1
          scores := ranked.map Prod.snd
          chosen := chosen
          receiptHash := "" }
      .ok ⟨chosen, receipt.seal hashCanonical⟩

end Select

section Sorting

variable {α : Type} {le : α → α → Bool}

theorem mergeSort_cons_of_le (htrans : ∀ a b c, le a b = true → le b c = true → le a c = true)
    (htotal : ∀ a b, (le a b || le b a) = true) {a : α} {l : List α} (h : ∀ b ∈ l, le a b = true) :
    (a :: l).mergeSort le = a :: l.mergeSort le := by
  obtain ⟨front, back, hcons, hrest, hfront⟩ := List.mergeSort_cons htrans htotal a l
  have hnone : front = [] := by
    apply List.eq_nil_iff_forall_not_mem.mpr
    intro b hb
    have hmem : b ∈ l := List.mem_mergeSort.mp (hrest ▸ List.mem_append_left back hb)
    have hnot := hfront b hb
    rw [h b hmem] at hnot
    cases hnot
  rw [hcons, hrest, hnone, List.nil_append, List.nil_append]

theorem head_mergeSort_le (htrans : ∀ a b c, le a b = true → le b c = true → le a c = true)
    (htotal : ∀ a b, (le a b || le b a) = true) {l : List α} (hne : l.mergeSort le ≠ []) {b : α} (hb : b ∈ l) :
    le ((l.mergeSort le).head hne) b = true := by
  have hsorted := List.pairwise_mergeSort htrans htotal l
  have hmem : b ∈ l.mergeSort le := List.mem_mergeSort.mpr hb
  generalize l.mergeSort le = sorted at hne hsorted hmem
  cases sorted with
  | nil => exact absurd rfl hne
  | cons first rest =>
    obtain rfl | hmem := List.mem_cons.mp hmem
    · exact Or.elim (Bool.or_eq_true_iff.mp (htotal b b)) id id
    · exact (List.pairwise_cons.mp hsorted).1 b hmem

end Sorting

section TieBreak

instance : Std.TransCmp tieBreak :=
  have : Std.TransCmp fun a b : SorCandidate × CandidateScore => compare b.2.total a.2.total :=
    inferInstanceAs (Std.TransCmp fun a b : SorCandidate × CandidateScore =>
      compareOn (fun s : SorCandidate × CandidateScore => s.2.total) b a)
  inferInstanceAs (Std.TransCmp (compareLex _ _))

theorem tieBreak_trans (a b c : SorCandidate × CandidateScore) :
    (tieBreak a b).isLE = true → (tieBreak b c).isLE = true → (tieBreak a c).isLE = true :=
  Std.TransCmp.isLE_trans

theorem tieBreak_total (a b : SorCandidate × CandidateScore) :
    ((tieBreak a b).isLE || (tieBreak b a).isLE) = true := by
  rw [@Std.OrientedCmp.eq_swap _ tieBreak _ a b]
  cases tieBreak b a <;> rfl

theorem le_of_tieBreak {c d : SorCandidate} {x y : CandidateScore} (h : (tieBreak (c, x) (d, y)).isLE = true) :
    y.total ≤ x.total := by
  apply Std.isLE_compare.mp
  rw [tieBreak, compareLex] at h
  revert h
  cases compare y.total x.total <;> simp

theorem tieBreak_tie {a b : SorCandidate × CandidateScore} (hab : (tieBreak a b).isLE = true)
    (hba : (tieBreak b a).isLE = true) : a.1.adapter = b.1.adapter ∧ a.1.model = b.1.model := by
  have heq : tieBreak a b = .eq := Std.OrientedCmp.isLE_antisymm hab hba
  rw [tieBreak, compareLex_eq_eq, compareLex_eq_eq] at heq
  exact ⟨Std.compare_eq_iff_eq.mp heq.2.1, Std.compare_eq_iff_eq.mp heq.2.2⟩

end TieBreak

section Filter

variable {request : SorRequest}

def admitted (request : SorRequest) (candidates : List SorCandidate) : List SorCandidate :=
  candidates.filter fun c => (admitCandidate c request).isOk

def rejection (request : SorRequest) (candidate : SorCandidate) : Option RejectRecord :=
  match admitCandidate candidate request with
  | .ok () => none
  | .error reason => some ⟨candidate.id, reason⟩

theorem mem_admitted {candidates : List SorCandidate} {c : SorCandidate} :
    c ∈ admitted request candidates ↔ c ∈ candidates ∧ admitCandidate c request = .ok () := by
  rw [admitted, List.mem_filter]
  refine and_congr_right fun _ => ?_
  cases admitCandidate c request <;> simp [Except.isOk, Except.toBool]

theorem sift_eq (candidates : List SorCandidate) (s : List RejectRecord × List SorCandidate) :
    candidates.foldl (sift request) s =
      (s.1 ++ candidates.filterMap (rejection request), s.2 ++ admitted request candidates) := by
  induction candidates generalizing s with
  | nil => simp [admitted]
  | cons c rest ih =>
    rw [List.foldl_cons, ih, sift, List.filterMap_cons, rejection, admitted, admitted, List.filter_cons]
    cases admitCandidate c request <;> simp [Except.isOk, Except.toBool]

/-- Each candidate stands in one of the two lists: with its score, or with what speaks against it. -/
def Recorded (request : SorRequest) (weights : ScoreWeights) (candidates : List SorCandidate)
    (rejects : List RejectRecord) (scores : List CandidateScore) : Prop :=
  ∃ kept refused : List SorCandidate, (kept ++ refused).Perm candidates ∧
    (∀ c ∈ kept, admitCandidate c request = .ok ()) ∧
    scores = kept.map (scoreCandidate weights) ∧
    refused.map (fun c => (c.id, admitCandidate c request)) = rejects.map fun r => (r.candidate, .error r.reason)

theorem refused_records (candidates : List SorCandidate) :
    (candidates.filter fun c => !(admitCandidate c request).isOk).map (fun c => (c.id, admitCandidate c request)) =
      (candidates.filterMap (rejection request)).map fun r => (r.candidate, .error r.reason) := by
  induction candidates with
  | nil => rfl
  | cons c rest ih =>
    rw [List.filter_cons, List.filterMap_cons, rejection]
    cases hpass : admitCandidate c request with
    | ok => simpa [Except.isOk, Except.toBool] using ih
    | error reason => simpa [Except.isOk, Except.toBool, hpass] using ih

theorem recorded_of_perm {weights : ScoreWeights} {candidates kept : List SorCandidate}
    (h : kept.Perm (admitted request candidates)) :
    Recorded request weights candidates (candidates.filterMap (rejection request))
      (kept.map (scoreCandidate weights)) := by
  refine ⟨kept, _, ?_, fun c hc => (mem_admitted.mp (h.mem_iff.mp hc)).2, rfl, refused_records candidates⟩
  exact (h.append_right _).trans (List.filter_append_perm _ candidates)

end Filter

section Decisions

variable {τ : Type} (hashCanonical : RoutingReceipt τ → String) {request : SorRequest} (weights : ScoreWeights)
  {candidates : List SorCandidate} (now : τ)

theorem select_of_none (h : admitted request candidates = []) :
    ∃ refusal, select hashCanonical request candidates weights now = .error refusal ∧
      ∀ subject rejects, refusal = .noAdmissibleCandidate subject rejects →
        Recorded request weights candidates rejects [] := by
  by_cases hne : candidates = []
  · refine ⟨.noCandidatesOffered request.subject, if_pos hne, fun subject rejects heq => ?_⟩
    cases heq
  · refine ⟨.noAdmissibleCandidate request.subject (candidates.filterMap (rejection request)), ?_,
      fun subject rejects heq => ?_⟩
    · simp only [select, if_neg hne, sift_eq, List.nil_append, dif_pos h]
    · cases heq
      exact @recorded_of_perm _ _ _ [] (h ▸ List.Perm.refl _)

theorem select_of_some (h : admitted request candidates ≠ []) :
    ∃ d, select hashCanonical request candidates weights now = .ok d ∧
      d.chosen = ((rank weights (admitted request candidates)).head (rank_ne_nil h)).1.incarnation ∧
      d.receipt.chosen = d.chosen ∧ d.receipt.rejects = candidates.filterMap (rejection request) ∧
      d.receipt.scores = (rank weights (admitted request candidates)).map Prod.snd := by
  have hne : candidates ≠ [] := by
    rintro rfl
    exact h rfl
  simp only [select, if_neg hne, sift_eq, List.nil_append, dif_neg h]
  exact ⟨_, rfl, rfl, rfl, rfl, rfl⟩

variable {weights}

/-- Admissible, and no admissible candidate stands before it by total, adapter and model. -/
structure Foremost (request : SorRequest) (weights : ScoreWeights) (candidates : List SorCandidate)
    (c : SorCandidate) : Prop where
  mem : c ∈ candidates
  admissible : admitCandidate c request = .ok ()
  first : ∀ d ∈ candidates, admitCandidate d request = .ok () →
    (tieBreak (c, scoreCandidate weights c) (d, scoreCandidate weights d)).isLE = true

theorem Foremost.total_le {c d : SorCandidate} (h : Foremost request weights candidates c) (hd : d ∈ candidates)
    (hpass : admitCandidate d request = .ok ()) : (scoreCandidate weights d).total ≤ (scoreCandidate weights c).total :=
  le_of_tieBreak (h.first d hd hpass)

theorem foremost_perm {candidates' : List SorCandidate} (h : candidates'.Perm candidates) {c : SorCandidate}
    (hc : Foremost request weights candidates' c) : Foremost request weights candidates c :=
  ⟨h.mem_iff.mp hc.mem, hc.admissible, fun d hd => hc.first d (h.mem_iff.mpr hd)⟩

theorem mem_rank {admissible : List SorCandidate} {s : SorCandidate × CandidateScore} :
    s ∈ rank weights admissible ↔ ∃ c ∈ admissible, (c, scoreCandidate weights c) = s := by
  rw [rank, List.mem_mergeSort, List.mem_map]

theorem rank_perm (weights : ScoreWeights) (admissible : List SorCandidate) :
    ((rank weights admissible).map Prod.fst).Perm admissible := by
  have hperm := (List.mergeSort_perm (admissible.map fun c => (c, scoreCandidate weights c))
    fun a b => (tieBreak a b).isLE).map Prod.fst
  have hfirst : (admissible.map fun c => (c, scoreCandidate weights c)).map Prod.fst = admissible := by
    rw [List.map_map]
    exact List.map_id _
  rwa [hfirst] at hperm

theorem rank_scores (weights : ScoreWeights) (admissible : List SorCandidate) :
    (rank weights admissible).map Prod.snd = ((rank weights admissible).map Prod.fst).map (scoreCandidate weights) := by
  rw [List.map_map]
  apply List.map_congr_left
  intro s hs
  obtain ⟨c, -, rfl⟩ := mem_rank.mp hs
  rfl

theorem head_foremost (h : admitted request candidates ≠ []) :
    Foremost request weights candidates ((rank weights (admitted request candidates)).head (rank_ne_nil h)).1 := by
  have hmem := List.head_mem (rank_ne_nil h : rank weights (admitted request candidates) ≠ [])
  have hfirst (d : SorCandidate) (hd : d ∈ admitted request candidates) :
      (tieBreak ((rank weights (admitted request candidates)).head (rank_ne_nil h))
        (d, scoreCandidate weights d)).isLE = true :=
    head_mergeSort_le tieBreak_trans tieBreak_total (rank_ne_nil h) (List.mem_map.mpr ⟨d, hd, rfl⟩)
  obtain ⟨c, hc, htop⟩ := mem_rank.mp hmem
  obtain ⟨hcandidate, hadmissible⟩ := mem_admitted.mp hc
  rw [← htop]
  refine ⟨hcandidate, hadmissible, fun d hd hpass => ?_⟩
  exact htop ▸ hfirst d (mem_admitted.mpr ⟨hd, hpass⟩)

theorem select_first {c : SorCandidate} {rest : List SorCandidate} (h : Foremost request weights (c :: rest) c) :
    ∃ d, select hashCanonical request (c :: rest) weights now = .ok d ∧ d.chosen = c.incarnation := by
  have hadmitted : admitted request (c :: rest) = c :: admitted request rest := by
    rw [admitted, List.filter_cons_of_pos (by rw [h.admissible]; rfl), admitted]
  have hrank : ∃ back, rank weights (admitted request (c :: rest)) = (c, scoreCandidate weights c) :: back := by
    refine ⟨rank weights (admitted request rest), ?_⟩
    rw [hadmitted, rank, List.map_cons, mergeSort_cons_of_le tieBreak_trans tieBreak_total, rank]
    rintro _ hmem
    obtain ⟨d, hd, rfl⟩ := List.mem_map.mp hmem
    obtain ⟨hcandidate, hadmissible⟩ := mem_admitted.mp hd
    exact h.first d (List.mem_cons_of_mem c hcandidate) hadmissible
  have hne : admitted request (c :: rest) ≠ [] := hadmitted ▸ List.cons_ne_nil _ _
  obtain ⟨d, hselect, hchosen, -⟩ := select_of_some hashCanonical weights now hne
  obtain ⟨back, hrank⟩ := hrank
  refine ⟨d, hselect, hchosen.trans ?_⟩
  simp only [hrank, List.head_cons]

def chosenOf (r : Except SorRefusal (SorDecision τ)) : Option ChosenIncarnation :=
  r.toOption.map SorDecision.chosen

theorem chosenOf_ok {r : Except SorRefusal (SorDecision τ)} {d : SorDecision τ} (h : r = .ok d) :
    chosenOf r = some d.chosen := by
  rw [h]
  rfl

theorem chosenOf_error {r : Except SorRefusal (SorDecision τ)} {refusal : SorRefusal} (h : r = .error refusal) :
    chosenOf r = none := by
  rw [h]
  rfl

/-- The choice depends on the order of the list exactly if foremost candidates differ in their effort. -/
theorem chosen_perm_iff :
    (∀ candidates' : List SorCandidate, candidates'.Perm candidates →
      chosenOf (select hashCanonical request candidates' weights now) =
        chosenOf (select hashCanonical request candidates weights now)) ↔
      ∀ c c', Foremost request weights candidates c → Foremost request weights candidates c' →
        c.effort = c'.effort := by
  constructor
  · intro h c c' hc hc'
    have hfirst {c : SorCandidate} (hc : Foremost request weights candidates c) :
        some c.incarnation = chosenOf (select hashCanonical request candidates weights now) := by
      have hperm := (List.perm_cons_erase hc.mem).symm
      obtain ⟨d, hselect, hchosen⟩ := select_first hashCanonical now (foremost_perm hperm.symm hc)
      rw [← h _ hperm, chosenOf_ok hselect, hchosen]
    have hsame := (hfirst hc).trans (hfirst hc').symm
    exact congrArg ChosenIncarnation.effort (Option.some_inj.mp hsame)
  · intro h candidates' hperm
    have hadmitted : (admitted request candidates').Perm (admitted request candidates) := hperm.filter _
    by_cases hnone : admitted request candidates = []
    · obtain ⟨_, hselect, -⟩ := select_of_none hashCanonical weights now hnone
      have hnone' : admitted request candidates' = [] := (hnone ▸ hadmitted).eq_nil
      obtain ⟨_, hselect', -⟩ := select_of_none hashCanonical weights now hnone'
      rw [chosenOf_error hselect, chosenOf_error hselect']
    · have hnone' : admitted request candidates' ≠ [] := fun heq => hnone (heq ▸ hadmitted).symm.eq_nil
      obtain ⟨d, hselect, hchosen, -⟩ := select_of_some hashCanonical weights now hnone
      obtain ⟨d', hselect', hchosen', -⟩ := select_of_some hashCanonical weights now hnone'
      have hw : Foremost request weights candidates _ := head_foremost hnone
      have hw' : Foremost request weights candidates _ := foremost_perm hperm (head_foremost hnone')
      rw [chosenOf_ok hselect, chosenOf_ok hselect', hchosen, hchosen']
      generalize (rank weights (admitted request candidates)).head (rank_ne_nil hnone) = w at hw ⊢
      generalize (rank weights (admitted request candidates')).head (rank_ne_nil hnone') = w' at hw' ⊢
      obtain ⟨hadapter, hmodel⟩ :=
        tieBreak_tie (hw.first _ hw'.mem hw'.admissible) (hw'.first _ hw.mem hw.admissible)
      rw [SorCandidate.incarnation, SorCandidate.incarnation, hadapter, hmodel, h _ _ hw hw']

/-- What holds of a decision whatever the order of the list. -/
structure Decides (request : SorRequest) (candidates : List SorCandidate) (weights : ScoreWeights)
    (result : Except SorRefusal (SorDecision τ)) : Prop where
  refuses : (∃ refusal, result = .error refusal) ↔ ∀ c ∈ candidates, admitCandidate c request ≠ .ok ()
  chooses : ∀ d, result = .ok d → d.receipt.chosen = d.chosen ∧ ∃ c ∈ candidates,
    d.chosen = c.incarnation ∧ admitCandidate c request = .ok () ∧
      ∀ other ∈ candidates, admitCandidate other request = .ok () →
        (scoreCandidate weights other).total ≤ (scoreCandidate weights c).total
  records : ∀ d, result = .ok d → Recorded request weights candidates d.receipt.rejects d.receipt.scores
  explains : ∀ subject rejects, result = .error (.noAdmissibleCandidate subject rejects) →
    Recorded request weights candidates rejects []

theorem select_decides (request : SorRequest) (candidates : List SorCandidate) (weights : ScoreWeights) (now : τ) :
    Decides request candidates weights (select hashCanonical request candidates weights now) := by
  by_cases hnone : admitted request candidates = []
  · obtain ⟨refusal, hselect, hexplains⟩ := select_of_none hashCanonical weights now hnone
    rw [hselect]
    refine ⟨iff_of_true ⟨_, rfl⟩ fun c hc hpass => ?_, ?_, ?_, ?_⟩
    · exact List.not_mem_nil (hnone ▸ mem_admitted.mpr ⟨hc, hpass⟩)
    · rintro d ⟨⟩
    · rintro d ⟨⟩
    · rintro subject rejects ⟨⟩
      exact hexplains subject rejects rfl
  · obtain ⟨d, hselect, hchosen, hreceipt, hrejects, hscores⟩ := select_of_some hashCanonical weights now hnone
    have hw : Foremost request weights candidates _ := head_foremost hnone
    rw [hselect]
    refine ⟨iff_of_false ?_ fun h => h _ hw.mem hw.admissible, ?_, ?_, ?_⟩
    · rintro ⟨refusal, ⟨⟩⟩
    · rintro _ ⟨⟩
      exact ⟨hreceipt, _, hw.mem, hchosen, hw.admissible, fun _ => hw.total_le⟩
    · rintro _ ⟨⟩
      rw [hrejects, hscores, rank_scores]
      exact recorded_of_perm (rank_perm weights _)
    · rintro subject rejects ⟨⟩

/-- The order of the list is without effect on the choice exactly if foremost candidates agree in their effort. -/
theorem select_settled_iff (hashCanonical : RoutingReceipt τ → String) (request : SorRequest)
    (candidates : List SorCandidate) (weights : ScoreWeights) (now : τ) :
    Decides request candidates weights (select hashCanonical request candidates weights now) ∧
      ((∀ candidates' : List SorCandidate, candidates'.Perm candidates →
        chosenOf (select hashCanonical request candidates' weights now) =
          chosenOf (select hashCanonical request candidates weights now)) ↔
        ∀ c c', Foremost request weights candidates c → Foremost request weights candidates c' →
          c.effort = c'.effort) :=
  ⟨select_decides hashCanonical request candidates weights now, chosen_perm_iff hashCanonical now⟩

def seat (effort : String) : SorCandidate where
  adapter := "claude"
  model := some "opus"
  effort := some effort
  spawnable := true
  honorsPin := true
  capacityOk := true
  diversityOk := true
  consumption := .available 0
  budgetCap := none
  calibration := ⟨none, .missing⟩
  availability := ⟨none, .missing⟩
  cost := ⟨none, .missing⟩

def errand : SorRequest := ⟨"task-20260101-0001", "1", .routine, [], "policy", 1, none⟩

theorem seats_foremost (a b : String) : Foremost errand {} [seat a, seat b] (seat a) := by
  refine ⟨List.mem_cons_self, rfl, fun d hd _ => ?_⟩
  have hself : (tieBreak (seat a, scoreCandidate {} (seat a)) (seat a, scoreCandidate {} (seat a))).isLE = true :=
    Std.ReflCmp.isLE_rfl
  simp only [List.mem_cons, List.not_mem_nil, or_false] at hd
  obtain rfl | rfl := hd
  · exact hself
  · exact hself

theorem select_unsettled :
    [seat "low", seat "high"].Perm [seat "high", seat "low"] ∧
      chosenOf (select (fun _ => "") errand [seat "low", seat "high"] {} ()) ≠
        chosenOf (select (fun _ => "") errand [seat "high", seat "low"] {} ()) := by
  refine ⟨List.Perm.swap .., ?_⟩
  obtain ⟨d, hd, hlow⟩ := select_first (fun _ => "") () (seats_foremost "low" "high")
  obtain ⟨d', hd', hhigh⟩ := select_first (fun _ => "") () (seats_foremost "high" "low")
  rw [chosenOf_ok hd, chosenOf_ok hd', hlow, hhigh]
  decide

end Decisions

end Cosmon.Core.Routing
