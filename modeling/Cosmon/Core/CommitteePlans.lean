import Cosmon.Core.CommitteeFolds
import Mathlib.Data.List.Forall2

namespace Cosmon.Core.Committee

open Cosmon.Core.Formulas

/-! Seats are given out first come, first served: whoever is seated has an endpoint and a role of his own. -/

section FirstCome

variable {α β E F R : Type} [DecidableEq E] [DecidableEq R] (endpoint : α → E) (role : α → R) (ready : α → Bool)

def Free (seated : List α) (x : α) : Prop := ∀ y ∈ seated, endpoint y ≠ endpoint x ∧ role y ≠ role x

instance (seated : List α) (x : α) : Decidable (Free endpoint role seated x) :=
  inferInstanceAs (Decidable (∀ y ∈ seated, _))

def seat (seated : List α) (x : α) : List α :=
  if Free endpoint role seated x ∧ ready x = true then seated ++ [x] else seated

/-- Those who are free to sit when it is their turn, ready or not. -/
def turns : List α → List α → List α
  | _, [] => []
  | seated, x :: rest =>
    if Free endpoint role seated x then x :: turns (seat endpoint role ready seated x) rest
    else turns (seat endpoint role ready seated x) rest

variable {endpoint role ready} {seated l : List α} {x y : α}

theorem foldl_seat (seated l : List α) : l.foldl (seat endpoint role ready) seated =
    seated ++ (turns endpoint role ready seated l).filter ready := by
  induction l generalizing seated with
  | nil => exact (List.append_nil _).symm
  | cons x rest ih =>
    rw [List.foldl_cons, ih, turns]
    by_cases hfree : Free endpoint role seated x <;> by_cases hready : ready x = true <;> simp [seat, hfree, hready]

theorem blocked (hx : x ∈ l) (hready : ready x = true) :
    ∃ y ∈ l.foldl (seat endpoint role ready) seated, endpoint y = endpoint x ∨ role y = role x := by
  obtain ⟨before, after, rfl⟩ := List.append_of_mem hx
  rw [List.foldl_append, List.foldl_cons, foldl_seat]
  by_cases hfree : Free endpoint role (before.foldl (seat endpoint role ready) seated) x
  · rw [seat, if_pos ⟨hfree, hready⟩]
    exact ⟨x, by simp, .inl rfl⟩
  · rw [seat, if_neg fun h => hfree h.1]
    rw [Free] at hfree
    push Not at hfree
    obtain ⟨y, hy, hsame⟩ := hfree
    refine ⟨y, List.mem_append_left _ hy, ?_⟩
    by_cases hendpoint : endpoint y = endpoint x
    · exact .inl hendpoint
    · exact .inr (hsame hendpoint)

end FirstCome

section Plans

def SeatCandidate.endpoint (candidate : SeatCandidate) : EndpointTuple := candidate.family.endpoint

def SeatCandidate.roleId (candidate : SeatCandidate) : String := candidate.persona.roleId

/-- The contract and the falsification artefact are there. -/
def SeatCandidate.delivered (candidate : SeatCandidate) : Bool :=
  !candidate.persona.briefing.all (!·.isValid) && !candidate.persona.falsificationArtifact.all isBlank

/-- The same seat, perhaps with its contract and its artefact delivered. -/
def Completes (candidate candidate' : SeatCandidate) : Prop :=
  candidate'.seatId = candidate.seatId ∧ candidate'.family = candidate.family ∧ candidate'.roleId = candidate.roleId ∧
    (candidate' = candidate ∨ candidate'.delivered = true)

variable {generator : SeatCandidate} {refuters : List SeatCandidate} {requirement : CommitteeRequirement}

theorem Completes.endpoint {candidate candidate' : SeatCandidate} (h : Completes candidate candidate') :
    candidate'.endpoint = candidate.endpoint :=
  congrArg FamilyWitness.endpoint h.2.1

theorem Completes.delivered {candidate candidate' : SeatCandidate} (h : Completes candidate candidate')
    (hdelivered : candidate.delivered = true) : candidate'.delivered = true :=
  h.2.2.2.elim (fun heq => heq ▸ hdelivered) id

def deliveries (rejected : List RejectedSeat) : List EndpointTuple :=
  (rejected.filter (·.reason.isDelivery)).map (·.endpoint)

/-- The maps of the loop know the endpoints and the roles of those who are seated. -/
def Admission.Knows (a : Admission) (seated : List SeatCandidate) : Prop :=
  (∀ e, a.seenEndpoints.lookup e = none ↔ ∀ y ∈ seated, y.endpoint ≠ e) ∧
    ∀ r, a.seenRoles.lookup r = none ↔ ∀ y ∈ seated, y.roleId ≠ r

theorem rejection_spec {a : Admission} {seated : List SeatCandidate} (h : a.Knows seated) (candidate : SeatCandidate) :
    (a.rejection candidate = none ↔
      Free SeatCandidate.endpoint SeatCandidate.roleId seated candidate ∧ candidate.delivered = true) ∧
    ∀ reason, a.rejection candidate = some reason →
      (reason.isDelivery = true ↔ Free SeatCandidate.endpoint SeatCandidate.roleId seated candidate) := by
  have hfree : Free SeatCandidate.endpoint SeatCandidate.roleId seated candidate ↔
      a.seenEndpoints.lookup candidate.family.endpoint = none ∧ a.seenRoles.lookup candidate.persona.roleId = none := by
    rw [h.1, h.2]
    exact ⟨fun h => ⟨fun y hy => (h y hy).1, fun y hy => (h y hy).2⟩, fun h y hy => ⟨h.1 y hy, h.2 y hy⟩⟩
  rw [hfree, Admission.rejection, SeatCandidate.delivered]
  cases a.seenEndpoints.lookup candidate.family.endpoint with
  | some other => simp [SeatRejection.isDelivery]
  | none =>
    cases a.seenRoles.lookup candidate.persona.roleId with
    | some other => simp [SeatRejection.isDelivery]
    | none =>
      dsimp only
      split_ifs with hbriefing hartifact
      · simp [hbriefing, SeatRejection.isDelivery]
      · simp [hartifact, SeatRejection.isDelivery]
      · simp [hbriefing, hartifact]

theorem Admission.Knows.consider {a : Admission} {seated : List SeatCandidate} (h : a.Knows seated)
    (candidate : SeatCandidate) : (a.consider candidate).Knows
      (seat SeatCandidate.endpoint SeatCandidate.roleId SeatCandidate.delivered seated candidate) := by
  have hlookup {κ : Type} [DecidableEq κ] {seen : List (κ × String)} {key : SeatCandidate → κ}
      (hseen : ∀ k, seen.lookup k = none ↔ ∀ y ∈ seated, key y ≠ k) (k : κ) :
      ((key candidate, candidate.seatId) :: seen).lookup k = none ↔ ∀ y ∈ seated ++ [candidate], key y ≠ k := by
    rw [List.lookup_cons, List.forall_mem_append, List.forall_mem_singleton, ← hseen]
    by_cases hk : k = key candidate
    · simp [hk]
    · simp [beq_false_of_ne hk, Ne.symm hk]
  have hnone := (rejection_spec h candidate).1
  rw [Admission.consider, seat]
  cases hrejection : a.rejection candidate with
  | none =>
    rw [if_pos (hnone.mp hrejection)]
    exact ⟨hlookup h.1, hlookup h.2⟩
  | some reason =>
    rw [if_neg fun hseat => by rw [hnone.mpr hseat] at hrejection; cases hrejection]
    exact h

def families (candidates : List SeatCandidate) : Finset String := (candidates.map (·.endpoint.family)).toFinset

variable {shape : EndpointTuple → String → Prop}

/-- The contract and the artefact are delivered to the seats of the other families. -/
def SeatCandidate.complete (family : String) (candidate : SeatCandidate) : SeatCandidate :=
  if candidate.endpoint.family = family ∨ candidate.delivered = true then candidate
  else { candidate with
    persona := ⟨candidate.roleId, some ⟨adversarialBriefingVersion, "contract", true⟩, some "artefact"⟩ }

def candidateAt (endpoint : EndpointTuple) (role : String) (delivered : Bool) : SeatCandidate where
  seatId := ""
  family := ⟨endpoint, none⟩
  persona := ⟨role, if delivered then some ⟨adversarialBriefingVersion, "contract", true⟩ else none,
    if delivered then some "artefact" else none⟩

@[simp] theorem candidateAt_endpoint (e : EndpointTuple) (r : String) (d : Bool) :
    (candidateAt e r d).endpoint = e := rfl

@[simp] theorem candidateAt_role (e : EndpointTuple) (r : String) (d : Bool) : (candidateAt e r d).roleId = r := rfl

@[simp] theorem candidateAt_delivered (e : EndpointTuple) (r : String) (d : Bool) :
    (candidateAt e r d).delivered = d := by
  cases d <;> rfl

end Plans

end Cosmon.Core.Committee
