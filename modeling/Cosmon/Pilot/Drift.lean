import Mathlib.Data.Finset.Sort
import Mathlib.Data.List.Dedup
import Mathlib.Data.Multiset.Bind
import Mathlib.Data.String.Basic

namespace Cosmon.Pilot.Drift

inductive Verdict where
  | agree
  | finding
  | inconclusive
deriving DecidableEq

inductive Side where
  | a
  | b
deriving DecidableEq

def Side.other : Side → Side
  | .a => .b
  | .b => .a

inductive DriftClass where
  | scopeChange
  | contradictoryIntent
  | contradictoryHypothesis
  | missingEvidence
  | missingCheckpoint
  | missionMismatch
  | noComparableClaim
  | scopeAgreement
  | subjectAgreement
deriving DecidableEq

def DriftClass.verdict : DriftClass → Verdict
  | .scopeChange | .contradictoryIntent | .contradictoryHypothesis | .missingEvidence => .finding
  | .missingCheckpoint | .missionMismatch | .noComparableClaim => .inconclusive
  | .scopeAgreement | .subjectAgreement => .agree

def DriftClass.asStr : DriftClass → String
  | .scopeChange => "scope_change"
  | .contradictoryIntent => "contradictory_intent"
  | .contradictoryHypothesis => "contradictory_hypothesis"
  | .missingEvidence => "missing_evidence"
  | .missingCheckpoint => "missing_checkpoint"
  | .missionMismatch => "mission_mismatch"
  | .noComparableClaim => "no_comparable_claim"
  | .scopeAgreement => "scope_agreement"
  | .subjectAgreement => "subject_agreement"

inductive Stance where
  | affirm
  | deny
deriving DecidableEq

structure EvidenceRef where
  locator : String
  digest : Option String
deriving DecidableEq

structure Claim where
  id : String
  subject : String
  stance : Stance
  statement : String
  evidence : List EvidenceRef
deriving DecidableEq

structure Scope where
  includes : Finset String
  excludes : Finset String
deriving DecidableEq

structure PilotCheckpoint where
  id : String
  missionId : String
  scope : Scope
  currentHypotheses : List Claim
  intendedNextActions : List Claim

structure CitedClaim where
  side : Side
  checkpoint : String
  claim : Option String
  subject : String
  statement : String
  evidence : List EvidenceRef
deriving DecidableEq

abbrev CheckpointPairIds := Option String × Option String

structure Seed where
  className : String
  ids : CheckpointPairIds
  cites : List (Side × String × Option String)
deriving DecidableEq

structure DriftFinding where
  id : List Char
  ids : CheckpointPairIds
  class_ : DriftClass
  citedClaims : List CitedClaim
  evidenceRefs : Finset EvidenceRef
  verdict : Verdict
  createdAt : Int

structure DriftReport where
  missionId : Option String
  ids : CheckpointPairIds
  findings : List DriftFinding
  verdict : Verdict
  createdAt : Int

abbrev Fired := DriftClass × List CitedClaim

def seedOf (ids : CheckpointPairIds) (fired : Fired) : Seed :=
  ⟨fired.1.asStr, ids, fired.2.map fun cite => (cite.side, cite.subject, cite.claim)⟩

def rollUp (findings : List DriftFinding) : Verdict :=
  if findings.any (·.verdict = .finding) then .finding
  else if findings.any (·.verdict = .inconclusive) then .inconclusive
  else if findings.any (·.verdict = .agree) then .agree
  else .inconclusive

inductive ClaimKind where
  | hypothesis
  | intent

def ClaimKind.of : ClaimKind → PilotCheckpoint → List Claim
  | .hypothesis, cp => cp.currentHypotheses
  | .intent, cp => cp.intendedNextActions

def subjectsOf (claims : List Claim) : Finset String := (claims.map Claim.subject).toFinset

/-- The first claim on a subject wins. -/
def bySubject (claims : List Claim) (subject : String) : Option Claim := claims.find? (·.subject = subject)

def PilotCheckpoint.claims (cp : PilotCheckpoint) : List Claim := cp.currentHypotheses ++ cp.intendedNextActions

def PilotCheckpoint.subjects (cp : PilotCheckpoint) : Finset String := subjectsOf cp.claims

def Scope.isEmpty (scope : Scope) : Bool := scope.includes = ∅ && scope.excludes = ∅

def scopeCitation (side : Side) (checkpoint field item : String) : CitedClaim :=
  ⟨side, checkpoint, none, field, item, []⟩

def citation (side : Side) (checkpoint : String) (claim : Claim) : CitedClaim :=
  ⟨side, checkpoint, some claim.id, claim.subject, claim.statement, claim.evidence⟩

def scopeCites (a b : PilotCheckpoint) (field : String) (left right : Finset String) : List CitedClaim :=
  (left \ right).sort.map (scopeCitation .a a.id field) ++ (right \ left).sort.map (scopeCitation .b b.id field)

def scopeCited (a b : PilotCheckpoint) : List CitedClaim :=
  scopeCites a b "scope.includes" a.scope.includes b.scope.includes ++
    scopeCites a b "scope.excludes" a.scope.excludes b.scope.excludes

def compareScope (a b : PilotCheckpoint) : List Fired :=
  if a.scope.isEmpty || b.scope.isEmpty then []
  else if scopeCited a b = [] then [(.scopeAgreement, [])]
  else [(.scopeChange, scopeCited a b)]

def compareSubject (a b : PilotCheckpoint) (kind : ClaimKind) (contradiction : DriftClass) (subject : String) :
    Option Fired := do
  let ca ← bySubject (kind.of a) subject
  let cb ← bySubject (kind.of b) subject
  return (if ca.stance = cb.stance then .subjectAgreement else contradiction,
    [citation .a a.id ca, citation .b b.id cb])

def compareClaims (a b : PilotCheckpoint) (kind : ClaimKind) (contradiction : DriftClass) : List Fired :=
  (subjectsOf (kind.of a)).sort.filterMap (compareSubject a b kind contradiction)

def missingOn (subject : String) (side : Side) (cp other : PilotCheckpoint) : List Fired :=
  (cp.claims.filter fun claim => claim.subject = subject && claim.evidence.isEmpty).map fun claim =>
    (.missingEvidence, citation side cp.id claim ::
      ((bySubject other.claims subject).map (citation side.other other.id)).toList)

def missingEvidence (a b : PilotCheckpoint) : List Fired :=
  (a.subjects ∩ b.subjects).sort.flatMap fun subject => missingOn subject .a a b ++ missingOn subject .b b a

def compared (a b : PilotCheckpoint) : List Fired :=
  compareScope a b ++ compareClaims a b .hypothesis .contradictoryHypothesis ++
    compareClaims a b .intent .contradictoryIntent ++ missingEvidence a b

section Reports

variable (digest : Seed → Vector Char 16) (now : Int)

def deriveId (ids : CheckpointPairIds) (fired : Fired) : List Char :=
  "drift-".toList ++ fired.1.asStr.toList.map (fun c => if c = '_' then '-' else c) ++
    '-' :: (digest (seedOf ids fired)).toList

def finding (ids : CheckpointPairIds) (fired : Fired) : DriftFinding where
  id := deriveId digest ids fired
  ids := ids
  class_ := fired.1
  citedClaims := fired.2
  evidenceRefs := (fired.2.flatMap CitedClaim.evidence).toFinset
  verdict := fired.1.verdict
  createdAt := now

def report (missionId : Option String) (ids : CheckpointPairIds) (fired : List Fired) : DriftReport where
  missionId := missionId
  ids := ids
  findings := fired.map (finding digest now ids)
  verdict := rollUp (fired.map (finding digest now ids))
  createdAt := now

def compare (a b : Option PilotCheckpoint) : DriftReport :=
  let ids := (a.map PilotCheckpoint.id, b.map PilotCheckpoint.id)
  match a, b with
  | some a, some b =>
    if a.missionId ≠ b.missionId then report digest now none ids [(.missionMismatch, [])]
    else
      let findings := compared a b
      report digest now (some a.missionId) ids (if findings = [] then [(.noComparableClaim, [])] else findings)
  | _, _ => report digest now none ids [(.missingCheckpoint, [])]

end Reports

section Swaps

structure Essence where
  ids : CheckpointPairIds
  class_ : DriftClass
  cites : Multiset CitedClaim
  evidenceRefs : Finset EvidenceRef
  verdict : Verdict
  createdAt : Int

def DriftFinding.essence (f : DriftFinding) : Essence :=
  ⟨f.ids, f.class_, f.citedClaims, f.evidenceRefs, f.verdict, f.createdAt⟩

def CitedClaim.swap (cite : CitedClaim) : CitedClaim := { cite with side := cite.side.other }

def DriftFinding.swap (f : DriftFinding) : DriftFinding :=
  { f with ids := f.ids.swap, citedClaims := f.citedClaims.map CitedClaim.swap }

def outline (fired : Fired) : DriftClass × Multiset CitedClaim := (fired.1, fired.2)

def swapped (fired : Fired) : Fired := (fired.1, fired.2.map CitedClaim.swap)

variable {a b : PilotCheckpoint} {digest : Seed → Vector Char 16} {now : Int} {ids : CheckpointPairIds}

theorem essence_finding (fired : Fired) : (finding digest now ids fired).essence =
    ⟨ids, fired.1, fired.2, ((fired.2 : Multiset CitedClaim).bind fun cite => ↑cite.evidence).toFinset,
      fired.1.verdict, now⟩ := by
  rw [Multiset.coe_bind]
  rfl

theorem essence_swap (fired : Fired) : (finding digest now ids.swap fired).swap.essence =
    (finding digest now ids (swapped fired)).essence := by
  have hevidence : (fired.2.map CitedClaim.swap).flatMap CitedClaim.evidence = fired.2.flatMap CitedClaim.evidence := by
    rw [List.flatMap_map]
    rfl
  simp only [DriftFinding.essence, DriftFinding.swap, finding, swapped, Prod.swap_swap, hevidence]

theorem essences_perm {l l' : List Fired} (h : (l'.map (outline ∘ swapped)).Perm (l.map outline)) :
    ((l'.map (finding digest now ids.swap)).map fun f => f.swap.essence).Perm
      ((l.map (finding digest now ids)).map DriftFinding.essence) := by
  have hfactor (l : List Fired) : (l.map fun fired => (finding digest now ids fired).essence) =
      (l.map outline).map fun o =>
        ⟨ids, o.1, o.2, (o.2.bind fun cite => ↑cite.evidence).toFinset, o.1.verdict, now⟩ := by
    rw [List.map_map]
    exact List.map_congr_left fun fired _ => essence_finding fired
  have hswap : (l'.map fun fired => (finding digest now ids.swap fired).swap.essence) =
      (l'.map swapped).map fun fired => (finding digest now ids fired).essence := by
    rw [List.map_map]
    exact List.map_congr_left fun fired _ => essence_swap fired
  rw [← List.map_map] at h
  rw [List.map_map, List.map_map]
  exact (List.Perm.of_eq (hswap.trans (hfactor _))).trans ((h.map _).trans (.of_eq (hfactor l).symm))

theorem scopeCites_swap (field : String) (left right : Finset String) :
    ((scopeCites b a field right left).map CitedClaim.swap).Perm (scopeCites a b field left right) := by
  rw [scopeCites, scopeCites, List.map_append, List.map_map, List.map_map]
  exact List.perm_append_comm

theorem compareScope_swap :
    ((compareScope b a).map (outline ∘ swapped)).Perm ((compareScope a b).map outline) := by
  have hperm : ((scopeCited b a).map CitedClaim.swap).Perm (scopeCited a b) := by
    rw [scopeCited, List.map_append]
    exact (scopeCites_swap _ _ _).append (scopeCites_swap _ _ _)
  have hnil : scopeCited b a = [] ↔ scopeCited a b = [] := by
    rw [← List.length_eq_zero_iff, ← List.length_eq_zero_iff, ← hperm.length_eq, List.length_map]
  rw [compareScope, compareScope, Bool.or_comm]
  simp only [hnil]
  split_ifs
  · exact .refl _
  · exact .refl _
  · exact .of_eq (congrArg (fun cites => [(DriftClass.scopeChange, cites)]) (Multiset.coe_eq_coe.mpr hperm))

theorem compareSubject_swap (kind : ClaimKind) (contradiction : DriftClass) (subject : String) :
    (compareSubject b a kind contradiction subject).map (outline ∘ swapped) =
      (compareSubject a b kind contradiction subject).map outline := by
  rw [compareSubject, compareSubject]
  cases bySubject (kind.of a) subject with
  | none => cases bySubject (kind.of b) subject <;> rfl
  | some ca =>
    cases bySubject (kind.of b) subject with
    | none => rfl
    | some cb =>
      have hcites : (([citation .a b.id cb, citation .b a.id ca].map CitedClaim.swap : List CitedClaim) :
          Multiset CitedClaim) = [citation .a a.id ca, citation .b b.id cb] := Multiset.coe_eq_coe.mpr (.swap _ _ _)
      have hstance : cb.stance = ca.stance ↔ ca.stance = cb.stance := eq_comm
      exact congrArg some (Prod.ext (if_congr hstance rfl rfl) hcites)

theorem filterMap_perm {α β : Type} {f : α → Option β} {l l' : List α} (hl : l.Nodup) (hl' : l'.Nodup)
    (h : ∀ x y, f x = some y → (x ∈ l ↔ x ∈ l')) : (l.filterMap f).Perm (l'.filterMap f) := by
  have hfilter (l : List α) : l.filterMap f = (l.filter fun x => (f x).isSome).filterMap f := by
    rw [List.filterMap_filter]
    refine List.filterMap_congr fun x _ => ?_
    cases f x <;> rfl
  rw [hfilter l, hfilter l']
  refine ((List.perm_ext_iff_of_nodup (hl.filter _) (hl'.filter _)).mpr fun x => ?_).filterMap f
  rw [List.mem_filter, List.mem_filter]
  refine and_congr_left fun hsome => ?_
  obtain ⟨y, hy⟩ := Option.isSome_iff_exists.mp hsome
  exact h x y hy

theorem bySubject_some {claims : List Claim} {subject : String} {claim : Claim}
    (h : bySubject claims subject = some claim) : claim.subject = subject ∧ subject ∈ subjectsOf claims := by
  have hsubject : claim.subject = subject := 
    of_decide_eq_true (List.find?_some (p := fun claim : Claim => decide (claim.subject = subject)) h)
  exact ⟨hsubject, List.mem_toFinset.mpr (List.mem_map.mpr ⟨claim, List.mem_of_find?_eq_some h, hsubject⟩)⟩

theorem compareSubject_some {kind : ClaimKind} {contradiction : DriftClass} {subject : String} {fired : Fired}
    (h : compareSubject a b kind contradiction subject = some fired) :
    ∃ ca cb, bySubject (kind.of a) subject = some ca ∧ bySubject (kind.of b) subject = some cb ∧
      fired = (if ca.stance = cb.stance then .subjectAgreement else contradiction,
        [citation .a a.id ca, citation .b b.id cb]) := by
  obtain ⟨ca, ha, h⟩ := Option.bind_eq_some_iff.mp h
  obtain ⟨cb, hb, h⟩ := Option.bind_eq_some_iff.mp h
  exact ⟨ca, cb, ha, hb, (Option.some_inj.mp h).symm⟩

theorem compareClaims_swap (kind : ClaimKind) (contradiction : DriftClass) :
    ((compareClaims b a kind contradiction).map (outline ∘ swapped)).Perm
      ((compareClaims a b kind contradiction).map outline) := by
  simp only [compareClaims, List.map_filterMap, compareSubject_swap]
  refine filterMap_perm (Finset.sort_nodup _ _) (Finset.sort_nodup _ _) fun subject _ h => ?_
  obtain ⟨fired, hfired, -⟩ := Option.map_eq_some_iff.mp h
  obtain ⟨ca, cb, ha, hb, -⟩ := compareSubject_some hfired
  rw [Finset.mem_sort, Finset.mem_sort]
  exact iff_of_true (bySubject_some hb).2 (bySubject_some ha).2

theorem missingOn_swap (subject : String) (side : Side) :
    (missingOn subject side a b).map swapped = missingOn subject side.other a b := by
  rw [missingOn, missingOn, List.map_map]
  refine List.map_congr_left fun claim _ => ?_
  cases bySubject b.claims subject <;> rfl

theorem compared_swap : ((compared b a).map (outline ∘ swapped)).Perm ((compared a b).map outline) := by
  rw [compared, compared]
  simp only [List.map_append]
  refine ((compareScope_swap.append (compareClaims_swap _ _)).append (compareClaims_swap _ _)).append ?_
  rw [missingEvidence, missingEvidence, Finset.inter_comm]
  simp only [List.map_flatMap, List.map_append]
  refine List.Perm.flatMap_left _ fun subject _ => ?_
  rw [← List.map_map, ← List.map_map, missingOn_swap, missingOn_swap]
  exact List.perm_append_comm

end Swaps

section Agreement

variable {a b : PilotCheckpoint} {digest : Seed → Vector Char 16} {now : Int} {ids : CheckpointPairIds}

theorem mem_compareClaims {kind : ClaimKind} {contradiction : DriftClass} {subject : String} {ca cb : Claim}
    (ha : bySubject (kind.of a) subject = some ca) (hb : bySubject (kind.of b) subject = some cb) :
    (if ca.stance = cb.stance then .subjectAgreement else contradiction,
      [citation .a a.id ca, citation .b b.id cb]) ∈ compareClaims a b kind contradiction := by
  refine List.mem_filterMap.mpr ⟨subject, (Finset.mem_sort _).mpr (bySubject_some ha).2, ?_⟩
  rw [compareSubject, ha, hb]
  rfl

theorem verdict_missing {fired : Fired} (h : fired ∈ missingEvidence a b) : fired.1 = .missingEvidence := by
  obtain ⟨subject, -, h⟩ := List.mem_flatMap.mp h
  obtain h | h := List.mem_append.mp h <;>
    obtain ⟨claim, -, rfl⟩ := List.mem_map.mp h <;> rfl

/-- What an agreement vouches for. -/
structure Agreed (a b : PilotCheckpoint) : Prop where
  compared : (a.scope.isEmpty = false ∧ b.scope.isEmpty = false) ∨ ∃ kind subject,
    subject ∈ subjectsOf (ClaimKind.of kind a) ∧ subject ∈ subjectsOf (ClaimKind.of kind b)
  scopes : a.scope.isEmpty = false → b.scope.isEmpty = false → a.scope = b.scope
  stances : ∀ kind subject ca cb, bySubject (ClaimKind.of kind a) subject = some ca →
    bySubject (ClaimKind.of kind b) subject = some cb → ca.stance = cb.stance
  evidence : ∀ subject ∈ a.subjects ∩ b.subjects, ∀ claim ∈ a.claims ++ b.claims, claim.subject = subject →
    claim.evidence ≠ []

theorem scopeCited_eq_nil (h : scopeCited a b = []) : a.scope = b.scope := by
  have hnil (s : Finset String) (h : s.sort = []) : s = ∅ := by
    rw [← Finset.sort_toFinset (s := s) (· ≤ ·), h]
    rfl
  simp only [scopeCited, scopeCites, List.append_eq_nil_iff, List.map_eq_nil_iff] at h
  obtain ⟨⟨hab, hba⟩, hab', hba'⟩ := h
  have hincludes := (Finset.sdiff_eq_empty_iff_subset.mp (hnil _ hab)).antisymm
    (Finset.sdiff_eq_empty_iff_subset.mp (hnil _ hba))
  have hexcludes := (Finset.sdiff_eq_empty_iff_subset.mp (hnil _ hab')).antisymm
    (Finset.sdiff_eq_empty_iff_subset.mp (hnil _ hba'))
  cases ha : a.scope
  cases hb : b.scope
  rw [ha, hb] at hincludes hexcludes
  exact congrArg₂ Scope.mk hincludes hexcludes

theorem mem_missingEvidence {subject : String} (hsubject : subject ∈ a.subjects ∩ b.subjects) {claim : Claim}
    (hclaim : claim ∈ a.claims ++ b.claims) (hsame : claim.subject = subject) (hempty : claim.evidence = []) :
    missingEvidence a b ≠ [] := by
  have hon {side : Side} {cp other : PilotCheckpoint} (hclaim : claim ∈ cp.claims) :
      missingOn subject side cp other ≠ [] := by
    refine List.map_eq_nil_iff.not.mpr (List.ne_nil_of_mem (List.mem_filter.mpr ⟨hclaim, ?_⟩))
    simp [hsame, hempty]
  intro hnil
  have hnone := List.append_eq_nil_iff.mp
    (List.flatMap_eq_nil_iff.mp hnil subject ((Finset.mem_sort _).mpr hsubject))
  obtain hclaim | hclaim := List.mem_append.mp hclaim
  · exact hon hclaim hnone.1
  · exact hon hclaim hnone.2

theorem agreed_of_agree (hsome : compared a b ≠ []) (hall : ∀ fired ∈ compared a b, fired.1.verdict = .agree) :
    Agreed a b := by
  simp only [compared, List.mem_append, or_imp, forall_and] at hall
  obtain ⟨⟨⟨hscope, hhypotheses⟩, hintents⟩, hmissing⟩ := hall
  have hnone : missingEvidence a b = [] := by
    refine List.eq_nil_iff_forall_not_mem.mpr fun fired h => ?_
    have hagree := hmissing fired h
    rw [verdict_missing h] at hagree
    cases hagree
  have hclaims {kind : ClaimKind} {contradiction : DriftClass} {fired : Fired}
      (h : fired ∈ compareClaims a b kind contradiction) :
      ∃ kind subject, subject ∈ subjectsOf (ClaimKind.of kind a) ∧ subject ∈ subjectsOf (ClaimKind.of kind b) := by
    obtain ⟨subject, hsubject, h⟩ := List.mem_filterMap.mp h
    obtain ⟨ca, cb, ha, hb, -⟩ := compareSubject_some h
    exact ⟨kind, subject, (bySubject_some ha).2, (bySubject_some hb).2⟩
  exact {
    compared := by
      obtain ⟨fired, hfired⟩ := List.exists_mem_of_ne_nil _ hsome
      rw [compared, hnone, List.append_nil, List.mem_append, List.mem_append] at hfired
      obtain (hfired | hfired) | hfired := hfired
      · rw [compareScope] at hfired
        split_ifs at hfired with hempty
        · cases hfired
        all_goals exact .inl (by simpa using hempty)
      · exact .inr (hclaims hfired)
      · exact .inr (hclaims hfired)
    scopes := fun ha hb => by
      by_contra hne
      have hchange : compareScope a b = [(.scopeChange, scopeCited a b)] := by
        rw [compareScope, if_neg (by simp [ha, hb]), if_neg fun hnil => hne (scopeCited_eq_nil hnil)]
      have hagree := hscope _ (hchange ▸ List.mem_cons_self)
      cases hagree
    stances := fun kind subject ca cb ha hb => by
      by_contra hne
      cases kind with
      | hypothesis =>
        have hagree := hhypotheses _ (mem_compareClaims ha hb)
        rw [if_neg hne] at hagree
        cases hagree
      | intent =>
        have hagree := hintents _ (mem_compareClaims ha hb)
        rw [if_neg hne] at hagree
        cases hagree
    evidence := fun subject hsubject claim hclaim hsame hempty =>
      mem_missingEvidence hsubject hclaim hsame hempty hnone }

end Agreement

section Ids

variable {a b : PilotCheckpoint} {digest : Seed → Vector Char 16} {now : Int} {ids : CheckpointPairIds}

/-- The digest tells the findings of a report apart where their seeds do. -/
def Apart (digest : Seed → Vector Char 16) (ids : CheckpointPairIds) (fired : List Fired) : Prop :=
  ∀ f ∈ fired, ∀ g ∈ fired, digest (seedOf ids f) = digest (seedOf ids g) → seedOf ids f = seedOf ids g

def Silent (subject : String) (claim : Claim) : Bool := claim.subject = subject && claim.evidence.isEmpty

/-- No two silent claims of one side share their subject and their id, and no subject is agreed on twice with
the same claim ids. -/
structure Unclashing (a b : PilotCheckpoint) : Prop where
  silent : ∀ subject ∈ a.subjects ∩ b.subjects, ∀ cp ∈ [a, b], ((cp.claims.filter (Silent subject)).map Claim.id).Nodup
  agreed : ∀ subject ca cb ca' cb', bySubject a.currentHypotheses subject = some ca →
    bySubject b.currentHypotheses subject = some cb → bySubject a.intendedNextActions subject = some ca' →
    bySubject b.intendedNextActions subject = some cb' → ca.stance = cb.stance → ca'.stance = cb'.stance →
    ¬ (ca.id = ca'.id ∧ cb.id = cb'.id)

def key (fired : Fired) : DriftClass × List (Side × String × Option String) :=
  (fired.1, fired.2.map fun cite => (cite.side, cite.subject, cite.claim))

theorem asStr_inj {c d : DriftClass} (h : c.asStr = d.asStr) : c = d := by
  cases c <;> cases d <;> first | rfl | exact absurd h (by decide)

theorem seedOf_inj {f g : Fired} : seedOf ids f = seedOf ids g ↔ key f = key g := by
  simp only [seedOf, key, Seed.mk.injEq, Prod.mk.injEq, true_and]
  exact and_congr_left fun _ => ⟨asStr_inj, congrArg _⟩

theorem deriveId_eq (ids : CheckpointPairIds) (fired : Fired) : deriveId digest ids fired =
    "drift-".toList ++ fired.1.asStr.toList.map (fun c => if c = '_' then '-' else c) ++
      '-' :: (digest (seedOf ids fired)).toList := rfl

theorem deriveId_inj {fired : List Fired} (h : Apart digest ids fired) {f g : Fired} (hf : f ∈ fired) (hg : g ∈ fired) :
    deriveId digest ids f = deriveId digest ids g ↔ key f = key g := by
  constructor
  · intro heq
    rw [deriveId_eq, deriveId_eq] at heq
    have hdigest := (List.append_inj' heq (by simp)).2
    exact seedOf_inj.mp (h f hf g hg (Vector.toList_inj.mp (List.cons.inj hdigest).2))
  · intro hkey
    obtain ⟨hclass, -⟩ := Prod.mk.inj hkey
    have hseed : seedOf ids f = seedOf ids g := seedOf_inj.mpr hkey
    rw [deriveId_eq, deriveId_eq, hseed, hclass]

theorem nodup_map_congr {α β γ : Type} {f : α → β} {g : α → γ} {l : List α}
    (h : ∀ x ∈ l, ∀ y ∈ l, f x = f y ↔ g x = g y) : (l.map f).Nodup ↔ (l.map g).Nodup := by
  rw [List.Nodup, List.Nodup, List.pairwise_map, List.pairwise_map]
  exact ⟨fun hf => hf.imp_of_mem fun hx hy hne => mt (h _ hx _ hy).mpr hne,
    fun hg => hg.imp_of_mem fun hx hy hne => mt (h _ hx _ hy).mp hne⟩

theorem key_compareSubject {kind : ClaimKind} {contradiction : DriftClass} {subject : String} {fired : Fired}
    (h : compareSubject a b kind contradiction subject = some fired) :
    ∃ ca cb, bySubject (kind.of a) subject = some ca ∧ bySubject (kind.of b) subject = some cb ∧
      key fired = (if ca.stance = cb.stance then .subjectAgreement else contradiction,
        [(.a, subject, some ca.id), (.b, subject, some cb.id)]) := by
  obtain ⟨ca, cb, ha, hb, rfl⟩ := compareSubject_some h
  refine ⟨ca, cb, ha, hb, ?_⟩
  simp only [key, List.map_cons, List.map_nil, citation, (bySubject_some ha).1, (bySubject_some hb).1]

theorem mem_key_claims {kind : ClaimKind} {contradiction : DriftClass}
    {o : DriftClass × List (Side × String × Option String)} :
    o ∈ (compareClaims a b kind contradiction).map key ↔ ∃ subject ca cb, bySubject (kind.of a) subject = some ca ∧
      bySubject (kind.of b) subject = some cb ∧
      o = (if ca.stance = cb.stance then .subjectAgreement else contradiction,
        [(.a, subject, some ca.id), (.b, subject, some cb.id)]) := by
  constructor
  · intro h
    obtain ⟨fired, hfired, rfl⟩ := List.mem_map.mp h
    obtain ⟨subject, -, hfired⟩ := List.mem_filterMap.mp hfired
    exact ⟨subject, key_compareSubject hfired⟩
  · rintro ⟨subject, ca, cb, ha, hb, rfl⟩
    refine List.mem_map.mpr ⟨_, mem_compareClaims ha hb, ?_⟩
    simp only [key, List.map_cons, List.map_nil, citation, (bySubject_some ha).1, (bySubject_some hb).1]

theorem nodup_claims (kind : ClaimKind) (contradiction : DriftClass) :
    ((compareClaims a b kind contradiction).map key).Nodup := by
  rw [compareClaims, List.map_filterMap]
  refine (Finset.sort_nodup _ _).filterMap fun subject subject' o h h' => ?_
  obtain ⟨fired, hfired, rfl⟩ := Option.map_eq_some_iff.mp h
  obtain ⟨fired', hfired', hkey⟩ := Option.map_eq_some_iff.mp h'
  obtain ⟨ca, cb, -, -, heq⟩ := key_compareSubject hfired
  obtain ⟨ca', cb', -, -, heq'⟩ := key_compareSubject hfired'
  rw [heq, heq'] at hkey
  simp only [Prod.mk.injEq, List.cons.injEq] at hkey
  exact hkey.2.1.2.1.symm

theorem mem_key_missing {subject : String} {side : Side} {cp other : PilotCheckpoint}
    {o : DriftClass × List (Side × String × Option String)} (h : o ∈ (missingOn subject side cp other).map key) :
    ∃ id rest, o = (.missingEvidence, (side, subject, id) :: rest) := by
  obtain ⟨fired, hfired, rfl⟩ := List.mem_map.mp h
  obtain ⟨claim, hclaim, rfl⟩ := List.mem_map.mp hfired
  obtain ⟨-, hsilent⟩ := List.mem_filter.mp hclaim
  rw [Bool.and_eq_true, decide_eq_true_eq] at hsilent
  exact ⟨some claim.id, _, by rw [← hsilent.1]; rfl⟩

theorem nodup_missingOn {subject : String} {side : Side} {cp other : PilotCheckpoint} :
    ((missingOn subject side cp other).map key).Nodup ↔ ((cp.claims.filter (Silent subject)).map Claim.id).Nodup := by
  rw [missingOn, List.map_map]
  refine nodup_map_congr fun claim hclaim claim' hclaim' => ?_
  have hsubject {claim : Claim} (h : claim ∈ cp.claims.filter (Silent subject)) : claim.subject = subject :=
    of_decide_eq_true (Bool.and_eq_true_iff.mp (List.mem_filter.mp h).2).1
  simp [key, citation, hsubject hclaim, hsubject hclaim']

theorem nodup_missing : ((missingEvidence a b).map key).Nodup ↔
    ∀ subject ∈ a.subjects ∩ b.subjects, ∀ cp ∈ [a, b], ((cp.claims.filter (Silent subject)).map Claim.id).Nodup := by
  rw [missingEvidence, List.map_flatMap, List.nodup_flatMap]
  have hapart : (a.subjects ∩ b.subjects).sort.Pairwise (Function.onFun List.Disjoint fun subject =>
      (missingOn subject .a a b ++ missingOn subject .b b a).map key) := by
    refine (Finset.sort_nodup _ _).imp fun {subject subject'} hne o ho ho' => hne ?_
    have hsubject {subject : String} (ho : o ∈ (missingOn subject .a a b ++ missingOn subject .b b a).map key) :
        ∃ cite ∈ o.2.head?, cite.2.1 = subject := by
      rw [List.map_append] at ho
      obtain ho | ho := List.mem_append.mp ho <;>
        obtain ⟨id, rest, rfl⟩ := mem_key_missing ho <;> exact ⟨_, rfl, rfl⟩
    obtain ⟨cite, hcite, rfl⟩ := hsubject ho
    obtain ⟨cite', hcite', rfl⟩ := hsubject ho'
    cases hcite.symm.trans hcite'
    rfl
  rw [and_iff_left hapart]
  simp only [Finset.mem_sort, List.map_append, List.nodup_append', nodup_missingOn, List.forall_mem_cons]
  refine forall₂_congr fun subject _ => and_congr_right fun _ => and_congr_right' ?_
  refine iff_of_true (fun o ho ho' => ?_) (List.forall_mem_nil _)
  obtain ⟨id, rest, rfl⟩ := mem_key_missing ho
  obtain ⟨id', rest', heq⟩ := mem_key_missing ho'
  cases heq

theorem disjoint_of_class {l l' : List (DriftClass × List (Side × String × Option String))} {cs ds : List DriftClass}
    (h : ∀ o ∈ l, o.1 ∈ cs) (h' : ∀ o ∈ l', o.1 ∈ ds) (hnone : ∀ c ∈ cs, c ∉ ds) : l.Disjoint l' :=
  fun o ho ho' => hnone o.1 (h o ho) (h' o ho')

theorem disjoint_claims : ((compareClaims a b .hypothesis .contradictoryHypothesis).map key).Disjoint
      ((compareClaims a b .intent .contradictoryIntent).map key) ↔
    ∀ subject ca cb ca' cb', bySubject a.currentHypotheses subject = some ca →
      bySubject b.currentHypotheses subject = some cb → bySubject a.intendedNextActions subject = some ca' →
      bySubject b.intendedNextActions subject = some cb' → ca.stance = cb.stance → ca'.stance = cb'.stance →
      ¬ (ca.id = ca'.id ∧ cb.id = cb'.id) := by
  constructor
  · rintro h subject ca cb ca' cb' ha hb ha' hb' hstance hstance' ⟨hid, hid'⟩
    refine h (mem_key_claims.mpr ⟨subject, ca, cb, ha, hb, rfl⟩) (mem_key_claims.mpr ⟨subject, ca', cb', ha', hb', ?_⟩)
    rw [if_pos hstance, if_pos hstance', hid, hid']
  · intro h o ho ho'
    obtain ⟨subject, ca, cb, ha, hb, rfl⟩ := mem_key_claims.mp ho
    obtain ⟨subject', ca', cb', ha', hb', heq⟩ := mem_key_claims.mp ho'
    simp only [Prod.mk.injEq, List.cons.injEq, Option.some_inj, true_and, and_true] at heq
    obtain ⟨hclass, ⟨rfl, hid⟩, hid'⟩ := heq
    split_ifs at hclass with hstance hstance'
    cases hclass
    exact h subject ca cb ca' cb' ha hb ha' hb' hstance hstance' ⟨hid, hid'.2⟩

/-- The passes differ in their classes, but for the subjects that hypotheses and intents agree on. -/
theorem nodup_compared : ((compared a b).map key).Nodup ↔ Unclashing a b := by
  have hscope : ∀ o ∈ (compareScope a b).map key, o.1 ∈ [DriftClass.scopeAgreement, .scopeChange] := by
    rw [compareScope]
    split_ifs <;> simp [key]
  have hclaims {kind : ClaimKind} {contradiction : DriftClass} :
      ∀ o ∈ (compareClaims a b kind contradiction).map key, o.1 ∈ [.subjectAgreement, contradiction] := by
    intro o ho
    obtain ⟨subject, ca, cb, -, -, rfl⟩ := mem_key_claims.mp ho
    dsimp only
    split_ifs <;> simp
  have hmissing : ∀ o ∈ (missingEvidence a b).map key, o.1 ∈ [DriftClass.missingEvidence] := by
    intro o ho
    obtain ⟨fired, hfired, rfl⟩ := List.mem_map.mp ho
    exact List.mem_singleton.mpr (verdict_missing hfired)
  have hone : ((compareScope a b).map key).Nodup := by
    rw [compareScope]
    split_ifs <;> simp
  simp only [compared, List.map_append, List.nodup_append', List.disjoint_append_left]
  rw [nodup_missing, disjoint_claims]
  constructor
  · rintro ⟨⟨-, -, -, hagreed⟩, hsilent, -⟩
    exact ⟨hsilent, hagreed⟩
  · rintro ⟨hsilent, hagreed⟩
    have hhypotheses := nodup_claims (a := a) (b := b) .hypothesis .contradictoryHypothesis
    have hintents := nodup_claims (a := a) (b := b) .intent .contradictoryIntent
    exact ⟨⟨⟨hone, hhypotheses, disjoint_of_class hscope hclaims (by decide)⟩, hintents,
      disjoint_of_class hscope hclaims (by decide), hagreed⟩, hsilent,
      ⟨disjoint_of_class hscope hmissing (by decide), disjoint_of_class hclaims hmissing (by decide)⟩,
      disjoint_of_class hclaims hmissing (by decide)⟩

/-- The same verdict and the same findings, with the sides exchanged. -/
structure Symmetric (digest : Seed → Vector Char 16) (now : Int) (a b : PilotCheckpoint) : Prop where
  verdict : (compare digest now (some b) (some a)).verdict = (compare digest now (some a) (some b)).verdict
  findings : ((compare digest now (some b) (some a)).findings.map fun f => f.swap.essence).Perm
    ((compare digest now (some a) (some b)).findings.map DriftFinding.essence)

def listed (a b : PilotCheckpoint) : List Fired :=
  if compared a b = [] then [(.noComparableClaim, [])] else compared a b

theorem compare_eq (h : a.missionId = b.missionId) : compare digest now (some a) (some b) =
    report digest now (some a.missionId) (some a.id, some b.id) (listed a b) := if_neg (not_not.mpr h)

theorem rollUp_congr {findings findings' : List DriftFinding}
    (h : (findings.map DriftFinding.verdict).Perm (findings'.map DriftFinding.verdict)) :
    rollUp findings = rollUp findings' := by
  have hany (v : Verdict) : findings.any (·.verdict = v) = findings'.any (·.verdict = v) := by
    have hperm := h.any_eq (f := (· = v))
    rw [List.any_map, List.any_map] at hperm
    exact hperm
  rw [rollUp, rollUp, hany, hany, hany]

theorem rollUp_agree {findings : List DriftFinding} (h : rollUp findings = .agree) :
    ∀ f ∈ findings, f.verdict = .agree := by
  intro f hf
  have hany {v : Verdict} (hv : f.verdict = v) : findings.any (·.verdict = v) = true :=
    List.any_eq_true.mpr ⟨f, hf, decide_eq_true hv⟩
  rw [rollUp] at h
  cases hv : f.verdict with
  | agree => rfl
  | finding =>
    rw [if_pos (hany hv)] at h
    cases h
  | inconclusive =>
    rw [if_pos (hany hv)] at h
    split_ifs at h

theorem symmetric_of_mission (h : a.missionId = b.missionId) : Symmetric digest now a b := by
  have hlisted : ((listed b a).map (outline ∘ swapped)).Perm ((listed a b).map outline) := by
    have hperm := @compared_swap a b
    have hnil : compared b a = [] ↔ compared a b = [] := by
      rw [← List.length_eq_zero_iff, ← List.length_eq_zero_iff, ← List.length_map (f := outline ∘ swapped),
        hperm.length_eq, List.length_map]
    simp only [listed, hnil]
    split_ifs
    · exact .refl _
    · exact hperm
  have hessences := @essences_perm digest now (some a.id, some b.id) _ _ hlisted
  have hverdicts := hessences.map Essence.verdict
  rw [List.map_map, List.map_map (f := DriftFinding.essence)] at hverdicts
  constructor
  · rw [compare_eq h.symm, compare_eq h]
    exact rollUp_congr hverdicts
  · rw [compare_eq h.symm, compare_eq h]
    exact hessences

/-- Reports are symmetric and agreements are earned, whatever the claims; and the ids of the findings are distinct
just when no claims clash. -/
theorem compare_sound_iff (digest : Seed → Vector Char 16) (now : Int) (a b : PilotCheckpoint)
    (hmission : a.missionId = b.missionId) (hapart : Apart digest (some a.id, some b.id) (compared a b)) :
    Symmetric digest now a b ∧
    ((compare digest now (some a) (some b)).verdict = .agree → Agreed a b) ∧
    (((compare digest now (some a) (some b)).findings.map DriftFinding.id).Nodup ↔ Unclashing a b) := by
  refine ⟨symmetric_of_mission hmission, fun hagree => ?_, ?_⟩
  · rw [compare_eq hmission] at hagree
    have hall := rollUp_agree hagree
    rw [List.forall_mem_map, listed] at hall
    by_cases hnil : compared a b = []
    · rw [if_pos hnil] at hall
      have hnone := hall _ List.mem_cons_self
      cases hnone
    · rw [if_neg hnil] at hall
      exact agreed_of_agree hnil hall
  · rw [compare_eq hmission, report, List.map_map, ← nodup_compared, listed]
    split_ifs with hnil
    · rw [hnil]
      exact iff_of_true (List.nodup_singleton _) List.nodup_nil
    · exact nodup_map_congr fun f hf g hg => deriveId_inj hapart hf hg

def exampleClaim : Claim := ⟨"c1", "merge", .affirm, "squash", [⟨"log", none⟩]⟩

def exampleCheckpoint (id : String) : PilotCheckpoint := ⟨id, "task-1", ⟨∅, ∅⟩, [exampleClaim], [exampleClaim]⟩

theorem compared_example : compared (exampleCheckpoint "cp-a") (exampleCheckpoint "cp-b") =
    [(.subjectAgreement, [citation .a "cp-a" exampleClaim, citation .b "cp-b" exampleClaim]),
      (.subjectAgreement, [citation .a "cp-a" exampleClaim, citation .b "cp-b" exampleClaim])] := by
  simp [compared, compareScope, compareClaims, compareSubject, missingEvidence, missingOn, bySubject, subjectsOf,
    PilotCheckpoint.subjects, PilotCheckpoint.claims, ClaimKind.of, Scope.isEmpty, exampleCheckpoint, exampleClaim]

theorem apart_example (digest : Seed → Vector Char 16) : Apart digest (some "cp-a", some "cp-b")
    (compared (exampleCheckpoint "cp-a") (exampleCheckpoint "cp-b")) := by
  rw [compared_example]
  intro f hf g hg _
  simp only [List.mem_cons, List.not_mem_nil, or_false, or_self] at hf hg
  rw [hf, hg]

theorem compare_sound_example :
    Symmetric (fun _ => Vector.replicate 16 '0') 0 (exampleCheckpoint "cp-a") (exampleCheckpoint "cp-b") ∧
    ((compare (fun _ => Vector.replicate 16 '0') 0 (some (exampleCheckpoint "cp-a"))
      (some (exampleCheckpoint "cp-b"))).verdict = .agree →
        Agreed (exampleCheckpoint "cp-a") (exampleCheckpoint "cp-b")) ∧
    (((compare (fun _ => Vector.replicate 16 '0') 0 (some (exampleCheckpoint "cp-a"))
      (some (exampleCheckpoint "cp-b"))).findings.map DriftFinding.id).Nodup ↔
      Unclashing (exampleCheckpoint "cp-a") (exampleCheckpoint "cp-b")) :=
  compare_sound_iff _ _ _ _ rfl (apart_example _)

/-- What is agreed on as a hypothesis and as an intent has one id, although the digest collides nowhere. -/
theorem compare_same_id : ¬ ∀ digest now,
    Apart digest (some "cp-a", some "cp-b") (compared (exampleCheckpoint "cp-a") (exampleCheckpoint "cp-b")) →
    ((compare digest now (some (exampleCheckpoint "cp-a")) (some (exampleCheckpoint "cp-b"))).findings.map
      DriftFinding.id).Nodup := by
  intro h
  have hnodup := h (fun _ => Vector.replicate 16 '0') 0 (apart_example _)
  rw [@compare_eq (exampleCheckpoint "cp-a") (exampleCheckpoint "cp-b") _ _ rfl, listed, compared_example] at hnodup
  exact (List.nodup_cons.mp hnodup).1 List.mem_cons_self

end Ids

end Cosmon.Pilot.Drift
