import Cosmon.Core.HarvestAuthorization

namespace Cosmon.Core.SignedTexts

open Cosmon.State.Molecule Cosmon.Core.Formulas Cosmon.Core.PilotLeases Cosmon.Core.HarvestAuthorization
open Cosmon.Lib.Text Cosmon.Lib.Checks

/-- What is promised of the text of an instant: it has its own letters, and tells the instant. -/
structure Encoding.Stamps (enc : Encoding) : Prop where
  chars : ∀ t, ∀ c ∈ (enc.rfc3339 t).toList, isStampChar c = true
  injective : Function.Injective enc.rfc3339

section Fields

variable {text : String}

theorem newline_of_all {p : Char → Bool} (hnewline : p '\n' = false) {chars : List Char}
    (h : ∀ c ∈ chars, p c = true) : '\n' ∉ chars := by
  intro hmem
  rw [h _ hmem] at hnewline
  cases hnewline

theorem newline_of_no_control (h : text.toList.any isControl = false) : '\n' ∉ text.toList := by
  intro hmem
  exact absurd (by decide) (List.any_eq_false.mp h _ hmem)

theorem oneLine_ok {field value found : String} (h : oneLine field value = .ok found) :
    found = value ∧ isBlank value = false ∧ value.toList.any isControl = false := by
  obtain ⟨hblank, h⟩ := guard_ok.mp h
  obtain ⟨hcontrol, h⟩ := guard_ok.mp h
  cases h
  exact ⟨rfl, Bool.eq_false_of_not_eq_true hblank, Bool.eq_false_of_not_eq_true hcontrol⟩

theorem moleculeIdNew_chars {id : MoleculeId} (h : moleculeIdNew text = .ok id) :
    ∀ c ∈ text.toList, (isAsciiAlphanumeric c || c = '-') = true := by
  unfold moleculeIdNew at h
  obtain ⟨_, h⟩ := guard_ok.mp h
  cases hsuffix : splitOnce '-' text.toList.reverse with
  | none =>
    simp only [hsuffix] at h
    cases h
  | some parts =>
    obtain ⟨suffix, rest⟩ := parts
    simp only [hsuffix] at h
    cases hdate : splitOnce '-' rest with
    | none =>
      simp only [hdate] at h
      cases h
    | some parts =>
      obtain ⟨date, front⟩ := parts
      simp only [hdate] at h
      obtain ⟨hfront, h⟩ := guard_ok.mp h
      obtain ⟨hdigits, h⟩ := guard_ok.mp h
      obtain ⟨_, h⟩ := guard_ok.mp h
      obtain ⟨hletters, _⟩ := guard_ok.mp h
      rw [Bool.not_eq_false, isValidMoleculePrefix, Bool.and_eq_true] at hfront
      rw [not_or, Bool.not_eq_false] at hdigits hletters
      have htext := (splitOnce_some hsuffix).1
      rw [(splitOnce_some hdate).1] at htext
      intro c hmem
      rw [← List.mem_reverse, htext, List.mem_append, List.mem_cons, List.mem_append, List.mem_cons] at hmem
      obtain hmem | rfl | hmem | rfl | hmem := hmem
      · rw [List.all_eq_true.mp hletters.2 c hmem]
        rfl
      · rfl
      · rw [isAsciiAlphanumeric, List.all_eq_true.mp hdigits.2 c hmem]
        rfl
      · rfl
      · exact List.all_eq_true.mp hfront.2 c (List.mem_reverse.mpr hmem)

theorem repr_digits (n : Nat) : ∀ c ∈ n.repr.toList, c.isDigit = true := by
  intro c hmem
  rw [Nat.repr, String.toList_ofList] at hmem
  exact isDigit_toDigits hmem

theorem repr_injective {m n : Nat} (h : m.repr = n.repr) : m = n := by
  have hdigits := congrArg (fun s => Nat.ofDigitChars 10 s.toList 0) h
  simpa only [Nat.repr, String.toList_ofList, Nat.ofDigitChars_ten_toDigits] using hdigits

end Fields

section Marked

variable {α : Type} {write : α → String} {p : Char → Bool} {value₁ value₂ : Option α}

theorem marked_newline (hnewline : p '\n' = false)
    (hchars : ∀ a, value₁ = some a → ∀ c ∈ (write a).toList, p c = true) :
    '\n' ∉ ((value₁.map write).getD "none").toList := by
  have hnone : '\n' ∉ "none".toList := by decide
  cases value₁ with
  | none => exact hnone
  | some a => exact newline_of_all hnewline (hchars a rfl)

theorem marked_injective (hn : p 'n' = false)
    (hchars₁ : ∀ a, value₁ = some a → ∀ c ∈ (write a).toList, p c = true)
    (hchars₂ : ∀ a, value₂ = some a → ∀ c ∈ (write a).toList, p c = true)
    (hwrite : ∀ a b, value₁ = some a → value₂ = some b → write a = write b → a = b)
    (h : (value₁.map write).getD "none" = (value₂.map write).getD "none") : value₁ = value₂ := by
  have hnone {a : α} (ha : ∀ c ∈ (write a).toList, p c = true) : write a ≠ "none" := by
    intro hmark
    have hletter := ha 'n' (by rw [hmark]; decide)
    rw [hn] at hletter
    cases hletter
  cases value₁ with
  | none =>
    cases value₂ with
    | none => rfl
    | some b => exact absurd h.symm (hnone (hchars₂ b rfl))
  | some a =>
    cases value₂ with
    | none => exact absurd h (hnone (hchars₁ a rfl))
    | some b => exact congrArg some (hwrite a b rfl rfl h)

end Marked

section Grants

variable {enc : Encoding} {grant : HarvestGrant}

/-- A field of a grant that is neither blank nor more than one line. -/
def OneLine (value : String) : Prop := isBlank value = false ∧ value.toList.any isControl = false

def ScopeIds : HarvestScope → Prop
  | .molecule target => moleculeIdNew target = .ok target
  | .mission root _ => moleculeIdNew root = .ok root

/-- What `validate` accepts. -/
structure Validated (grant : HarvestGrant) : Prop where
  galaxy : OneLine grant.galaxy
  base : OneLine grant.base
  policy : ∀ root policyDigest, grant.scope = .mission root policyDigest → OneLine policyDigest
  reservations : ∀ reservation ∈ grant.reservations, OneLine reservation ∧ ',' ∉ reservation.toList

theorem canonicalReservations_ok {reservations canonical : List String}
    (h : canonicalReservations reservations = .ok canonical) :
    ∀ reservation ∈ reservations, OneLine reservation ∧ ',' ∉ reservation.toList := by
  refine foldlM_ok (P := fun names _ => ∀ reservation ∈ names, OneLine reservation ∧ ',' ∉ reservation.toList)
    (List.forall_mem_nil _) (fun names canonical raw canonical' hnames h => ?_) h
  obtain ⟨value, hline, h⟩ := bind_ok h
  obtain ⟨hcomma, _⟩ := guard_ok.mp h
  obtain ⟨rfl, hblank, hcontrol⟩ := oneLine_ok hline
  exact List.forall_mem_append.mpr ⟨hnames, List.forall_mem_singleton.mpr ⟨⟨hblank, hcontrol⟩, hcomma⟩⟩

theorem validate_ok (h : grant.validate = .ok ()) : Validated grant := by
  obtain ⟨_, hgalaxy, h⟩ := bind_ok h
  obtain ⟨_, hbase, h⟩ := bind_ok h
  have hfields (hpolicy : ∀ root policyDigest, grant.scope = .mission root policyDigest → OneLine policyDigest)
      (hrest : (canonicalReservations grant.reservations >>= fun canonical =>
        if grant.reservations ≠ canonical then .error .reservationsNotCanonical else .ok ()) = .ok ()) :
      Validated grant := by
    obtain ⟨canonical, hcanonical, _⟩ := bind_ok hrest
    exact ⟨(oneLine_ok hgalaxy).2, (oneLine_ok hbase).2, hpolicy, canonicalReservations_ok hcanonical⟩
  cases hscope : grant.scope with
  | molecule target =>
    simp only [hscope] at h
    exact hfields (fun _ _ hmission => by rw [hscope] at hmission; cases hmission) h
  | mission root policyDigest =>
    simp only [hscope] at h
    obtain ⟨_, hpolicy, h⟩ := bind_ok h
    obtain ⟨_, hpolicy, _⟩ := map_ok hpolicy
    refine hfields (fun _ _ hmission => ?_) h
    rw [hscope] at hmission
    cases hmission
    exact (oneLine_ok hpolicy).2

end Grants

section Lines

variable {enc : Encoding} {grant₁ grant₂ : HarvestGrant}

theorem OneLine.newline {value : String} (h : OneLine value) : '\n' ∉ value.toList := newline_of_no_control h.2

theorem id_letters {id : MoleculeId} (h : moleculeIdNew id = .ok id) {c : Char}
    (hc : (isAsciiAlphanumeric c || c = '-') = false) : c ∉ id.toList := by
  intro hmem
  rw [moleculeIdNew_chars h c hmem] at hc
  cases hc

theorem scope_newline {scope : HarvestScope} (hids : ScopeIds scope)
    (hpolicy : ∀ root policyDigest, scope = .mission root policyDigest → OneLine policyDigest) :
    '\n' ∉ scope.toString.toList := by
  cases scope with
  | molecule target =>
    rw [HarvestScope.toString, String.toList_append, List.mem_append, not_or]
    exact ⟨by decide, id_letters hids (by decide)⟩
  | mission root policyDigest =>
    simp only [HarvestScope.toString, String.toList_append, List.mem_append, not_or]
    exact ⟨⟨⟨by decide, id_letters hids (by decide)⟩, by decide⟩, (hpolicy root policyDigest rfl).newline⟩

theorem scope_injective {scope₁ scope₂ : HarvestScope} (h₁ : ScopeIds scope₁) (h₂ : ScopeIds scope₂)
    (h : scope₁.toString = scope₂.toString) : scope₁ = scope₂ := by
  have hchars := congrArg String.toList h
  cases scope₁ with
  | molecule target₁ =>
    cases scope₂ with
    | molecule target₂ =>
      simp only [HarvestScope.toString, String.toList_append, List.append_cancel_left_eq, String.toList_inj]
        at hchars
      rw [hchars]
    | mission root₂ policy₂ =>
      simp only [HarvestScope.toString, String.toList_append, String.reduceToList, List.cons_append] at hchars
      cases hchars
  | mission root₁ policy₁ =>
    cases scope₂ with
    | molecule target₂ =>
      simp only [HarvestScope.toString, String.toList_append, String.reduceToList, List.cons_append] at hchars
      cases hchars
    | mission root₂ policy₂ =>
      have hplus : "+policy:".toList = '+' :: "policy:".toList := by decide
      simp only [HarvestScope.toString, String.toList_append, List.append_assoc, List.append_cancel_left_eq, hplus,
        List.cons_append] at hchars
      obtain ⟨hroot, hpolicy⟩ := append_sep_inj (id_letters h₁ (by decide)) (id_letters h₂ (by decide)) hchars
      rw [List.append_cancel_left_eq, String.toList_inj] at hpolicy
      rw [String.toList_inj.mp hroot, hpolicy]

def reservationLine (reservations : List String) : String :=
  if reservations = [] then "none" else ",".intercalate reservations

theorem not_mem_intercalate {c sep : Char} (hsep : c ≠ sep) {parts : List (List Char)}
    (h : ∀ part ∈ parts, c ∉ part) : c ∉ [sep].intercalate parts := by
  induction parts with
  | nil => exact List.not_mem_nil
  | cons part parts ih =>
    obtain ⟨hpart, hparts⟩ := List.forall_mem_cons.mp h
    cases parts with
    | nil => rwa [List.intercalate_singleton]
    | cons next parts =>
      rw [List.intercalate_cons_cons, List.mem_append, List.mem_append, List.mem_singleton, not_or, not_or]
      exact ⟨⟨hpart, hsep⟩, ih hparts⟩

theorem reservationLine_newline {names : List String} (h : ∀ name ∈ names, OneLine name) :
    '\n' ∉ (reservationLine names).toList := by
  rw [reservationLine]
  split
  · decide
  · rw [String.toList_intercalate]
    refine not_mem_intercalate (by decide) fun part hpart => ?_
    obtain ⟨name, hname, rfl⟩ := List.mem_map.mp hpart
    exact (h name hname).newline

theorem intercalate_injective {names₁ names₂ : List String} (h₁ : ∀ name ∈ names₁, ',' ∉ name.toList)
    (h₂ : ∀ name ∈ names₂, ',' ∉ name.toList) (hne₁ : names₁ ≠ []) (hne₂ : names₂ ≠ [])
    (h : ",".intercalate names₁ = ",".intercalate names₂) : names₁ = names₂ := by
  have hsplit := congrArg (fun text => text.toList.splitOn ',') h
  have hcomma : ",".toList = [','] := rfl
  simp only [String.toList_intercalate, hcomma] at hsplit
  rw [List.splitOn_intercalate _ (List.forall_mem_map.mpr h₁) (mt List.map_eq_nil_iff.mp hne₁),
    List.splitOn_intercalate _ (List.forall_mem_map.mpr h₂) (mt List.map_eq_nil_iff.mp hne₂)] at hsplit
  exact List.map_injective_iff.mpr (fun _ _ => String.toList_injective) hsplit

/-- Two lists of reservations share their line exactly when they are equal, or one is empty
and the other holds the name `none`. -/
theorem reservationLine_inj {names₁ names₂ : List String} (h₁ : ∀ name ∈ names₁, ',' ∉ name.toList)
    (h₂ : ∀ name ∈ names₂, ',' ∉ name.toList) : reservationLine names₁ = reservationLine names₂ ↔
      names₁ = names₂ ∨ (names₁ = [] ∧ names₂ = ["none"]) ∨ (names₁ = ["none"] ∧ names₂ = []) := by
  have hnone {names : List String} (h : ∀ name ∈ names, ',' ∉ name.toList) (hne : names ≠ []) :
      "none" = ",".intercalate names ↔ names = ["none"] := by
    constructor
    · intro hline
      refine (intercalate_injective (by decide) h (List.cons_ne_nil "none" []) hne ?_).symm
      rwa [String.intercalate_singleton]
    · rintro rfl
      exact String.intercalate_singleton.symm
  by_cases hne₁ : names₁ = [] <;> by_cases hne₂ : names₂ = []
  · subst hne₁ hne₂
    exact iff_of_true rfl (Or.inl rfl)
  · rw [reservationLine, reservationLine, if_pos hne₁, if_neg hne₂, hnone h₂ hne₂]
    subst hne₁
    simp [Ne.symm hne₂, hne₂]
  · rw [reservationLine, reservationLine, if_neg hne₁, if_pos hne₂, eq_comm, hnone h₁ hne₁]
    subst hne₂
    simp [hne₁]
  · rw [reservationLine, reservationLine, if_neg hne₁, if_neg hne₂]
    simp only [hne₁, hne₂, false_and, and_false, or_false]
    exact ⟨intercalate_injective h₁ h₂ hne₁ hne₂, congrArg _⟩

theorem line_inj {label a b x y : List Char} (ha : '\n' ∉ a) (hb : '\n' ∉ b)
    (h : label ++ (a ++ '\n' :: x) = label ++ (b ++ '\n' :: y)) : a = b ∧ x = y :=
  append_sep_inj ha hb (List.append_cancel_left h)

def expiryLine (enc : Encoding) (expires : Option Instant) : String := (expires.map enc.rfc3339).getD "none"

theorem expiryLine_newline (henc : Encoding.Stamps enc) (expires : Option Instant) :
    '\n' ∉ (expiryLine enc expires).toList :=
  marked_newline (by decide) fun instant _ => henc.chars instant

theorem expiryLine_injective (henc : Encoding.Stamps enc) : Function.Injective (expiryLine enc) :=
  fun _ _ h => marked_injective (by decide) (fun instant _ => henc.chars instant)
    (fun instant _ => henc.chars instant) (fun _ _ _ _ hsame => henc.injective hsame) h

theorem epoch_newline (n : Nat) : '\n' ∉ n.repr.toList := newline_of_all (by decide) (repr_digits n)

/-- The signed text of a grant tells every field but one: the lists of reservations share
their line. -/
theorem grant_fields (henc : Encoding.Stamps enc) (h₁ : Validated grant₁) (h₂ : Validated grant₂)
    (hids₁ : ScopeIds grant₁.scope) (hids₂ : ScopeIds grant₂.scope) :
    grant₁.toString enc = grant₂.toString enc ↔
      { grant₁ with reservations := [] } = { grant₂ with reservations := [] } ∧
        reservationLine grant₁.reservations = reservationLine grant₂.reservations := by
  have htext (grant : HarvestGrant) : (grant.toString enc).toList = "cosmon-harvest-grant-v1\n".toList ++
      ("galaxy=".toList ++ (grant.galaxy.toList ++ '\n' :: ("scope=".toList ++ (grant.scope.toString.toList ++
      '\n' :: ("base=".toList ++ (grant.base.toList ++ '\n' :: ("action=".toList ++ (grant.action.toString.toList ++
      '\n' :: ("reservations=".toList ++ ((reservationLine grant.reservations).toList ++ '\n' ::
      ("epoch=".toList ++ (grant.epoch.val.repr.toList ++ '\n' :: ("expires=".toList ++
      ((expiryLine enc grant.expires).toList ++ '\n' :: [])))))))))))))) := by
    have hnewline : "\n".toList = ['\n'] := rfl
    unfold HarvestGrant.toString
    simp only [String.toList_append, hnewline, List.append_assoc, List.cons_append, List.nil_append,
      reservationLine, expiryLine]
  have haction : ∀ action : HarvestAction, '\n' ∉ action.toString.toList := by
    rintro ⟨⟩
    decide
  constructor
  · intro h
    have hchars := congrArg String.toList h
    rw [htext, htext, List.append_cancel_left_eq] at hchars
    obtain ⟨hgalaxy, hchars⟩ := line_inj h₁.galaxy.newline h₂.galaxy.newline hchars
    obtain ⟨hscope, hchars⟩ := line_inj (scope_newline hids₁ h₁.policy) (scope_newline hids₂ h₂.policy) hchars
    obtain ⟨hbase, hchars⟩ := line_inj h₁.base.newline h₂.base.newline hchars
    obtain ⟨_, hchars⟩ := line_inj (haction _) (haction _) hchars
    obtain ⟨hreservations, hchars⟩ := line_inj
      (reservationLine_newline fun name hname => (h₁.reservations name hname).1)
      (reservationLine_newline fun name hname => (h₂.reservations name hname).1) hchars
    obtain ⟨hepoch, hchars⟩ := line_inj (epoch_newline _) (epoch_newline _) hchars
    obtain ⟨hexpires, _⟩ := line_inj (expiryLine_newline henc _) (expiryLine_newline henc _) hchars
    refine ⟨?_, String.toList_inj.mp hreservations⟩
    have hepochs : grant₁.epoch = grant₂.epoch := Fin.ext (repr_injective (String.toList_inj.mp hepoch))
    have hactions : grant₁.action = grant₂.action := by
      cases grant₁.action
      cases grant₂.action
      rfl
    rw [String.toList_inj.mp hgalaxy, scope_injective hids₁ hids₂ (String.toList_inj.mp hscope),
      String.toList_inj.mp hbase, hepochs, hactions, expiryLine_injective henc (String.toList_inj.mp hexpires)]
  · rintro ⟨hsame, hline⟩
    have hfields := HarvestGrant.mk.inj hsame
    apply String.toList_inj.mp
    rw [htext, htext, hfields.1, hfields.2.1, hfields.2.2.1, hfields.2.2.2.1, hfields.2.2.2.2.2.1,
      hfields.2.2.2.2.2.2, hline]

end Lines

section Challenges

variable {challenge challenge₁ challenge₂ : GrantChallenge}

/-- What `new` accepts, for a mission with a molecule id. -/
structure Composed (challenge : GrantChallenge) : Prop where
  mission : moleculeIdNew challenge.missionId = .ok challenge.missionId
  grantedBy : challenge.grantedBy.toList.any isControl = false
  ttl : ∀ secs, challenge.ttlSeconds = some secs → 0 ≤ secs

theorem new_ok {missionId : MoleculeId} {holder : SessionId} {epoch : LeaseEpoch} {grantedBy : String}
    {ttlSeconds : Option Int} (hmission : moleculeIdNew missionId = .ok missionId)
    (h : GrantChallenge.new missionId holder epoch grantedBy ttlSeconds = .ok challenge) :
    challenge = ⟨missionId, holder, epoch, grantedBy, ttlSeconds⟩ ∧ Composed challenge := by
  obtain ⟨_, h⟩ := guard_ok.mp h
  obtain ⟨hcontrol, h⟩ := guard_ok.mp h
  have hno := Bool.eq_false_of_not_eq_true hcontrol
  cases ttlSeconds with
  | none =>
    cases h
    exact ⟨rfl, hmission, hno, fun _ hsome => by cases hsome⟩
  | some secs =>
    obtain ⟨hsecs, h⟩ := guard_ok.mp h
    cases h
    refine ⟨rfl, hmission, hno, fun other hsome => ?_⟩
    cases hsome
    exact Int.not_lt.mp hsecs

def ttlLine (ttlSeconds : Option Int) : String := (ttlSeconds.map Int.repr).getD "none"

theorem repr_natCast {secs : Int} (h : 0 ≤ secs) : secs.repr = secs.toNat.repr := by
  obtain ⟨n, rfl⟩ := Int.eq_ofNat_of_zero_le h
  rfl

theorem Composed.digits (h : Composed challenge) :
    ∀ secs, challenge.ttlSeconds = some secs → ∀ c ∈ secs.repr.toList, c.isDigit = true := by
  intro secs hsecs
  rw [repr_natCast (h.ttl secs hsecs)]
  exact repr_digits _

theorem ttlLine_newline (h : Composed challenge) : '\n' ∉ (ttlLine challenge.ttlSeconds).toList :=
  marked_newline (by decide) h.digits

theorem ttlLine_injective (h₁ : Composed challenge₁) (h₂ : Composed challenge₂)
    (h : ttlLine challenge₁.ttlSeconds = ttlLine challenge₂.ttlSeconds) :
    challenge₁.ttlSeconds = challenge₂.ttlSeconds := by
  refine marked_injective (by decide) h₁.digits h₂.digits (fun secs₁ secs₂ hsecs₁ hsecs₂ hsame => ?_) h
  have hle₁ := h₁.ttl secs₁ hsecs₁
  have hle₂ := h₂.ttl secs₂ hsecs₂
  rw [repr_natCast hle₁, repr_natCast hle₂] at hsame
  have hnat := repr_injective hsame
  omega

/-- The last three lines are cut off from the right, so that the session may hold anything,
line ends too. -/
theorem challenge_injective (h₁ : Composed challenge₁) (h₂ : Composed challenge₂)
    (h : challenge₁.toString = challenge₂.toString) : challenge₁ = challenge₂ := by
  have htext (challenge : GrantChallenge) : challenge.toString.toList = "cosmon-takeover-grant-v1\n".toList ++
      ("mission=".toList ++ (challenge.missionId.toList ++ '\n' :: ("holder=".toList ++
        ((((challenge.holderSessionId.toList ++ '\n' :: ("epoch=".toList ++ challenge.epoch.val.repr.toList)) ++
          '\n' :: ("granted_by=".toList ++ challenge.grantedBy.toList)) ++
          '\n' :: ("ttl=".toList ++ (ttlLine challenge.ttlSeconds).toList)) ++ ['\n'])))) := by
    have hnewline : "\n".toList = ['\n'] := rfl
    unfold GrantChallenge.toString
    simp only [String.toList_append, hnewline, List.append_assoc, List.cons_append, List.nil_append, ttlLine]
  have hline {label value : String} (hlabel : '\n' ∉ label.toList) (hvalue : '\n' ∉ value.toList) :
      '\n' ∉ label.toList ++ value.toList := by
    rw [List.mem_append, not_or]
    exact ⟨hlabel, hvalue⟩
  have hchars := congrArg String.toList h
  rw [htext, htext, List.append_cancel_left_eq] at hchars
  obtain ⟨hmission, hchars⟩ := line_inj (id_letters h₁.mission (by decide)) (id_letters h₂.mission (by decide)) hchars
  obtain ⟨hchars, httl⟩ := append_sep_inj_right (hline (by decide) (ttlLine_newline h₁))
    (hline (by decide) (ttlLine_newline h₂)) (List.append_cancel_right (List.append_cancel_left hchars))
  obtain ⟨hchars, hgranted⟩ := append_sep_inj_right (hline (by decide) (newline_of_no_control h₁.grantedBy))
    (hline (by decide) (newline_of_no_control h₂.grantedBy)) hchars
  obtain ⟨hholder, hepoch⟩ := append_sep_inj_right (hline (by decide) (epoch_newline _))
    (hline (by decide) (epoch_newline _)) hchars
  have hepochs : challenge₁.epoch = challenge₂.epoch :=
    Fin.ext (repr_injective (String.toList_inj.mp (List.append_cancel_left hepoch)))
  have httls := ttlLine_injective h₁ h₂ (String.toList_inj.mp (List.append_cancel_left httl))
  have hgranters := String.toList_inj.mp (List.append_cancel_left hgranted)
  cases challenge₁
  cases challenge₂
  simp only [GrantChallenge.mk.injEq]
  exact ⟨String.toList_inj.mp hmission, String.toList_inj.mp hholder, hepochs, hgranters, httls⟩

end Challenges

section Bytes

variable {enc : Encoding} {grant₁ grant₂ : HarvestGrant} {challenge₁ challenge₂ : GrantChallenge}

/-- Two grants that differ in one thing: one names no reservation, and the other the
reservation `none`. -/
structure NoneTwins (grant₁ grant₂ : HarvestGrant) : Prop where
  same : { grant₁ with reservations := [] } = { grant₂ with reservations := [] }
  none : (grant₁.reservations = [] ∧ grant₂.reservations = ["none"]) ∨
    (grant₁.reservations = ["none"] ∧ grant₂.reservations = [])

theorem toUTF8_inj {text₁ text₂ : String} : text₁.toUTF8 = text₂.toUTF8 ↔ text₁ = text₂ := String.toByteArray_inj

theorem grant_eq_iff (grant₁ grant₂ : HarvestGrant) : grant₁ = grant₂ ↔
    { grant₁ with reservations := [] } = { grant₂ with reservations := [] } ∧
      grant₁.reservations = grant₂.reservations := by
  cases grant₁
  cases grant₂
  simp only [HarvestGrant.mk.injEq]
  tauto

/-- The signed bytes of a grant tell the grant, except that the name `none` is the mark of no
reservation. The signed bytes of a transfer tell the transfer. -/
theorem canonicalBytes_injective (henc : Encoding.Stamps enc) (h₁ : grant₁.validate = .ok ())
    (h₂ : grant₂.validate = .ok ()) (hids₁ : ScopeIds grant₁.scope) (hids₂ : ScopeIds grant₂.scope)
    (hmission₁ : moleculeIdNew challenge₁.missionId = .ok challenge₁.missionId)
    (hmission₂ : moleculeIdNew challenge₂.missionId = .ok challenge₂.missionId)
    (hnew₁ : GrantChallenge.new challenge₁.missionId challenge₁.holderSessionId challenge₁.epoch
      challenge₁.grantedBy challenge₁.ttlSeconds = .ok challenge₁)
    (hnew₂ : GrantChallenge.new challenge₂.missionId challenge₂.holderSessionId challenge₂.epoch
      challenge₂.grantedBy challenge₂.ttlSeconds = .ok challenge₂) :
    ((grant₁.canonicalBytes enc = grant₂.canonicalBytes enc → grant₁ = grant₂) ∧
        (challenge₁.canonicalBytes = challenge₂.canonicalBytes → challenge₁ = challenge₂)) ↔
      ¬NoneTwins grant₁ grant₂ := by
  have hvalid₁ := validate_ok h₁
  have hvalid₂ := validate_ok h₂
  have hchallenges : challenge₁.canonicalBytes = challenge₂.canonicalBytes → challenge₁ = challenge₂ := fun h =>
    challenge_injective (new_ok hmission₁ hnew₁).2 (new_ok hmission₂ hnew₂).2 (toUTF8_inj.mp h)
  rw [and_iff_left hchallenges, HarvestGrant.canonicalBytes, HarvestGrant.canonicalBytes, toUTF8_inj,
    grant_fields henc hvalid₁ hvalid₂ hids₁ hids₂, grant_eq_iff grant₁ grant₂,
    reservationLine_inj (fun name hname => (hvalid₁.reservations name hname).2)
      (fun name hname => (hvalid₂.reservations name hname).2)]
  constructor
  · rintro h ⟨hsame, hnone⟩
    have hnames := (h ⟨hsame, Or.inr hnone⟩).2
    obtain ⟨hnil, hname⟩ | ⟨hname, hnil⟩ := hnone <;>
    · rw [hnil, hname] at hnames
      cases hnames
  · rintro h ⟨hsame, hnames | hnone⟩
    · exact ⟨hsame, hnames⟩
    · exact absurd ⟨hsame, hnone⟩ h

def countInstant (t : Int) : Nat := if 0 ≤ t then 2 * t.toNat else 2 * (-t).toNat + 1

theorem countInstant_injective {t₁ t₂ : Int} (h : countInstant t₁ = countInstant t₂) : t₁ = t₂ := by
  unfold countInstant at h
  split_ifs at h <;> omega

def countedEncoding : Encoding where
  hexDigest text := text
  rfc3339 t := (countInstant t).repr

theorem countedEncoding_stamps : Encoding.Stamps countedEncoding := by
  refine ⟨fun t c hmem => ?_, fun t₁ t₂ h => ?_⟩
  · rw [isStampChar, repr_digits _ c hmem]
    rfl
  · exact countInstant_injective (repr_injective h)

def plainGrant : HarvestGrant where
  galaxy := "cosmon"
  scope := .molecule "task-20260901-6da6"
  base := "main"
  action := .done
  reservations := []
  epoch := GrantEpoch.first
  expires := none

def reviewedGrant : HarvestGrant := { plainGrant with reservations := ["needs-review"] }

/-- The same harvest, with a reservation of the name `none`. -/
def noneGrant : HarvestGrant := { plainGrant with reservations := ["none"] }

def twoLineChallenge : GrantChallenge where
  missionId := "task-20260731-9cf4"
  holderSessionId := "claude\nepoch=2"
  epoch := LeaseEpoch.first
  grantedBy := "operator"
  ttlSeconds := some 60

def oneLineChallenge : GrantChallenge :=
  { twoLineChallenge with holderSessionId := "claude", epoch := LeaseEpoch.first.next }

theorem canonicalBytes_injective_reviewed :
    ((plainGrant.canonicalBytes countedEncoding = reviewedGrant.canonicalBytes countedEncoding →
        plainGrant = reviewedGrant) ∧
      (twoLineChallenge.canonicalBytes = oneLineChallenge.canonicalBytes → twoLineChallenge = oneLineChallenge)) ↔
      ¬NoneTwins plainGrant reviewedGrant :=
  canonicalBytes_injective countedEncoding_stamps (by decide) (by decide) (by decide : moleculeIdNew _ = _)
    (by decide : moleculeIdNew _ = _) (by decide) (by decide) (by decide) (by decide)

/-- Two grants that are accepted and differ, with the same signed bytes. -/
theorem none_reservation_collides : plainGrant.validate = .ok () ∧ noneGrant.validate = .ok () ∧
    plainGrant.canonicalBytes countedEncoding = noneGrant.canonicalBytes countedEncoding ∧
      plainGrant ≠ noneGrant := by
  refine ⟨by decide, by decide, rfl, by decide⟩

end Bytes

end Cosmon.Core.SignedTexts
