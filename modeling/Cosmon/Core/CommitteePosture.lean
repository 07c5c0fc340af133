import Cosmon.Hashing.Digest
import Cosmon.Lib.TextLines

namespace Cosmon.Core.CommitteePosture

open Cosmon.Hashing.Digest Cosmon.Lib.Bytes Cosmon.Lib.Lines Cosmon.Lib.Text Cosmon.Lib.TextLines

def postureHeader : List Char :=
  ("# Committee posture (adversarial contract)\n\n" ++
    "<!-- This file is DURABLE and regeneration-stable. `cs evolve` does NOT\n" ++
    "rewrite it; the per-step `briefing.md` only points here. Editing or\n" ++
    "deleting it breaks the seat's persona witness. -->\n\n").toList

def bullet : List Char := "- **".toList

def versionField : List Char := "contract-version".toList

def hashField : List Char := "contract-hash".toList

def bulletEnd : List Char := ":**".toList

def headerRule : List Char := "---".toList

def metadataLine (name value : List Char) : List Char := bullet ++ name ++ bulletEnd ++ ' ' :: value

def renderCommitteePosture (version : Nat) (contractHash body : List Char) : List Char :=
  postureHeader ++ metadataLine versionField (Nat.toDigits 10 version) ++ ['\n'] ++
    metadataLine hashField contractHash ++ ['\n', '\n'] ++ headerRule ++ ['\n', '\n'] ++ body ++ ['\n']

structure PostureContract where
  version : Nat
  contractHash : List Char
  body : List Char
deriving DecidableEq

def splitLine (s : List Char × List Char × Bool) (line : List Char) : List Char × List Char × Bool :=
  if s.2.2 = false then
    if trim line = headerRule then (s.1, s.2.1, true) else (s.1 ++ line ++ ['\n'], s.2.1, false)
  else (s.1, s.2.1 ++ line ++ ['\n'], true)

def splitAtHeaderRule (text : List Char) : Option (List Char × List Char) :=
  let s := (textLines text).foldl splitLine ([], [], false)
  if s.2.2 then some (s.1, s.2.1) else none

def stripStart (start text : List Char) : Option (List Char) :=
  if start <+: text then some (text.drop start.length) else none

def isPostureMetadataLine (line : List Char) : Bool :=
  (stripStart bullet (trim line)).any fun rest => bulletEnd <:+: rest

def fieldOf (name line : List Char) : Option (List Char) := do
  let rest ← stripStart bullet (trim line)
  let rest ← stripStart name rest
  let rest ← stripStart bulletEnd rest
  return trim rest

def field (metadata name : List Char) : Option (List Char) := (textLines metadata).findSome? (fieldOf name)

def isProse (line : List Char) : Bool := !(trim line).isEmpty && !isPostureMetadataLine line

def parseCommitteePosture (text : List Char) : Option PostureContract := do
  let (metadata, body) ← splitAtHeaderRule text
  let version ← (field metadata versionField).bind (parseUnsigned 32)
  let contractHash ← (field metadata hashField).filter (· ≠ [])
  let body := trim body
  if (textLines body).any isProse then some ⟨version, contractHash, body⟩ else none

section Digests

structure Digests where
  blake3 : List UInt8 → Hash
  sha256 : List UInt8 → Hash
  blake2b256 : List UInt8 → Hash

variable (d : Digests)

def SUPPORTED_CONTRACT_DIGESTS : List String := ["blake3", "sha256", "blake2b-256"]

def digestWith (algorithm : String) (bytes : List UInt8) : Option (List Char) :=
  if algorithm = "blake3" then some (d.blake3 bytes).toHex.toList
  else if algorithm = "sha256" then some (d.sha256 bytes).toHex.toList
  else if algorithm = "blake2b-256" then some (d.blake2b256 bytes).toHex.toList
  else none

def contractDigestInput (body : List Char) : List UInt8 := utf8 (String.ofList (trim body ++ ['\n']))

def ownAlgorithm : List Char := "blake3".toList

def committeeContractHash (body : List Char) : List Char :=
  ownAlgorithm ++ ':' :: (d.blake3 (contractDigestInput body)).toHex.toList

def isAsciiHexdigit (c : Char) : Bool := c.isDigit || ('a' ≤ c && c ≤ 'f') || ('A' ≤ c && c ≤ 'F')

def isHex64 (s : List Char) : Bool := s.length = 64 && s.all isAsciiHexdigit

inductive ContractHashVerdict where
  | verified (algorithm : String)
  | forged (detail : String)
  | unverifiable (detail : String)
deriving DecidableEq

def declaredParts (declared : List Char) : List Char × List Char :=
  ((splitOnce ':' (trim declared).reverse).map fun parts => (parts.2.reverse, parts.1.reverse)).getD ([], trim declared)

def declaredHex (declared : List Char) : List Char := (trim (declaredParts declared).2).map Char.toLower

/-- The last token before the hex that names an algorithm. -/
def declaredAlgorithm (labels : List Char) : Option String :=
  ((labels.splitOn ':').filterMap fun token =>
    SUPPORTED_CONTRACT_DIGESTS.find? fun a => a.toList = (trim token).map Char.toLower).getLast?

def verifyContractHash (declared body : List Char) : ContractHashVerdict :=
  let bytes := contractDigestInput body
  let named := "contract-hash `" ++ String.ofList (trim declared) ++ "` "
  let expected := String.ofList (committeeContractHash d body)
  let hex := declaredHex declared
  if (declaredParts declared).1 = [] then
    if isHex64 hex = false then
      .unverifiable (named ++ "is not a digest — it names no algorithm and is not 64 hex characters. A stable label " ++
        "is no longer accepted: it is a self-attestation, not a content address. Write the value " ++
        "`committee_contract_hash` computes for this body")
    else
      match SUPPORTED_CONTRACT_DIGESTS.find? fun a => digestWith d a bytes = some hex with
      | some algorithm => .verified algorithm
      | none =>
        .forged (named ++ "is digest-shaped but is not this body's digest under any supported algorithm (" ++
          " or ".intercalate SUPPORTED_CONTRACT_DIGESTS ++ "); the body digests to `" ++ expected ++ "`")
  else
    match declaredAlgorithm (declaredParts declared).1 with
    | none =>
      .unverifiable (named ++ "names no algorithm this gate can recompute (supported: " ++
        ", ".intercalate SUPPORTED_CONTRACT_DIGESTS ++ "), so its digest cannot be checked. An algorithm name that " ++
        "nothing verifies is an opaque label with extra syllables — restate the hash as `" ++ expected ++ "`")
    | some algorithm =>
      if isHex64 hex = false then
        .forged (named ++ "names " ++ algorithm ++ " but carries " ++ Nat.repr (String.ofList hex).utf8ByteSize ++
          " hex characters; a " ++ algorithm ++ " digest is 64. It cannot be a digest of anything, whatever body " ++
          "sits beneath it — the body digests to `" ++ expected ++ "`")
      else if digestWith d algorithm bytes = some hex then .verified algorithm
      else
        .forged (named ++ "is NOT the " ++ algorithm ++ " digest of the contract body beneath it — that body " ++
          "digests to `" ++ algorithm ++ ":" ++ String.ofList ((digestWith d algorithm bytes).getD []) ++
          "`. The hash is a claim about the body and the body refutes it")

end Digests

section Header

theorem foldl_splitLine {metadata body : List Char} (lines : List (List Char)) :
    lines.foldl splitLine (metadata, body, true) = (metadata, body ++ joinLines lines, true) := by
  induction lines generalizing body with
  | nil => rw [joinLines, List.map_nil, List.flatten_nil, List.append_nil]; rfl
  | cons l lines ih =>
    rw [List.foldl_cons]
    refine ih.trans ?_
    simp [joinLines]

theorem foldl_splitLine_rule {metadata : List Char} {before after : List (List Char)}
    (h : ∀ l ∈ before, trim l ≠ headerRule) :
    (before ++ headerRule :: after).foldl splitLine (metadata, [], false) =
      (metadata ++ joinLines before, joinLines after, true) := by
  induction before generalizing metadata with
  | nil =>
    have hrule : trim headerRule = headerRule := by decide
    simp only [List.nil_append, List.foldl_cons, splitLine, if_true, hrule]
    rw [foldl_splitLine]
    simp [joinLines]
  | cons l before ih =>
    rw [List.forall_mem_cons] at h
    rw [List.cons_append, List.foldl_cons, splitLine, if_pos rfl, if_neg h.1, ih h.2]
    simp [joinLines]

def preamble : List (List Char) :=
  ["# Committee posture (adversarial contract)".toList, [],
    "<!-- This file is DURABLE and regeneration-stable. `cs evolve` does NOT".toList,
    "rewrite it; the per-step `briefing.md` only points here. Editing or".toList,
    "deleting it breaks the seat's persona witness. -->".toList, []]

def headerLines (version : Nat) (contractHash : List Char) : List (List Char) :=
  preamble ++ [metadataLine versionField (Nat.toDigits 10 version), metadataLine hashField contractHash, []]

theorem joinLines_append (xs ys : List (List Char)) : joinLines (xs ++ ys) = joinLines xs ++ joinLines ys := by
  rw [joinLines, List.map_append, List.flatten_append]
  rfl

theorem joinLines_preamble : joinLines preamble = postureHeader := by
  delta postureHeader
  simp only [String.toList_append]
  decide +kernel

theorem render_eq (version : Nat) (contractHash body : List Char) :
    renderCommitteePosture version contractHash body =
      joinLines (headerLines version contractHash ++ [headerRule]) ++ ('\n' :: body ++ ['\n']) := by
  rw [renderCommitteePosture, headerLines, List.append_assoc preamble, joinLines_append, joinLines_preamble]
  simp [joinLines]

/-- What the lines above the rule have in common: no line end, no carriage return, not a rule. -/
structure HeaderLine (line : List Char) : Prop where
  feed : '\n' ∉ line
  bare : stripCr line = line
  content : trim line ≠ headerRule

theorem preamble_lines : ∀ l ∈ preamble, HeaderLine l := by
  have hall : ∀ l ∈ preamble, '\n' ∉ l ∧ stripCr l = l ∧ trim l ≠ headerRule := by decide +kernel
  exact fun l hl => ⟨(hall l hl).1, (hall l hl).2.1, (hall l hl).2.2⟩

theorem preamble_fields : ∀ l ∈ preamble, fieldOf versionField l = none ∧ fieldOf hashField l = none := by
  decide +kernel

structure Word (value : List Char) : Prop where
  ne_nil : value ≠ []
  solid : ∀ c ∈ value, isWhiteSpace c = false

variable {name value : List Char}

theorem metadataLine_getLast (h : Word value) :
    ∃ c ∈ value, (metadataLine name value).getLast? = some c := by
  refine ⟨value.getLast h.ne_nil, List.getLast_mem h.ne_nil, ?_⟩
  rw [metadataLine, List.getLast?_append, List.getLast?_cons, List.getLast?_eq_some_getLast h.ne_nil]
  rfl

theorem trim_metadataLine (h : Word value) : trim (metadataLine name value) = metadataLine name value := by
  obtain ⟨last, hmem, hlast⟩ := @metadataLine_getLast name value h
  refine trim_fixed (fun c hc => ?_) fun c hc => ?_
  · obtain rfl : '-' = c := Option.some_inj.mp hc
    decide
  · rw [hlast] at hc
    exact Option.some_inj.mp hc ▸ h.solid last hmem

theorem metadataLine_header (hname : '\n' ∉ name) (h : Word value) : HeaderLine (metadataLine name value) := by
  obtain ⟨last, hmem, hlast⟩ := @metadataLine_getLast name value h
  have hfeed : '\n' ∉ value := fun hfeed => Bool.noConfusion (h.solid '\n' hfeed)
  refine ⟨?_, ?_, ?_⟩
  · simp [metadataLine, hname, hfeed, bullet, bulletEnd]
  · rw [stripCr, if_neg]
    rw [hlast]
    rintro ⟨⟩
    exact Bool.noConfusion (h.solid '\r' hmem)
  · rw [trim_metadataLine h]
    intro heq
    cases heq

theorem stripStart_append (a b : List Char) : stripStart a (a ++ b) = some b := by
  rw [stripStart, if_pos (List.prefix_append a b), List.drop_left]

theorem fieldOf_metadataLine (h : Word value) : fieldOf name (metadataLine name value) = some value := by
  have hvalue : trim (' ' :: value) = value := by
    rw [trim_cons (by decide), trim_of_none h.solid]
  rw [fieldOf, trim_metadataLine h, metadataLine, List.append_assoc, List.append_assoc, stripStart_append]
  simp only [Option.bind_eq_bind, Option.bind_some, stripStart_append, hvalue, Option.pure_def]

theorem fieldOf_other (h : Word value) : fieldOf hashField (metadataLine versionField value) = none := by
  have hno : stripStart hashField (versionField ++ (bulletEnd ++ ' ' :: value)) = none := by
    rw [stripStart, if_neg]
    intro hbegins
    have hshort := List.prefix_of_prefix_length_le hbegins (List.prefix_append versionField _) (by decide)
    revert hshort
    decide
  rw [fieldOf, trim_metadataLine h, metadataLine, List.append_assoc, List.append_assoc, stripStart_append]
  simp only [Option.bind_eq_bind, Option.bind_some, hno, Option.bind_none]

end Header

section RoundTrip

variable {version : Nat} {contractHash : List Char}

theorem word_toDigits (version : Nat) : Word (Nat.toDigits 10 version) :=
  ⟨Nat.toDigits_ne_nil, fun _ hc => isWhiteSpace_of_isDigit (isDigit_toDigits hc)⟩

theorem headerLines_header (h : Word contractHash) : ∀ l ∈ headerLines version contractHash, HeaderLine l := by
  rw [headerLines, List.forall_mem_append]
  refine ⟨preamble_lines, ?_⟩
  simp only [List.forall_mem_cons, List.not_mem_nil, false_implies, implies_true, and_true]
  exact ⟨metadataLine_header (by decide) (word_toDigits version), metadataLine_header (by decide) h,
    ⟨List.not_mem_nil, rfl, by decide⟩⟩

theorem textLines_header {lines : List (List Char)} (h : ∀ l ∈ lines, HeaderLine l) :
    textLines (joinLines lines) = lines := by
  rw [textLines_join fun l hl => (h l hl).feed]
  exact (List.map_congr_left fun l hl => (h l hl).bare).trans (List.map_id lines)

theorem field_version (h : Word contractHash) :
    field (joinLines (headerLines version contractHash)) versionField = some (Nat.toDigits 10 version) := by
  have hnone : preamble.findSome? (fieldOf versionField) = none :=
    List.findSome?_eq_none_iff.mpr fun l hl => (preamble_fields l hl).1
  rw [field, textLines_header (headerLines_header h), headerLines, List.findSome?_append, hnone, Option.none_or,
    List.findSome?_cons, fieldOf_metadataLine (word_toDigits version)]

theorem field_hash (h : Word contractHash) :
    field (joinLines (headerLines version contractHash)) hashField = some contractHash := by
  have hnone : preamble.findSome? (fieldOf hashField) = none :=
    List.findSome?_eq_none_iff.mpr fun l hl => (preamble_fields l hl).2
  rw [field, textLines_header (headerLines_header h), headerLines, List.findSome?_append, hnone, Option.none_or,
    List.findSome?_cons, fieldOf_other (word_toDigits version)]
  simp only [List.findSome?_cons, fieldOf_metadataLine h]

theorem isProse_ofTrim : OfTrim isProse where
  trimmed l := by rw [isProse, isProse, isPostureMetadataLine, isPostureMetadataLine, trim_trim]
  blank := by decide

def below (body : List Char) : List Char := '\n' :: body ++ ['\n']

theorem trim_below (body : List Char) : trim (below body) = trim body := by
  rw [below, List.cons_append, trim_cons (by decide), trim_snoc (by decide)]

theorem closed_below (body : List Char) : Closed '\n' (below body) :=
  closed_iff.mpr (.inr List.getLast?_concat)

theorem split_render (h : Word contractHash) (body : List Char) :
    splitAtHeaderRule (renderCommitteePosture version contractHash body) =
      some (joinLines (headerLines version contractHash), dropCr (below body)) := by
  have hrule : HeaderLine headerRule → False := fun hrule => hrule.content (by decide)
  have hheader := @headerLines_header version contractHash h
  have hfree : ∀ l ∈ headerLines version contractHash ++ [headerRule], '\n' ∉ l :=
    List.forall_mem_append.mpr ⟨fun l hl => (hheader l hl).feed, List.forall_mem_singleton.mpr (by decide)⟩
  have hlines : textLines (renderCommitteePosture version contractHash body) =
      headerLines version contractHash ++ headerRule :: textLines (below body) := by
    rw [render_eq, ← below, textLines_append (closed_join hfree) (closed_below body), textLines_join hfree,
      List.map_append, ← textLines_join fun l hl => (hheader l hl).feed, textLines_header hheader, List.append_assoc]
    rfl
  rw [splitAtHeaderRule, hlines, foldl_splitLine_rule fun l hl => (hheader l hl).content,
    join_textLines (closed_below body)]
  rfl

theorem parse_render (hversion : version < 2 ^ 32) (h : Word contractHash) {body : List Char}
    (hprose : (textLines body).any isProse = true) :
    parseCommitteePosture (renderCommitteePosture version contractHash body) =
      some ⟨version, contractHash, dropCr (trim body)⟩ := by
  have hbody : trim (dropCr (below body)) = dropCr (trim body) := by rw [trim_dropCr, trim_below]
  have hsays : (textLines (dropCr (trim body))).any isProse = true := by
    rw [← hbody, isProse_ofTrim.textLines, isProse_ofTrim.trim, isProse_ofTrim.dropCr (closed_below body), below,
      List.cons_append, isProse_ofTrim.cons (by decide), isProse_ofTrim.snoc (by decide), ← isProse_ofTrim.textLines,
      hprose]
  have hkept : (some contractHash).filter (· ≠ []) = some contractHash := by
    rw [Option.filter_some, if_pos (decide_eq_true h.ne_nil)]
  rw [parseCommitteePosture, split_render h]
  simp only [Option.bind_eq_bind, Option.bind_some, field_version h, field_hash h, hkept, hbody, hsays, if_true,
    parseUnsigned_toDigits hversion]

end RoundTrip

section Verification

variable (d : Digests)

theorem hexDigit_facts {c : Char} (h : isHexDigit c = true) :
    isWhiteSpace c = false ∧ c ≠ ':' ∧ c.toLower = c ∧ isAsciiHexdigit c = true := by
  have hrange : 48 ≤ c.toNat ∧ c.toNat ≤ 57 ∨ 97 ≤ c.toNat ∧ c.toNat ≤ 102 := by
    simpa [isHexDigit, Char.isDigit, Char.le_def, UInt32.le_iff_toNat_le] using h
  refine ⟨isWhiteSpace_of_printable (by omega) (by omega), ?_, ?_, ?_⟩
  · rintro rfl
    revert hrange
    decide
  · unfold Char.toLower
    rw [dif_neg]
    simp only [UInt32.le_iff_toNat_le, ge_iff_le, not_and, not_le]
    intro hlow
    change 65 ≤ c.toNat at hlow
    change 90 < c.toNat
    omega
  · rw [isHexDigit] at h
    rw [isAsciiHexdigit, h, Bool.true_or]

theorem hex_facts (h : Hash) : ∀ c ∈ h.toHex.toList, isWhiteSpace c = false ∧ c ≠ ':' ∧ c.toLower = c ∧
    isAsciiHexdigit c = true := fun c hc => hexDigit_facts (h.toHex_digits.2 c hc)

theorem ownAlgorithm_solid : ∀ c ∈ ownAlgorithm, isWhiteSpace c = false := by
  have hall : ownAlgorithm.all (fun c => !isWhiteSpace c) = true := by decide
  intro c hc
  exact Bool.eq_false_of_not_eq_true' (List.all_eq_true.mp hall c hc)

theorem contractHash_word (body : List Char) : Word (committeeContractHash d body) := by
  refine ⟨List.append_ne_nil_of_right_ne_nil _ (List.cons_ne_nil _ _), fun c hc => ?_⟩
  rw [committeeContractHash, List.mem_append, List.mem_cons] at hc
  obtain hc | rfl | hc := hc
  · exact ownAlgorithm_solid c hc
  · decide
  · exact (hex_facts _ c hc).1

theorem declaredParts_own (body : List Char) : declaredParts (committeeContractHash d body) =
    (ownAlgorithm, (d.blake3 (contractDigestInput body)).toHex.toList) := by
  have hfree : ':' ∉ ((d.blake3 (contractDigestInput body)).toHex.toList).reverse := fun hmem =>
    (hex_facts _ _ (List.mem_reverse.mp hmem)).2.1 rfl
  rw [declaredParts, trim_of_none (contractHash_word d body).solid, committeeContractHash, List.reverse_append,
    List.reverse_cons, List.append_assoc, List.singleton_append, splitOnce_of_none hfree, Option.map_some,
    Option.getD_some, List.reverse_reverse, List.reverse_reverse]

theorem declaredHex_own (body : List Char) :
    declaredHex (committeeContractHash d body) = (d.blake3 (contractDigestInput body)).toHex.toList := by
  have hfacts := hex_facts (d.blake3 (contractDigestInput body))
  rw [declaredHex, declaredParts_own, trim_of_none fun c hc => (hfacts c hc).1]
  exact (List.map_congr_left fun c hc => (hfacts c hc).2.2.1).trans (List.map_id _)

theorem verify_own (body body' : List Char) :
    (∃ algorithm, verifyContractHash d (committeeContractHash d body) body' = .verified algorithm) ↔
      d.blake3 (contractDigestInput body') = d.blake3 (contractDigestInput body) := by
  have hfacts := hex_facts (d.blake3 (contractDigestInput body))
  have hhex : isHex64 (d.blake3 (contractDigestInput body)).toHex.toList = true := by
    rw [isHex64, (Hash.toHex_digits _).1, List.all_eq_true.mpr fun c hc => (hfacts c hc).2.2.2]
    rfl
  have halgorithm : declaredAlgorithm ownAlgorithm = some "blake3" := by decide +kernel
  have hlabels : ownAlgorithm ≠ [] := by decide
  have hdigest : digestWith d "blake3" (contractDigestInput body') =
      some (d.blake3 (contractDigestInput body')).toHex.toList := if_pos rfl
  rw [verifyContractHash]
  simp only [declaredParts_own, declaredHex_own, if_neg hlabels, halgorithm, hhex, hdigest]
  by_cases hsame : d.blake3 (contractDigestInput body') = d.blake3 (contractDigestInput body)
  · simp [hsame]
  · have hne : (d.blake3 (contractDigestInput body')).toHex.toList ≠
        (d.blake3 (contractDigestInput body)).toHex.toList := fun heq =>
      hsame (Hash.toHex_injective (String.toList_inj.mp heq))
    simp [hsame, hne]

variable {d}

theorem verified_digest {declared body : List Char} {algorithm : String}
    (h : verifyContractHash d declared body = .verified algorithm) :
    algorithm ∈ SUPPORTED_CONTRACT_DIGESTS ∧
      digestWith d algorithm (contractDigestInput body) = some (declaredHex declared) := by
  unfold verifyContractHash at h
  dsimp only at h
  by_cases hlabels : (declaredParts declared).1 = []
  · rw [if_pos hlabels] at h
    by_cases hhex : isHex64 (declaredHex declared) = false
    · rw [if_pos hhex] at h
      cases h
    · rw [if_neg hhex] at h
      cases hfind : SUPPORTED_CONTRACT_DIGESTS.find? fun a =>
          digestWith d a (contractDigestInput body) = some (declaredHex declared) with
      | none =>
        rw [hfind] at h
        cases h
      | some a =>
        rw [hfind] at h
        cases h
        have hdigest := List.find?_some hfind
        exact ⟨List.mem_of_find?_eq_some hfind, of_decide_eq_true hdigest⟩
  · rw [if_neg hlabels] at h
    cases hname : declaredAlgorithm (declaredParts declared).1 with
    | none =>
      rw [hname] at h
      cases h
    | some a =>
      rw [hname] at h
      dsimp only at h
      split_ifs at h with hhex hdigest
      cases h
      obtain ⟨token, -, htoken⟩ := List.mem_filterMap.mp (List.mem_of_getLast? hname)
      exact ⟨List.mem_of_find?_eq_some htoken, hdigest⟩

theorem contractDigestInput_inj {body body' : List Char} :
    contractDigestInput body = contractDigestInput body' ↔ trim body = trim body' := by
  constructor
  · intro h
    exact List.append_cancel_right (String.ofList_injective (utf8_injective h))
  · intro h
    rw [contractDigestInput, contractDigestInput, h]

def Apart (d : Digests) (x y : List UInt8) : Prop := d.blake3 x = d.blake3 y → x = y

/-- An honest contract is confirmed exactly if no line inside it ends in a carriage return; and only a digest of
the body is ever confirmed. -/
theorem honest_iff (d : Digests) (version : Nat) (hversion : version < 2 ^ 32) (body : List Char)
    (hprose : ∃ line ∈ textLines body, isProse line = true)
    (hapart : Apart d (contractDigestInput (dropCr (trim body))) (contractDigestInput body)) :
    ((∃ contract, parseCommitteePosture (renderCommitteePosture version (committeeContractHash d body) body) =
        some contract ∧ contract.version = version ∧ contract.contractHash = committeeContractHash d body ∧
        ∃ algorithm, verifyContractHash d contract.contractHash contract.body = .verified algorithm) ↔
      ¬ ['\r', '\n'] <:+: trim body) ∧
      ∀ declared body algorithm, verifyContractHash d declared body = .verified algorithm →
        algorithm ∈ SUPPORTED_CONTRACT_DIGESTS ∧
          digestWith d algorithm (contractDigestInput body) = some (declaredHex declared) := by
  refine ⟨?_, fun declared body algorithm => verified_digest⟩
  rw [parse_render hversion (contractHash_word d body) (List.any_eq_true.mpr hprose), ← dropCr_eq_self]
  have hsame : d.blake3 (contractDigestInput (dropCr (trim body))) = d.blake3 (contractDigestInput body) ↔
      dropCr (trim body) = trim body := by
    have hfixed : trim (dropCr (trim body)) = dropCr (trim body) := by rw [trim_dropCr, trim_trim]
    rw [← hfixed, ← contractDigestInput_inj, hfixed]
    exact ⟨hapart, congrArg d.blake3⟩
  constructor
  · rintro ⟨_, ⟨⟩, -, -, hverified⟩
    exact hsame.mp ((verify_own d body _).mp hverified)
  · intro hplain
    exact ⟨_, rfl, rfl, rfl, (verify_own d body _).mpr (hsame.mpr hplain)⟩

def lengthDigests : Digests where
  blake3 bytes := ⟨List.replicate 31 0 ++ [UInt8.ofNat bytes.length], rfl⟩
  sha256 bytes := ⟨List.replicate 31 1 ++ [UInt8.ofNat bytes.length], rfl⟩
  blake2b256 bytes := ⟨List.replicate 31 2 ++ [UInt8.ofNat bytes.length], rfl⟩

theorem honest_plain :
    ((∃ contract, parseCommitteePosture
        (renderCommitteePosture 1 (committeeContractHash lengthDigests "Audit.".toList) "Audit.".toList) =
          some contract ∧
        contract.version = 1 ∧ contract.contractHash = committeeContractHash lengthDigests "Audit.".toList ∧
        ∃ algorithm, verifyContractHash lengthDigests contract.contractHash contract.body = .verified algorithm) ↔
      ¬ ['\r', '\n'] <:+: trim "Audit.".toList) ∧
      ∀ declared body algorithm, verifyContractHash lengthDigests declared body = .verified algorithm →
        algorithm ∈ SUPPORTED_CONTRACT_DIGESTS ∧
          digestWith lengthDigests algorithm (contractDigestInput body) = some (declaredHex declared) :=
  honest_iff lengthDigests 1 (by decide) "Audit.".toList ⟨"Audit.".toList, by decide, by decide⟩ fun _ => by
    decide +kernel

def windowsBody : List Char := "a\r\nb".toList

theorem honest_windows : (textLines windowsBody).any isProse = true ∧
    ∃ contract, parseCommitteePosture
        (renderCommitteePosture 1 (committeeContractHash lengthDigests windowsBody) windowsBody) = some contract ∧
      ∀ algorithm, verifyContractHash lengthDigests contract.contractHash contract.body ≠ .verified algorithm := by
  have hprose : (textLines windowsBody).any isProse = true := by decide
  refine ⟨hprose, _, parse_render (by decide) (contractHash_word lengthDigests windowsBody) hprose, ?_⟩
  intro algorithm hverified
  have hdigest := (verify_own lengthDigests windowsBody _).mp ⟨algorithm, hverified⟩
  revert hdigest
  decide +kernel

end Verification

end Cosmon.Core.CommitteePosture
