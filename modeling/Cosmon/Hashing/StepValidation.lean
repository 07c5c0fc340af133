import Cosmon.Hashing.Canonical

namespace Cosmon.Hashing.StepValidation

open Cosmon.Hashing.Canonical Cosmon.Hashing.Digest
open Cosmon.Lib.Bytes Cosmon.Lib.KeyedSort Cosmon.Lib.Printing

structure Functions where
  quote : String → List Char
  blake3 : List UInt8 → Hash
  sha256 : List UInt8 → Hash

inductive ValidationMode where
  | mTime
  | blake3
  | sha256
  | keyedBlake3
deriving DecidableEq

structure InputRef where
  name : String
  bytes : Option (List UInt8)
  mtime : Option UInt64
deriving DecidableEq

def InputRef.new (name : String) (bytes : List UInt8) : InputRef := ⟨name, some bytes, none⟩

structure StepHash where
  mode : ValidationMode
  digest : Hash
deriving DecidableEq

inductive ValidationError where
  | missingBytes (mode : ValidationMode) (input : String)
deriving DecidableEq

inductive Validation where
  | unchanged (hash : Option StepHash)
  | fresh (hash : Option StepHash)
deriving DecidableEq

structure CanonEntry where
  name : String
  bytesB3 : String
deriving DecidableEq

def canonEntry (f : Functions) (mode : ValidationMode) (i : InputRef) : Except ValidationError CanonEntry :=
  match i.bytes with
  | some bytes => .ok ⟨i.name, (f.blake3 bytes).toHex⟩
  | none => .error (.missingBytes mode i.name)

def entryJson (e : CanonEntry) : Json := .object [("name", .string e.name), ("bytes_b3", .string e.bytesB3)]

theorem key_ne : "name" ≠ "bytes_b3" := by decide

def entriesValue (entries : List CanonEntry) : Value where
  json := .array (entries.map entryJson)
  distinct := by
    apply Distinct.array
    rw [List.forall_mem_map]
    intro e _
    apply Distinct.object
    · simp [key_ne]
    · rw [List.forall_mem_cons, List.forall_mem_singleton]
      exact ⟨Distinct.string e.name, Distinct.string e.bytesB3⟩

def canonicalInputs (f : Functions) (inputs : List InputRef) (mode : ValidationMode) :
    Except ValidationError (List UInt8) := do
  let entries ← inputs.mapM (canonEntry f mode)
  return canonicalSerialize f.quote (entriesValue (sortBy CanonEntry.name entries))

structure Validator where
  mode : ValidationMode
  hash : List UInt8 → Hash

def stepHash (f : Functions) (v : Validator) (inputs : List InputRef) : Except ValidationError StepHash := do
  let canon ← canonicalInputs f inputs v.mode
  return ⟨v.mode, v.hash canon⟩

def Validator.validate (f : Functions) (v : Validator) (inputs : List InputRef) (previous : Option StepHash) :
    Except ValidationError Validation := do
  let fresh ← stepHash f v inputs
  return if previous = some fresh then .unchanged (some fresh) else .fresh (some fresh)

def blake3Validator (f : Functions) : Validator := ⟨.blake3, f.blake3⟩

def sha256Validator (f : Functions) : Validator := ⟨.sha256, f.sha256⟩

def contents (inputs : List InputRef) : List (String × Option (List UInt8)) := inputs.map fun i => (i.name, i.bytes)

/-- What a validator is trusted with on one step, among some steps. -/
structure Decides (f : Functions) (v : Validator) (steps : Set (List InputRef)) (inputs : List InputRef) : Prop where
  reordered : ∀ other, other.Perm inputs → stepHash f v other = stepHash f v inputs
  separated : ∀ other ∈ steps, stepHash f v other = stepHash f v inputs → (contents other).Perm (contents inputs)
  unchanged : ∀ before ∈ steps, ∀ hash, v.validate f before none = .ok (.fresh (some hash)) →
    ((∃ h, v.validate f inputs (some hash) = .ok (.unchanged h)) ↔ (contents before).Perm (contents inputs))

def Unambiguous (inputs : List InputRef) : Prop :=
  ∀ x ∈ inputs, ∀ y ∈ inputs, x.name = y.name → x.bytes = y.bytes

instance (inputs : List InputRef) : Decidable (Unambiguous inputs) :=
  inferInstanceAs (Decidable (∀ x ∈ inputs, ∀ y ∈ inputs, x.name = y.name → x.bytes = y.bytes))

/-- No two byte strings that are hashed for these steps share a hash. -/
structure CollisionFree (f : Functions) (steps : Set (List InputRef)) : Prop where
  bytes : Set.InjOn f.blake3 {bytes | ∃ inputs ∈ steps, ∃ i ∈ inputs, i.bytes = some bytes}
  blake3 : Set.InjOn f.blake3 {canon | ∃ inputs ∈ steps, canonicalInputs f inputs .blake3 = .ok canon}
  sha256 : Set.InjOn f.sha256 {canon | ∃ inputs ∈ steps, canonicalInputs f inputs .sha256 = .ok canon}

section Entries

variable {f : Functions} {inputs other : List InputRef}

def entryOf (f : Functions) (content : String × Option (List UInt8)) : CanonEntry :=
  ⟨content.1, (f.blake3 (content.2.getD [])).toHex⟩

def entries (f : Functions) (inputs : List InputRef) : List CanonEntry := (contents inputs).map (entryOf f)

def canonText (f : Functions) (inputs : List InputRef) : List UInt8 :=
  canonicalSerialize f.quote (entriesValue (sortBy CanonEntry.name (entries f inputs)))

theorem mapM_canonEntry (h : ∀ i ∈ inputs, i.bytes ≠ none) (mode : ValidationMode) :
    inputs.mapM (canonEntry f mode) = .ok (entries f inputs) := by
  induction inputs with
  | nil => rfl
  | cons i rest ih =>
    obtain ⟨hi, hrest⟩ := List.forall_mem_cons.mp h
    obtain ⟨bytes, hbytes⟩ := Option.ne_none_iff_exists'.mp hi
    have hentry : canonEntry f mode i = .ok (entryOf f (i.name, i.bytes)) := by
      rw [canonEntry, hbytes]
      rfl
    rw [List.mapM_cons, hentry, ih hrest]
    rfl

theorem canonicalInputs_ok (h : ∀ i ∈ inputs, i.bytes ≠ none) (mode : ValidationMode) :
    canonicalInputs f inputs mode = .ok (canonText f inputs) := by
  rw [canonicalInputs, mapM_canonEntry h]
  rfl

theorem entryJson_same {a b : CanonEntry} (h : Same (entryJson a) (entryJson b)) : a = b := by
  obtain ⟨hname, hbytes⟩ := same_pair key_ne h
  cases a
  cases b
  simp only [CanonEntry.mk.injEq]
  exact ⟨same_string hname, same_string hbytes⟩

theorem entriesValue_same {as bs : List CanonEntry} (h : Same (entriesValue as).json (entriesValue bs).json) :
    as = bs := by
  cases h with
  | array hlength hitems =>
    rw [List.length_map, List.length_map] at hlength
    refine List.ext_getElem hlength fun i ha hb => entryJson_same ?_
    have hitem := hitems i (by rwa [List.length_map]) (by rwa [List.length_map])
    rwa [List.getElem_map, List.getElem_map] at hitem

theorem canonText_iff (hquote : Quotes f.quote) : canonText f other = canonText f inputs ↔
    sortBy CanonEntry.name (entries f other) = sortBy CanonEntry.name (entries f inputs) := by
  constructor
  · intro h
    exact entriesValue_same ((canonicalSerialize_iff hquote _ _).mp h)
  · intro h
    rw [canonText, canonText, h]

end Entries

section Steps

variable {f : Functions} {steps : Set (List InputRef)} {inputs other : List InputRef}

theorem entryOf_injOn (hfree : CollisionFree f steps) (hbytes : ∀ inputs ∈ steps, ∀ i ∈ inputs, i.bytes ≠ none) :
    Set.InjOn (entryOf f) {content | ∃ inputs ∈ steps, content ∈ contents inputs} := by
  rintro _ ⟨l, hl, hx⟩ _ ⟨l', hl', hy⟩ h
  obtain ⟨x, hxl, rfl⟩ := List.mem_map.mp hx
  obtain ⟨y, hyl, rfl⟩ := List.mem_map.mp hy
  obtain ⟨b, hb⟩ := Option.ne_none_iff_exists'.mp (hbytes l hl x hxl)
  obtain ⟨c, hc⟩ := Option.ne_none_iff_exists'.mp (hbytes l' hl' y hyl)
  rw [hb, hc] at h ⊢
  obtain ⟨hname, hhex⟩ := CanonEntry.mk.inj h
  have hsame : b = c := hfree.bytes ⟨l, hl, x, hxl, hb⟩ ⟨l', hl', y, hyl, hc⟩ (Hash.toHex_injective hhex)
  exact Prod.ext hname (congrArg some hsame)

theorem contents_perm (hfree : CollisionFree f steps) (hbytes : ∀ inputs ∈ steps, ∀ i ∈ inputs, i.bytes ≠ none)
    (hinputs : inputs ∈ steps) (hother : other ∈ steps)
    (h : sortBy CanonEntry.name (entries f other) = sortBy CanonEntry.name (entries f inputs)) :
    (contents other).Perm (contents inputs) := by
  refine perm_of_map_perm (entryOf_injOn hfree hbytes) (fun c hc => ⟨other, hother, hc⟩)
    (fun c hc => ⟨inputs, hinputs, hc⟩) ?_
  exact (sortBy_perm CanonEntry.name (entries f other)).symm.trans (h ▸ sortBy_perm _ _)

theorem sorted_of_perm (hnames : Unambiguous inputs) (h : (contents other).Perm (contents inputs)) :
    sortBy CanonEntry.name (entries f other) = sortBy CanonEntry.name (entries f inputs) := by
  refine (sortBy_eq_of_perm CanonEntry.name (h.symm.map (entryOf f)) fun a ha b hb hname => ?_).symm
  obtain ⟨_, hc, rfl⟩ := List.mem_map.mp ha
  obtain ⟨_, hd, rfl⟩ := List.mem_map.mp hb
  obtain ⟨x, hx, rfl⟩ := List.mem_map.mp hc
  obtain ⟨y, hy, rfl⟩ := List.mem_map.mp hd
  have hsame : x.name = y.name := hname
  have hcontent := hnames x hx y hy hsame
  rw [hsame, hcontent]

theorem bytes_of_swap (hfree : CollisionFree f steps) (hbytes : ∀ inputs ∈ steps, ∀ i ∈ inputs, i.bytes ≠ none)
    {x y : InputRef} {rest : List InputRef} (hsteps : x :: y :: rest ∈ steps) (hname : x.name = y.name)
    (h : sortBy CanonEntry.name (entries f (x :: y :: rest)) = sortBy CanonEntry.name (entries f (y :: x :: rest))) :
    x.bytes = y.bytes := by
  have hentry : entryOf f (x.name, x.bytes) = entryOf f (y.name, y.bytes) :=
    eq_of_sortBy_swap CanonEntry.name hname h
  have hmem : ∀ i ∈ [x, y], ∃ inputs ∈ steps, (i.name, i.bytes) ∈ contents inputs := by
    intro i hi
    refine ⟨_, hsteps, List.mem_map_of_mem ?_⟩
    exact List.mem_append_left rest hi
  have hcontent := entryOf_injOn hfree hbytes (hmem x List.mem_cons_self)
    (hmem y (List.mem_cons_of_mem x (List.mem_singleton_self y))) hentry
  exact (Prod.mk.inj hcontent).2

theorem stepHash_ok (f : Functions) (hbytes : ∀ i ∈ inputs, i.bytes ≠ none) (v : Validator) :
    stepHash f v inputs = .ok ⟨v.mode, v.hash (canonText f inputs)⟩ := by
  rw [stepHash, canonicalInputs_ok hbytes]
  rfl

theorem validate_eq (v : Validator) {hash : StepHash} (h : stepHash f v inputs = .ok hash)
    (previous : Option StepHash) : v.validate f inputs previous =
      .ok (if previous = some hash then .unchanged (some hash) else .fresh (some hash)) := by
  rw [Validator.validate, h]
  rfl

end Steps

section Decision

variable {f : Functions} {steps : Set (List InputRef)} {inputs other : List InputRef} {v : Validator}

theorem stepHash_iff (hquote : Quotes f.quote) (hbytes : ∀ inputs ∈ steps, ∀ i ∈ inputs, i.bytes ≠ none)
    (hcanon : Set.InjOn v.hash {canon | ∃ inputs ∈ steps, canonicalInputs f inputs v.mode = .ok canon})
    (hinputs : inputs ∈ steps) (hother : other ∈ steps) : stepHash f v other = stepHash f v inputs ↔
      sortBy CanonEntry.name (entries f other) = sortBy CanonEntry.name (entries f inputs) := by
  rw [stepHash_ok f (hbytes other hother), stepHash_ok f (hbytes inputs hinputs), ← canonText_iff hquote]
  constructor
  · intro h
    injection h with h
    injection h with _ hdigest
    exact hcanon ⟨other, hother, canonicalInputs_ok (hbytes other hother) _⟩
      ⟨inputs, hinputs, canonicalInputs_ok (hbytes inputs hinputs) _⟩ hdigest
  · intro h
    rw [h]

theorem unchanged_iff {before : List InputRef} (hbefore : ∀ i ∈ before, i.bytes ≠ none)
    (hinputs : ∀ i ∈ inputs, i.bytes ≠ none) {hash : StepHash}
    (hfresh : v.validate f before none = .ok (.fresh (some hash))) :
    (∃ h, v.validate f inputs (some hash) = .ok (.unchanged h)) ↔ stepHash f v before = stepHash f v inputs := by
  have hold := stepHash_ok f hbefore v
  have hnew := stepHash_ok f hinputs v
  rw [validate_eq v hold, if_neg (Option.some_ne_none _).symm] at hfresh
  injection hfresh with hfresh
  injection hfresh with hfresh
  rw [hold, hnew, validate_eq v hnew, Option.some_inj.mp hfresh]
  constructor
  · rintro ⟨h, hunchanged⟩
    split at hunchanged
    case isTrue hsame => rw [Option.some_inj.mp hsame]
    case isFalse => cases hunchanged
  · intro hsame
    rw [if_pos (congrArg some (Except.ok.inj hsame))]
    exact ⟨_, rfl⟩

theorem Decides.unambiguous (h : Decides f v steps inputs) (hquote : Quotes f.quote) (hfree : CollisionFree f steps)
    (hbytes : ∀ inputs ∈ steps, ∀ i ∈ inputs, i.bytes ≠ none)
    (hcanon : Set.InjOn v.hash {canon | ∃ inputs ∈ steps, canonicalInputs f inputs v.mode = .ok canon})
    (hclosed : ∀ inputs ∈ steps, ∀ other, other.Perm inputs → other ∈ steps) (hinputs : inputs ∈ steps) :
    Unambiguous inputs := by
  intro x hx y hy hname
  by_cases hxy : x = y
  · rw [hxy]
  · have hmem : y ∈ inputs.erase x := (List.mem_erase_of_ne (Ne.symm hxy)).mpr hy
    have hperm : (x :: y :: (inputs.erase x).erase y).Perm inputs :=
      ((List.perm_cons_erase hmem).symm.cons x).trans (List.perm_cons_erase hx).symm
    have hswap : (y :: x :: (inputs.erase x).erase y).Perm inputs := (List.Perm.swap x y _).trans hperm
    have hfirst := hclosed inputs hinputs _ hperm
    have hsecond := hclosed inputs hinputs _ hswap
    have hhash := (h.reordered _ hperm).trans (h.reordered _ hswap).symm
    exact bytes_of_swap hfree hbytes hfirst hname ((stepHash_iff hquote hbytes hcanon hsecond hfirst).mp hhash)

theorem decides_iff_unambiguous (hquote : Quotes f.quote) (hfree : CollisionFree f steps)
    (hbytes : ∀ inputs ∈ steps, ∀ i ∈ inputs, i.bytes ≠ none)
    (hcanon : Set.InjOn v.hash {canon | ∃ inputs ∈ steps, canonicalInputs f inputs v.mode = .ok canon})
    (hclosed : ∀ inputs ∈ steps, ∀ other, other.Perm inputs → other ∈ steps) (hinputs : inputs ∈ steps) :
    Decides f v steps inputs ↔ Unambiguous inputs := by
  refine ⟨fun h => h.unambiguous hquote hfree hbytes hcanon hclosed hinputs, fun hnames => ?_⟩
  have hdecide : ∀ other ∈ steps,
      (stepHash f v other = stepHash f v inputs ↔ (contents other).Perm (contents inputs)) := by
    intro other hother
    rw [stepHash_iff hquote hbytes hcanon hinputs hother]
    exact ⟨contents_perm hfree hbytes hinputs hother, sorted_of_perm hnames⟩
  constructor
  case reordered =>
    intro other hperm
    exact (hdecide other (hclosed inputs hinputs other hperm)).mpr (hperm.map _)
  case separated =>
    exact fun other hother => (hdecide other hother).mp
  case unchanged =>
    intro before hbefore hash hfresh
    rw [unchanged_iff (hbytes before hbefore) (hbytes inputs hinputs) hfresh, hdecide before hbefore]

end Decision

/-- Both validators are right about a step exactly if its inputs of one name have the same bytes. -/
theorem validators_iff {f : Functions} {steps : Set (List InputRef)} (hquote : Quotes f.quote)
    (hfree : CollisionFree f steps) (hbytes : ∀ inputs ∈ steps, ∀ i ∈ inputs, i.bytes ≠ none)
    (hclosed : ∀ inputs ∈ steps, ∀ other, other.Perm inputs → other ∈ steps) {inputs : List InputRef}
    (hinputs : inputs ∈ steps) : (Decides f (blake3Validator f) steps inputs ↔ Unambiguous inputs) ∧
      (Decides f (sha256Validator f) steps inputs ↔ Unambiguous inputs) :=
  ⟨decides_iff_unambiguous hquote hfree hbytes hfree.blake3 hclosed hinputs,
    decides_iff_unambiguous hquote hfree hbytes hfree.sha256 hclosed hinputs⟩

section Samples

def digestOne : Hash :=
  ⟨[214, 59, 217, 168, 38, 175, 145, 193, 254, 163, 113, 150, 90, 100, 225, 30, 226, 15, 19, 228, 107, 95, 82, 197,
    153, 1, 19, 102, 5, 179, 164, 135], rfl⟩

def digestTwo : Hash :=
  ⟨[129, 62, 155, 114, 145, 65, 231, 243, 133, 175, 160, 162, 208, 223, 62, 108, 55, 137, 228, 39, 255, 228, 174,
    239, 86, 106, 86, 91, 200, 242, 254, 61], rfl⟩

def sampleText (m n : String) (a b : Hash) : List UInt8 :=
  utf8 ("[\x7b\"bytes_b3\":\"" ++ a.toHex ++ "\",\"name\":\"" ++ m ++ "\"\x7d,\x7b\"bytes_b3\":\"" ++ b.toHex ++
    "\",\"name\":\"" ++ n ++ "\"\x7d]")

def sampleBlake3 (bytes : List UInt8) : Hash :=
  if bytes = [49] then digestOne
  else if bytes = [50] then digestTwo
  else if bytes = sampleText "x" "y" digestOne digestTwo then
    ⟨[7, 155, 90, 205, 57, 224, 73, 103, 73, 216, 67, 234, 90, 37, 150, 85, 215, 124, 73, 194, 50, 205, 70, 116, 36,
      99, 150, 102, 180, 155, 223, 222], rfl⟩
  else if bytes = sampleText "a" "a" digestOne digestTwo then
    ⟨[41, 129, 246, 233, 214, 35, 42, 219, 138, 179, 48, 183, 22, 182, 146, 151, 221, 122, 193, 201, 102, 130, 100,
      213, 166, 132, 207, 188, 159, 146, 125, 64], rfl⟩
  else
    ⟨[112, 11, 137, 136, 23, 108, 131, 225, 219, 28, 115, 29, 21, 51, 87, 245, 166, 40, 244, 101, 217, 8, 78, 240,
      72, 105, 174, 10, 91, 56, 249, 229], rfl⟩

def sampleSha256 (bytes : List UInt8) : Hash :=
  if bytes = sampleText "x" "y" digestOne digestTwo then
    ⟨[228, 101, 29, 176, 99, 225, 28, 27, 106, 22, 192, 54, 145, 88, 191, 101, 184, 168, 93, 33, 105, 119, 254, 230,
      74, 102, 114, 67, 206, 206, 178, 218], rfl⟩
  else if bytes = sampleText "a" "a" digestOne digestTwo then
    ⟨[32, 199, 79, 66, 200, 199, 220, 129, 116, 247, 12, 55, 120, 204, 63, 107, 237, 188, 126, 104, 226, 16, 51,
      161, 156, 187, 39, 194, 47, 113, 209, 100], rfl⟩
  else
    ⟨[118, 166, 25, 198, 123, 197, 9, 168, 44, 231, 28, 113, 9, 31, 156, 124, 6, 7, 92, 147, 80, 59, 111, 105, 39,
      22, 45, 122, 137, 132, 99, 128], rfl⟩

def sampleFunctions : Functions := ⟨plainQuote, sampleBlake3, sampleSha256⟩

def sampleInputs : List InputRef := [.new "x" [49], .new "y" [50]]

def reorderings (inputs : List InputRef) : Set (List InputRef) := {other | other.Perm inputs}

theorem sample_unambiguous : Unambiguous sampleInputs := by decide

theorem mem_sampleInputs {inputs : List InputRef} (h : inputs ∈ reorderings sampleInputs) {i : InputRef}
    (hi : i ∈ inputs) : i = .new "x" [49] ∨ i = .new "y" [50] := by
  exact List.mem_pair.mp ((List.Perm.mem_iff h).mp hi)

theorem sample_bytes : ∀ inputs ∈ reorderings sampleInputs, ∀ i ∈ inputs, i.bytes ≠ none := by
  intro inputs h i hi
  obtain rfl | rfl := mem_sampleInputs h hi <;> exact Option.some_ne_none _

theorem sample_free : CollisionFree sampleFunctions (reorderings sampleInputs) := by
  have hcanon : ∀ (mode : ValidationMode), {canon | ∃ inputs ∈ reorderings sampleInputs,
      canonicalInputs sampleFunctions inputs mode = .ok canon}.Subsingleton := by
    rintro mode c ⟨l, hl, hc⟩ d ⟨l', hl', hd⟩
    rw [canonicalInputs_ok (sample_bytes l hl)] at hc
    rw [canonicalInputs_ok (sample_bytes l' hl')] at hd
    injection hc with hc
    injection hd with hd
    rw [← hc, ← hd, canonText, canonText, sorted_of_perm sample_unambiguous (List.Perm.map _ hl),
      sorted_of_perm sample_unambiguous (List.Perm.map _ hl')]
  refine ⟨?_, (hcanon .blake3).injOn _, (hcanon .sha256).injOn _⟩
  have hne : sampleBlake3 [49] ≠ sampleBlake3 [50] := by decide
  rintro b ⟨l, hl, x, hx, hb⟩ c ⟨l', hl', y, hy, hc⟩ h
  obtain rfl | rfl := mem_sampleInputs hl hx <;> obtain rfl | rfl := mem_sampleInputs hl' hy <;>
    cases hb <;> cases hc
  · rfl
  · exact absurd h hne
  · exact absurd h.symm hne
  · rfl

theorem validators_iff_pair :
    canonicalInputs sampleFunctions sampleInputs .blake3 = .ok (sampleText "x" "y" digestOne digestTwo) ∧
      Decides sampleFunctions (blake3Validator sampleFunctions) (reorderings sampleInputs) sampleInputs ∧
      Decides sampleFunctions (sha256Validator sampleFunctions) (reorderings sampleInputs) sampleInputs := by
  have hclosed : ∀ inputs ∈ reorderings sampleInputs, ∀ other, other.Perm inputs → other ∈ reorderings sampleInputs :=
    fun _ h _ hperm => List.Perm.trans hperm h
  have hiff := validators_iff plainQuote_quotes sample_free sample_bytes hclosed (List.Perm.refl sampleInputs)
  exact ⟨by decide +kernel, hiff.1.mpr sample_unambiguous, hiff.2.mpr sample_unambiguous⟩

def twins : List InputRef := [.new "a" [49], .new "a" [50]]

theorem validators_twins : ¬ Decides sampleFunctions (blake3Validator sampleFunctions) (reorderings twins) twins ∧
    ¬ Decides sampleFunctions (sha256Validator sampleFunctions) (reorderings twins) twins := by
  have hswap : [InputRef.new "a" [50], .new "a" [49]].Perm twins := List.Perm.swap _ _ _
  constructor
  · intro h
    have hhash := h.reordered _ hswap
    revert hhash
    decide +kernel
  · intro h
    have hhash := h.reordered _ hswap
    revert hhash
    decide +kernel

end Samples

end Cosmon.Hashing.StepValidation
