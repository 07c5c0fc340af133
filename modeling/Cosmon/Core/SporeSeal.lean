import Cosmon.Hashing.Digest
import Cosmon.Lib.Text
import Cosmon.State.Molecule

namespace Cosmon.Core.SporeSeal

open Cosmon.Hashing.Digest Cosmon.Lib.Bytes Cosmon.Lib.Text Cosmon.State.Molecule

/-- The bytes of a slice, which are never more than a signed size can count. -/
structure Slice where
  bytes : List UInt8
  small : bytes.length < 2 ^ 63
deriving DecidableEq

structure Seal where
  moduleFile : String
  config : Option String
  properties : List String
deriving DecidableEq

structure ResolvedSeal where
  modulePath : String
  configPath : Option String
  moduleBytes : Slice
  configBytes : Option Slice
deriving DecidableEq

inductive SealStatus where
  | absent
  | verified (proofHash : String) (fromCache : Bool)
  | uncheckedToolUnavailable (proofHash : String)
  | proofFailed (proofHash detail : String)
deriving DecidableEq

inductive TlcOutcome where
  | passed
  | failed (detail : String)
  | unavailable
deriving DecidableEq

structure TlcRunner where
  available : Bool
  check : String → Option String → TlcOutcome

/-- What the cache holds, by the hash of the proof. -/
abbrev VerdictCache := String → Option Bool

/-- What is hashed: the module behind its length, and the config behind a tag that says whether it is there. -/
def proofText (moduleBytes : Slice) (configBytes : Option Slice) : List UInt8 :=
  leBytes 8 moduleBytes.bytes.length ++ (moduleBytes.bytes ++
    match configBytes with
    | some cfg => 1 :: cfg.bytes
    | none => [0])

def proofHash (blake3 : List UInt8 → Hash) (moduleBytes : Slice) (configBytes : Option Slice) : String :=
  (blake3 (proofText moduleBytes configBytes)).toHex

def boundary (b : UInt8) : Bool := !(isAsciiByte b || b = 95)
where
  isAsciiByte (b : UInt8) : Bool :=
    (48 ≤ b.toNat && b.toNat ≤ 57) || (65 ≤ b.toNat && b.toNat ≤ 90) || (97 ≤ b.toNat && b.toNat ≤ 122)

/-- `mentions_identifier`, over every window of the length of the identifier. -/
def mentionsIdentifier (haystack : List UInt8) (ident : String) : Bool :=
  let needle := utf8 ident
  if needle = [] ∨ haystack.length < needle.length then false
  else
    (List.range (haystack.length - needle.length + 1)).any fun i =>
      (haystack.drop i).take needle.length = needle &&
        (i = 0 || (haystack[i - 1]?).any boundary) && (haystack[i + needle.length]?).all boundary

def undeclaredProperty (declared : Seal) (resolved : ResolvedSeal) : Option String :=
  (declared.properties.filter fun p => trim p.toList ≠ []).find? fun p =>
    !mentionsIdentifier resolved.moduleBytes.bytes p &&
      !resolved.configBytes.any fun c => mentionsIdentifier c.bytes p

structure Call where
  declared : Option Seal
  resolved : Option ResolvedSeal
  tlc : TlcRunner
  getError : Option CosmonError
  putError : Option CosmonError

structure Reply where
  status : Except CosmonError SealStatus
  asked : Option TlcOutcome
  cache : VerdictCache

def undeclaredDetail (name : String) : String :=
  "seal declares property \x60" ++ name ++ "\x60, which appears nowhere in the proof module or its config — " ++
    "the claim is not established by anything TLC runs"

def runTlc (call : Call) (resolved : ResolvedSeal) (hash : String) (cache : VerdictCache) : Reply :=
  if call.tlc.available = false then ⟨.ok (.uncheckedToolUnavailable hash), none, cache⟩
  else
    match call.tlc.check resolved.modulePath resolved.configPath with
    | .passed =>
      match call.putError with
      | some e => ⟨.error e, some .passed, cache⟩
      | none => ⟨.ok (.verified hash false), some .passed, Function.update cache hash (some true)⟩
    | .failed detail => ⟨.ok (.proofFailed hash detail), some (.failed detail), cache⟩
    | .unavailable => ⟨.ok (.uncheckedToolUnavailable hash), some .unavailable, cache⟩

def lookUp (call : Call) (resolved : ResolvedSeal) (hash : String) (cache : VerdictCache) : Reply :=
  match call.getError with
  | some e => ⟨.error e, none, cache⟩
  | none =>
    if cache hash = some true then ⟨.ok (.verified hash true), none, cache⟩
    else runTlc call resolved hash cache

def verifySeal (blake3 : List UInt8 → Hash) (call : Call) (cache : VerdictCache) : Reply :=
  match call.declared with
  | none => ⟨.ok .absent, none, cache⟩
  | some declared =>
    match call.resolved with
    | none => ⟨.ok (.uncheckedToolUnavailable "<proof files unreadable>"), none, cache⟩
    | some resolved =>
      if resolved.configPath.isSome ∧ resolved.configBytes.isNone then
        ⟨.ok (.uncheckedToolUnavailable "<seal config unreadable>"), none, cache⟩
      else
        let hash := proofHash blake3 resolved.moduleBytes resolved.configBytes
        match undeclaredProperty declared resolved with
        | some name => ⟨.ok (.proofFailed hash (undeclaredDetail name)), none, cache⟩
        | none => lookUp call resolved hash cache

def verifyAll (blake3 : List UInt8 → Hash) : VerdictCache → List Call → List (Call × Reply)
  | _, [] => []
  | cache, call :: rest =>
    let reply := verifySeal blake3 call cache
    (call, reply) :: verifyAll blake3 reply.cache rest

/-- An identifier stands in a text with no letter of an identifier on either side. -/
def OccursWhole (haystack : List UInt8) (ident : String) : Prop :=
  ∃ front back, haystack = front ++ (utf8 ident ++ back) ∧ (∀ b ∈ front.getLast?, boundary b = true) ∧
    ∀ b ∈ back.head?, boundary b = true

def Mentioned (resolved : ResolvedSeal) (name : String) : Prop :=
  OccursWhole resolved.moduleBytes.bytes name ∨ ∃ c ∈ resolved.configBytes, OccursWhole c.bytes name

def PassedFor (resolved : ResolvedSeal) (history : List (Call × Reply)) : Prop :=
  ∃ e ∈ history, e.2.asked = some .passed ∧ ∃ checked, e.1.resolved = some checked ∧
    checked.moduleBytes = resolved.moduleBytes ∧ checked.configBytes = resolved.configBytes

/-- What a verified call promises besides its config: a pass for its bytes, and its properties in them. -/
def Established (history : List (Call × Reply)) (call : Call) : Prop :=
  ∃ declared resolved, call.declared = some declared ∧ call.resolved = some resolved ∧
    PassedFor resolved history ∧ ∀ p ∈ declared.properties, trim p.toList ≠ [] → Mentioned resolved p

def ConfigRead (call : Call) : Prop :=
  ∀ declared resolved, call.declared = some declared → call.resolved = some resolved →
    declared.config.isSome → resolved.configBytes.isSome

def Verified (reply : Reply) : Prop := ∃ hash cached, reply.status = .ok (.verified hash cached)

/-- Every verified call of a run is established by the calls up to it, and has read its config. -/
structure Honest (history : List (Call × Reply)) : Prop where
  established : ∀ before e after, history = before ++ e :: after → Verified e.2 → Established (before ++ [e]) e.1
  configs : ∀ e ∈ history, Verified e.2 → ConfigRead e.1

/-- A seal that declares a config was resolved with its path, or with its bytes. -/
def ConfigResolved (call : Call) : Prop :=
  ∀ declared resolved, call.declared = some declared → call.resolved = some resolved →
    declared.config.isSome → resolved.configPath.isSome ∨ resolved.configBytes.isSome

def BytesWithPath (call : Call) : Prop :=
  ∀ resolved, call.resolved = some resolved → resolved.configBytes.isSome → resolved.configPath.isSome

/-- The checker was run with a config exactly where the proof that it passed has one. -/
def CheckedWithConfig (e : Call × Reply) : Prop :=
  e.2.asked = some .passed → ∀ checked, e.1.resolved = some checked →
    checked.configPath.isSome = checked.configBytes.isSome

def hashed (calls : List Call) : Set (List UInt8) :=
  {text | ∃ call ∈ calls, ∃ r, call.resolved = some r ∧ proofText r.moduleBytes r.configBytes = text}

section Proofs

theorem proofText_injective {m m' : Slice} {c c' : Option Slice} (h : proofText m c = proofText m' c') :
    m = m' ∧ c = c' := by
  have hsmall : ∀ s : Slice, s.bytes.length < 256 ^ 8 := fun s => lt_trans s.small (by decide)
  have hslice : ∀ {s t : Slice}, s.bytes = t.bytes → s = t := by
    rintro ⟨_, _⟩ ⟨_, _⟩ rfl
    rfl
  obtain ⟨hm, htag⟩ := lengthPrefixed_inj (hsmall m) (hsmall m') h
  refine ⟨hslice hm, ?_⟩
  cases c with
  | none =>
    cases c' with
    | none => rfl
    | some d => cases htag
  | some d =>
    cases c' with
    | none => cases htag
    | some d' => rw [hslice (List.cons.inj htag).2]

theorem mentionsIdentifier_whole {haystack : List UInt8} {ident : String}
    (h : mentionsIdentifier haystack ident = true) : OccursWhole haystack ident := by
  simp only [mentionsIdentifier] at h
  split at h
  · cases h
  · rename_i hshort
    obtain ⟨i, hi, hwindow⟩ := List.any_eq_true.mp h
    simp only [Bool.and_eq_true, Bool.or_eq_true, decide_eq_true_eq] at hwindow
    obtain ⟨⟨hneedle, hleft⟩, hright⟩ := hwindow
    refine ⟨haystack.take i, haystack.drop (i + (utf8 ident).length), ?_, ?_, ?_⟩
    · calc haystack = haystack.take i ++ haystack.drop i := (List.take_append_drop i haystack).symm
        _ = haystack.take i ++ ((haystack.drop i).take (utf8 ident).length ++
              (haystack.drop i).drop (utf8 ident).length) :=
          congrArg (haystack.take i ++ ·) (List.take_append_drop _ _).symm
        _ = _ := by rw [hneedle, List.drop_drop]
    · intro b hb
      rw [List.getLast?_take] at hb
      split at hb
      · cases hb
      · rename_i hi0
        have hboundary := hleft.resolve_left hi0
        have hinside : i - 1 < haystack.length := by
          rw [List.mem_range] at hi
          omega
        rw [List.getElem?_eq_getElem hinside] at hb hboundary
        exact Option.mem_some_iff.mp hb ▸ hboundary
    · intro b hb
      rw [List.head?_drop] at hb
      rw [Option.mem_def.mp hb] at hright
      exact hright

theorem undeclaredProperty_none {declared : Seal} {resolved : ResolvedSeal}
    (h : undeclaredProperty declared resolved = none) :
    ∀ p ∈ declared.properties, trim p.toList ≠ [] → Mentioned resolved p := by
  intro p hp hblank
  have hfind := List.find?_eq_none.mp h p (List.mem_filter.mpr ⟨hp, decide_eq_true hblank⟩)
  rw [Bool.and_eq_true, not_and_or, Bool.not_eq_true, Bool.not_eq_false', Bool.not_eq_true, Bool.not_eq_false',
    Option.any_eq_true] at hfind
  obtain hmodule | ⟨c, hc, hconfig⟩ := hfind
  · exact Or.inl (mentionsIdentifier_whole hmodule)
  · exact Or.inr ⟨c, hc, mentionsIdentifier_whole hconfig⟩

variable {blake3 : List UInt8 → Hash}

theorem not_verified {reply : Reply} (h : ∀ hash cached, reply.status ≠ .ok (.verified hash cached)) :
    ¬ Verified reply := by
  rintro ⟨hash, cached, hstatus⟩
  exact h hash cached hstatus

theorem runTlc_cases (call : Call) (resolved : ResolvedSeal) (hash : String) (cache : VerdictCache) :
    ((runTlc call resolved hash cache).cache = cache ∧
      ¬ Verified (runTlc call resolved hash cache)) ∨
    ((runTlc call resolved hash cache).asked = some .passed ∧
      (runTlc call resolved hash cache).cache = Function.update cache hash (some true)) := by
  unfold runTlc
  split
  · exact Or.inl ⟨rfl, not_verified (fun _ _ h => by cases h)⟩
  · split
    · split
      · exact Or.inl ⟨rfl, not_verified (fun _ _ h => by cases h)⟩
      · exact Or.inr ⟨rfl, rfl⟩
    · exact Or.inl ⟨rfl, not_verified (fun _ _ h => by cases h)⟩
    · exact Or.inl ⟨rfl, not_verified (fun _ _ h => by cases h)⟩

theorem lookUp_cases (call : Call) (resolved : ResolvedSeal) (hash : String) (cache : VerdictCache) :
    ((lookUp call resolved hash cache).cache = cache ∧
      ¬ Verified (lookUp call resolved hash cache)) ∨
    (cache hash = some true ∧ (lookUp call resolved hash cache).cache = cache) ∨
    ((lookUp call resolved hash cache).asked = some .passed ∧
      (lookUp call resolved hash cache).cache = Function.update cache hash (some true)) := by
  unfold lookUp
  split
  · exact Or.inl ⟨rfl, not_verified (fun _ _ h => by cases h)⟩
  · split
    · rename_i hhit
      exact Or.inr (Or.inl ⟨hhit, rfl⟩)
    · exact (runTlc_cases call resolved hash cache).imp_right Or.inr

theorem verifySeal_unread {call : Call} {declared : Seal} {resolved : ResolvedSeal}
    (hdeclared : call.declared = some declared) (hresolved : call.resolved = some resolved)
    (hunread : resolved.configPath.isSome ∧ resolved.configBytes.isNone) (cache : VerdictCache) :
    verifySeal blake3 call cache = ⟨.ok (.uncheckedToolUnavailable "<seal config unreadable>"), none, cache⟩ := by
  rw [verifySeal, hdeclared, hresolved]
  exact if_pos hunread

theorem verifySeal_checked {call : Call} {declared : Seal} {resolved : ResolvedSeal}
    (hdeclared : call.declared = some declared) (hresolved : call.resolved = some resolved)
    (hunread : ¬ (resolved.configPath.isSome ∧ resolved.configBytes.isNone)) (cache : VerdictCache) :
    verifySeal blake3 call cache =
      match undeclaredProperty declared resolved with
      | some name =>
        ⟨.ok (.proofFailed (proofHash blake3 resolved.moduleBytes resolved.configBytes) (undeclaredDetail name)),
          none, cache⟩
      | none => lookUp call resolved (proofHash blake3 resolved.moduleBytes resolved.configBytes) cache := by
  rw [verifySeal, hdeclared, hresolved]
  exact if_neg hunread

/-- A call leaves the cache alone and verifies nothing, or it has passed the checks before the
cache and finds its verdict there, or the checker passes it now. -/
theorem verifySeal_cases (call : Call) (cache : VerdictCache) :
    ((verifySeal blake3 call cache).cache = cache ∧
      ¬ Verified (verifySeal blake3 call cache)) ∨
    ∃ declared resolved, call.declared = some declared ∧ call.resolved = some resolved ∧
      ¬ (resolved.configPath.isSome ∧ resolved.configBytes.isNone) ∧ undeclaredProperty declared resolved = none ∧
      ((cache (proofHash blake3 resolved.moduleBytes resolved.configBytes) = some true ∧
          (verifySeal blake3 call cache).cache = cache) ∨
        ((verifySeal blake3 call cache).asked = some .passed ∧ (verifySeal blake3 call cache).cache =
          Function.update cache (proofHash blake3 resolved.moduleBytes resolved.configBytes) (some true))) := by
  cases hdeclared : call.declared with
  | none => exact Or.inl (by simp [verifySeal, hdeclared, Verified])
  | some declared =>
    cases hresolved : call.resolved with
    | none => exact Or.inl (by simp [verifySeal, hdeclared, hresolved, Verified])
    | some resolved =>
      by_cases hunread : resolved.configPath.isSome ∧ resolved.configBytes.isNone
      · rw [verifySeal_unread hdeclared hresolved hunread]
        exact Or.inl ⟨rfl, not_verified (fun _ _ h => by cases h)⟩
      · have hrun := @verifySeal_checked blake3 _ _ _ hdeclared hresolved hunread cache
        cases hproperty : undeclaredProperty declared resolved with
        | some name =>
          rw [hrun, hproperty]
          exact Or.inl ⟨rfl, not_verified (fun _ _ h => by cases h)⟩
        | none =>
          rw [hproperty] at hrun
          obtain ⟨hcache, hstatus⟩ | hhit | hpassed := lookUp_cases call resolved
            (proofHash blake3 resolved.moduleBytes resolved.configBytes) cache
          · exact Or.inl (hrun ▸ ⟨hcache, hstatus⟩)
          · exact Or.inr ⟨declared, resolved, rfl, rfl, hunread, hproperty, Or.inl (hrun ▸ hhit)⟩
          · exact Or.inr ⟨declared, resolved, rfl, rfl, hunread, hproperty, Or.inr (hrun ▸ hpassed)⟩

/-- Every verdict in the cache is there for a proof that the checker passed. -/
def Cached (blake3 : List UInt8 → Hash) (history : List (Call × Reply)) (cache : VerdictCache) : Prop :=
  ∀ hash, cache hash = some true → ∃ e ∈ history, e.2.asked = some .passed ∧ ∃ checked, e.1.resolved = some checked ∧
    proofHash blake3 checked.moduleBytes checked.configBytes = hash

theorem Cached.step {history : List (Call × Reply)} {cache : VerdictCache} (h : Cached blake3 history cache)
    (call : Call) :
    Cached blake3 (history ++ [(call, verifySeal blake3 call cache)]) (verifySeal blake3 call cache).cache := by
  have hkeep : ∀ hash, cache hash = some true → ∃ e ∈ history ++ [(call, verifySeal blake3 call cache)],
      e.2.asked = some .passed ∧ ∃ checked, e.1.resolved = some checked ∧
        proofHash blake3 checked.moduleBytes checked.configBytes = hash := by
    intro hash hhash
    obtain ⟨e, he, hpassed⟩ := h hash hhash
    exact ⟨e, List.mem_append_left _ he, hpassed⟩
  obtain ⟨hcache, -⟩ | ⟨declared, resolved, -, hresolved, -, -, ⟨-, hcache⟩ | ⟨hasked, hcache⟩⟩ :=
    verifySeal_cases call cache
  · intro hash hhash
    exact hkeep hash (hcache ▸ hhash)
  · intro hash hhash
    exact hkeep hash (hcache ▸ hhash)
  · intro hash hhash
    by_cases heq : hash = proofHash blake3 resolved.moduleBytes resolved.configBytes
    · exact ⟨_, List.mem_append_right _ (List.mem_singleton_self _), hasked, resolved, hresolved, heq.symm⟩
    · rw [hcache, Function.update_of_ne heq] at hhash
      exact hkeep hash hhash

/-- A verified call has its proof passed, by this call or by an earlier one over the same bytes. -/
theorem established_step {all : List Call} (hfree : Set.InjOn blake3 (hashed all)) {history : List (Call × Reply)}
    (hhistory : ∀ e ∈ history, e.1 ∈ all) {cache : VerdictCache} (h : Cached blake3 history cache) {call : Call}
    (hcall : call ∈ all) (hverified : Verified (verifySeal blake3 call cache)) :
    Established (history ++ [(call, verifySeal blake3 call cache)]) call := by
  obtain ⟨-, hnot⟩ | ⟨declared, resolved, hdeclared, hresolved, -, hproperty, hpass⟩ :=
    verifySeal_cases call cache
  · exact absurd hverified hnot
  · refine ⟨declared, resolved, hdeclared, hresolved, ?_, undeclaredProperty_none hproperty⟩
    obtain ⟨hhit, -⟩ | ⟨hasked, -⟩ := hpass
    · obtain ⟨e, he, hasked, checked, hchecked, hhash⟩ := h _ hhit
      have htext := hfree ⟨e.1, hhistory e he, checked, hchecked, rfl⟩ ⟨call, hcall, resolved, hresolved, rfl⟩
        (Hash.toHex_injective hhash)
      obtain ⟨hmodule, hconfig⟩ := proofText_injective htext
      exact ⟨e, List.mem_append_left _ he, hasked, checked, hchecked, hmodule, hconfig⟩
    · exact ⟨_, List.mem_append_right _ (List.mem_singleton_self _), hasked, resolved, hresolved, rfl, rfl⟩

theorem established_run {all : List Call} (hfree : Set.InjOn blake3 (hashed all)) {calls : List Call}
    (hcalls : ∀ call ∈ calls, call ∈ all) {history : List (Call × Reply)} (hhistory : ∀ e ∈ history, e.1 ∈ all)
    {cache : VerdictCache} (h : Cached blake3 history cache) {before after : List (Call × Reply)} {e : Call × Reply}
    (hrun : verifyAll blake3 cache calls = before ++ e :: after) (hverified : Verified e.2) :
    Established (history ++ before ++ [e]) e.1 := by
  induction calls generalizing history cache before with
  | nil => exact absurd hrun.symm (by simp [verifyAll])
  | cons call rest ih =>
    rw [List.forall_mem_cons] at hcalls
    cases before with
    | nil =>
      obtain ⟨rfl, -⟩ := List.cons.inj hrun
      rw [List.append_nil]
      exact established_step hfree hhistory h hcalls.1 hverified
    | cons first before =>
      obtain ⟨rfl, hrest⟩ := List.cons.inj hrun
      have hnext : ∀ e ∈ history ++ [(call, verifySeal blake3 call cache)], e.1 ∈ all := by
        intro e he
        obtain he | he := List.mem_append.mp he
        · exact hhistory e he
        · exact List.mem_singleton.mp he ▸ hcalls.1
      have hlater := ih hcalls.2 hnext (h.step call) hrest
      simpa only [List.append_assoc, List.singleton_append, List.cons_append, List.nil_append] using hlater

theorem mem_verifyAll {cache : VerdictCache} {calls : List Call} {e : Call × Reply}
    (h : e ∈ verifyAll blake3 cache calls) : e.1 ∈ calls ∧ ∃ cache', e.2 = verifySeal blake3 e.1 cache' := by
  induction calls generalizing cache with
  | nil => cases h
  | cons call rest ih =>
    obtain rfl | h := List.mem_cons.mp h
    · exact ⟨List.mem_cons_self, cache, rfl⟩
    · exact (ih h).imp_left (List.mem_cons_of_mem call)

theorem configRead_of_verified {call : Call} (hcall : ConfigResolved call) {cache : VerdictCache}
    (hverified : Verified (verifySeal blake3 call cache)) : ConfigRead call := by
  obtain ⟨-, hnot⟩ | ⟨_, _, -, hresolved, hunread, -, -⟩ := verifySeal_cases call cache
  · exact absurd hverified hnot
  · intro declared resolved' hdeclared hresolved' hconfig
    obtain rfl := Option.some.inj (hresolved.symm.trans hresolved')
    obtain hpath | hbytes := hcall declared _ hdeclared hresolved' hconfig
    · by_contra hnone
      rw [Option.not_isSome_iff_eq_none] at hnone
      exact hunread ⟨hpath, Option.isNone_iff_eq_none.mpr hnone⟩
    · exact hbytes

theorem checkedWithConfig {call : Call} (hcall : BytesWithPath call) (cache : VerdictCache) :
    CheckedWithConfig (call, verifySeal blake3 call cache) := by
  intro hasked checked hchecked
  have hread : ¬ (checked.configPath.isSome ∧ checked.configBytes.isNone) := by
    intro hunread
    cases hdeclared : call.declared with
    | none => simp [verifySeal, hdeclared] at hasked
    | some declared => simp [verifySeal_unread hdeclared hchecked hunread] at hasked
  have hpath := hcall checked hchecked
  cases hp : checked.configPath <;> cases hb : checked.configBytes <;> simp_all

/-- Whatever is asked of a shared cache, a run is honest where every declared config was resolved;
and the passes were given with a config where there is one, if no bytes came without a path. -/
theorem verifyAll_honest (blake3 : List UInt8 → Hash) (calls : List Call)
    (hfree : Set.InjOn blake3 (hashed calls)) (hresolved : ∀ call ∈ calls, ConfigResolved call) :
    Honest (verifyAll blake3 (fun _ => none) calls) ∧
      ((∀ call ∈ calls, BytesWithPath call) → ∀ e ∈ verifyAll blake3 (fun _ => none) calls, CheckedWithConfig e) := by
  refine ⟨⟨?_, ?_⟩, ?_⟩
  · intro before e after hrun hverified
    have hempty : Cached blake3 [] fun _ => none := fun hash hhash => by cases hhash
    exact established_run hfree (fun call hcall => hcall) (fun e he => absurd he List.not_mem_nil) hempty hrun hverified
  · intro e he hverified
    obtain ⟨hcall, cache, hreply⟩ := mem_verifyAll he
    exact configRead_of_verified (hresolved e.1 hcall) (hreply ▸ hverified)
  · intro hpath e he
    obtain ⟨hcall, cache, hreply⟩ := mem_verifyAll he
    rw [CheckedWithConfig, hreply]
    exact checkedWithConfig (hpath e.1 hcall) cache

end Proofs

section Samples

def specModule : Slice := ⟨utf8 "P == TRUE", by decide⟩

def specConfig : Slice := ⟨utf8 "INVARIANT P", by decide⟩

def specDigest : Hash :=
  ⟨[41, 94, 184, 27, 242, 44, 113, 22, 253, 152, 86, 4, 38, 5, 163, 191, 52, 14, 100, 223, 100, 192, 74, 234, 62, 195,
    92, 247, 204, 152, 128, 81], rfl⟩

def moduleDigest : Hash :=
  ⟨[113, 128, 98, 165, 246, 86, 247, 43, 175, 97, 129, 150, 15, 139, 212, 107, 40, 95, 142, 224, 56, 57, 255, 188, 145,
    164, 182, 192, 136, 20, 29, 3], rfl⟩

def specBlake3 (text : List UInt8) : Hash :=
  if text = proofText specModule (some specConfig) then specDigest else moduleDigest

def specCall (configPath : Option String) (configBytes : Option Slice) (available : Bool) : Call where
  declared := some ⟨"spore.tla", some "spore.cfg", ["P"]⟩
  resolved := some ⟨"/s/spore.tla", configPath, specModule, configBytes⟩
  tlc := ⟨available, fun _ _ => .passed⟩
  getError := none
  putError := none

def specCalls : List Call :=
  [specCall (some "/s/spore.cfg") (some specConfig) true, specCall (some "/s/spore.cfg") (some specConfig) false]

theorem verifyAll_honest_spec :
    (verifyAll specBlake3 (fun _ => none) specCalls).map (fun e => e.2.status) =
        [.ok (.verified specDigest.toHex false), .ok (.verified specDigest.toHex true)] ∧
      Honest (verifyAll specBlake3 (fun _ => none) specCalls) := by
  have hcall : ∀ call ∈ specCalls, call.resolved =
      some ⟨"/s/spore.tla", some "/s/spore.cfg", specModule, some specConfig⟩ := by
    intro call h
    obtain rfl | rfl := List.mem_pair.mp h <;> rfl
  refine ⟨by decide +kernel, (verifyAll_honest specBlake3 specCalls ?_ ?_).1⟩
  · rintro text ⟨call, hmem, r, hr, rfl⟩ text' ⟨call', hmem', r', hr', rfl⟩ -
    rw [← Option.some.inj ((hcall call hmem).symm.trans hr), ← Option.some.inj ((hcall call' hmem').symm.trans hr')]
  · intro call hmem declared resolved _ hr _
    rw [← Option.some.inj ((hcall call hmem).symm.trans hr)]
    exact Or.inl rfl

/-- A seal that declares a config is verified although neither its path nor its bytes were there. -/
theorem verifyAll_unread_config :
    (verifyAll specBlake3 (fun _ => none) [specCall none none true]).map (fun e => e.2.status) =
        [.ok (.verified moduleDigest.toHex false)] ∧
      ¬ Honest (verifyAll specBlake3 (fun _ => none) [specCall none none true]) := by
  have hstatus : (verifySeal specBlake3 (specCall none none true) fun _ => none).status =
      .ok (.verified moduleDigest.toHex false) := by decide +kernel
  refine ⟨congrArg (fun status => [status]) hstatus, fun h => ?_⟩
  have hread := h.configs _ (List.mem_singleton_self _) ⟨_, _, hstatus⟩ _ _ rfl rfl rfl
  cases hread

end Samples

end Cosmon.Core.SporeSeal
