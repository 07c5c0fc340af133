import Cosmon.Core.HarvestAuthorization
import Cosmon.Lib.Runs

namespace Cosmon.Filestore.HarvestAdmin

open Cosmon.State.Molecule Cosmon.Core.Formulas Cosmon.Core.HarvestAuthorization
open Cosmon.Lib.Checks Cosmon.Lib.Runs Cosmon.Lib.Text

inductive RemoteHarvestPolicy where
  | disabled
  | scoped
  | sealed
deriving DecidableEq

structure HarvestAuthorityConfig where
  required : Bool
  remote : Option RemoteHarvestPolicy
deriving DecidableEq

/-- The formats of other parties: digests, minisign keys and signatures, and the table of
the configuration that is read and edited. -/
structure Formats where
  PublicKey : Type
  digest : String → String
  parseKey : String → Except String PublicKey
  verifies : PublicKey → String → String → Bool
  parseConfig : String → Option HarvestAuthorityConfig
  setRemote : String → RemoteHarvestPolicy → Option String

structure Galaxy where
  config : Option String
  harvestPub : Option String
  takeoverPub : Option String
  epoch : Option String
  pending : Bool
  rootResets : List String
deriving DecidableEq

inductive KeyOverride where
  | empty
  | file (text : String)
  | unreadable (error : CosmonError)

inductive Access where
  | lock
  | lstatRoot
  | lstatCosmonDir
  | lstatConfig
  | lstatKey
  | lstatEpoch
  | readConfig
  | readKey
  | lstatPending
  | readEpoch
  | lstatRootResets
deriving DecidableEq

/-- The surroundings of a call: `$COSMON_HARVEST_PUBKEY`, and the accesses that fail. -/
structure Process where
  keyOverride : Option KeyOverride := none
  denied : Access → Option CosmonError := fun _ => none

def Process.access (p : Process) (a : Access) : Except CosmonError Unit :=
  match p.denied a with
  | some e => .error e
  | none => .ok ()

structure HarvestAuthorityState where
  policy : Option RemoteHarvestPolicy
  keyDigest : Option String
  epoch : GrantEpoch
deriving DecidableEq

structure HarvestAuthorityUpdate where
  expectedPolicy : Option RemoteHarvestPolicy
  expectedKeyDigest : Option String
  expectedEpoch : GrantEpoch
  policy : RemoteHarvestPolicy
  publicKey : Option String
  epoch : Option GrantEpoch

def authorityFault (reason : String) : CosmonError := .stateStore reason

def parseIntError (text : List Char) : String :=
  let digits := if text.head? = some '+' ∧ text.tail ≠ [] then text.tail else text
  if text = [] then "cannot parse integer from empty string"
  else if digits.all Char.isDigit then "number too large to fit in target type"
  else "invalid digit found in string"

/-- The number in the epoch file; no file is the first epoch. -/
def Galaxy.epochValue (g : Galaxy) : Option GrantEpoch :=
  match g.epoch with
  | none => some GrantEpoch.first
  | some raw => (parseUnsigned 64 (trim raw.toList)).bind GrantEpoch.fromU64

def readEpoch (p : Process) (g : Galaxy) : Except CosmonError GrantEpoch := do
  if g.pending then .error (.stateStore "harvest_facts_unavailable: authority update needs reconciliation")
  else do
    p.access .lstatPending
    p.access .readEpoch
    match g.epochValue with
    | some epoch => .ok epoch
    | none =>
      .error (.stateStore (".cosmon/harvest.epoch does not hold a grant epoch (" ++
        parseIntError (trim (g.epoch.getD "").toList) ++
        ") — refusing rather than guessing, because a misread epoch un-revokes grants"))

def Galaxy.pinnedRoot (g : Galaxy) : Option String := g.harvestPub <|> g.takeoverPub

variable (fmt : Formats)

structure Verifier where
  key : fmt.PublicKey
  contentDigest : String

def fromPublicKeyText (text : String) : Except CosmonError (Verifier fmt) :=
  match fmt.parseKey text with
  | .ok key => .ok ⟨key, fmt.digest text⟩
  | .error e => .error (.stateStore ("the harvest key is not a minisign public key: " ++ e))

/-- `MinisignHarvestVerifier::resolve`: the override, `harvest.pub`, `takeover.pub`. -/
def resolve (p : Process) (g : Galaxy) : Except CosmonError (Option (Verifier fmt)) :=
  match p.keyOverride with
  | some .empty => .ok none
  | some (.unreadable e) => .error e
  | some (.file text) => (fromPublicKeyText fmt text).map some
  | none => do
    p.access .readKey
    match g.pinnedRoot with
    | some text => (fromPublicKeyText fmt text).map some
    | none => .ok none

def readConfig (p : Process) (g : Galaxy) : Except CosmonError (String × HarvestAuthorityConfig) := do
  p.access .readConfig
  match g.config with
  | none => .error (authorityFault "harvest_facts_unavailable")
  | some raw =>
    match fmt.parseConfig raw with
    | none => .error (authorityFault "harvest_facts_unavailable")
    | some config => .ok (raw, config)

def authorityState (p : Process) (g : Galaxy) : Except CosmonError HarvestAuthorityState := do
  let (_, config) ← readConfig fmt p g
  let verifier ← resolve fmt p g
  let epoch ← readEpoch p g
  .ok ⟨config.remote, verifier.map (·.contentDigest), epoch⟩

/-- What the current root signs before the service lets another one in. -/
def harvestRootRotationStatement (tenant priorDigest newPublicKey : String) (epoch : GrantEpoch) :
    Except GrantError String := do
  let tenant ← oneLine "tenant" tenant
  let prior ← oneLine "prior_digest" priorDigest
  .ok ("cosmon-harvest-root-rotation-v1\ntenant=" ++ tenant ++ "\nprior=" ++ prior ++ "\nnew=" ++
    fmt.digest newPublicKey ++ "\nepoch=" ++ epoch.val.repr ++ "\n")

def verifyRootRotation (p : Process) (g : Galaxy) (tenant prior key : String) (epoch : GrantEpoch)
    (signature : Option String) : Except CosmonError Unit :=
  match signature with
  | none => .error (authorityFault "harvest_rotation_signature_required")
  | some signature =>
    match harvestRootRotationStatement fmt tenant prior key epoch with
    | .error _ => .error (authorityFault "harvest_rotation_signature_invalid")
    | .ok statement => do
      match ← resolve fmt p g with
      | none => .error (authorityFault "harvest_facts_unavailable")
      | some verifier =>
        if verifier.contentDigest ≠ prior then .error (authorityFault "harvest_authority_changed")
        else if fmt.verifies verifier.key statement signature then .ok ()
        else .error (authorityFault "harvest_rotation_signature_invalid")

def configuredDocument (raw : String) (policy : RemoteHarvestPolicy) : Except CosmonError String :=
  match fmt.setRemote raw policy with
  | none => .error (authorityFault "harvest_facts_unavailable")
  | some result =>
    match fmt.parseConfig result with
    | none => .error (authorityFault "harvest_policy_conflict")
    | some _ => .ok result

structure Call where
  update : HarvestAuthorityUpdate
  remote : Option (String × Option String)
  process : Process
  /-- After so many writes the call ends: with an error, or in a crash. -/
  stop : Option (Nat × Option CosmonError)

def checkPublicKey (g : Galaxy) (call : Call) (current : HarvestAuthorityState) (nextEpoch : GrantEpoch) :
    Except CosmonError Unit :=
  match call.update.publicKey with
  | none => .ok ()
  | some key =>
    if 16 * 1024 < key.utf8ByteSize ∨ contains key "PRIVATE KEY" then
      .error (authorityFault "harvest_public_key_invalid")
    else
      match fmt.parseKey key with
      | .error _ => .error (authorityFault "harvest_public_key_invalid")
      | .ok _ =>
        if current.keyDigest.isSome ∧ current.keyDigest ≠ some (fmt.digest key) ∧
            nextEpoch ≤ current.epoch then
          .error (authorityFault "harvest_rotation_requires_epoch_bump")
        else
          match current.keyDigest.filter (· ≠ fmt.digest key), call.remote with
          | some prior, some (tenant, signature) =>
            verifyRootRotation fmt call.process g tenant prior key nextEpoch signature
          | _, _ => .ok ()

inductive Write where
  | rootReset (line : String)
  | mark
  | epoch (value : GrantEpoch)
  | key (text : String)
  | config (document : String)
  | unmark

def epochText (epoch : GrantEpoch) : String := epoch.val.repr ++ "\n"

def Write.apply (g : Galaxy) : Write → Galaxy
  | .rootReset line => { g with rootResets := g.rootResets ++ [line] }
  | .mark => { g with pending := true }
  | .epoch value => { g with epoch := some (epochText value) }
  | .key text => { g with harvestPub := some text }
  | .config document => { g with config := some document }
  | .unmark => { g with pending := false }

def replacements (update : HarvestAuthorityUpdate) (current : HarvestAuthorityState)
    (nextEpoch : GrantEpoch) : List Write :=
  (if nextEpoch ≠ current.epoch then [.epoch nextEpoch] else []) ++
    match update.publicKey with
    | some key => if current.keyDigest ≠ some (fmt.digest key) then [.key key] else []
    | none => []

def rootResets (call : Call) (current : HarvestAuthorityState) (nextEpoch : GrantEpoch) :
    Except CosmonError (List Write) :=
  match call.remote, current.keyDigest, call.update.publicKey with
  | none, some prior, some key =>
    if prior ≠ fmt.digest key then do
      call.process.access .lstatRootResets
      .ok [.rootReset ("harvest-root-reset-v1 prior=" ++ prior ++ " new=" ++ fmt.digest key ++ " epoch=" ++
        nextEpoch.val.repr ++ " intent=local")]
    else .ok []
  | _, _, _ => .ok []

def planUpdate (g : Galaxy) (call : Call) (current : HarvestAuthorityState) :
    Except CosmonError (List Write) := do
  let (raw, parsed) ← readConfig fmt call.process g
  let nextEpoch := call.update.epoch.getD current.epoch
  if call.update.policy = .scoped ∧ parsed.required then .error (authorityFault "harvest_policy_conflict")
  else if call.process.keyOverride.isSome ∧ call.update.publicKey.isSome then
    .error (authorityFault "harvest_key_source_conflict")
  else if nextEpoch < current.epoch then .error (authorityFault "harvest_epoch_rollback")
  else do
    checkPublicKey fmt g call current nextEpoch
    let document ← configuredDocument fmt raw call.update.policy
    let resets ← rootResets fmt call current nextEpoch
    -- the marker is durable before the first replacement, and goes after the last
    .ok (resets ++ .mark :: (replacements fmt call.update current nextEpoch ++ [.config document, .unmark]))

def plan (g : Galaxy) (call : Call) : Except CosmonError (List Write) := do
  [Access.lock, .lstatRoot, .lstatCosmonDir, .lstatConfig, .lstatKey, .lstatEpoch].forM call.process.access
  let current ← authorityState fmt call.process g
  if current.policy ≠ call.update.expectedPolicy ∨ current.keyDigest ≠ call.update.expectedKeyDigest ∨
      current.epoch ≠ call.update.expectedEpoch then
    .error (authorityFault "harvest_authority_changed")
  else planUpdate fmt g call current

/-- `configure_authority`: the galaxy it leaves, and its answer unless it crashes. -/
def configureAuthority (g : Galaxy) (call : Call) :
    Galaxy × Option (Except CosmonError HarvestAuthorityState) :=
  match plan fmt g call with
  | .error e => (g, some (.error e))
  | .ok writes =>
    match call.stop with
    | some (n, answer) => (stateAt Write.apply g writes n, answer.map .error)
    | none =>
      let g := stateAt Write.apply g writes writes.length
      (g, some (authorityState fmt call.process g))

section Plan

variable {fmt} {g : Galaxy} {call : Call}

theorem readEpoch_ok {p : Process} {epoch : GrantEpoch} (h : readEpoch p g = .ok epoch) :
    g.pending = false ∧ g.epochValue = some epoch := by
  unfold readEpoch at h
  obtain ⟨hpending, h⟩ := guard_ok.mp h
  obtain ⟨_, -, h⟩ := bind_ok h
  obtain ⟨_, -, h⟩ := bind_ok h
  refine ⟨Bool.eq_false_of_not_eq_true hpending, ?_⟩
  split at h
  · rename_i hvalue
    cases h
    exact hvalue
  · cases h

theorem fromPublicKeyText_digest {text : String} {verifier : Verifier fmt}
    (h : fromPublicKeyText fmt text = .ok verifier) : verifier.contentDigest = fmt.digest text := by
  unfold fromPublicKeyText at h
  split at h
  · cases h
    rfl
  · cases h

theorem resolve_digest {p : Process} {found : Option (Verifier fmt)} (hp : p.keyOverride = none)
    (h : resolve fmt p g = .ok found) : found.map (·.contentDigest) = g.pinnedRoot.map fmt.digest := by
  unfold resolve at h
  rw [hp] at h
  obtain ⟨_, -, h⟩ := bind_ok h
  cases hroot : g.pinnedRoot with
  | none =>
    rw [hroot] at h
    cases h
    rfl
  | some text =>
    rw [hroot] at h
    dsimp only at h
    cases hkey : fromPublicKeyText fmt text with
    | error e =>
      rw [hkey] at h
      cases h
    | ok verifier =>
      rw [hkey] at h
      cases h
      exact congrArg some (fromPublicKeyText_digest hkey)

theorem readConfig_ok {p : Process} {raw : String} {config : HarvestAuthorityConfig}
    (h : readConfig fmt p g = .ok (raw, config)) :
    g.config = some raw ∧ fmt.parseConfig raw = some config := by
  obtain ⟨_, -, h⟩ := bind_ok h
  cases hraw : g.config with
  | none =>
    rw [hraw] at h
    cases h
  | some text =>
    rw [hraw] at h
    dsimp only at h
    split at h
    · cases h
    · rename_i hconfig
      cases h
      exact ⟨rfl, hconfig⟩

theorem authorityState_ok {p : Process} {current : HarvestAuthorityState}
    (h : authorityState fmt p g = .ok current) :
    g.pending = false ∧ g.epochValue = some current.epoch ∧
      (p.keyOverride = none → current.keyDigest = g.pinnedRoot.map fmt.digest) := by
  obtain ⟨_, -, h⟩ := bind_ok h
  obtain ⟨verifier, hverifier, h⟩ := bind_ok h
  obtain ⟨epoch, hepoch, h⟩ := bind_ok h
  cases h
  obtain ⟨hpending, hvalue⟩ := readEpoch_ok hepoch
  exact ⟨hpending, hvalue, fun hp => resolve_digest hp hverifier⟩

/-- A plan that was made: what was checked, and the order of its writes. -/
structure Planned (fmt : Formats) (g : Galaxy) (call : Call) (writes : List Write) : Prop where
  expected : authorityState fmt call.process g =
    .ok ⟨call.update.expectedPolicy, call.update.expectedKeyDigest, call.update.expectedEpoch⟩
  forward : call.update.expectedEpoch ≤ call.update.epoch.getD call.update.expectedEpoch
  rotation : ∀ key, call.update.publicKey = some key → call.process.keyOverride = none ∧
    (call.update.expectedKeyDigest = none ∨ call.update.expectedKeyDigest = some (fmt.digest key) ∨
      call.update.expectedEpoch < call.update.epoch.getD call.update.expectedEpoch)
  order : ∃ resets raw document, (∀ w ∈ resets, ∃ line, w = .rootReset line) ∧ g.config = some raw ∧
    configuredDocument fmt raw call.update.policy = .ok document ∧
      writes = resets ++ .mark :: (replacements fmt call.update
        ⟨call.update.expectedPolicy, call.update.expectedKeyDigest, call.update.expectedEpoch⟩
          (call.update.epoch.getD call.update.expectedEpoch) ++ [.config document, .unmark])

theorem checkPublicKey_ok {current : HarvestAuthorityState} {nextEpoch : GrantEpoch}
    (h : checkPublicKey fmt g call current nextEpoch = .ok ()) {key : String}
    (hkey : call.update.publicKey = some key) :
    current.keyDigest = none ∨ current.keyDigest = some (fmt.digest key) ∨ current.epoch < nextEpoch := by
  unfold checkPublicKey at h
  rw [hkey] at h
  obtain ⟨-, h⟩ := guard_ok.mp h
  split at h
  · cases h
  · obtain ⟨hbump, -⟩ := guard_ok.mp h
    by_contra hno
    obtain ⟨hsome, hother, hlate⟩ := not_or.mp hno |>.imp id not_or.mp
    exact hbump ⟨Option.isSome_iff_ne_none.mpr hsome, hother, not_lt.mp hlate⟩

theorem rootResets_ok {current : HarvestAuthorityState} {nextEpoch : GrantEpoch} {resets : List Write}
    (h : rootResets fmt call current nextEpoch = .ok resets) : ∀ w ∈ resets, ∃ line, w = .rootReset line := by
  unfold rootResets at h
  split at h
  · split at h
    · obtain ⟨_, -, h⟩ := bind_ok h
      cases h
      intro w hw
      exact ⟨_, List.mem_singleton.mp hw⟩
    · cases h
      exact fun w hw => absurd hw List.not_mem_nil
  · cases h
    exact fun w hw => absurd hw List.not_mem_nil

theorem plan_ok {writes : List Write} (h : plan fmt g call = .ok writes) : Planned fmt g call writes := by
  obtain ⟨_, -, h⟩ := bind_ok h
  obtain ⟨current, hcurrent, h⟩ := bind_ok h
  obtain ⟨hexpected, h⟩ := guard_ok.mp h
  obtain ⟨hpolicy, hkey, hepoch⟩ := not_or.mp hexpected |>.imp id not_or.mp
  have hstate : current =
      ⟨call.update.expectedPolicy, call.update.expectedKeyDigest, call.update.expectedEpoch⟩ := by
    rw [← of_not_not hpolicy, ← of_not_not hkey, ← of_not_not hepoch]
  subst hstate
  obtain ⟨⟨raw, parsed⟩, hraw, h⟩ := bind_ok h
  obtain ⟨-, h⟩ := guard_ok.mp h
  obtain ⟨hsource, h⟩ := guard_ok.mp h
  obtain ⟨hforward, h⟩ := guard_ok.mp h
  obtain ⟨_, hcheck, h⟩ := bind_ok h
  obtain ⟨document, hdocument, h⟩ := bind_ok h
  obtain ⟨resets, hresets, h⟩ := bind_ok h
  cases h
  refine ⟨hcurrent, not_lt.mp hforward, ?_, resets, raw, document, rootResets_ok hresets,
    (readConfig_ok hraw).1, hdocument, rfl⟩
  intro key hk
  refine ⟨?_, checkPublicKey_ok hcheck hk⟩
  by_contra hoverride
  exact hsource ⟨Option.isSome_iff_ne_none.mpr hoverride, by rw [hk]; rfl⟩

theorem plan_stale (h : authorityState fmt call.process g ≠
      .ok ⟨call.update.expectedPolicy, call.update.expectedKeyDigest, call.update.expectedEpoch⟩) :
    ∃ e, plan fmt g call = .error e := by
  cases hplan : plan fmt g call with
  | error e => exact ⟨e, rfl⟩
  | ok writes => exact absurd (plan_ok hplan).expected h

theorem plan_pending (h : g.pending = true) : ∃ e, plan fmt g call = .error e := by
  apply plan_stale
  intro hstate
  cases (authorityState_ok hstate).1.symm.trans h

end Plan

section Writes

variable {fmt} {g g' : Galaxy} {call : Call}

theorem epochValue_epochText {epoch : GrantEpoch} (h : g.epoch = some (epochText epoch)) :
    g.epochValue = some epoch := by
  have htext : (epochText epoch).toList = Nat.toDigits 10 epoch.val ++ ['\n'] := by
    rw [epochText, String.toList_append, Nat.toList_repr]
    rfl
  have htrim : trim (epochText epoch).toList = Nat.toDigits 10 epoch.val := by
    rw [htext]
    exact trim_concat (fun c hc => isWhiteSpace_of_isDigit (isDigit_toDigits hc)) (by decide)
  rw [Galaxy.epochValue, h]
  dsimp only
  rw [htrim, parseUnsigned_toDigits epoch.isLt]
  exact dif_pos epoch.isLt

/-- No file that counts is different. -/
structure SameFacts (g g' : Galaxy) : Prop where
  config : g'.config = g.config
  harvestPub : g'.harvestPub = g.harvestPub
  takeoverPub : g'.takeoverPub = g.takeoverPub
  epoch : g'.epoch = g.epoch

theorem SameFacts.refl (g : Galaxy) : SameFacts g g := ⟨rfl, rfl, rfl, rfl⟩

theorem SameFacts.pinnedRoot (h : SameFacts g g') : g'.pinnedRoot = g.pinnedRoot := by
  rw [Galaxy.pinnedRoot, h.harvestPub, h.takeoverPub, Galaxy.pinnedRoot]

theorem SameFacts.epochValue (h : SameFacts g g') : g'.epochValue = g.epochValue := by
  rw [Galaxy.epochValue, h.epoch, Galaxy.epochValue]

/-- The epoch has not gone back, and it has gone on where there is another root. -/
def Advanced (g g' : Galaxy) : Prop :=
  ∀ epoch, g.epochValue = some epoch → ∃ epoch', g'.epochValue = some epoch' ∧ epoch ≤ epoch' ∧
    ∀ root, g.pinnedRoot = some root → g'.pinnedRoot = some root ∨ epoch < epoch'

theorem SameFacts.advanced (h : SameFacts g g') : Advanced g g' := by
  intro epoch hepoch
  refine ⟨epoch, ?_, le_refl epoch, fun root hroot => Or.inl ?_⟩
  · rw [h.epochValue, hepoch]
  · rw [h.pinnedRoot, hroot]

theorem Advanced.trans {g'' : Galaxy} (h : Advanced g g') (h' : Advanced g' g'') : Advanced g g'' := by
  intro epoch hepoch
  obtain ⟨epoch', hepoch', hle, hroot⟩ := h epoch hepoch
  obtain ⟨epoch'', hepoch'', hle', hroot'⟩ := h' epoch' hepoch'
  refine ⟨epoch'', hepoch'', le_trans hle hle', fun root hr => ?_⟩
  obtain hsame | hlt := hroot root hr
  · obtain hsame' | hlt := hroot' root hsame
    · exact Or.inl hsame'
    · exact Or.inr (lt_of_le_of_lt hle hlt)
  · exact Or.inr (lt_of_lt_of_le hlt hle')

theorem sameFacts_resets (g : Galaxy) {resets : List Write} (h : ∀ w ∈ resets, ∃ line, w = .rootReset line) (n : Nat) :
    SameFacts g (stateAt Write.apply g resets n) ∧
      (stateAt Write.apply g resets n).pending = g.pending := by
  refine stateAt_preserves (P := fun g' : Galaxy => SameFacts g g' ∧ g'.pending = g.pending) g ?_
    (Nat.zero_le n) ⟨SameFacts.refl g, rfl⟩
  intro k w hw hsame
  obtain ⟨line, rfl⟩ := h w (List.mem_of_getElem? hw)
  exact ⟨⟨hsame.1.config, hsame.1.harvestPub, hsame.1.takeoverPub, hsame.1.epoch⟩, hsame.2⟩

theorem pending_foldl {writes : List Write} (hmark : .mark ∈ writes) (hunmark : .unmark ∉ writes) :
    (writes.foldl Write.apply g).pending = true := by
  induction writes using List.reverseRecOn with
  | nil => exact absurd hmark List.not_mem_nil
  | append_singleton writes w ih =>
    rw [List.foldl_append, List.foldl_cons, List.foldl_nil]
    obtain ⟨hfront, hlast⟩ := not_or.mp (mt List.mem_append.mpr hunmark)
    cases w with
    | mark => rfl
    | unmark => exact absurd List.mem_cons_self hlast
    | rootReset line | epoch value | key text | config document =>
      obtain hmark | hmark := List.mem_append.mp hmark
      · exact ih hmark hfront
      · cases List.mem_singleton.mp hmark

/-- Everything that the update asks for is in its place. -/
structure Installed (fmt : Formats) (g g' : Galaxy) (call : Call) : Prop where
  config : ∃ raw document, g.config = some raw ∧
    configuredDocument fmt raw call.update.policy = .ok document ∧ g'.config = some document
  epoch : ∃ epoch, g.epochValue = some epoch ∧ g'.epochValue = some (call.update.epoch.getD epoch)
  sameRoot : call.update.publicKey = none → g'.pinnedRoot = g.pinnedRoot
  newRoot : ∀ key, call.update.publicKey = some key →
    g'.pinnedRoot.map fmt.digest = some (fmt.digest key)

structure UnderWay (g g' : Galaxy) : Prop where
  advanced : Advanced g g'
  pending : g'.pending = true

theorem Planned.epochValue {writes : List Write} (h : Planned fmt g call writes) :
    g.epochValue = some call.update.expectedEpoch := (authorityState_ok h.expected).2.1

theorem Planned.keyDigest {writes : List Write} (h : Planned fmt g call writes) {key : String}
    (hkey : call.update.publicKey = some key) :
    call.update.expectedKeyDigest = g.pinnedRoot.map fmt.digest :=
  (authorityState_ok h.expected).2.2 (h.rotation key hkey).1

theorem underWay_epoch {writes : List Write} (h : Planned fmt g call writes) (hg' : SameFacts g g')
    (hpending : g'.pending = true) {next : GrantEpoch} (hnext : call.update.expectedEpoch ≤ next) :
    let writes := if next ≠ call.update.expectedEpoch then [Write.epoch next] else []
    (∀ n, UnderWay g (stateAt Write.apply g' writes n)) ∧
      ∃ g'', writes.foldl Write.apply g' = g'' ∧ g''.pending = true ∧ g''.config = g.config ∧
        g''.epochValue = some next ∧ g''.pinnedRoot = g.pinnedRoot := by
  have hstart : UnderWay g g' := ⟨hg'.advanced, hpending⟩
  dsimp only
  by_cases hsame : next = call.update.expectedEpoch
  · rw [if_neg (not_not.mpr hsame)]
    refine ⟨forall_stateAt_nil hstart, g', rfl, hpending, hg'.config, ?_, hg'.pinnedRoot⟩
    rw [hg'.epochValue, h.epochValue, hsame]
  · rw [if_pos hsame]
    have hvalue : (Write.apply g' (.epoch next)).epochValue = some next := epochValue_epochText rfl
    have hroot : (Write.apply g' (.epoch next)).pinnedRoot = g.pinnedRoot := hg'.pinnedRoot
    refine ⟨forall_stateAt_cons hstart (forall_stateAt_nil ⟨?_, hpending⟩), _, rfl, hpending,
      hg'.config, hvalue, hroot⟩
    intro epoch hepoch
    cases h.epochValue.symm.trans hepoch
    exact ⟨next, hvalue, hnext, fun root hr => Or.inl (hroot.trans hr)⟩

theorem underWay_key {writes : List Write} (h : Planned fmt g call writes) {next : GrantEpoch}
    (hnext : next = call.update.epoch.getD call.update.expectedEpoch) (hpending : g'.pending = true)
    (hvalue : g'.epochValue = some next) (hroot : g'.pinnedRoot = g.pinnedRoot)
    (hconfig : g'.config = g.config) :
    let writes := match call.update.publicKey with
      | some key => if call.update.expectedKeyDigest ≠ some (fmt.digest key) then [Write.key key] else []
      | none => []
    (∀ n, UnderWay g (stateAt Write.apply g' writes n)) ∧
      ∃ g'', writes.foldl Write.apply g' = g'' ∧ UnderWay g g'' ∧ g''.config = g.config ∧
        g''.epochValue = some next ∧ (call.update.publicKey = none → g''.pinnedRoot = g.pinnedRoot) ∧
          ∀ key, call.update.publicKey = some key →
            g''.pinnedRoot.map fmt.digest = some (fmt.digest key) := by
  have hforward : call.update.expectedEpoch ≤ next := hnext ▸ h.forward
  have hstart : UnderWay g g' := by
    refine ⟨fun epoch hepoch => ?_, hpending⟩
    cases h.epochValue.symm.trans hepoch
    exact ⟨next, hvalue, hforward, fun root hr => Or.inl (hroot.trans hr)⟩
  dsimp only
  cases hkey : call.update.publicKey with
  | none =>
    exact ⟨forall_stateAt_nil hstart, g', rfl, hstart, hconfig, hvalue, fun _ => hroot,
      fun _ hno => nomatch hno⟩
  | some key =>
    dsimp only
    have hdigest := h.keyDigest hkey
    by_cases hsame : call.update.expectedKeyDigest = some (fmt.digest key)
    · rw [if_neg (not_not.mpr hsame)]
      refine ⟨forall_stateAt_nil hstart, g', rfl, hstart, hconfig, hvalue, fun hno => (nomatch hno), ?_⟩
      intro key' hkey'
      cases hkey'
      rw [hroot, ← hdigest, hsame]
    · rw [if_pos hsame]
      have hnew : (Write.apply g' (.key key)).pinnedRoot = some key := rfl
      have hunderWay : UnderWay g (Write.apply g' (.key key)) := by
        refine ⟨fun epoch hepoch => ?_, hpending⟩
        cases h.epochValue.symm.trans hepoch
        refine ⟨next, hvalue, hforward, fun root hr => ?_⟩
        obtain hnone | hsome | hlt := (h.rotation key hkey).2
        · rw [hdigest, hr] at hnone
          cases hnone
        · exact absurd hsome hsame
        · rw [hnext]
          exact Or.inr hlt
      refine ⟨forall_stateAt_cons hstart (forall_stateAt_nil hunderWay), _, rfl, hunderWay, hconfig,
        hvalue, fun hno => (nomatch hno), ?_⟩
      intro key' hkey'
      cases hkey'
      exact congrArg (Option.map fmt.digest) hnew

/-- What a galaxy may look like when a call has ended, whatever stopped it. -/
structure Left (fmt : Formats) (g g' : Galaxy) (call : Call) : Prop where
  advanced : Advanced g g'
  settled : g'.pending = false → SameFacts g g' ∨ Installed fmt g g' call

theorem UnderWay.left (h : UnderWay g g') : Left fmt g g' call :=
  ⟨h.advanced, fun hno => nomatch hno.symm.trans h.pending⟩

/-- The two replacements, the configuration and the end of the marker, stopped
anywhere. -/
theorem planned_left {writes : List Write} (h : Planned fmt g call writes) (n : Nat) :
    Left fmt g (stateAt Write.apply g writes n) call := by
  obtain ⟨resets, raw, document, hresets, hraw, hdocument, rfl⟩ := h.order
  refine forall_stateAt_append (P := fun g' => Left fmt g g' call) ?_ ?_ n
  · intro k
    have hsame := (sameFacts_resets g hresets k).1
    exact ⟨hsame.advanced, fun _ => Or.inl hsame⟩
  · have hreset : SameFacts g (resets.foldl Write.apply g) := by
      rw [← stateAt_length]
      exact (sameFacts_resets g hresets _).1
    have hstart : Left fmt g (resets.foldl Write.apply g) call :=
      ⟨hreset.advanced, fun _ => Or.inl hreset⟩
    refine forall_stateAt_cons (P := fun g' => Left fmt g g' call) hstart ?_
    have hmarked : SameFacts g (Write.apply (resets.foldl Write.apply g) .mark) :=
      ⟨hreset.config, hreset.harvestPub, hreset.takeoverPub, hreset.epoch⟩
    rw [replacements, List.append_assoc]
    obtain ⟨hfirst, g₁, hg₁, hpending₁, hconfig₁, hvalue₁, hroot₁⟩ :=
      underWay_epoch h hmarked rfl h.forward
    refine forall_stateAt_append (P := fun g' => Left fmt g g' call) (fun k => (hfirst k).left) ?_
    rw [hg₁]
    obtain ⟨hsecond, g₂, hg₂, hunderWay, hconfig₂, hvalue₂, hkept, hnew⟩ :=
      underWay_key h rfl hpending₁ hvalue₁ hroot₁ hconfig₁
    refine forall_stateAt_append (P := fun g' => Left fmt g g' call) (fun k => (hsecond k).left) ?_
    rw [hg₂]
    have hconfigured : UnderWay g (Write.apply g₂ (.config document)) :=
      ⟨hunderWay.advanced, hunderWay.pending⟩
    have hdone : Left fmt g (Write.apply (Write.apply g₂ (.config document)) .unmark) call :=
      ⟨hunderWay.advanced, fun _ => Or.inr ⟨⟨raw, document, hraw, hdocument, rfl⟩,
        ⟨_, h.epochValue, hvalue₂⟩, hkept, hnew⟩⟩
    refine forall_stateAt_cons (P := fun g' => Left fmt g g' call) hunderWay.left ?_
    refine forall_stateAt_cons (P := fun g' => Left fmt g g' call) hconfigured.left ?_
    exact forall_stateAt_nil (P := fun g' => Left fmt g g' call) hdone

theorem configureAuthority_left (fmt : Formats) (g : Galaxy) (call : Call) :
    Left fmt g (configureAuthority fmt g call).1 call := by
  unfold configureAuthority
  cases hplan : plan fmt g call with
  | error e => exact ⟨(SameFacts.refl g).advanced, fun _ => Or.inl (SameFacts.refl g)⟩
  | ok writes =>
    cases call.stop with
    | none => exact planned_left (plan_ok hplan) _
    | some stop => exact planned_left (plan_ok hplan) stop.1

theorem configureAuthority_pending (h : g.pending = true) : (configureAuthority fmt g call).1 = g := by
  obtain ⟨e, he⟩ : ∃ e, plan fmt g call = .error e := plan_pending h
  rw [configureAuthority, he]

theorem authorityState_congr (h : SameFacts g g') (hpending : g'.pending = g.pending) (p : Process) :
    authorityState fmt p g' = authorityState fmt p g := by
  have hconfig : readConfig fmt p g' = readConfig fmt p g := by
    rw [readConfig, readConfig, h.config]
  have hresolve : resolve fmt p g' = resolve fmt p g := by
    unfold resolve
    rw [h.pinnedRoot]
  have hepoch : readEpoch p g' = readEpoch p g := by
    unfold readEpoch
    rw [hpending, h.epochValue, h.epoch]
  rw [authorityState, authorityState, hconfig, hresolve, hepoch]

end Writes

def updatePending : CosmonError :=
  .stateStore "harvest_facts_unavailable: authority update needs reconciliation"

theorem readEpoch_pending {g : Galaxy} (h : g.pending = true) (p : Process) :
    readEpoch p g = .error updatePending := by
  rw [readEpoch, if_pos h, updatePending]

/-- Calls one after the other, and the operator who takes the marker away. -/
inductive Op where
  | configure (call : Call)
  | removeMarker

def Op.step (g : Galaxy) : Op → Galaxy
  | .configure call => (configureAuthority fmt g call).1
  | .removeMarker => { g with pending := false }

variable (start : Galaxy) (ops : List Op)

def galaxyAt (n : Nat) : Galaxy := stateAt (Op.step fmt) start ops n

structure AuthorityKept : Prop where
  epoch : ∀ i j p p' epoch epoch', i ≤ j → readEpoch p (galaxyAt fmt start ops i) = .ok epoch →
    readEpoch p' (galaxyAt fmt start ops j) = .ok epoch' → epoch ≤ epoch'
  root : ∀ i j p p' epoch epoch' root root', i ≤ j →
    readEpoch p (galaxyAt fmt start ops i) = .ok epoch →
    readEpoch p' (galaxyAt fmt start ops j) = .ok epoch' →
    (galaxyAt fmt start ops i).pinnedRoot = some root →
    (galaxyAt fmt start ops j).pinnedRoot = some root' → root ≠ root' → epoch < epoch'
  stale : ∀ n call, ops[n]? = some (.configure call) →
    authorityState fmt call.process (galaxyAt fmt start ops n) ≠
      .ok ⟨call.update.expectedPolicy, call.update.expectedKeyDigest, call.update.expectedEpoch⟩ →
    galaxyAt fmt start ops (n + 1) = galaxyAt fmt start ops n ∧
      ∃ e, (configureAuthority fmt (galaxyAt fmt start ops n) call).2 = some (.error e)
  /-- A call that stops between the two writes of the marker leaves the marker. -/
  interrupted : ∀ n call writes k answer, ops[n]? = some (.configure call) →
    plan fmt (galaxyAt fmt start ops n) call = .ok writes → call.stop = some (k, answer) →
    .mark ∈ writes.take k → .unmark ∉ writes.take k → (galaxyAt fmt start ops (n + 1)).pending = true
  /-- While the marker is there nothing is read and nothing is written. -/
  refused : ∀ n m, n ≤ m → (galaxyAt fmt start ops n).pending = true →
    (∀ k, n ≤ k → k < m → ops[k]? ≠ some .removeMarker) →
    galaxyAt fmt start ops m = galaxyAt fmt start ops n ∧
      ∀ p, readEpoch p (galaxyAt fmt start ops m) = .error updatePending
  /-- What can be read after a call is what could be read before it, or all that it
  asked for. -/
  coherent : ∀ n call p facts, ops[n]? = some (.configure call) →
    authorityState fmt p (galaxyAt fmt start ops (n + 1)) = .ok facts →
    authorityState fmt p (galaxyAt fmt start ops n) = .ok facts ∨
      Installed fmt (galaxyAt fmt start ops n) (galaxyAt fmt start ops (n + 1)) call

section Runs

variable {fmt start ops}

theorem galaxyAt_configure {n : Nat} {call : Call} (h : ops[n]? = some (.configure call)) :
    galaxyAt fmt start ops (n + 1) = (configureAuthority fmt (galaxyAt fmt start ops n) call).1 :=
  stateAt_succ _ h _

theorem galaxyAt_advanced {i j : Nat} (hij : i ≤ j) :
    Advanced (galaxyAt fmt start ops i) (galaxyAt fmt start ops j) := by
  refine stateAt_preserves (P := Advanced (galaxyAt fmt start ops i)) start ?_ hij
    (SameFacts.refl _).advanced
  intro n op _ h
  cases op with
  | configure call => exact h.trans (configureAuthority_left fmt _ call).advanced
  | removeMarker => exact h.trans (SameFacts.advanced ⟨rfl, rfl, rfl, rfl⟩)

theorem galaxyAt_pending {n m : Nat} (hnm : n ≤ m) (hpending : (galaxyAt fmt start ops n).pending = true)
    (hkeep : ∀ k, n ≤ k → k < m → ops[k]? ≠ some .removeMarker) :
    galaxyAt fmt start ops m = galaxyAt fmt start ops n := by
  induction m, hnm using Nat.le_induction with
  | base => rfl
  | succ m hle ih =>
    have hm := ih fun k hnk hkm => hkeep k hnk (Nat.lt_succ_of_lt hkm)
    cases hop : ops[m]? with
    | none => exact (stateAt_none _ hop _).trans hm
    | some op =>
      cases op with
      | configure call =>
        rw [galaxyAt_configure hop, configureAuthority_pending (hm ▸ hpending), hm]
      | removeMarker => exact absurd hop (hkeep m hle (Nat.lt_succ_self m))

end Runs

theorem authorityKept : AuthorityKept fmt start ops where
  epoch i j p p' epoch epoch' hij hi hj := by
    obtain ⟨later, hlater, hle, -⟩ := galaxyAt_advanced hij epoch (readEpoch_ok hi).2
    cases hlater.symm.trans (readEpoch_ok hj).2
    exact hle
  root i j p p' epoch epoch' root root' hij hi hj hroot hroot' hne := by
    obtain ⟨later, hlater, -, hmoved⟩ := galaxyAt_advanced hij epoch (readEpoch_ok hi).2
    cases hlater.symm.trans (readEpoch_ok hj).2
    obtain hsame | hlt := hmoved root hroot
    · exact absurd (Option.some.inj (hsame.symm.trans hroot')) hne
    · exact hlt
  stale n call hop hstale := by
    obtain ⟨e, he⟩ := plan_stale hstale
    rw [galaxyAt_configure hop, configureAuthority, he]
    exact ⟨rfl, e, rfl⟩
  interrupted n call writes k answer hop hplan hstop hmark hunmark := by
    rw [galaxyAt_configure hop, configureAuthority, hplan, hstop]
    exact pending_foldl hmark hunmark
  refused n m hnm hpending hkeep := by
    have hm := galaxyAt_pending hnm hpending hkeep
    rw [hm]
    exact ⟨rfl, readEpoch_pending hpending⟩
  coherent n call p facts hop hfacts := by
    have hread := (authorityState_ok hfacts).1
    rw [galaxyAt_configure hop] at hfacts hread ⊢
    obtain hsame | hinstalled := (configureAuthority_left fmt _ call).settled hread
    · refine Or.inl ?_
      cases hbefore : (galaxyAt fmt start ops n).pending with
      | true =>
        rw [configureAuthority_pending hbefore] at hread
        cases hread.symm.trans hbefore
      | false =>
        rw [← authorityState_congr hsame (hread.trans hbefore.symm)]
        exact hfacts
    · exact Or.inr hinstalled

end Cosmon.Filestore.HarvestAdmin
