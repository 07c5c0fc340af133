import Cosmon.Core.SporeGates
import Cosmon.Lib.Replace
import Cosmon.Lib.UnixPath

namespace Cosmon.Core.SporeOutput

open Cosmon.Core.Formulas Cosmon.Core.Spores Cosmon.Core.SporeExpand Cosmon.Core.SporeCalls
open Cosmon.Core.SporeGates
open Cosmon.Lib Cosmon.Lib.Checks Cosmon.Lib.Replace Cosmon.Lib.UnixPath

inductive OsUnit where
  | char (c : Char)
  | invalid (bytes : List UInt8)
deriving DecidableEq

abbrev OsStr := List OsUnit

def osStr (text : String) : OsStr := text.toList.map .char

/-- A sequence that is no character reads as the replacement character. -/
def OsUnit.lossy : OsUnit → Char
  | .char c => c
  | .invalid _ => '\uFFFD'

def toStringLossy (s : OsStr) : String := String.ofList (s.map OsUnit.lossy)

def slash : OsUnit := .char '/'

def dot : OsUnit := .char '.'

def outputDirVar : String := "output_dir"

def runDirVar : String := "run_dir"

def outputDirToken : String := "$\x7boutput_dir\x7d"

def runDirToken : String := "$\x7brun_dir\x7d"

inductive ForbiddenOutput where
  | insideSporeDefinition
  | repoRoot
  | escapesRunHome
deriving DecidableEq

inductive RefusedOutputHome where
  | escaped (aliasName : String)
  | caseAliased (first second : String)
deriving DecidableEq

/-- One component of `resolve_traversal`, over the components of the path built so far. -/
def resolveComponent (out : List (Component OsUnit)) : Component OsUnit → List (Component OsUnit)
  | .curDir => out
  | .parentDir =>
    -- `pop` has nothing to take from an empty path, nor from the root
    if out.getLast?.getD .rootDir = .rootDir then out ++ [.parentDir] else out.dropLast
  | .rootDir => [.rootDir]
  | .normal name => out ++ [.normal name]

def resolveTraversal (path : OsStr) : List (Component OsUnit) :=
  (components slash dot path).foldl resolveComponent []

def nodeOutputDir (runDir : OsStr) (aliasName : String) : Except ForbiddenOutput OsStr :=
  if components slash dot (osStr aliasName) = [.normal (osStr aliasName)] then
    let composed := join slash runDir (osStr aliasName)
    let base := resolveTraversal runDir
    let resolved := resolveTraversal composed
    if resolved = base ∨ ¬ base <+: resolved then .error .escapesRunHome else .ok composed
  else .error .escapesRunHome

def asciiLowercase (text : String) : String := String.ofList (text.toList.map Char.toLower)

def refuseFrom : List (String × String) → List NucleateCall → Except RefusedOutputHome Unit
  | _, [] => .ok ()
  | seen, call :: rest =>
    let folded := asciiLowercase call.aliasName
    match seen.find? fun p => p.1 = folded with
    | some p => .error (.caseAliased p.2 call.aliasName)
    | none => refuseFrom (seen ++ [(folded, call.aliasName)]) rest

def refuseCaseAliasedHomes (calls : List NucleateCall) : Except RefusedOutputHome Unit := refuseFrom [] calls

def contains (text token : String) : Bool := token.toList <:+: text.toList

def replace (text token new : String) : String :=
  String.ofList (replaceAll token.toList new.toList text.toList)

def resolveTokens (outputDir runDir value : String) : String :=
  let value := if contains value outputDirToken then replace value outputDirToken outputDir else value
  if contains value runDirToken then replace value runDirToken runDir else value

/-- `BTreeMap::insert`. -/
def insertVar (name value : String) (vars : List (String × String)) : List (String × String) :=
  if name ∈ vars.map Prod.fst then Keyed.set Prod.fst (name, value) vars
  else Keyed.insert Prod.fst (name, value) vars

def injectCall (outputDir runDir : String) (call : NucleateCall) : NucleateCall :=
  let vars := call.vars.map fun p => (p.1, resolveTokens outputDir runDir p.2)
  { call with vars := insertVar runDirVar runDir (insertVar outputDirVar outputDir vars) }

def checkHome (runDir : OsStr) (call : NucleateCall) : Except RefusedOutputHome Unit :=
  match nodeOutputDir runDir call.aliasName with
  | .ok _ => .ok ()
  | .error _ => .error (.escaped call.aliasName)

def checkHomes (runDir : OsStr) (calls : List NucleateCall) : Except RefusedOutputHome Unit :=
  calls.forM (checkHome runDir)

def injectEach (runDir : OsStr) : List NucleateCall → List NucleateCall × Except RefusedOutputHome Unit
  | [] => ([], .ok ())
  | call :: rest =>
    match nodeOutputDir runDir call.aliasName with
    | .error _ => (call :: rest, .error (.escaped call.aliasName))
    | .ok outputDir =>
      let injected := injectCall (toStringLossy outputDir) (toStringLossy runDir) call
      let more := injectEach runDir rest
      (injected :: more.1, more.2)

def injectRunOutputs (calls : List NucleateCall) (runDir : OsStr) :
    List NucleateCall × Except RefusedOutputHome Unit :=
  match checkHomes runDir calls with
  | .error e => (calls, .error e)
  | .ok () =>
    match refuseCaseAliasedHomes calls with
    | .error e => (calls, .error e)
    | .ok () => injectEach runDir calls

def PlainAlias (aliasName : String) : Prop := Plain slash dot (osStr aliasName)

def CaseDistinct (calls : List NucleateCall) : Prop :=
  calls.Pairwise fun c d => asciiLowercase c.aliasName ≠ asciiLowercase d.aliasName

/-- A directory strictly under another one, reached by names only. -/
def StrictlyUnder (base path : OsStr) : Prop :=
  ∃ names : List OsStr, names ≠ [] ∧ components slash dot path = components slash dot base ++ names.map .normal

def TokenFree (text : String) : Prop :=
  ¬ outputDirToken.toList <:+: text.toList ∧ ¬ runDirToken.toList <:+: text.toList

/-- What a call list promises once the homes are handed out. -/
structure Homed (runDir : OsStr) (calls : List NucleateCall) : Prop where
  homes : ∀ c ∈ calls, ∃ home, c.vars.lookup outputDirVar = some (toStringLossy home) ∧ StrictlyUnder runDir home
  distinct : calls.Pairwise fun c d => ∀ home ∈ c.vars.lookup outputDirVar, ∀ home' ∈ d.vars.lookup outputDirVar,
    asciiLowercase home ≠ asciiLowercase home'
  resolved : ∀ c ∈ calls, ∀ p ∈ c.vars, TokenFree p.2

/-- A pass either refuses and leaves the calls alone, or hands every call its home. -/
def Promised (runDir : OsStr) (calls : List NucleateCall) : Prop :=
  (∃ e, injectRunOutputs calls runDir = (calls, .error e)) ∨
    ∃ homed, injectRunOutputs calls runDir = (homed, .ok ()) ∧ Homed runDir homed

/-- The alias holds no token, and nowhere does a value go on after `${output_dir}` with the rest of
the token that the alias ends in the middle of. -/
def Seamless (call : NucleateCall) : Prop :=
  TokenFree call.aliasName ∧ ∀ p ∈ call.vars, p.1 ≠ outputDirVar → p.1 ≠ runDirVar →
    ∀ front back : List Char, front ≠ [] → back ≠ [] → front ++ back = outputDirToken.toList →
      front <:+ call.aliasName.toList → ¬ outputDirToken.toList ++ back <:+: p.2.toList

section Homes

variable {runDir : OsStr}

theorem resolveTraversal_join {aliasName : String} (h : PlainAlias aliasName) :
    resolveTraversal (join slash runDir (osStr aliasName)) =
      resolveTraversal runDir ++ [.normal (osStr aliasName)] := by
  rw [resolveTraversal, components_join h, List.foldl_append]
  rfl

theorem nodeOutputDir_plain {aliasName : String} (h : PlainAlias aliasName) :
    nodeOutputDir runDir aliasName = .ok (join slash runDir (osStr aliasName)) := by
  rw [nodeOutputDir, if_pos (components_eq_normal.mpr h)]
  apply if_neg
  rw [resolveTraversal_join h, not_or, not_not]
  exact ⟨by simp, List.prefix_append _ _⟩

theorem nodeOutputDir_refused {aliasName : String} (h : ¬ PlainAlias aliasName) :
    nodeOutputDir runDir aliasName = .error .escapesRunHome :=
  if_neg (mt components_eq_normal.mp h)

theorem strictlyUnder_join {aliasName : String} (h : PlainAlias aliasName) :
    StrictlyUnder runDir (join slash runDir (osStr aliasName)) :=
  ⟨[osStr aliasName], List.cons_ne_nil _ _, components_join h runDir⟩

theorem checkHomes_ok {calls : List NucleateCall} :
    checkHomes runDir calls = .ok () ↔ ∀ c ∈ calls, PlainAlias c.aliasName := by
  induction calls with
  | nil => exact iff_of_true rfl fun c hc => absurd hc List.not_mem_nil
  | cons call rest ih =>
    rw [List.forall_mem_cons, ← ih]
    change (checkHome runDir call >>= fun _ => checkHomes runDir rest) = .ok () ↔ _
    by_cases h : PlainAlias call.aliasName
    · rw [checkHome, nodeOutputDir_plain h]
      exact (and_iff_right h).symm
    · rw [checkHome, nodeOutputDir_refused h]
      exact iff_of_false (fun hok => by cases hok) fun hok => h hok.1

theorem refuseFrom_ok {calls : List NucleateCall} {seen : List (String × String)} :
    refuseFrom seen calls = .ok () ↔
      (∀ c ∈ calls, asciiLowercase c.aliasName ∉ seen.map Prod.fst) ∧ CaseDistinct calls := by
  induction calls generalizing seen with
  | nil => exact iff_of_true rfl ⟨fun c hc => absurd hc List.not_mem_nil, List.Pairwise.nil⟩
  | cons call rest ih =>
    rw [List.forall_mem_cons, CaseDistinct, List.pairwise_cons, refuseFrom]
    cases hfind : seen.find? fun p => p.1 = asciiLowercase call.aliasName with
    | some p =>
      have hp : p.1 = asciiLowercase call.aliasName := by simpa using List.find?_some hfind
      have hmem : asciiLowercase call.aliasName ∈ seen.map Prod.fst :=
        hp ▸ List.mem_map_of_mem (List.mem_of_find?_eq_some hfind)
      exact iff_of_false (fun h => by cases h) fun h => h.1.1 hmem
    | none =>
      have hfresh : asciiLowercase call.aliasName ∉ seen.map Prod.fst := by
        rw [List.mem_map]
        rintro ⟨p, hp, heq⟩
        exact List.find?_eq_none.mp hfind p hp (decide_eq_true heq)
      simp only [ih, List.map_append, List.map_cons, List.map_nil, List.mem_append, List.mem_singleton, not_or,
        hfresh, not_false_eq_true, true_and, forall_and, CaseDistinct, ne_eq, eq_comm, and_assoc]

def handed (runDir : OsStr) (call : NucleateCall) : NucleateCall :=
  injectCall (toStringLossy (join slash runDir (osStr call.aliasName))) (toStringLossy runDir) call

theorem injectEach_plain {calls : List NucleateCall} (h : ∀ c ∈ calls, PlainAlias c.aliasName) :
    injectEach runDir calls = (calls.map (handed runDir), .ok ()) := by
  induction calls with
  | nil => rfl
  | cons call rest ih =>
    rw [List.forall_mem_cons] at h
    rw [injectEach, nodeOutputDir_plain h.1, ih h.2]
    rfl

theorem injectRunOutputs_accepted {calls : List NucleateCall} (hplain : ∀ c ∈ calls, PlainAlias c.aliasName)
    (hdistinct : CaseDistinct calls) : injectRunOutputs calls runDir = (calls.map (handed runDir), .ok ()) := by
  rw [injectRunOutputs, checkHomes_ok.mpr hplain, refuseCaseAliasedHomes,
    refuseFrom_ok.mpr ⟨fun c _ => List.not_mem_nil, hdistinct⟩]
  exact injectEach_plain hplain

theorem injectRunOutputs_refused {calls : List NucleateCall}
    (h : ¬ ((∀ c ∈ calls, PlainAlias c.aliasName) ∧ CaseDistinct calls)) :
    ∃ e, injectRunOutputs calls runDir = (calls, .error e) := by
  unfold injectRunOutputs
  cases hcheck : checkHomes runDir calls with
  | error e => exact ⟨e, rfl⟩
  | ok done =>
    cases hcase : refuseCaseAliasedHomes calls with
    | error e => exact ⟨e, rfl⟩
    | ok done' => exact absurd ⟨checkHomes_ok.mp hcheck, (refuseFrom_ok.mp hcase).2⟩ h

theorem injectRunOutputs_not_escaped {calls : List NucleateCall} (hplain : ∀ c ∈ calls, PlainAlias c.aliasName)
    (aliasName : String) : (injectRunOutputs calls runDir).2 ≠ .error (.escaped aliasName) := by
  have hseen : ∀ {seen : List (String × String)} {calls : List NucleateCall},
      refuseFrom seen calls ≠ .error (.escaped aliasName) := by
    intro seen calls
    induction calls generalizing seen with
    | nil => exact fun h => by cases h
    | cons call rest ih =>
      rw [refuseFrom]
      split
      · exact fun h => by cases h
      · exact ih
  rw [injectRunOutputs, checkHomes_ok.mpr hplain]
  cases hcase : refuseCaseAliasedHomes calls with
  | error e =>
    rintro ⟨⟩
    exact hseen hcase
  | ok done =>
    rw [injectEach_plain hplain]
    exact fun h => by cases h

end Homes

section Tokens

def outputBody : List Char := "\x7boutput_dir\x7d".toList

def runBody : List Char := "\x7brun_dir\x7d".toList

theorem outputDirToken_toList : outputDirToken.toList = '$' :: outputBody := rfl

theorem runDirToken_toList : runDirToken.toList = '$' :: runBody := rfl

theorem osStr_lossy (text : String) : (osStr text).map OsUnit.lossy = text.toList := by
  rw [osStr, List.map_map]
  exact List.map_id _

theorem lossy_dollar {u : OsUnit} (h : u.lossy = '$') : u = .char '$' := by
  cases u with
  | char c => exact congrArg OsUnit.char h
  | invalid bytes =>
    have hne : '\uFFFD' ≠ '$' := by decide
    exact absurd h hne

def homeFront (runDir : OsStr) : List Char :=
  runDir.map OsUnit.lossy ++ if runDir.getLast? = some slash then [] else ['/']

theorem toStringLossy_join {runDir : OsStr} (habs : isAbsolute slash runDir = true) {aliasName : String}
    (h : PlainAlias aliasName) :
    (toStringLossy (join slash runDir (osStr aliasName))).toList = homeFront runDir ++ aliasName.toList := by
  have hrel : ¬ isAbsolute slash (osStr aliasName) = true := fun hslash =>
    h.2.1 (List.mem_of_head? (of_decide_eq_true hslash))
  have hne : runDir ≠ [] := by
    rintro rfl
    cases habs
  rw [toStringLossy, String.toList_ofList, join, if_neg hrel, homeFront]
  split
  · rename_i hend
    rw [if_pos (hend.resolve_left hne), List.map_append, osStr_lossy, List.append_nil]
  · rename_i hend
    rw [if_neg (not_or.mp hend).2, List.map_append, List.map_cons, osStr_lossy, List.append_assoc]
    rfl

theorem toStringLossy_root {runDir : OsStr} (habs : isAbsolute slash runDir = true) (hdollar : .char '$' ∉ runDir) :
    (∃ rest, (toStringLossy runDir).toList = '/' :: rest) ∧ '$' ∉ (toStringLossy runDir).toList := by
  rw [toStringLossy, String.toList_ofList]
  constructor
  · obtain ⟨rest, rfl⟩ := List.head?_eq_some_iff.mp (of_decide_eq_true habs)
    exact ⟨rest.map OsUnit.lossy, rfl⟩
  · rw [List.mem_map]
    rintro ⟨u, hu, heq⟩
    exact hdollar (lossy_dollar heq ▸ hu)

theorem homeFront_root {runDir : OsStr} (habs : isAbsolute slash runDir = true) (hdollar : .char '$' ∉ runDir) :
    (∃ rest, homeFront runDir = '/' :: rest) ∧ '$' ∉ homeFront runDir := by
  obtain ⟨⟨rest, hrest⟩, hnone⟩ := toStringLossy_root habs hdollar
  rw [toStringLossy, String.toList_ofList] at hrest hnone
  constructor
  · rw [homeFront, hrest]
    exact ⟨_, rfl⟩
  · rw [homeFront, List.mem_append, not_or]
    refine ⟨hnone, ?_⟩
    split <;> simp

theorem resolveTokens_toList (outputDir runDir value : String) :
    (resolveTokens outputDir runDir value).toList =
      replaceAll runDirToken.toList runDir.toList (replaceAll outputDirToken.toList outputDir.toList value.toList) := by
  have hone : ∀ value token new : String, (if contains value token then replace value token new else value).toList =
      replaceAll token.toList new.toList value.toList := by
    intro value token new
    split
    · rw [replace, String.toList_ofList]
    · rename_i h
      rw [replaceAll_of_absent]
      simpa [contains] using h
  rw [resolveTokens, hone, hone]

theorem dollar_mem {p q body : List Char} (hp : p ≠ []) (h : p ++ q = '$' :: body) :
    ∃ p', p = '$' :: p' ∧ p' ++ q = body := by
  cases p with
  | nil => exact absurd rfl hp
  | cons c p' =>
    cases h
    exact ⟨p', rfl, rfl⟩

section Passes

variable {front rest run : List Char} {aliasName outputDir runDir : String} {value between : List Char}

theorem infix_of_second (hrun : runDir.toList = '/' :: run) (hdollar : '$' ∉ runDir.toList) {body : List Char}
    (hslash : '/' ∉ '$' :: body)
    (h : '$' :: body <:+: replaceAll ('$' :: runBody) runDir.toList between) :
    body ≠ runBody ∧ '$' :: body <:+: between := by
  rw [hrun] at h hdollar
  have hsecond := replaced_replaceAll (List.cons_ne_nil '$' runBody) ('/' :: run) between
  obtain hnew | ⟨p, q, hp, -, heq, hsuffix, -⟩ | ⟨hne, hinfix⟩ :=
    hsecond.infix_of (List.cons_ne_nil '$' body) hslash h
  · exact absurd (hnew.subset List.mem_cons_self) hdollar
  · obtain ⟨p', rfl, -⟩ := dollar_mem hp heq
    exact absurd (hsuffix.subset List.mem_cons_self) hdollar
  · exact ⟨fun heq => hne (heq ▸ rfl), hinfix⟩

/-- The pass for the output directory leaves its token where the end of the alias and what follows
a token in the value make one. -/
theorem infix_of_first (hfront : front = '/' :: rest) (hnone : '$' ∉ front)
    (houtput : outputDir.toList = front ++ aliasName.toList) (halias : TokenFree aliasName) :
    '$' :: outputBody <:+: replaceAll ('$' :: outputBody) outputDir.toList value ↔
      ∃ p q : List Char, p ≠ [] ∧ q ≠ [] ∧ p ++ q = outputDirToken.toList ∧ p <:+ aliasName.toList ∧
        outputDirToken.toList ++ q <:+: value := by
  have hslash : '/' ∉ '$' :: outputBody := by decide
  have hbody : '$' ∉ outputBody := by decide
  have hfirst := replaced_replaceAll (List.cons_ne_nil '$' outputBody) outputDir.toList value
  constructor
  · intro h
    rw [houtput, hfront, List.cons_append] at hfirst h
    obtain hnew | ⟨p, q, hp, hq, heq, hsuffix, hinfix⟩ | ⟨hne, -⟩ :=
      hfirst.infix_of (List.cons_ne_nil '$' outputBody) hslash h
    · rw [← List.cons_append, ← hfront] at hnew
      exact absurd (infix_of_front hnone hnew) halias.1
    · obtain ⟨p', rfl, -⟩ := dollar_mem hp heq
      rw [← List.cons_append, ← hfront] at hsuffix
      exact ⟨'$' :: p', q, hp, hq, heq, suffix_of_front hnone hsuffix, hinfix⟩
    · exact absurd rfl hne
  · rintro ⟨p, q, hp, -, heq, hsuffix, hinfix⟩
    obtain ⟨p', -, hpq⟩ := dollar_mem hp (heq.trans outputDirToken_toList)
    have hq : '$' ∉ q := fun hmem => hbody (hpq ▸ List.mem_append_right p' hmem)
    have hend : p <:+ outputDir.toList := houtput ▸ hsuffix.trans (List.suffix_append front _)
    have hseam := hfirst.infix_seam hbody hend hq hinfix
    rwa [heq] at hseam

theorem tokenFree_resolveTokens (hfront : front = '/' :: rest) (hnone : '$' ∉ front)
    (houtput : outputDir.toList = front ++ aliasName.toList) (hrun : runDir.toList = '/' :: run)
    (hdollar : '$' ∉ runDir.toList) (halias : TokenFree aliasName) (value : String) :
    TokenFree (resolveTokens outputDir runDir value) ↔
      ∀ p q : List Char, p ≠ [] → q ≠ [] → p ++ q = outputDirToken.toList → p <:+ aliasName.toList →
        ¬ outputDirToken.toList ++ q <:+: value.toList := by
  have hslash : '/' ∉ '$' :: outputBody ∧ '/' ∉ '$' :: runBody := by decide
  have hfirst := @infix_of_first _ _ _ _ value.toList hfront hnone houtput halias
  rw [TokenFree, resolveTokens_toList, outputDirToken_toList, runDirToken_toList]
  constructor
  · rintro ⟨hout, -⟩ p q hp hq heq hsuffix hinfix
    have hsecond := replaced_replaceAll (List.cons_ne_nil '$' runBody) runDir.toList
      (replaceAll ('$' :: outputBody) outputDir.toList value.toList)
    apply hout
    apply hsecond.infix_stays (by decide) (by decide) (by decide) (by decide)
    exact hfirst.mpr ⟨p, q, hp, hq, heq, hsuffix, hinfix⟩
  · intro h
    constructor
    · intro hout
      obtain ⟨p, q, hp, hq, heq, hsuffix, hinfix⟩ := hfirst.mp (infix_of_second hrun hdollar hslash.1 hout).2
      exact h p q hp hq heq hsuffix hinfix
    · intro hout
      exact (infix_of_second hrun hdollar hslash.2 hout).1 rfl

end Passes

end Tokens

section Variables

variable {name value : String} {vars : List (String × String)}

theorem mem_insertVar {p : String × String} :
    p ∈ insertVar name value vars ↔ p = (name, value) ∨ (p ∈ vars ∧ p.1 ≠ name) := by
  unfold insertVar
  split
  · rename_i h
    exact Keyed.mem_set_iff h
  · rename_i h
    rw [(Keyed.insert_perm h).mem_iff, List.mem_cons]
    apply or_congr_right
    exact ⟨fun hp => ⟨hp, fun heq => h (heq ▸ List.mem_map_of_mem hp)⟩, And.left⟩

theorem lookup_eq {v : String} (hmem : (name, v) ∈ vars) (h : ∀ p ∈ vars, p.1 = name → p.2 = v) :
    vars.lookup name = some v := by
  induction vars with
  | nil => cases hmem
  | cons p rest ih =>
    rw [List.forall_mem_cons] at h
    rw [List.lookup_cons]
    by_cases hp : p.1 = name
    · rw [hp, beq_self_eq_true, h.1 hp]
    · have hne : (name == p.1) = false := beq_false_of_ne fun heq => hp heq.symm
      rw [hne]
      exact ih ((List.mem_cons.mp hmem).resolve_left fun heq => hp (heq ▸ rfl)) h.2

theorem mem_injectCall {outputDir runDir : String} {call : NucleateCall} {p : String × String} :
    p ∈ (injectCall outputDir runDir call).vars ↔
      p = (runDirVar, runDir) ∨ p = (outputDirVar, outputDir) ∨
        ∃ q ∈ call.vars, q.1 ≠ outputDirVar ∧ q.1 ≠ runDirVar ∧ p = (q.1, resolveTokens outputDir runDir q.2) := by
  have hvars : outputDirVar ≠ runDirVar := by decide
  simp only [injectCall, mem_insertVar, List.mem_map]
  apply or_congr_right
  constructor
  · rintro ⟨rfl | ⟨⟨q, hq, rfl⟩, hout⟩, hrun⟩
    · exact Or.inl rfl
    · exact Or.inr ⟨q, hq, hout, hrun, rfl⟩
  · rintro (rfl | ⟨q, hq, hout, hrun, rfl⟩)
    · exact ⟨Or.inl rfl, hvars⟩
    · exact ⟨Or.inr ⟨⟨q, hq, rfl⟩, hout⟩, hrun⟩

theorem lookup_injectCall (outputDir runDir : String) (call : NucleateCall) :
    (injectCall outputDir runDir call).vars.lookup outputDirVar = some outputDir := by
  have hvars : runDirVar ≠ outputDirVar := by decide
  apply lookup_eq (mem_injectCall.mpr (Or.inr (Or.inl rfl)))
  intro p hp hname
  obtain rfl | rfl | ⟨q, -, hout, -, rfl⟩ := mem_injectCall.mp hp
  · exact absurd hname hvars
  · rfl
  · exact absurd hname hout

theorem forall_injectCall {P : String → Prop} {outputDir runDir : String} {call : NucleateCall} :
    (∀ p ∈ (injectCall outputDir runDir call).vars, P p.2) ↔
      P outputDir ∧ P runDir ∧ ∀ p ∈ call.vars, p.1 ≠ outputDirVar → p.1 ≠ runDirVar →
        P (resolveTokens outputDir runDir p.2) := by
  constructor
  · intro h
    refine ⟨h _ (mem_injectCall.mpr (Or.inr (Or.inl rfl))), h _ (mem_injectCall.mpr (Or.inl rfl)), ?_⟩
    intro q hq hout hrun
    exact h _ (mem_injectCall.mpr (Or.inr (Or.inr ⟨q, hq, hout, hrun, rfl⟩)))
  · rintro ⟨houtput, hrun, hvars⟩ p hp
    obtain rfl | rfl | ⟨q, hq, hqout, hqrun, rfl⟩ := mem_injectCall.mp hp
    · exact hrun
    · exact houtput
    · exact hvars q hq hqout hqrun

end Variables

section Slugs

/-- The alphabet of the ids of nodes, and of the aliases made from them. -/
def Slug (text : String) : Prop :=
  text.toList ≠ [] ∧ ∀ c ∈ text.toList, (isAsciiAlphanumeric c || c = '_' || c = '-') = true

theorem Slug.not_mem {text : String} (h : Slug text) {c : Char}
    (hc : (isAsciiAlphanumeric c || c = '_' || c = '-') = false) : c ∉ text.toList :=
  fun hmem => absurd (h.2 c hmem) (by simp [hc])

theorem Slug.plain {text : String} (h : Slug text) : PlainAlias text := by
  have hchar : ∀ c : Char, OsUnit.char c ∈ osStr text → c ∈ text.toList := by
    intro c hc
    obtain ⟨c', hc', heq⟩ := List.mem_map.mp hc
    exact OsUnit.char.inj heq ▸ hc'
  have hdot : dot ∉ osStr text := fun hmem => h.not_mem (by decide) (hchar '.' hmem)
  refine ⟨mt List.map_eq_nil_iff.mp h.1, fun hmem => h.not_mem (by decide) (hchar '/' hmem), ?_, ?_⟩
  · exact fun heq => hdot (heq ▸ List.mem_cons_self)
  · exact fun heq => hdot (heq ▸ List.mem_cons_self)

theorem validateNodeId_slug {id : String} (h : validateNodeId id = .ok ()) : Slug id := by
  unfold validateNodeId at h
  split at h
  · cases h
  · rename_i c rest hid
    split_ifs at h
    split at h
    · rename_i hnone
      refine ⟨hid ▸ List.cons_ne_nil c rest, fun c' hc' => ?_⟩
      rw [hid] at hc'
      have hkept := List.find?_eq_none.mp hnone c' hc'
      rwa [Bool.not_eq_true', Bool.not_eq_false] at hkept
    · split_ifs at h

theorem instanceAlias_slug {id : String} (h : Slug id) (index : Nat) : Slug (instanceAlias id index) := by
  rw [Slug, instanceAlias, String.toList_append, String.toList_append, Nat.toList_repr]
  refine ⟨fun heq => h.1 (List.append_eq_nil_iff.mp (List.append_eq_nil_iff.mp heq).1).1, fun c hc => ?_⟩
  rw [List.mem_append, List.mem_append] at hc
  obtain (hc | hc) | hc := hc
  · exact h.2 c hc
  · have hunderscore : ∀ c ∈ "__".toList, (isAsciiAlphanumeric c || c = '_' || c = '-') = true :=
      List.all_eq_true.mp (by decide)
    exact hunderscore c hc
  · have hdigit : c.isDigit = true := Text.isDigit_toDigits hc
    simp [isAsciiAlphanumeric, hdigit]

theorem buildNodes_slug {formulas : List (String × FormulaRef)} {seen : List String} {raw : List RawNode}
    {nodes : List Node} (h : buildNodes formulas seen raw = .ok nodes) : ∀ node ∈ nodes, Slug node.id := by
  induction raw generalizing seen nodes with
  | nil =>
    cases h
    exact fun node hnode => absurd hnode List.not_mem_nil
  | cons n rest ih =>
    obtain ⟨node, hnode, h⟩ := bind_ok h
    obtain ⟨more, hmore, h⟩ := bind_ok h
    cases h
    refine List.forall_mem_cons.mpr ⟨?_, ih hmore⟩
    rw [(buildNode_ok hnode).1]
    obtain ⟨⟨⟩, hvalid, -⟩ := bind_ok hnode
    exact validateNodeId_slug hvalid

theorem parse_slug {toml : String → Except String RawSpore} {text : String} {spore : Spore}
    (h : Spore.parse toml text = .ok spore) : ∀ node ∈ spore.nodes, Slug node.id := by
  obtain ⟨raw, -, h⟩ := bind_ok h
  obtain ⟨params, -, h⟩ := bind_ok h
  obtain ⟨nodes, hnodes, h⟩ := bind_ok h
  obtain ⟨edges, -, h⟩ := bind_ok h
  obtain ⟨⟨⟩, -, h⟩ := bind_ok h
  cases h
  exact buildNodes_slug hnodes

theorem expand_slug {toml : String → Except String RawSpore} {text : String} {spore : Spore} {params : Binding}
    {calls : List NucleateCall} (hspore : Spore.parse toml text = .ok spore)
    (h : expand spore params = .ok calls) : ∀ c ∈ calls, Slug c.aliasName := by
  obtain ⟨groups, hgroups, rfl⟩ := map_ok h
  obtain ⟨hnodes, hexpanded⟩ := expandGroups_ok (parse_wellFormed hspore) hgroups
  intro c hc
  obtain ⟨g, hg, hcg⟩ := List.mem_flatMap.mp hc
  have hid := parse_slug hspore g.1 (hnodes.mem_iff.mp (List.mem_map_of_mem hg))
  have hname := alias_mem hexpanded hg hcg
  by_cases hkind : g.1.kind = .fanout
  · obtain ⟨i, -, heq⟩ := (mem_names_fanout hkind).mp hname
    exact heq ▸ instanceAlias_slug hid i
  · exact (mem_names_single hkind).mp hname ▸ hid

theorem Slug.seamless {call : NucleateCall} (h : Slug call.aliasName) : Seamless call := by
  have hdollar : '$' ∉ call.aliasName.toList := h.not_mem (by decide)
  constructor
  · rw [TokenFree, outputDirToken_toList, runDirToken_toList]
    exact ⟨fun hin => hdollar (hin.subset List.mem_cons_self), fun hin => hdollar (hin.subset List.mem_cons_self)⟩
  · intro p _ _ _ front back hfront _ heq hsuffix
    obtain ⟨front', rfl, -⟩ := dollar_mem hfront (heq.trans outputDirToken_toList)
    exact absurd (hsuffix.subset List.mem_cons_self) hdollar

end Slugs

section Promise

variable {runDir : OsStr}

theorem asciiLowercase_append {front : List Char} {home home' a a' : String} (hhome : home.toList = front ++ a.toList)
    (hhome' : home'.toList = front ++ a'.toList) (h : asciiLowercase home = asciiLowercase home') :
    asciiLowercase a = asciiLowercase a' := by
  have hlists := congrArg String.toList h
  simp only [asciiLowercase, String.toList_ofList, hhome, hhome', List.map_append,
    List.append_cancel_left_eq] at hlists
  rw [asciiLowercase, asciiLowercase, hlists]

theorem tokenFree_home {front : List Char} {home aliasName : String} (hnone : '$' ∉ front)
    (hhome : home.toList = front ++ aliasName.toList) : TokenFree home ↔ TokenFree aliasName := by
  have hone : ∀ body, '$' :: body <:+: home.toList ↔ '$' :: body <:+: aliasName.toList := by
    intro body
    rw [hhome]
    exact ⟨infix_of_front hnone, List.infix_append_of_infix_right⟩
  rw [TokenFree, TokenFree, outputDirToken_toList, runDirToken_toList, hone, hone]

theorem tokenFree_root {text : String} (h : '$' ∉ text.toList) : TokenFree text := by
  rw [TokenFree, outputDirToken_toList, runDirToken_toList]
  exact ⟨fun hin => h (hin.subset List.mem_cons_self), fun hin => h (hin.subset List.mem_cons_self)⟩

theorem handed_tokenFree_iff (habs : isAbsolute slash runDir = true) (hdollar : .char '$' ∉ runDir)
    {call : NucleateCall} (hplain : PlainAlias call.aliasName) :
    (∀ p ∈ (handed runDir call).vars, TokenFree p.2) ↔ Seamless call := by
  obtain ⟨⟨run, hrun⟩, hnone⟩ := toStringLossy_root habs hdollar
  obtain ⟨⟨rest, hfront⟩, hfrontnone⟩ := homeFront_root habs hdollar
  have hhome := toStringLossy_join habs hplain
  rw [handed, forall_injectCall, tokenFree_home hfrontnone hhome, Seamless]
  apply and_congr_right
  intro halias
  rw [and_iff_right (tokenFree_root hnone)]
  apply forall₄_congr
  intro p _ _ _
  exact tokenFree_resolveTokens hfront hfrontnone hhome hrun hnone halias p.2

/-- The calls that are handed their homes keep what the pass promises exactly where the aliases
and the values leave no seam. -/
theorem homed_iff (habs : isAbsolute slash runDir = true) (hdollar : .char '$' ∉ runDir)
    {calls : List NucleateCall} (hplain : ∀ c ∈ calls, PlainAlias c.aliasName) (hdistinct : CaseDistinct calls) :
    Homed runDir (calls.map (handed runDir)) ↔ ∀ c ∈ calls, Seamless c := by
  constructor
  · intro h c hc
    exact (handed_tokenFree_iff habs hdollar (hplain c hc)).mp (h.resolved _ (List.mem_map_of_mem hc))
  · intro h
    refine ⟨?_, ?_, ?_⟩
    · rw [List.forall_mem_map]
      intro c hc
      exact ⟨_, lookup_injectCall _ _ c, strictlyUnder_join (hplain c hc)⟩
    · rw [List.pairwise_map]
      refine hdistinct.imp_of_mem fun {c d} hc hd hne home hhome home' hhome' heq => hne ?_
      rw [handed, lookup_injectCall, Option.mem_some_iff] at hhome hhome'
      subst hhome hhome'
      exact asciiLowercase_append (toStringLossy_join habs (hplain c hc)) (toStringLossy_join habs (hplain d hd)) heq
    · rw [List.forall_mem_map]
      intro c hc
      exact (handed_tokenFree_iff habs hdollar (hplain c hc)).mpr (h c hc)

theorem promised_iff (habs : isAbsolute slash runDir = true) (hdollar : .char '$' ∉ runDir)
    (calls : List NucleateCall) :
    Promised runDir calls ↔
      ((∀ c ∈ calls, PlainAlias c.aliasName) → CaseDistinct calls → ∀ c ∈ calls, Seamless c) := by
  by_cases h : (∀ c ∈ calls, PlainAlias c.aliasName) ∧ CaseDistinct calls
  · rw [Promised, injectRunOutputs_accepted h.1 h.2, forall_prop_of_true h.1, forall_prop_of_true h.2,
      ← homed_iff habs hdollar h.1 h.2]
    constructor
    · rintro (⟨e, heq⟩ | ⟨homed, heq, hhomed⟩)
      · cases congrArg Prod.snd heq
      · cases heq
        exact hhomed
    · intro hhomed
      exact Or.inr ⟨_, rfl, hhomed⟩
  · obtain ⟨e, he⟩ := @injectRunOutputs_refused runDir _ h
    exact iff_of_true (Or.inl ⟨e, he⟩) fun hplain hdistinct => absurd ⟨hplain, hdistinct⟩ h

/-- Whatever the calls are, a pass keeps its promise exactly where an accepted call list leaves no
seam; and the calls of a spore that was accepted are never refused as escaping. -/
theorem injectRunOutputs_iff (habs : isAbsolute slash runDir = true) (hdollar : .char '$' ∉ runDir) :
    (∀ calls, Promised runDir calls ↔
      ((∀ c ∈ calls, PlainAlias c.aliasName) → CaseDistinct calls → ∀ c ∈ calls, Seamless c)) ∧
      ∀ toml text spore params calls, Spore.parse toml text = .ok spore → expand spore params = .ok calls →
        Promised runDir calls ∧ ∀ a, (injectRunOutputs calls runDir).2 ≠ .error (.escaped a) := by
  refine ⟨promised_iff habs hdollar, fun toml text spore params calls hspore h => ?_⟩
  have hslug := expand_slug hspore h
  refine ⟨(promised_iff habs hdollar calls).mpr fun _ _ c hc => (hslug c hc).seamless, ?_⟩
  exact injectRunOutputs_not_escaped fun c hc => (hslug c hc).plain

def runHome : OsStr := osStr "/s"

def seamCall (aliasName : String) : NucleateCall where
  aliasName := aliasName
  formula := "task-work"
  vars := [("topic", "$\x7boutput_dir\x7d\x7boutput_dir\x7d")]
  blockedBy := []
  kind := .fixed
  mission := none

theorem injectRunOutputs_home :
    isAbsolute slash runHome = true ∧ .char '$' ∉ runHome ∧ Promised runHome [seamCall "a"] := by
  have habs : isAbsolute slash runHome = true := by decide
  have hdollar : .char '$' ∉ runHome := by decide
  have hslug : Slug "a" := ⟨by decide, List.all_eq_true.mp (by decide)⟩
  refine ⟨habs, hdollar, ((injectRunOutputs_iff habs hdollar).1 [seamCall "a"]).mpr fun _ _ c hc => ?_⟩
  rw [List.mem_singleton.mp hc]
  exact Slug.seamless hslug

/-- The alias ends in the first letter of the token, and the topic goes on with the others. -/
theorem injectRunOutputs_seam :
    isAbsolute slash runHome = true ∧ .char '$' ∉ runHome ∧
      injectRunOutputs [seamCall "a$"] runHome =
        ([{ seamCall "a$" with
            vars := [("output_dir", "/s/a$"), ("run_dir", "/s"), ("topic", "/s/a$\x7boutput_dir\x7d")] }], .ok ()) ∧
        ¬ Promised runHome [seamCall "a$"] := by
  have hrun : injectRunOutputs [seamCall "a$"] runHome =
      ([{ seamCall "a$" with
          vars := [("output_dir", "/s/a$"), ("run_dir", "/s"), ("topic", "/s/a$\x7boutput_dir\x7d")] }],
        .ok ()) := by
    decide +kernel
  refine ⟨by decide, by decide, hrun, ?_⟩
  rintro (⟨e, h⟩ | ⟨homed, h, hhomed⟩)
  · cases congrArg Prod.snd (hrun.symm.trans h)
  · cases hrun.symm.trans h
    have htopic := hhomed.resolved _ (List.mem_singleton_self _) ("topic", "/s/a$\x7boutput_dir\x7d") (by decide)
    exact htopic.1 (by decide)

end Promise

end Cosmon.Core.SporeOutput
