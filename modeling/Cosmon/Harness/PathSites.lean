import Cosmon.Harness.PathAuthority
import Cosmon.Lib.Checks

namespace Cosmon.Harness.PathAuthority

open Cosmon.Lib.Bytes Cosmon.Lib.Checks Cosmon.Lib.FileTree Cosmon.Lib.UnixPath

section Texts

theorem slash_notMem_hexText (bytes : List UInt8) : '/' ∉ hexText bytes := by
  have hdigit : ∀ n : Fin 16, '/' ≠ Nat.digitChar n := by decide
  intro hmem
  obtain ⟨b, -, hb⟩ := List.mem_flatMap.mp hmem
  have hlow := hdigit ⟨b.toNat % 16, Nat.mod_lt _ (by decide)⟩
  have hhigh := hdigit ⟨b.toNat / 16, Nat.div_lt_of_lt_mul b.toNat_lt⟩
  rcases List.mem_pair.mp hb with heq | heq
  · exact hhigh heq
  · exact hlow heq

theorem slash_notMem_tmpSuffix (nonce : BitVec 128) : '/' ∉ tmpSuffix nonce := by
  rw [tmpSuffix, List.mem_cons, List.mem_append, not_or, not_or]
  exact ⟨by decide, slash_notMem_hexText _, by decide⟩

theorem tmpSuffix_length (nonce : BitVec 128) : 2 < (tmpSuffix nonce).length := by
  have hend : ".tmp".toList.length = 4 := by decide
  rw [tmpSuffix, List.length_cons, List.length_append, hend]
  omega

theorem name_ne_suffix (name : List Char) (nonce : BitVec 128) : name ≠ name ++ tmpSuffix nonce := by
  intro heq
  have hlength := congrArg List.length heq
  have hlong := tmpSuffix_length nonce
  rw [List.length_append] at hlength
  omega

variable {workDir target : List Char} {raw : String}

theorem sanitizeJoin_ok (h : sanitizeJoin workDir raw = .ok target) :
    isAbsolute '/' raw.toList = false ∧ .parentDir ∉ components '/' '.' raw.toList ∧
      target = join '/' workDir raw.toList := by
  unfold sanitizeJoin at h
  split_ifs at h with habs hup
  exact ⟨Bool.eq_false_iff.mpr habs, hup, (Except.ok.inj h).symm⟩

theorem readPath_joined (hdir : workDir ≠ []) (h : sanitizeJoin workDir raw = .ok target) :
    ∃ ns : List (List Char), names '/' '.' raw.toList = ns.map .normal ∧
      (readPath target).parts = (readPath workDir).parts ++ ns.map .normal ∧
      (ns = [] → (readPath target).dir = true) ∧ '/' ∈ target := by
  obtain ⟨hrel, hup, rfl⟩ := sanitizeJoin_ok h
  obtain ⟨ns, hns⟩ := names_normal hup
  obtain ⟨front, hcut, -⟩ := @join_cut _ _ '/' '.' _ _ hdir hrel
  refine ⟨ns, hns, ?_, ?_, ?_⟩
  · rw [readPath, Route.of, components_join_relative hdir hrel, hns]
    rfl
  · rintro rfl
    have hlast : ((front ++ '/' :: raw.toList).splitOn '/').getLast? = (raw.toList.splitOn '/').getLast? := by
      rw [List.splitOn_append_cons_self, List.getLast?_append_of_ne_nil _ (List.splitOn_ne_nil _ _)]
    rw [readPath, Route.of, hcut, hlast]
    exact decide_eq_true (last_of_names_nil hns)
  · rw [hcut]
    simp

theorem tmpPath_dir (hslash : '/' ∈ target) (hdir : (readPath target).dir = true) (nonce : BitVec 128) :
    ∃ last, tmpPath target nonce = ⟨(readPath target).parts ++ [.normal (last ++ tmpSuffix nonce)], false⟩ :=
  Route.of_suffix_dir hslash (slash_notMem_tmpSuffix nonce) (tmpSuffix_length nonce) hdir

theorem tmpPath_name {front : List (Component Char)} {name : List Char} (hslash : '/' ∈ target)
    (hpath : readPath target = ⟨front ++ [.normal name], false⟩) (nonce : BitVec 128) :
    tmpPath target nonce = ⟨front ++ [.normal (name ++ tmpSuffix nonce)], false⟩ :=
  Route.of_suffix_name hslash (slash_notMem_tmpSuffix nonce) (tmpSuffix_length nonce)
    (congrArg Route.dir hpath) (congrArg Route.parts hpath)

end Texts

section Acceptance

variable {t : Nodes Char} {cwd root : Loc Char} {workDir target : List Char}

theorem lstat_of_metadata {p : Route Char} {r : Except Errno (Node Char)} (h : symlinkMetadata t cwd p = r)
    (hvalid : r ≠ .error .inval) : lstat t cwd p = r := by
  unfold symlinkMetadata at h
  split at h
  · exact absurd h.symm hvalid
  · exact h

theorem realpath_of_canonicalize {p : Route Char} {loc : Loc Char} (h : canonicalize t cwd p = .ok loc) :
    realpath t cwd p = .ok loc := by
  unfold canonicalize at h
  split at h
  · cases h
  · exact h

theorem canonicalRoot_ok (h : canonicalRoot t cwd workDir = .ok root) :
    workDir ≠ [] ∧ realpath t cwd (readPath workDir) = .ok root := by
  have hreal := realpath_of_canonicalize (mapError_ok h)
  refine ⟨?_, hreal⟩
  rintro rfl
  cases hreal

/-- The part of a path that the probes stop at, and the part behind it, which is missing. -/
structure Probed (t : Nodes Char) (cwd root : Loc Char) (front rest : List (Component Char)) (dir : Bool) : Prop where
  ne_nil : front ≠ []
  found : ∃ node, lstat t cwd ⟨front, dir && rest.isEmpty⟩ = .ok node
  inside : ∃ canonical, realpath t cwd ⟨front, dir && rest.isEmpty⟩ = .ok canonical ∧ root <+: canonical
  missing : ∀ part more, rest = part :: more → lstat t cwd ⟨front ++ [part], dir && more.isEmpty⟩ = .error .noent

theorem ensure_ok (hroot : canonicalRoot t cwd workDir = .ok root)
    (h : ensureWriteTargetInside t cwd workDir target = .ok ()) :
    (∀ link, symlinkMetadata t cwd (readPath target) ≠ .ok (.link link)) ∧
      probeAncestors t cwd root target (readPath target).parts.reverse (readPath target).dir = .ok () := by
  rw [ensureWriteTargetInside, hroot] at h
  dsimp only [bind, Except.bind] at h
  cases hmeta : symlinkMetadata t cwd (readPath target) with
  | error e =>
    rw [hmeta] at h
    exact ⟨fun link hlink => (by cases hlink), h⟩
  | ok node =>
    rw [hmeta] at h
    cases node with
    | link link => cases h
    | dir => exact ⟨fun link hlink => (by cases hlink), h⟩
    | file bytes => exact ⟨fun link hlink => (by cases hlink), h⟩

end Acceptance

section Sites

variable {t : Nodes Char} {cwd root : Loc Char} {workDir target : List Char}

theorem Probed.below (hclosed : Closed t) (hcwd : t cwd = some .dir) {base front rest : List (Component Char)}
    {dir dir' : Bool} {ns : List (List Char)} (hprobed : Probed t cwd root front rest dir)
    (hbase : realpath t cwd ⟨base, dir'⟩ = .ok root) (hparts : base ++ ns.map .normal = front ++ rest) :
    ∃ ns' names, front = base ++ List.map Component.normal ns' ∧ rest = names.map .normal ∧ ns = ns' ++ names := by
  rcases List.append_eq_append_iff.mp hparts with ⟨more, rfl, hns⟩ | ⟨more, rfl, rfl⟩
  · obtain ⟨ns', names, rfl, hns', hnames⟩ := List.map_eq_append_iff.mp hns
    exact ⟨ns', names, by rw [hns'], hnames.symm, rfl⟩
  · cases more with
    | nil => exact ⟨[], ns, by simp, rfl, rfl⟩
    | cons part more =>
      have hwhole : realpath t cwd ⟨front ++ [part] ++ more, dir'⟩ = .ok root := by simpa using hbase
      exact absurd (hprobed.missing part _ rfl) (lstat_before hclosed hcwd (by simp) hwhole)

end Sites

end Cosmon.Harness.PathAuthority
