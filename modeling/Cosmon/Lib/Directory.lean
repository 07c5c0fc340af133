import Mathlib.Data.List.Nodup
import Mathlib.Logic.Function.Basic

namespace Cosmon.Lib.Directory

inductive Node where
  | file (bytes : List UInt8)
  | dir
deriving DecidableEq

abbrev Dir (N : Type) := N → Option Node

variable {N : Type} [DecidableEq N]

def create (d : Dir N) (name : N) (bytes : List UInt8) : Option (Dir N) :=
  if d name = some .dir then none else some (Function.update d name (some (.file bytes)))

def rename (d : Dir N) (source target : N) : Option (Dir N) :=
  if source = target then some d
  else if d target = some .dir then none
  else some (Function.update (Function.update d source none) target (d source))

/-- A file is written under a temporary name next to its own, which it then takes. -/
def stage (tmp : N → N) (d : Dir N) (name : N) (bytes : List UInt8) : Option (Dir N) :=
  (create d (tmp name) bytes).bind fun d' => rename d' (tmp name) name

def stageAll (tmp : N → N) : Dir N → List (N × List UInt8) → Option (Dir N)
  | d, [] => some d
  | d, (name, bytes) :: rest => (stage tmp d name bytes).bind fun d' => stageAll tmp d' rest

variable {tmp : N → N} {d d' : Dir N}

theorem stage_eq {name : N} {bytes : List UInt8} (h : stage tmp d name bytes = some d') (x : N) :
    d' x = if x = name then some (.file bytes) else if x = tmp name then none else d x := by
  unfold stage create at h
  by_cases hdir : d (tmp name) = some .dir
  · rw [if_pos hdir] at h
    cases h
  · rw [if_neg hdir, Option.bind_some, rename] at h
    split at h
    · rename_i hself
      obtain rfl := Option.some.inj h
      rw [hself, Function.update_apply]
      split
      · rfl
      · rfl
    · split at h
      · cases h
      · obtain rfl := Option.some.inj h
        rw [Function.update_apply, Function.update_self]
        split
        · rfl
        · rw [Function.update_apply, Function.update_apply]
          split
          · rfl
          · rfl

theorem stageAll_other {files : List (N × List UInt8)} (h : stageAll tmp d files = some d') {x : N}
    (hx : x ∉ files.map Prod.fst) : d' x = if ∃ m ∈ files.map Prod.fst, tmp m = x then none else d x := by
  induction files generalizing d with
  | nil =>
    obtain rfl := Option.some.inj h
    rw [if_neg (by simp)]
  | cons p rest ih =>
    obtain ⟨d₁, hstage, hrest⟩ := Option.bind_eq_some_iff.mp h
    rw [List.map_cons, List.mem_cons, not_or] at hx
    have hd := stage_eq hstage x
    rw [if_neg hx.1] at hd
    rw [ih hrest hx.2, hd]
    by_cases hlater : ∃ m ∈ rest.map Prod.fst, tmp m = x
    · obtain ⟨m, hm, heq⟩ := hlater
      rw [if_pos ⟨m, hm, heq⟩, if_pos ⟨m, List.mem_cons_of_mem _ hm, heq⟩]
    · rw [if_neg hlater]
      by_cases htmp : x = tmp p.1
      · rw [if_pos htmp, if_pos ⟨p.1, List.mem_cons_self, htmp.symm⟩]
      · rw [if_neg htmp, if_neg]
        rintro ⟨m, hm, heq⟩
        rcases List.mem_cons.mp hm with rfl | hm
        · exact htmp heq.symm
        · exact hlater ⟨m, hm, heq⟩

theorem stageAll_head {name : N} {bytes : List UInt8} {rest : List (N × List UInt8)}
    (h : stageAll tmp d ((name, bytes) :: rest) = some d') (hname : name ∉ rest.map Prod.fst) :
    d' name = if ∃ m ∈ rest.map Prod.fst, tmp m = name then none else some (.file bytes) := by
  obtain ⟨d₁, hstage, hrest⟩ := Option.bind_eq_some_iff.mp h
  rw [stageAll_other hrest hname, stage_eq hstage, if_pos rfl]

theorem stageAll_present {files : List (N × List UInt8)} (hnames : (files.map Prod.fst).Nodup)
    (h : stageAll tmp d files = some d') :
    (∀ p ∈ files, d' p.1 = some (.file p.2)) ↔ (files.map Prod.fst).Pairwise fun n m => tmp m ≠ n := by
  induction files generalizing d with
  | nil => simp
  | cons p rest ih =>
    rw [List.map_cons, List.nodup_cons] at hnames
    obtain ⟨d₁, hstage, hrest⟩ := Option.bind_eq_some_iff.mp h
    have hhead : d' p.1 = some (.file p.2) ↔ ∀ m ∈ rest.map Prod.fst, tmp m ≠ p.1 := by
      rw [stageAll_head h hnames.1]
      split
      · rename_i hlater
        obtain ⟨m, hm, heq⟩ := hlater
        exact ⟨fun hnone => (nomatch hnone), fun hall => absurd heq (hall m hm)⟩
      · rename_i hlater
        exact ⟨fun _ m hm heq => hlater ⟨m, hm, heq⟩, fun _ => rfl⟩
    rw [List.forall_mem_cons, ih hnames.2 hrest, hhead, List.map_cons, List.pairwise_cons]

end Cosmon.Lib.Directory
