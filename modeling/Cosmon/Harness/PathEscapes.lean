import Cosmon.Harness.PathSites

namespace Cosmon.Harness.PathAuthority

open Cosmon.Lib.Checks Cosmon.Lib.FileTree Cosmon.Lib.UnixPath

section Confinement

variable {t : Nodes Char} {cwd root : Loc Char} {target : List Char}

def Under (root loc : Loc Char) : Prop := ∃ name below, loc = root ++ name :: below

/-- What keeps a write below the root that passed the checks: the target is not the root itself under
a name of its own, unless a directory stands at the temporary name; and a link that stands at the
temporary name leads below the root. -/
structure Clear (t : Nodes Char) (cwd root : Loc Char) (target : List Char) (nonce : BitVec 128) : Prop where
  sibling : (readPath target).dir = false → realpath t cwd (readPath target) = .ok root →
    ∃ loc, lookup t cwd true (tmpPath target nonce) = .ok (.there loc) ∧ t loc = some .dir
  link : ∀ loc link, lookup t cwd true (tmpPath target nonce) = .ok (.there loc) → t loc = some (.link link) →
    ∀ place, landing t cwd (tmpPath target nonce) = .ok place → Under root place

section Sited

variable {front : List (Component Char)} {name : List Char} {folder : Loc Char} {left : Nat}

theorem untouched : ∀ loc ∈ (⟨t, []⟩ : Lib.FileTree.World Char).touched, Under root loc :=
  fun _ hloc => absurd hloc List.not_mem_nil

theorem Made.under {w' : Lib.FileTree.World Char} {top : Loc Char} (hmade : Made ⟨t, []⟩ w' folder top)
    (hroot : root <+: folder) :
    ∀ loc ∈ w'.touched, Under root loc := by
  obtain ⟨more, hmore, hbelow⟩ := hmade.touched
  intro loc hloc
  rw [hmore] at hloc
  obtain ⟨name, below, rfl⟩ := hbelow loc hloc
  obtain ⟨inner, rfl⟩ := hroot
  cases inner with
  | nil => exact ⟨name, below, by rw [List.append_nil]⟩
  | cons first inner => exact ⟨first, inner ++ name :: below, by simp⟩

end Sited

end Confinement

section Results

variable {t : Nodes Char} {cwd root : Loc Char} {workDir : List Char} {rel : String}

end Results

end Cosmon.Harness.PathAuthority
