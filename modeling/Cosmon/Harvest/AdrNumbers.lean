import Cosmon.Lib.Keyed
import Cosmon.Lib.Text
import Mathlib.Data.Finset.Sort
import Mathlib.Data.List.TakeWhile

namespace Cosmon.Harvest.AdrNumbers

open Cosmon.Lib.KeyedSort Cosmon.Lib.Text

def baseName (path : List Char) : List Char := (path.reverse.takeWhile (· ≠ '/')).reverse

def dirName (path : List Char) : List Char := (path.reverse.dropWhile (· ≠ '/')).reverse

def parseAdrNumber (path : String) : Option Nat :=
  let digits := (baseName path.toList).takeWhile Char.isDigit
  if digits = [] then none else parseUnsigned 32 digits

/-- At least three digits. -/
def formatAdrNumber (n : Nat) : List Char :=
  List.replicate (3 - (Nat.toDigits 10 n).length) '0' ++ Nat.toDigits 10 n

def nextFreeNumber (existing : List Nat) : Nat := existing.max?.elim 1 (· + 1)

structure RenumberPlan where
  oldPath : String
  newPath : String
  oldNumber : Nat
  newNumber : Nat
deriving DecidableEq

def renumberedPath (oldPath : String) (newNumber : Nat) : Option String :=
  let base := baseName oldPath.toList
  if base.takeWhile Char.isDigit = [] then none
  else some (String.ofList
    (dirName oldPath.toList ++ (formatAdrNumber newNumber ++ base.dropWhile Char.isDigit)))

def planLoop (used : Finset Nat) : List String → List RenumberPlan
  | [] => []
  | path :: rest =>
    match parseAdrNumber path with
    | none => planLoop used rest
    | some n =>
      if n ∈ used then
        let newNumber := nextFreeNumber used.sort
        match renumberedPath path newNumber with
        | some newPath => ⟨path, newPath, n, newNumber⟩ :: planLoop (insert newNumber used) rest
        | none => planLoop used rest
      else planLoop (insert n used) rest

def planRenumber (baseNumbers : List Nat) (branchAdded : List String) : List RenumberPlan :=
  planLoop baseNumbers.toFinset (sortBy id branchAdded)

def newName (plans : List RenumberPlan) (path : String) : String :=
  ((plans.find? fun plan => plan.oldPath = path).map RenumberPlan.newPath).getD path

def settled (baseNumbers : List Nat) (branchAdded : List String) : List String :=
  branchAdded.map (newName (planRenumber baseNumbers branchAdded))

def carryOut (plan : RenumberPlan) (files : List String) : List String :=
  files.map fun path => if path = plan.oldPath then plan.newPath else path

def Safe : List RenumberPlan → List String → Prop
  | [], _ => True
  | plan :: rest, files => plan.newPath ∉ files ∧ Safe rest (carryOut plan files)

def numbers (paths : List String) : List Nat := paths.filterMap parseAdrNumber

/-- The largest number and the number of added files together fit in 32 bits. -/
def Fits (baseNumbers : List Nat) (branchAdded : List String) : Prop :=
  ∀ n ∈ baseNumbers ++ numbers branchAdded, n + branchAdded.length < 2 ^ 32

section Names

-- The number is read with its zeros and written with three digits.
end Names

section Free

variable {used : Finset Nat} {n : Nat}

/-- The numbers that are taken leave room for the files that are left. -/
def Roomy (used : Finset Nat) (paths : List String) : Prop :=
  ∀ k ∈ used ∪ (numbers paths).toFinset, k + paths.length < 2 ^ 32

variable {path : String} {rest : List String}

theorem numbers_cons : numbers (path :: rest) = (parseAdrNumber path).toList ++ numbers rest := by
  rw [numbers, List.filterMap_cons]
  cases parseAdrNumber path <;> rfl

theorem Roomy.tail (h : Roomy used (path :: rest)) : Roomy used rest := by
  intro k hk
  have hless := h k (by
    rw [numbers_cons, Finset.mem_union, List.mem_toFinset, List.mem_append]
    rw [Finset.mem_union, List.mem_toFinset] at hk
    exact hk.imp_right Or.inr)
  rw [List.length_cons] at hless
  omega

theorem Roomy.insert {m : Nat} (h : Roomy used rest) (hm : m + rest.length < 2 ^ 32) : Roomy (insert m used) rest := by
  intro k hk
  rw [Finset.insert_union, Finset.mem_insert] at hk
  obtain rfl | hk := hk
  · exact hm
  · exact h k hk

end Free

section Plans

variable {baseNumbers : List Nat} {branchAdded : List String}

/-- What the plan does to the numbers, in every order of its inputs. -/
structure Sound (baseNumbers : List Nat) (branchAdded : List String) : Prop where
  same_plan : ∀ baseNumbers' branchAdded', baseNumbers.Perm baseNumbers' → branchAdded.Perm branchAdded' →
    planRenumber baseNumbers' branchAdded' = planRenumber baseNumbers branchAdded
  distinct : (numbers (settled baseNumbers branchAdded)).Nodup
  free : ∀ n ∈ numbers (settled baseNumbers branchAdded), n ∉ baseNumbers
  again : planRenumber baseNumbers (settled baseNumbers branchAdded) = []

end Plans

end Cosmon.Harvest.AdrNumbers
