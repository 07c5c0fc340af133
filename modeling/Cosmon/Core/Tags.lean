import Cosmon.Lib.Globs
import Cosmon.Lib.Text
import Cosmon.State.Molecule

namespace Cosmon.Core.Tags

open Cosmon.Lib.Bytes Cosmon.Lib.Globs Cosmon.Lib.Text Cosmon.State.Molecule

inductive TagError where
  | emptyKey
  | tooLong (length : Nat)
  | invalidKey (key : String)
  | invalidValue (value : String)
deriving DecidableEq

def MAX_TAG_LEN : Nat := 128

def TagError.toString : TagError → String
  | .emptyKey => "tag key must be non-empty"
  | .tooLong length => "tag length " ++ Nat.repr length ++ " exceeds maximum " ++ Nat.repr MAX_TAG_LEN
  | .invalidKey key =>
    "tag key `" ++ key ++ "` is not kebab-case (must start with [a-z] and contain [a-z0-9-])"
  | .invalidValue value =>
    "tag value `" ++ value ++ "` is invalid (no whitespace, no `:`, 1..=64 printable ASCII)"

def isAsciiLowercase (c : Char) : Bool := 'a' ≤ c && c ≤ 'z'

def isAsciiControl (c : Char) : Bool := c.toNat < 32 || c.toNat = 127

def validateKey (key : List Char) : Except TagError Unit :=
  match key with
  | [] => .error .emptyKey
  | first :: rest =>
    if isAsciiLowercase first = false then .error (.invalidKey (String.ofList key))
    else if rest.all (fun c => isAsciiLowercase c || c.isDigit || c = '-') = false then
      .error (.invalidKey (String.ofList key))
    else .ok ()

def validateValue (value : List Char) : Except TagError Unit :=
  let text := String.ofList value
  if value = [] ∨ 64 < text.utf8ByteSize then .error (.invalidValue text)
  else if value.any (fun c => c = ':' || isWhiteSpace c || 128 ≤ c.toNat || isAsciiControl c) then
    .error (.invalidValue text)
  else .ok ()

/-- `Tag::new`: `key` or `key:value`. -/
def tagNew (raw : String) : Except TagError Tag :=
  if raw = "" then .error .emptyKey
  else if MAX_TAG_LEN < raw.utf8ByteSize then .error (.tooLong raw.utf8ByteSize)
  else
    match splitOnce ':' raw.toList with
    | none => (validateKey raw.toList).map fun _ => raw
    | some (key, value) => do
      validateKey key
      validateValue value
      return raw

def star : UInt8 := 42

/-- What is left of the pattern and of the text stands for the two positions; a run of stars is passed star by star. -/
def globMatchBytes : List UInt8 → List UInt8 → Bool
  | [], t => t.isEmpty
  | c :: p, t =>
    if c = star then
      match p with
      | [] => true
      | d :: _ => if d = star then globMatchBytes p t else t.tails.any (globMatchBytes p)
    else
      match t with
      | [] => false
      | d :: rest => if d = c then globMatchBytes p rest else false

def globMatch (pattern text : String) : Bool := globMatchBytes (utf8 pattern) (utf8 text)

theorem globMatchBytes_iff (p t : List UInt8) : globMatchBytes p t = true ↔ Expands star p t := by
  induction p generalizing t with
  | nil => rw [globMatchBytes, List.isEmpty_iff, expands_nil]
  | cons c p ih =>
    rw [globMatchBytes.eq_def]
    dsimp only
    by_cases hc : c = star
    · subst hc
      rw [if_pos rfl]
      cases p with
      | nil => exact iff_of_true rfl expands_last
      | cons d p =>
        by_cases hd : d = star
        · subst hd
          rw [expands_star_star, ← ih t]
          exact Bool.eq_iff_iff.mp (if_pos rfl)
        · simp only [if_neg hd, List.any_eq_true, List.mem_tails, ih, expands_star]
    · rw [if_neg hc, expands_letter hc]
      cases t with
      | nil => exact iff_of_false Bool.false_ne_true fun ⟨_, h, _⟩ => List.cons_ne_nil _ _ h.symm
      | cons d t =>
        by_cases hd : d = c
        · subst hd
          simp only [if_true, ih, List.cons.injEq, true_and, exists_eq_left']
        · simp [hd]

/-- The bytes of the two texts match exactly if the letters do: a star never stands for a part of a letter. -/
theorem globMatch_iff (pattern text : String) :
    globMatch pattern text = true ↔ Expands '*' pattern.toList text.toList := by
  rw [globMatch, globMatchBytes_iff, utf8_eq_flatMap, utf8_eq_flatMap]
  exact utf8_synchronised.expands_iff rfl

example : globMatch "temp:*t*" "temp:hot" = true := by decide +kernel

end Cosmon.Core.Tags
