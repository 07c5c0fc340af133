import Mathlib.Logic.Function.Basic
import Mathlib.Order.MinMax

namespace Cosmon.Lib.Inodes

variable {P : Type} [DecidableEq P]

/-- Files under their paths, each path with a file of its own. A file that is open keeps
its number when it is renamed. -/
structure Fs (P : Type) where
  inode : P → Option Nat
  content : Nat → List UInt8
  next : Nat
  single : ∀ p q i, inode p = some i → inode q = some i → p = q
  fresh : ∀ p i, inode p = some i → i < next

def Fs.read (fs : Fs P) (p : P) : Option (List UInt8) := (fs.inode p).map fs.content

def Fs.empty : Fs P where
  inode _ := none
  content _ := []
  next := 0
  single _ _ _ h := by cases h
  fresh _ _ h := by cases h

def Fs.handle (fs : Fs P) (p : P) : Nat := (fs.inode p).getD fs.next

omit [DecidableEq P] in
theorem Fs.eq_of_handle {fs : Fs P} {p q : P} (h : fs.inode q = some (fs.handle p)) : q = p := by
  rw [Fs.handle] at h
  cases hp : fs.inode p with
  | none =>
    rw [hp] at h
    exact absurd (fs.fresh q _ h) (Nat.lt_irrefl fs.next)
  | some i =>
    rw [hp] at h
    exact fs.single q p i h hp

omit [DecidableEq P] in
theorem Fs.inode_handle {fs : Fs P} {p : P} (h : fs.handle p < fs.next) : fs.inode p = some (fs.handle p) := by
  rw [Fs.handle] at h ⊢
  cases hp : fs.inode p with
  | none =>
    rw [hp] at h
    exact absurd h (Nat.lt_irrefl fs.next)
  | some i => rfl

omit [DecidableEq P] in
theorem Fs.lt_handle {fs : Fs P} {p q : P} {i : Nat} (h : fs.inode q = some i) :
    i < max fs.next (fs.handle p + 1) := lt_max_of_lt_left (fs.fresh q i h)

def Fs.create (fs : Fs P) (p : P) : Fs P where
  inode := Function.update fs.inode p (some (fs.handle p))
  content := Function.update fs.content (fs.handle p) []
  next := max fs.next (fs.handle p + 1)
  single q r i hq hr := by
    rw [Function.update_apply] at hq hr
    split at hq
    · cases hq
      split at hr
      · subst q r
        rfl
      · subst q
        exact (Fs.eq_of_handle hr).symm
    · split at hr
      · cases hr
        subst r
        exact Fs.eq_of_handle hq
      · exact fs.single q r i hq hr
  fresh q i hq := by
    rw [Function.update_apply] at hq
    split at hq
    · cases hq
      exact lt_max_of_lt_right (Nat.lt_succ_self _)
    · exact Fs.lt_handle hq

/-- The bytes are put at an offset, behind zeros where the text is too short. -/
def overwrite (text : List UInt8) (offset : Nat) (bytes : List UInt8) : List UInt8 :=
  text.take offset ++ List.replicate (offset - text.length) 0 ++ bytes ++ text.drop (offset + bytes.length)

def Fs.write (fs : Fs P) (i offset : Nat) (bytes : List UInt8) : Fs P :=
  { fs with content := Function.update fs.content i (overwrite (fs.content i) offset bytes) }

def Fs.move (fs : Fs P) (p q : P) (i : Nat) (h : fs.inode p = some i) : Fs P where
  inode := Function.update (Function.update fs.inode p none) q (some i)
  content := fs.content
  next := fs.next
  single a b j ha hb := by
    have hold (c : P) (hc : Function.update fs.inode p none c = some j) : c ≠ p ∧ fs.inode c = some j := by
      rw [Function.update_apply] at hc
      split at hc
      · cases hc
      · rename_i hne
        exact ⟨hne, hc⟩
    rw [Function.update_apply] at ha hb
    split at ha
    · cases ha
      split at hb
      · subst a b
        rfl
      · obtain ⟨hne, hb⟩ := hold b hb
        exact absurd (fs.single b p i hb h) hne
    · obtain ⟨hne, ha⟩ := hold a ha
      split at hb
      · cases hb
        exact absurd (fs.single a p i ha h) hne
      · exact fs.single a b j ha (hold b hb).2
  fresh a j ha := by
    rw [Function.update_apply, Function.update_apply] at ha
    split at ha
    · cases ha
      exact fs.fresh p i h
    · split at ha
      · cases ha
      · exact fs.fresh a j ha

def Fs.rename (fs : Fs P) (p q : P) : Option (Fs P) :=
  if h : (fs.inode p).isSome then some (fs.move p q _ (Option.some_get h).symm) else none

section Operations

variable {fs fs' : Fs P} {p q r : P} {i j : Nat}

theorem create_inode_self : (fs.create p).inode p = some (fs.handle p) := Function.update_self _ _ _

theorem create_inode_of_ne (h : r ≠ p) : (fs.create p).inode r = fs.inode r := Function.update_of_ne h _ _

theorem create_content_self : (fs.create p).content (fs.handle p) = [] := Function.update_self _ _ _

theorem create_content_of_ne (hr : r ≠ p) (h : fs.inode r = some i) :
    (fs.create p).content i = fs.content i := by
  refine Function.update_of_ne ?_ _ _
  rintro rfl
  exact hr (Fs.eq_of_handle h)

theorem handle_lt_create : fs.handle p < (fs.create p).next := lt_max_of_lt_right (Nat.lt_succ_self _)

theorem next_le_create : fs.next ≤ (fs.create p).next := le_max_left _ _

theorem rename_some (h : fs.rename p q = some fs') : ∃ i, fs.inode p = some i ∧
    fs'.inode = Function.update (Function.update fs.inode p none) q (some i) ∧
    fs'.content = fs.content ∧ fs'.next = fs.next := by
  rw [Fs.rename] at h
  split at h
  · cases h
    exact ⟨_, (Option.some_get _).symm, rfl, rfl, rfl⟩
  · cases h

theorem rename_none : fs.rename p q = none ↔ fs.inode p = none := by
  rw [Fs.rename]
  split
  · rename_i h
    refine iff_of_false (fun hc => by cases hc) ?_
    rw [← Option.isNone_iff_eq_none, Option.isNone_eq_false_iff.mpr h]
    decide
  · rename_i h
    exact iff_of_true rfl (Option.not_isSome_iff_eq_none.mp h)

omit [DecidableEq P] in
theorem write_content_self (offset : Nat) (bytes : List UInt8) :
    (fs.write i offset bytes).content i = overwrite (fs.content i) offset bytes := Function.update_self _ _ _

omit [DecidableEq P] in
theorem write_content_of_ne (h : j ≠ i) (offset : Nat) (bytes : List UInt8) :
    (fs.write i offset bytes).content j = fs.content j := Function.update_of_ne h _ _

theorem overwrite_self {text : List UInt8} {offset : Nat} (h : offset ≤ text.length) (n : Nat) :
    overwrite text offset ((text.drop offset).take n) = text := by
  have hdrop : text.drop (offset + ((text.drop offset).take n).length) = (text.drop offset).drop n := by
    rw [← List.drop_drop, List.length_take]
    obtain hle | hle := Nat.le_total n (text.drop offset).length
    · rw [Nat.min_eq_left hle]
    · rw [Nat.min_eq_right hle, List.drop_length, List.drop_eq_nil_of_le hle]
  rw [overwrite, hdrop, Nat.sub_eq_zero_of_le h, List.replicate_zero, List.append_nil, List.append_assoc,
    List.take_append_drop, List.take_append_drop]

theorem overwrite_take {text : List UInt8} {offset : Nat} (h : offset ≤ text.length) (n : Nat) :
    overwrite (text.take offset) offset ((text.drop offset).take n) =
      text.take (offset + ((text.drop offset).take n).length) := by
  have hlength : (text.take offset).length = offset := List.length_take_of_le h
  rw [overwrite, hlength, Nat.sub_self, List.replicate_zero, List.append_nil,
    List.take_of_length_le hlength.le, List.drop_eq_nil_of_le (hlength.le.trans (Nat.le_add_right _ _)),
    List.append_nil, List.take_add, List.length_take, ← List.take_take, List.take_length]

end Operations

end Cosmon.Lib.Inodes
