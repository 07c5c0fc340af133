import Mathlib.Data.List.Basic
import Mathlib.Data.UInt

namespace Cosmon.Lib.Bytes

section Text

def utf8 (text : String) : List UInt8 := text.toByteArray.data.toList

theorem utf8_injective {a b : String} (h : utf8 a = utf8 b) : a = b :=
  String.toByteArray_inj.mp (ByteArray.ext (Array.toList_inj.mp h))

end Text

section LittleEndian

/-- The `size` low bytes of a number, the least significant first. -/
def leBytes : Nat → Nat → List UInt8
  | 0, _ => []
  | size + 1, n => UInt8.ofNat n :: leBytes size (n / 256)

@[simp] theorem leBytes_length (size n : Nat) : (leBytes size n).length = size := by
  induction size generalizing n with
  | zero => rfl
  | succ size ih => rw [leBytes, List.length_cons, ih]

theorem leBytes_injective {size m n : Nat} (hm : m < 256 ^ size) (hn : n < 256 ^ size)
    (h : leBytes size m = leBytes size n) : m = n := by
  induction size generalizing m n with
  | zero => omega
  | succ size ih =>
    rw [pow_succ] at hm hn
    obtain ⟨hlow, hhigh⟩ := List.cons.inj h
    have hquotient := ih (Nat.div_lt_of_lt_mul (by omega)) (Nat.div_lt_of_lt_mul (by omega)) hhigh
    have hlow' := congrArg UInt8.toNat hlow
    simp only [UInt8.toNat_ofNat'] at hlow'
    omega

theorem lengthPrefixed_inj {size : Nat} {a b x y : List UInt8} (ha : a.length < 256 ^ size)
    (hb : b.length < 256 ^ size)
    (h : leBytes size a.length ++ (a ++ x) = leBytes size b.length ++ (b ++ y)) : a = b ∧ x = y := by
  obtain ⟨hlength, hrest⟩ := List.append_inj h (by rw [leBytes_length, leBytes_length])
  exact List.append_inj hrest (leBytes_injective ha hb hlength)

end LittleEndian

section Hex

def hexByte (b : UInt8) : List Char := [Nat.digitChar (b.toNat / 16), Nat.digitChar (b.toNat % 16)]

def hexText (bytes : List UInt8) : List Char := bytes.flatMap hexByte

theorem digitChar_injective {m n : Nat} (hm : m < 16) (hn : n < 16) (h : Nat.digitChar m = Nat.digitChar n) :
    m = n := by
  have hall : ∀ m n : Fin 16, Nat.digitChar m = Nat.digitChar n → m = n := by decide
  exact congrArg Fin.val (hall ⟨m, hm⟩ ⟨n, hn⟩ h)

theorem hexByte_injective {a b : UInt8} (h : hexByte a = hexByte b) : a = b := by
  have ha := a.toNat_lt
  have hb := b.toNat_lt
  obtain ⟨hhigh, hrest⟩ := List.cons.inj h
  have hquotient := digitChar_injective (by omega) (by omega) hhigh
  have hremainder := digitChar_injective (Nat.mod_lt _ (by decide)) (Nat.mod_lt _ (by decide)) (List.cons.inj hrest).1
  apply UInt8.toNat_inj.mp
  omega

theorem hexText_length (bytes : List UInt8) : (hexText bytes).length = 2 * bytes.length := by
  induction bytes with
  | nil => rfl
  | cons b rest ih =>
    rw [hexText, List.flatMap_cons, List.length_append, ← hexText, ih, List.length_cons, hexByte]
    simp only [List.length_cons, List.length_nil]
    omega

theorem hexText_injective {as bs : List UInt8} (h : hexText as = hexText bs) : as = bs := by
  have hlength : as.length = bs.length := by
    have := congrArg List.length h
    rw [hexText_length, hexText_length] at this
    omega
  induction as generalizing bs with
  | nil => exact (List.length_eq_zero_iff.mp hlength.symm).symm
  | cons a as ih =>
    cases bs with
    | nil => cases hlength
    | cons b bs =>
      obtain ⟨hhead, htail⟩ := List.append_inj h (rfl : (hexByte a).length = (hexByte b).length)
      rw [hexByte_injective hhead, ih htail (Nat.succ.inj hlength)]

def isHexDigit (c : Char) : Bool := c.isDigit || ('a' ≤ c && c ≤ 'f')

theorem isHexDigit_digitChar {n : Nat} (h : n < 16) : isHexDigit (Nat.digitChar n) = true := by
  have hall : ∀ n : Fin 16, isHexDigit (Nat.digitChar n) = true := by decide
  exact hall ⟨n, h⟩

theorem isHexDigit_hexText {bytes : List UInt8} {c : Char} (h : c ∈ hexText bytes) : isHexDigit c = true := by
  obtain ⟨b, -, hc⟩ := List.mem_flatMap.mp h
  have hb := b.toNat_lt
  rw [hexByte, List.mem_cons, List.mem_singleton] at hc
  obtain rfl | rfl := hc
  · exact isHexDigit_digitChar (by omega)
  · exact isHexDigit_digitChar (Nat.mod_lt _ (by decide))

end Hex

end Cosmon.Lib.Bytes
