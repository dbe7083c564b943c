import Mathlib.Data.List.Basic
import Mathlib.Logic.Function.Iterate

/-!
# Bytes on the wire

Both bridges write sixteen-bit words as two bytes and close their frames with the same CRC. This
file holds the two byte orders with their round trips (`le16_loByte_hiByte`, `be16_hiByte_loByte`),
the checksum `crc16Ccitt`, and the two partial reads the receivers make from a buffer: one byte,
which is `xs[i]?`, and a slice, `slice?`, both `none` where the program would panic.
-/

set_option autoImplicit false
set_option relaxedAutoImplicit false

namespace AarnnNsys.Wire

/-- `(x & 0xFF) as u8`. -/
def loByte (x : UInt16) : UInt8 := (x &&& 0xFF).toUInt8

/-- `(x >> 8) as u8`. -/
def hiByte (x : UInt16) : UInt8 := (x >>> 8).toUInt8

/-- The word with the given low and high byte: `(lo as u16) | ((hi as u16) << 8)`. -/
def le16 (lo hi : UInt8) : UInt16 := lo.toUInt16 ||| (hi.toUInt16 <<< 8)

/-- `u16::from_be_bytes([hi, lo])`. -/
def be16 (hi lo : UInt8) : UInt16 := (hi.toUInt16 <<< 8) ||| lo.toUInt16

/-- `x.to_be_bytes()`. -/
def toBeBytes (x : UInt16) : List UInt8 := [hiByte x, loByte x]

/-- The word of two bytes as a number. -/
theorem le16_toNat (lo hi : UInt8) : (le16 lo hi).toNat = 256 * hi.toNat + lo.toNat := by
  have hlo : lo.toNat < 2 ^ 8 := lo.toNat_lt
  have hhi : hi.toNat < 2 ^ 8 := hi.toNat_lt
  have hshift : (hi.toUInt16 <<< 8).toNat = hi.toNat <<< 8 := by
    simp only [UInt16.toNat_shiftLeft, UInt8.toNat_toUInt16, Nat.shiftLeft_eq]
    show hi.toNat * 2 ^ 8 % 2 ^ 16 = hi.toNat * 2 ^ 8
    exact Nat.mod_eq_of_lt (by omega)
  rw [le16, UInt16.toNat_or, UInt8.toNat_toUInt16, hshift, Nat.or_comm,
    ← Nat.shiftLeft_add_eq_or_of_lt hlo, Nat.shiftLeft_eq]
  omega

theorem loByte_toNat (x : UInt16) : (loByte x).toNat = x.toNat % 256 := by
  have hmask : x.toNat &&& 255 = x.toNat % 2 ^ 8 := Nat.and_two_pow_sub_one_eq_mod x.toNat 8
  simp only [loByte, UInt16.toNat_toUInt8, UInt16.toNat_and]
  show (x.toNat &&& 255) % 2 ^ 8 = _
  rw [hmask]
  omega

theorem hiByte_toNat (x : UInt16) : (hiByte x).toNat = x.toNat / 256 := by
  have hx : x.toNat < 65536 := x.toNat_lt
  simp only [hiByte, UInt16.toNat_toUInt8, UInt16.toNat_shiftRight]
  show x.toNat >>> 8 % 2 ^ 8 = _
  rw [Nat.shiftRight_eq_div_pow]
  omega

/-- The two bytes of a word give the word back. -/
@[simp] theorem le16_loByte_hiByte (x : UInt16) : le16 (loByte x) (hiByte x) = x := by
  apply UInt16.toNat_inj.mp
  rw [le16_toNat, loByte_toNat, hiByte_toNat, Nat.div_add_mod]

/-- A word gives its two bytes back. -/
theorem bytes_le16 (lo hi : UInt8) : loByte (le16 lo hi) = lo ∧ hiByte (le16 lo hi) = hi := by
  have hlo : lo.toNat < 2 ^ 8 := lo.toNat_lt
  have hhi : hi.toNat < 2 ^ 8 := hi.toNat_lt
  have hword := le16_toNat lo hi
  have hloByte := loByte_toNat (le16 lo hi)
  have hhiByte := hiByte_toNat (le16 lo hi)
  refine ⟨UInt8.toNat_inj.mp ?_, UInt8.toNat_inj.mp ?_⟩ <;> omega

/-- The network order bytes of a word give the word back. -/
@[simp] theorem be16_hiByte_loByte (x : UInt16) : be16 (hiByte x) (loByte x) = x := by
  have hsame : be16 (hiByte x) (loByte x) = le16 (loByte x) (hiByte x) := UInt16.or_comm _ _
  rw [hsame, le16_loByte_hiByte]

/-- One turn of the inner loop of `crc16_ccitt`. -/
def crcShift (crc : UInt16) : UInt16 :=
  if crc &&& 0x8000 ≠ 0 then (crc <<< 1) ^^^ 0x1021 else crc <<< 1

/-- What `crc16_ccitt` does with one byte. -/
def crcByte (crc : UInt16) (b : UInt8) : UInt16 :=
  crcShift^[8] (crc ^^^ (b.toUInt16 <<< 8))

/-- `crc16_ccitt`: the polynomial `0x1021`, most significant bit first. -/
def crc16Ccitt (crc : UInt16) (data : List UInt8) : UInt16 :=
  data.foldl crcByte crc

/-- `&buf[start..stop]`, with `none` for the panic. -/
def slice? (buf : List UInt8) (start stop : ℕ) : Option (List UInt8) :=
  if start ≤ stop ∧ stop ≤ buf.length then some ((buf.drop start).take (stop - start)) else none

/-- A computation that may panic does not if its parts do not. -/
theorem isSome_bind_of {α β : Type} {first : Option α} {rest : α → Option β} (hfirst : first.isSome)
    (hrest : ∀ a, first = some a → (rest a).isSome) : (first >>= rest).isSome := by
  obtain ⟨a, rfl⟩ := Option.isSome_iff_exists.mp hfirst
  exact hrest a rfl

theorem slice?_isSome {buf : List UInt8} {start stop : ℕ} (hle : start ≤ stop)
    (hstop : stop ≤ buf.length) : (slice? buf start stop).isSome := by
  rw [slice?, if_pos ⟨hle, hstop⟩]
  rfl

/-- A slice of the front part is a slice of the whole. -/
theorem slice?_take {buf : List UInt8} {start stop n : ℕ} (hstop : stop ≤ n) :
    slice? (buf.take n) start stop = slice? buf start stop := by
  simp only [slice?, List.length_take]
  by_cases hin : start ≤ stop ∧ stop ≤ buf.length
  · rw [if_pos hin, if_pos ⟨hin.1, by omega⟩, List.drop_take, List.take_take,
      Nat.min_eq_left (by omega)]
  · rw [if_neg hin, if_neg (by omega)]

/-- A slice ends inside the buffer. -/
theorem stop_le_of_slice? {buf part : List UInt8} {start stop : ℕ}
    (hslice : slice? buf start stop = some part) : stop ≤ buf.length := by
  unfold slice? at hslice
  split at hslice
  · rename_i hin
    exact hin.2
  · cases hslice

/-- What is sliced from the front part is sliced from the whole. -/
theorem slice?_of_take {buf part : List UInt8} {start stop n : ℕ}
    (hslice : slice? (buf.take n) start stop = some part) : slice? buf start stop = some part := by
  have hstop : stop ≤ n := Nat.le_trans (stop_le_of_slice? hslice) (List.length_take_le _ _)
  rw [← hslice, slice?_take hstop]

end AarnnNsys.Wire
