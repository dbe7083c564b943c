import AarnnNsys.Lib.Crc
import AarnnNsys.Wire.Bytes

/-!
# The checksum as a shift register

`crc16Ccitt` is the shift register of `AarnnNsys.Lib.Crc` with sixteen bits and the polynomial
`0x1021`, fed with the bits of the bytes, most significant first (`toBitVec_crc16Ccitt`): the code
adds eight bits to the register at once and then shifts it eight times.

So no burst of up to sixteen bits escapes it, for any start value and any length
(`crc16Ccitt_ne_of_differWithin`). `Burst` is such an error in a frame, and `Burst.crc_ne` what it
does to the checksum.
-/

set_option autoImplicit false
set_option relaxedAutoImplicit false

namespace AarnnNsys.Wire

open Lib

/-- The bits of a byte, most significant first. -/
def byteBits (b : UInt8) : List Bool := (List.range 8).map b.toBitVec.getMsbD

/-- The bits of a string of bytes, in the order in which the checksum reads them. -/
def bits (data : List UInt8) : List Bool := data.flatMap byteBits

@[simp] theorem length_byteBits (b : UInt8) : (byteBits b).length = 8 := by simp [byteBits]

theorem byteBits_injective : Function.Injective byteBits := by
  intro a b hsame
  apply UInt8.toBitVec_inj.mp
  refine BitVec.eq_of_getMsbD_eq fun i hi ↦ ?_
  simpa [byteBits, hi] using congrArg (·[i]?) hsame

theorem bits_cons (b : UInt8) (data : List UInt8) : bits (b :: data) = byteBits b ++ bits data :=
  rfl

theorem length_bits (data : List UInt8) : (bits data).length = 8 * data.length := by
  induction data with
  | nil => rfl
  | cons b data ih =>
    rw [bits_cons, List.length_append, length_byteBits, ih, List.length_cons]
    omega

/-- Different strings of bytes have different bits. -/
theorem bits_injective : Function.Injective bits := by
  intro first second hsame
  have hlength : first.length = second.length := by
    have hbits := congrArg List.length hsame
    rw [length_bits, length_bits] at hbits
    omega
  induction first generalizing second with
  | nil => exact (List.length_eq_zero_iff.mp hlength.symm).symm
  | cons a first ih =>
    match second, hlength with
    | b :: second, hlength =>
      obtain ⟨hhead, htail⟩ := List.append_inj hsame (by simp)
      rw [byteBits_injective hhead, ih htail (Nat.succ.inj hlength)]

/-! ### The code's loop -/

theorem toBitVec_crcShift (crc : UInt16) : (crcShift crc).toBitVec = shift 0x1021 crc.toBitVec := by
  have hmask : (crc &&& 0x8000).toBitVec = if crc.toBitVec.msb then 0x8000 else 0 := by
    rw [BitVec.msb_eq_getLsbD_last, UInt16.toBitVec_and]
    exact BitVec.and_twoPow crc.toBitVec 15
  have htop : crc &&& 0x8000 ≠ 0 ↔ crc.toBitVec.msb := by
    rw [Ne, ← UInt16.toBitVec_inj, hmask]
    cases crc.toBitVec.msb <;> decide
  simp only [crcShift, shift, htop]
  split <;> rfl

/-- The byte is added to the upper half of the register. -/
theorem toBitVec_shiftLeft_eq_pack (b : UInt8) :
    (b.toUInt16 <<< 8).toBitVec = pack (byteBits b) := by
  have hshift : (b.toUInt16 <<< 8).toBitVec = b.toBitVec.setWidth 16 <<< 8 := rfl
  refine BitVec.eq_of_getLsbD_eq fun i hi ↦ ?_
  rw [hshift, getLsbD_pack, BitVec.getLsbD_shiftLeft, BitVec.getLsbD_setWidth]
  rcases Nat.lt_or_ge i 8 with hlow | hhigh
  · have hpast : 8 ≤ 15 - i := by omega
    simp [hlow, byteBits, hpast]
  · have hbit : b.toBitVec.getMsbD (15 - i) = b.toBitVec.getLsbD (i - 8) := by
      rw [BitVec.getMsbD_eq_getLsbD, show 8 - 1 - (15 - i) = i - 8 by omega]
      simp [show 15 - i < 8 by omega]
    simp [hi, hbit, byteBits, Nat.not_lt.mpr hhigh, show i - 8 < 16 by omega,
      show 15 - i < 8 by omega]

theorem toBitVec_crcByte (crc : UInt16) (b : UInt8) :
    (crcByte crc b).toBitVec = register 0x1021 crc.toBitVec (byteBits b) := by
  have hloop : Function.Semiconj UInt16.toBitVec crcShift (shift 0x1021) := toBitVec_crcShift
  rw [register_eq_pack 0x1021 _ (by simp), length_byteBits, ← toBitVec_shiftLeft_eq_pack]
  exact hloop.iterate_right 8 _

/-- The checksum is what the bits of the bytes leave in the register. -/
theorem toBitVec_crc16Ccitt (crc : UInt16) (data : List UInt8) :
    (crc16Ccitt crc data).toBitVec = register 0x1021 crc.toBitVec (bits data) := by
  induction data generalizing crc with
  | nil => rfl
  | cons b data ih =>
    rw [crc16Ccitt, List.foldl_cons, ← crc16Ccitt, ih, toBitVec_crcByte, bits_cons, register,
      register, register, List.foldl_append]

/-- The checksum of a string that is fed in two parts. -/
theorem crc16Ccitt_append (crc : UInt16) (first second : List UInt8) :
    crc16Ccitt crc (first ++ second) = crc16Ccitt (crc16Ccitt crc first) second :=
  List.foldl_append

/-! ### Bursts -/

/-- Strings of one length that differ, but only within a window of sixteen bits, have different
checksums, whatever the start value. -/
theorem crc16Ccitt_ne_of_differWithin {first second : List UInt8}
    (hlength : first.length = second.length) (hdiffer : DifferWithin 16 (bits first) (bits second))
    (hne : first ≠ second) (crc : UInt16) : crc16Ccitt crc first ≠ crc16Ccitt crc second := by
  have hbits : (bits first).length = (bits second).length := by
    rw [length_bits, length_bits, hlength]
  intro hsame
  have hregister := congrArg UInt16.toBitVec hsame
  rw [toBitVec_crc16Ccitt, toBitVec_crc16Ccitt] at hregister
  exact register_ne_of_differWithin (by decide) hbits hdiffer (bits_injective.ne hne) _ hregister

/-- A burst error turns a frame into another of its length. The bytes at the intact positions stay,
and the bytes under the checksum change within a window of sixteen bits. -/
structure Burst (intact : ℕ → Prop) (covered : List UInt8 → List UInt8)
    (frame frame' : List UInt8) : Prop where
  length_eq : frame'.length = frame.length
  intact : ∀ k, intact k → frame'[k]? = frame[k]?
  window : DifferWithin 16 (bits (covered frame)) (bits (covered frame'))
  ne : frame' ≠ frame

end AarnnNsys.Wire
