import Mathlib.Data.List.Basic
import Mathlib.Data.List.GetD
import Mathlib.Logic.Function.Iterate

/-!
# Checksums by a shift register

A register of `w` bits that shifts towards its most significant bit and adds a polynomial when a one
leaves it (`shift`), fed with a bit string, most significant bit first (`register`). `shift` is
linear (`shift_xor`), and injective when the lowest bit of the polynomial is set
(`shift_injective`). At most `w` bits can be added to the register at once, aligned at its top,
before it is shifted (`register_eq_pack`).

So strings of one length that differ, and do so within a window of `w` consecutive bits, leave
different registers, whatever the register starts with and however long the strings are
(`register_ne_of_differWithin`).
-/

set_option autoImplicit false
set_option relaxedAutoImplicit false

namespace AarnnNsys.Lib

/-- Two strings differ at most within a window of `width` consecutive positions. -/
def DifferWithin {α : Type} (width : ℕ) (first second : List α) : Prop :=
  ∃ position, first.take position = second.take position ∧
    first.drop (position + width) = second.drop (position + width)

section Register

variable {w : ℕ} (poly : BitVec w)

/-- One step of the register. -/
def shift (r : BitVec w) : BitVec w := if r.msb then (r <<< 1) ^^^ poly else r <<< 1

/-- A bit at the top of the register. -/
def topBit (w : ℕ) (bit : Bool) : BitVec w := if bit then BitVec.twoPow w (w - 1) else 0

/-- The register after it has been fed with bits. -/
def register (r : BitVec w) (bits : List Bool) : BitVec w :=
  bits.foldl (fun r bit ↦ shift poly (r ^^^ topBit w bit)) r

/-- Bits aligned at the top of a register. -/
def pack : List Bool → BitVec w
  | [] => 0
  | bit :: bits => topBit w bit ^^^ (pack bits >>> 1)

/-- What leaves the register decides whether the polynomial is added. -/
theorem shift_eq (r : BitVec w) : shift poly r = (r <<< 1) ^^^ (if r.msb then poly else 0) := by
  unfold shift
  split
  · rfl
  · exact BitVec.xor_zero.symm

/-- The step is linear. -/
theorem shift_xor (a b : BitVec w) : shift poly (a ^^^ b) = shift poly a ^^^ shift poly b := by
  have hpoly : (if (a ^^^ b).msb then poly else 0) =
      (if a.msb then poly else 0) ^^^ (if b.msb then poly else 0) := by
    rw [BitVec.msb_xor]
    cases a.msb <;> cases b.msb <;> simp
  rw [shift_eq, shift_eq, shift_eq, hpoly, BitVec.shiftLeft_xor_distrib]
  ac_rfl

variable {poly}

/-- The step loses nothing. Assumes: the lowest bit of the polynomial is set. -/
theorem shift_injective (hpoly : poly.getLsbD 0 = true) : Function.Injective (shift poly) := by
  intro a b hsame
  have hzero : shift poly (a ^^^ b) = 0 := by rw [shift_xor, hsame, BitVec.xor_self]; rfl
  apply BitVec.xor_eq_zero_iff.mp
  generalize a ^^^ b = c at hzero
  have hbit (i : ℕ) : (shift poly c).getLsbD i = false := by rw [hzero]; exact BitVec.getLsbD_zero
  rw [shift_eq] at hbit
  -- the polynomial has not been added, or its lowest bit would be left
  have hmsb : c.msb = false := by
    by_contra hset
    have hlowest := hbit 0
    rw [Bool.not_eq_false] at hset
    simp [hset, hpoly] at hlowest
  refine BitVec.eq_of_getLsbD_eq fun i hi ↦ ?_
  rw [BitVec.msb_eq_getLsbD_last] at hmsb
  rcases Nat.lt_or_ge (i + 1) w with hlt | hge
  · have hnext := hbit (i + 1)
    rw [BitVec.msb_eq_getLsbD_last, hmsb] at hnext
    simpa [hlt, hi] using hnext
  · rw [show i = w - 1 by omega, hmsb]
    simp

/-- Which bit of the register a bit of the string is aligned with. -/
theorem getLsbD_pack (bits : List Bool) (i : ℕ) :
    (pack bits : BitVec w).getLsbD i = (decide (i < w) && bits.getD (w - 1 - i) false) := by
  induction bits generalizing i with
  | nil => simp [pack]
  | cons bit bits ih =>
    have htop : (topBit w bit).getLsbD i = (decide (i < w) && decide (w - 1 = i) && bit) := by
      unfold topBit
      cases bit
      · simp
      · simp only [if_true, BitVec.getLsbD_twoPow, Bool.and_true]
        grind
    rw [pack, BitVec.getLsbD_xor, BitVec.getLsbD_ushiftRight, ih, htop]
    rcases Nat.lt_trichotomy (i + 1) w with hlt | heq | hgt
    · have hindex : w - 1 - i = (w - 1 - (1 + i)) + 1 := by omega
      have hnot : ¬ w - 1 = i := by omega
      simp [hindex, hnot, show i < w by omega, show 1 + i < w by omega]
    · simp [← heq, Nat.add_comm 1]
    · simp [show ¬ i < w by omega, show ¬ 1 + i < w by omega]

/-- Strings that are no longer than the register are recovered from their alignment. -/
theorem pack_injective {first second : List Bool} (hlength : first.length = second.length)
    (hsize : first.length ≤ w) (hpack : (pack first : BitVec w) = pack second) :
    first = second := by
  refine List.ext_getElem hlength fun k hfirst hsecond ↦ ?_
  have hbit := congrArg (BitVec.getLsbD · (w - 1 - k)) hpack
  simp only [getLsbD_pack] at hbit
  have hindex : w - 1 - (w - 1 - k) = k := by omega
  simpa [hindex, show w - 1 - k < w by omega, hfirst, hsecond] using hbit

variable (poly) in
/-- Bits that fit the register are as good as added to it at once. -/
theorem register_eq_pack (r : BitVec w) {bits : List Bool} (hsize : bits.length ≤ w) :
    register poly r bits = (shift poly)^[bits.length] (r ^^^ pack bits) := by
  induction bits generalizing r with
  | nil => simp [register, pack]
  | cons bit bits ih =>
    rw [List.length_cons] at hsize
    -- the bits that stay behind the first one are shifted to where they would be added
    have hrest : shift poly (pack bits >>> 1 : BitVec w) = pack bits := by
      have hmsb : (pack bits >>> 1 : BitVec w).msb = false := by simp [BitVec.msb_ushiftRight]
      have hlowest : (pack bits : BitVec w).getLsbD 0 = false := by
        rw [getLsbD_pack, List.getD_eq_default _ _ (by omega), Bool.and_false]
      rw [shift, hmsb, if_neg Bool.false_ne_true]
      refine BitVec.eq_of_getLsbD_eq fun i hi ↦ ?_
      rcases Nat.eq_zero_or_pos i with rfl | hpos
      · simp [hlowest]
      · simp [hi, show 1 + (i - 1) = i by omega, Nat.one_le_iff_ne_zero.mp hpos]
    rw [register, List.foldl_cons, ← register, ih _ (by omega), List.length_cons,
      Function.iterate_succ_apply, pack, ← BitVec.xor_assoc,
      shift_xor poly (r ^^^ topBit w bit) (pack bits >>> 1), hrest]

/-- What is fed later keeps registers apart. -/
theorem register_injective (hpoly : poly.getLsbD 0 = true) (bits : List Bool) :
    Function.Injective fun r ↦ register poly r bits := by
  induction bits with
  | nil => exact fun _ _ hsame ↦ hsame
  | cons bit bits ih =>
    intro a b hsame
    exact (BitVec.xor_left_inj (topBit w bit)).mp (shift_injective hpoly (ih hsame))

/-- A register tells strings apart that differ within a window of its size. Assumes: the lowest bit
of the polynomial is set, and the strings have one length. -/
theorem register_ne_of_differWithin (hpoly : poly.getLsbD 0 = true) {first second : List Bool}
    (hlength : first.length = second.length) (hdiffer : DifferWithin w first second)
    (hne : first ≠ second) (r : BitVec w) : register poly r first ≠ register poly r second := by
  obtain ⟨position, hbefore, hbehind⟩ := hdiffer
  have hsplit (bits : List Bool) : bits = bits.take position ++
      ((bits.drop position).take w ++ bits.drop (position + w)) := by
    rw [← List.drop_drop, List.take_append_drop, List.take_append_drop]
  intro hsame
  rw [hsplit first, hsplit second, hbefore, hbehind] at hsame
  simp only [register, List.foldl_append] at hsame
  have hwindow : register poly _ ((first.drop position).take w) =
      register poly _ ((second.drop position).take w) := register_injective hpoly _ hsame
  have hsizes : ((first.drop position).take w).length = ((second.drop position).take w).length := by
    rw [List.length_take, List.length_take, List.length_drop, List.length_drop, hlength]
  rw [register_eq_pack poly _ (List.length_take_le _ _),
    register_eq_pack poly _ (List.length_take_le _ _), hsizes] at hwindow
  have hpack : (pack ((first.drop position).take w) : BitVec w) =
      pack ((second.drop position).take w) :=
    (BitVec.xor_right_inj _).mp ((shift_injective hpoly).iterate _ hwindow)
  have hmiddle := pack_injective hsizes (List.length_take_le _ _) hpack
  apply hne
  rw [hsplit first, hsplit second, hbefore, hbehind, hmiddle]

end Register

end AarnnNsys.Lib
