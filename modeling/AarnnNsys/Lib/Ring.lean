import Mathlib.Data.List.Range
import Mathlib.Data.Nat.ModEq
import Mathlib.Data.Nat.SuccPred
import Mathlib.Order.Bounds.Basic
import Mathlib.Tactic.Linarith

/-!
# Sequence numbers on a ring of fixed capacity

A ring stores sequence number `n` in the cell `n % capacity`. Two sequence numbers share a cell
exactly when they are whole laps apart, so distinct numbers of one cell differ by at least the
capacity (`add_le_of_mod_eq`) and a window of `capacity` consecutive numbers uses every cell once
(`eq_of_mod_eq_of_window`).

`lapSequence` lists the numbers a cell takes on its first laps, `i, i + capacity, …`, and
`lapStamp` is the stamp left by the last of them, one more than the number, with `0` for a cell that
was never used. `lapStamp_next` is the step from one lap to the next.

A walk goes on from a number to the next one while the cell of the number holds the next one, and
`EndsAfter` says after how many numbers it ends. Nothing is assumed of what the cells hold: a cell
cannot let the walk pass on two laps, so the walk ends within one (`exists_endsAfter`).

Bytes of a message of at most `width` bytes kept in cell `i` lie at `i * width + k`;
`cell_offset_injective` says these addresses never collide.
-/

set_option autoImplicit false
set_option relaxedAutoImplicit false

namespace AarnnNsys.Lib

/-- Masking with a power of two minus one is the remainder. -/
theorem and_sub_one_eq_mod {capacity : ℕ} (hpow : capacity.isPowerOfTwo) (sequence : ℕ) :
    sequence &&& (capacity - 1) = sequence % capacity := by
  obtain ⟨exponent, rfl⟩ := hpow
  exact Nat.and_two_pow_sub_one_eq_mod sequence exponent

/-- Two sequence numbers of one cell are at least a lap apart. -/
theorem add_le_of_mod_eq {capacity first second : ℕ} (hmod : first % capacity = second % capacity)
    (hlt : first < second) : first + capacity ≤ second := by
  have hdvd : capacity ∣ second - first := (Nat.modEq_iff_dvd' hlt.le).mp hmod
  have hle := Nat.le_of_dvd (by omega) hdvd
  omega

/-- Sequence numbers of one cell that lie in a window of one lap are equal. -/
theorem eq_of_mod_eq_of_window {capacity first second : ℕ}
    (hmod : first % capacity = second % capacity) (hfirst : first < second + capacity)
    (hsecond : second < first + capacity) : first = second := by
  rcases lt_trichotomy first second with hlt | heq | hgt
  · have := add_le_of_mod_eq hmod hlt
    omega
  · exact heq
  · have := add_le_of_mod_eq hmod.symm hgt
    omega

/-- The sequence numbers that cell `i` takes on its first `laps` laps. -/
def lapSequence (capacity i laps : ℕ) : List ℕ :=
  (List.range laps).map fun lap ↦ i + lap * capacity

/-- The stamp of cell `i` after `laps` laps: one more than the last sequence number stored, and `0`
before the first lap. -/
def lapStamp (capacity i : ℕ) : ℕ → ℕ
  | 0 => 0
  | laps + 1 => i + laps * capacity + 1

theorem lapSequence_succ (capacity i laps : ℕ) :
    lapSequence capacity i (laps + 1) = lapSequence capacity i laps ++ [i + laps * capacity] := by
  simp [lapSequence, List.range_succ]

/-- The numbers a cell took are those of the cell below its stamp. -/
theorem mem_lapSequence_iff {capacity i laps sequence : ℕ} (hi : i < capacity) :
    sequence ∈ lapSequence capacity i laps ↔
      sequence % capacity = i ∧ sequence < lapStamp capacity i laps := by
  have hsplit := Nat.div_add_mod sequence capacity
  cases laps with
  | zero => simp [lapSequence, lapStamp]
  | succ laps =>
    simp only [lapSequence, lapStamp, List.mem_map, List.mem_range]
    constructor
    · rintro ⟨lap, hlap, rfl⟩
      have hle : lap * capacity ≤ laps * capacity := Nat.mul_le_mul_right capacity (by omega)
      refine ⟨?_, by omega⟩
      rw [Nat.add_mul_mod_self_right, Nat.mod_eq_of_lt hi]
    · rintro ⟨hmod, hlt⟩
      refine ⟨sequence / capacity, ?_, ?_⟩
      · by_contra hge
        have hle : capacity * (laps + 1) ≤ capacity * (sequence / capacity) :=
          Nat.mul_le_mul_left capacity (by omega)
        rw [Nat.mul_succ, Nat.mul_comm capacity laps] at hle
        omega
      · rw [Nat.mul_comm]
        omega

/-- A number of a cell that lies at or past its stamp by less than a lap is the next one the cell
takes. -/
theorem lapStamp_next {capacity i laps sequence : ℕ} (hi : i < capacity)
    (hmod : sequence % capacity = i) (hle : lapStamp capacity i laps ≤ sequence)
    (hlt : sequence < lapStamp capacity i laps + capacity) : sequence = i + laps * capacity := by
  have hcell : (i + laps * capacity) % capacity = i := by
    rw [Nat.add_mul_mod_self_right, Nat.mod_eq_of_lt hi]
  cases laps with
  | zero =>
    simp only [lapStamp] at hlt
    rw [Nat.mod_eq_of_lt (by omega)] at hmod
    omega
  | succ laps =>
    simp only [lapStamp] at hle hlt
    rw [Nat.succ_mul] at hcell ⊢
    exact eq_of_mod_eq_of_window (hmod.trans hcell.symm) (by omega) (by omega)

/-- Addresses of bytes in the cells of a slab of `width` bytes a cell determine the cell and the
byte. -/
theorem cell_offset_injective {width i j k l : ℕ} (hk : k < width) (hl : l < width)
    (heq : i * width + k = j * width + l) : i = j ∧ k = l := by
  have hcell : i = j := by
    have hi : (i * width + k) / width = i := by
      rw [Nat.mul_comm, Nat.mul_add_div (by omega), Nat.div_eq_of_lt hk, add_zero]
    have hj : (j * width + l) / width = j := by
      rw [Nat.mul_comm, Nat.mul_add_div (by omega), Nat.div_eq_of_lt hl, add_zero]
    rw [← hi, heq, hj]
  subst hcell
  exact ⟨rfl, by omega⟩

/-! ### Walks around a ring -/

section Walk

variable {Sequence Cell : Type*} {next : Sequence → Sequence} {cell : Sequence → Cell}
  {stamp : Cell → Sequence} {start : Sequence} {n : ℕ}

/-- A walk over the numbers whose cells hold the number after them ends after `n` of them. -/
structure EndsAfter (next : Sequence → Sequence) (cell : Sequence → Cell) (stamp : Cell → Sequence)
    (start : Sequence) (n : ℕ) : Prop where
  passed : ∀ k < n, stamp (cell (next^[k] start)) = next (next^[k] start)
  ended : stamp (cell (next^[n] start)) ≠ next (next^[n] start)

/-- A walk that ends at once. -/
theorem endsAfter_zero_iff :
    EndsAfter next cell stamp start 0 ↔ stamp (cell start) ≠ next start :=
  ⟨fun hends ↦ hends.ended, fun hended ↦ ⟨fun k hk ↦ absurd hk (Nat.not_lt_zero k), hended⟩⟩

/-- A walk that passes its first number goes on from the next one. -/
theorem endsAfter_succ_iff : EndsAfter next cell stamp start (n + 1) ↔
    stamp (cell start) = next start ∧ EndsAfter next cell stamp (next start) n := by
  constructor
  · intro hends
    exact ⟨hends.passed 0 n.succ_pos, fun k hk ↦ hends.passed (k + 1) (by omega), hends.ended⟩
  · rintro ⟨hfirst, hrest⟩
    refine ⟨fun k hk ↦ ?_, hrest.ended⟩
    cases k with
    | zero => exact hfirst
    | succ k => exact hrest.passed k (by omega)

/-- A walk ends within a lap, whatever the cells hold. Assumes: a lap from `start` comes back to its
cell with another number. -/
theorem exists_endsAfter {lap : ℕ} (hcell : cell (next^[lap] start) = cell start)
    (hne : next (next^[lap] start) ≠ next start) :
    ∃ n ≤ lap, EndsAfter next cell stamp start n := by
  classical
  -- the cell of `start` cannot hold both the next number and the one a lap later
  obtain ⟨last, hlast, hended⟩ :
      ∃ last ≤ lap, stamp (cell (next^[last] start)) ≠ next (next^[last] start) := by
    by_cases hfirst : stamp (cell start) = next start
    · exact ⟨lap, le_rfl, by rw [hcell, hfirst]; exact hne.symm⟩
    · exact ⟨0, lap.zero_le, hfirst⟩
  have hexists : ∃ n, stamp (cell (next^[n] start)) ≠ next (next^[n] start) := ⟨last, hended⟩
  refine ⟨Nat.find hexists, (Nat.find_min' hexists hended).trans hlast, ?_, Nat.find_spec hexists⟩
  intro k hk
  by_contra hother
  exact Nat.find_min hexists hk hother

end Walk

/-- Counting up from a number. -/
theorem add_one_iterate (start n : ℕ) : (· + 1)^[n] start = start + n :=
  Nat.succ_iterate start n

/-- On a ring of natural numbers every walk ends within a lap. -/
theorem exists_endsAfter_mod {capacity : ℕ} (hpos : 0 < capacity) (stamp : ℕ → ℕ) (start : ℕ) :
    ∃ n ≤ capacity, EndsAfter (· + 1) (· % capacity) stamp start n := by
  apply exists_endsAfter
  · rw [add_one_iterate, Nat.add_mod_right]
  · rw [add_one_iterate]
    omega

/-- On the natural numbers a walk ends at the first number whose cell holds another one. -/
theorem EndsAfter.isLeast {Cell : Type*} {cell : ℕ → Cell} {stamp : Cell → ℕ} {start n : ℕ}
    (hends : EndsAfter (· + 1) cell stamp start n) :
    IsLeast {sequence | start ≤ sequence ∧ stamp (cell sequence) ≠ sequence + 1} (start + n) := by
  constructor
  · exact ⟨Nat.le_add_right start n, by simpa [add_one_iterate] using hends.ended⟩
  · rintro sequence ⟨hle, hother⟩
    by_contra hlt
    have hpassed := hends.passed (sequence - start) (by omega)
    rw [add_one_iterate, Nat.add_sub_cancel' hle] at hpassed
    exact hother hpassed

end AarnnNsys.Lib
