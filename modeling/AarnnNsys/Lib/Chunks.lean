import Mathlib.Data.List.Basic
import Mathlib.Data.List.Range

/-!
# Cutting a list into chunks

A list is cut from the front into chunks of `width` items, the last of them possibly shorter.
`chunk width xs i` is chunk `i` and `chunkCount width n` the number of chunks of a list of `n`
items. The first `count` chunks put together are the first `count * width` items
(`take_append_chunk` is the step and `flatten_chunks_take` the induction), so all of them are the
list (`flatten_chunks`). Chunks below the count are never empty (`length_chunk_pos`), and dropping
chunks from the front leaves the others (`chunk_drop`).
-/

set_option autoImplicit false
set_option relaxedAutoImplicit false

namespace AarnnNsys.Lib

variable {α : Type*} {width i : ℕ} {xs : List α}

/-- The `i`-th chunk of a list. -/
def chunk (width : ℕ) (xs : List α) (i : ℕ) : List α :=
  (xs.drop (i * width)).take width

/-- The number of chunks that a list of `n` items is cut into. -/
def chunkCount (width n : ℕ) : ℕ :=
  (n + width - 1) / width

theorem length_chunk : (chunk width xs i).length = min width (xs.length - i * width) := by
  simp [chunk]

theorem length_chunk_le : (chunk width xs i).length ≤ width := by
  rw [length_chunk]
  exact min_le_left _ _

/-- The chunks below the count are those that start inside the list. -/
theorem lt_chunkCount_iff {n : ℕ} (hwidth : 0 < width) :
    i < chunkCount width n ↔ i * width < n := by
  rw [chunkCount, Nat.lt_iff_add_one_le, Nat.le_div_iff_mul_le hwidth, Nat.succ_mul]
  omega

/-- A list of at most `count` chunks' worth of items is cut into at most `count` chunks. -/
theorem chunkCount_le_iff {n count : ℕ} (hwidth : 0 < width) :
    chunkCount width n ≤ count ↔ n ≤ count * width := by
  rw [← not_lt, lt_chunkCount_iff hwidth, not_lt]

theorem length_chunk_pos (hwidth : 0 < width) (hi : i < chunkCount width xs.length) :
    0 < (chunk width xs i).length := by
  have hstart := (lt_chunkCount_iff hwidth).mp hi
  rw [length_chunk]
  omega

/-- One chunk more. -/
theorem take_append_chunk (width i : ℕ) (xs : List α) :
    xs.take (i * width) ++ chunk width xs i = xs.take ((i + 1) * width) := by
  rw [chunk, Nat.succ_mul, List.take_add]

/-- The first chunks put together. -/
theorem flatten_chunks_take (width count : ℕ) (xs : List α) :
    ((List.range count).map (chunk width xs)).flatten = xs.take (count * width) := by
  induction count with
  | zero => simp
  | succ count ih =>
    rw [List.range_succ, List.map_append, List.flatten_append, ih, ← take_append_chunk]
    simp

/-- All chunks put together are the list. -/
theorem flatten_chunks (hwidth : 0 < width) (xs : List α) :
    ((List.range (chunkCount width xs.length)).map (chunk width xs)).flatten = xs := by
  rw [flatten_chunks_take]
  exact List.take_of_length_le ((chunkCount_le_iff hwidth).mp le_rfl)

/-- What is left of the chunks when some are dropped from the front. -/
theorem chunk_drop (width start i : ℕ) (xs : List α) :
    chunk width (xs.drop (start * width)) i = chunk width xs (start + i) := by
  rw [chunk, chunk, List.drop_drop, Nat.add_mul]

theorem chunkCount_sub {n : ℕ} (start : ℕ) (hwidth : 0 < width) :
    chunkCount width (n - start * width) = chunkCount width n - start := by
  have hlt (i : ℕ) : i < chunkCount width (n - start * width) ↔ i < chunkCount width n - start := by
    have hshift : start + i < chunkCount width n ↔ (start + i) * width < n :=
      lt_chunkCount_iff hwidth
    rw [lt_chunkCount_iff hwidth]
    rw [Nat.add_mul] at hshift
    omega
  exact le_antisymm (not_lt.mp fun h ↦ lt_irrefl _ ((hlt _).mp h))
    (not_lt.mp fun h ↦ lt_irrefl _ ((hlt _).mpr h))

end AarnnNsys.Lib
