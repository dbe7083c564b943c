import Mathlib.Data.List.Basic

/-!
# An append-only log with cursors

`CursorLog` is a list of entries and, for each reader, the number of entries it has read; a cursor
never passes the end of the log. A new reader joins at the end, a read takes the entry at its cursor
and moves the cursor past it, and the log is `Full` for a capacity when some reader has that many
entries left to read. This is what a bounded broadcast buffer is for, without the buffer.
-/

set_option autoImplicit false
set_option relaxedAutoImplicit false

namespace AarnnNsys.Lib

/-- A log of entries with the number of entries that each reader has read. -/
structure CursorLog (α : Type*) where
  log : List α
  cursors : List ℕ
  cursors_le : ∀ cursor ∈ cursors, cursor ≤ log.length

namespace CursorLog

variable {α : Type*} (a : CursorLog α)

/-- The empty log without readers. -/
def empty : CursorLog α := ⟨[], [], fun _ hmem ↦ nomatch hmem⟩

/-- A new reader joins at the end of the log. -/
def join : CursorLog α where
  log := a.log
  cursors := a.cursors ++ [a.log.length]
  cursors_le := by
    intro cursor hmem
    rcases List.mem_append.mp hmem with hold | hnew
    · exact a.cursors_le cursor hold
    · exact Nat.le_of_eq (List.mem_singleton.mp hnew)

/-- An entry is appended. -/
def append (entry : α) : CursorLog α where
  log := a.log ++ [entry]
  cursors := a.cursors
  cursors_le := by
    intro cursor hmem
    rw [List.length_append]
    exact Nat.le_trans (a.cursors_le cursor hmem) (Nat.le_add_right _ _)

/-- A cursor is moved to a place in the log. -/
def move (i place : ℕ) (hplace : place ≤ a.log.length) : CursorLog α where
  log := a.log
  cursors := a.cursors.set i place
  cursors_le := by
    intro cursor hmem
    rcases List.mem_or_eq_of_mem_set hmem with hold | rfl
    · exact a.cursors_le cursor hold
    · exact hplace

/-- Reader `i` takes the entry at its cursor, if there is one, and moves past it. -/
def read? (i : ℕ) : Option (α × CursorLog α) :=
  match a.cursors[i]? with
  | none => none
  | some cursor =>
    if hlt : cursor < a.log.length then some (a.log[cursor], a.move i (cursor + 1) hlt) else none

/-- Some reader has `capacity` entries left to read. -/
def Full (capacity : ℕ) : Prop := ∃ cursor ∈ a.cursors, cursor + capacity ≤ a.log.length

instance (capacity : ℕ) : Decidable (a.Full capacity) :=
  inferInstanceAs (Decidable (∃ cursor ∈ a.cursors, cursor + capacity ≤ a.log.length))

variable {a}

/-- A log is not full when every reader is less than `capacity` entries behind its end. -/
theorem not_full_iff {capacity : ℕ} :
    ¬ a.Full capacity ↔ ∀ cursor ∈ a.cursors, a.log.length < cursor + capacity := by
  simp [Full]

/-- A reader finds nothing when its cursor is at the end of the log. -/
theorem read?_of_eq {i cursor : ℕ} (hcursor : a.cursors[i]? = some cursor)
    (hend : cursor = a.log.length) : a.read? i = none := by
  simp [read?, hcursor, hend]

/-- A reader whose cursor is before the end of the log takes the entry there. -/
theorem read?_of_lt {i cursor : ℕ} (hcursor : a.cursors[i]? = some cursor)
    (hlt : cursor < a.log.length) :
    a.read? i = some (a.log[cursor], a.move i (cursor + 1) hlt) := by
  simp [read?, hcursor, hlt]

end CursorLog

end AarnnNsys.Lib
