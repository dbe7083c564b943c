import AarnnNsys.Lib.Transition
import Mathlib.Logic.Function.Basic

/-!
# A log whose entries are written in two steps

`TicketLog` is what a bounded broadcast buffer promises when its operations overlap. A writer is
called with an entry, takes the next ticket, fills it and is answered, each of these at one instant;
the log is the entries in the order of their tickets, and a ticket may be filled before an earlier
one is. A reader joins at a ticket, asks with the room it has and reads at its cursor: nothing while
the ticket there has not been filled, and otherwise the entry there, whole, or the answer that it is
too large.

`ticketSystem` is the log as a transition system, for a size check of the entries and their size.
`Bounded` is the promise of a capacity: no ticket is filled a whole capacity past the cursor of a
reader, and a reader joins once, at a ticket before which all have been filled.
-/

set_option autoImplicit false
set_option relaxedAutoImplicit false

namespace AarnnNsys.Lib

/-- Where a writer is in its call. -/
inductive Writer (α : Type*)
  | idle
  | asking (entry : α)
  | holding (ticket : ℕ)
  | done
  deriving DecidableEq

/-- The answer that a writer gets. -/
inductive WriteAnswer
  | written
  | refused
  | rejected
  deriving DecidableEq

/-- What a reader finds at its cursor. -/
inductive ReadAnswer (α : Type*)
  | nothing
  | tooLarge
  | entry (entry : α)
  deriving DecidableEq

/-- The entries by ticket, each with its writer, the tickets filled so far, where every writer is,
the cursor of every reader that has joined and the room of every reader that is asking. -/
structure TicketLog (α : Type*) where
  entries : List (ℕ × α)
  filled : List ℕ
  writers : ℕ → Writer α
  cursors : ℕ → Option ℕ
  rooms : ℕ → Option ℕ

namespace TicketLog

/-- What happens next to a writer or a reader. -/
inductive Action (α : Type*)
  | call (w : ℕ) (entry : α)
  | reject (w : ℕ)
  | refuse (w : ℕ)
  | take (w : ℕ)
  | fill (w : ℕ)
  | answer (w : ℕ)
  | join (r start : ℕ)
  | ask (r room : ℕ)
  | read (r : ℕ)

/-- What is seen of it. -/
inductive Event (α : Type*)
  | called (w : ℕ) (entry : α)
  | taken (w ticket : ℕ)
  | filled (w ticket : ℕ)
  | answered (w : ℕ) (answer : WriteAnswer)
  | joined (r start : ℕ)
  | read (r : ℕ) (answer : ReadAnswer α)
  deriving DecidableEq

variable {α : Type*}

/-- The log without entries, writers or readers. -/
def empty : TicketLog α := ⟨[], [], fun _ ↦ .idle, fun _ ↦ none, fun _ ↦ none⟩

/-- The log after a step of writer `w`. -/
def setWriter (a : TicketLog α) (w : ℕ) (writer : Writer α) : TicketLog α :=
  { a with writers := Function.update a.writers w writer }

/-- The log after a move of reader `r`. -/
def setCursor (a : TicketLog α) (r cursor : ℕ) : TicketLog α :=
  { a with cursors := Function.update a.cursors r (some cursor) }

/-- The log after reader `r` has asked, or has been answered. -/
def setRoom (a : TicketLog α) (r : ℕ) (room : Option ℕ) : TicketLog α :=
  { a with rooms := Function.update a.rooms r room }

/-- The log with more entries, and with more tickets filled. -/
def record (a : TicketLog α) (entries : List (ℕ × α)) (filled : List ℕ) : TicketLog α :=
  { a with entries := a.entries ++ entries, filled := a.filled ++ filled }

/-- What a reader finds at its cursor. -/
def found (size : α → ℕ) (a : TicketLog α) (cursor room : ℕ) : ReadAnswer α :=
  if cursor ∈ a.filled then
    match a.entries[cursor]? with
    | none => .nothing
    | some (_, entry) => if room < size entry then .tooLarge else .entry entry
  else .nothing

/-- One step of the log. -/
def step (fits : α → Bool) (size : α → ℕ) (a : TicketLog α) :
    Action α → Option (TicketLog α × List (Event α))
  | .call w entry =>
    match a.writers w with
    | .idle => some (a.setWriter w (.asking entry), [.called w entry])
    | _ => none
  | .reject w =>
    match a.writers w with
    | .asking entry =>
      if fits entry then none else some (a.setWriter w .idle, [.answered w .rejected])
    | _ => none
  | .refuse w =>
    match a.writers w with
    | .asking entry =>
      if fits entry then some (a.setWriter w .idle, [.answered w .refused]) else none
    | _ => none
  | .take w =>
    match a.writers w with
    | .asking entry =>
      if fits entry then
        some ((a.setWriter w (.holding a.entries.length)).record [(w, entry)] [],
          [.taken w a.entries.length])
      else none
    | _ => none
  | .fill w =>
    match a.writers w with
    | .holding ticket => some ((a.setWriter w .done).record [] [ticket], [.filled w ticket])
    | _ => none
  | .answer w =>
    match a.writers w with
    | .done => some (a.setWriter w .idle, [.answered w .written])
    | _ => none
  | .join r start => some (a.setCursor r start, [.joined r start])
  | .ask r room =>
    match a.cursors r, a.rooms r with
    | some _, none => some (a.setRoom r (some room), [])
    | _, _ => none
  | .read r =>
    match a.cursors r, a.rooms r with
    | some cursor, some room =>
      match a.found size cursor room with
      | .entry entry =>
        some ((a.setCursor r (cursor + 1)).setRoom r none, [.read r (.entry entry)])
      | answer => some (a.setRoom r none, [.read r answer])
    | _, _ => none

/-- No ticket is filled a whole capacity past a cursor, and a reader joins once, at a ticket before
which all have been filled. -/
def Bounded (capacity : ℕ) (a : TicketLog α) : Action α → Prop
  | .fill w => ∀ ticket, a.writers w = .holding ticket → ∀ r cursor, a.cursors r = some cursor →
      ticket < cursor + capacity
  | .join r start => a.cursors r = none ∧ ∀ ticket < start, ticket ∈ a.filled
  | _ => True

section Step

variable {size : α → ℕ} {a : TicketLog α} {w : ℕ}

@[simp] theorem setWriter_setWriter (a : TicketLog α) (w : ℕ) (first second : Writer α) :
    (a.setWriter w first).setWriter w second = a.setWriter w second := by
  simp [setWriter]

@[simp] theorem setWriter_writers (a : TicketLog α) (w : ℕ) (writer : Writer α) :
    (a.setWriter w writer).writers w = writer := Function.update_self ..

@[simp] theorem setWriter_entries (a : TicketLog α) (w : ℕ) (writer : Writer α) :
    (a.setWriter w writer).entries = a.entries := rfl

@[simp] theorem record_nil (a : TicketLog α) : a.record [] [] = a := by
  simp [record]

/-- A reader finds nothing while the ticket at its cursor is not filled. -/
theorem found_of_not_mem {cursor room : ℕ} (hnot : cursor ∉ a.filled) :
    a.found size cursor room = .nothing := if_neg hnot

/-- A reader without room for the entry at its cursor is told so. -/
theorem found_tooLarge {cursor room : ℕ} {entry : α} (hfilled : cursor ∈ a.filled)
    (hentry : a.entries[cursor]? = some (w, entry)) (hlt : room < size entry) :
    a.found size cursor room = .tooLarge := by
  simp [found, hfilled, hentry, hlt]

/-- A reader with room for the entry at its cursor finds it. -/
theorem found_entry {cursor room : ℕ} {entry : α} (hfilled : cursor ∈ a.filled)
    (hentry : a.entries[cursor]? = some (w, entry)) (hle : size entry ≤ room) :
    a.found size cursor room = .entry entry := by
  simp [found, hfilled, hentry, hle]

end Step

end TicketLog

/-- The log as a transition system. -/
def ticketSystem {α : Type*} (fits : α → Bool) (size : α → ℕ) :
    TransitionSystem (TicketLog α) (TicketLog.Action α) (TicketLog.Event α) :=
  ⟨TicketLog.empty, TicketLog.step fits size⟩

namespace TicketLog

section Read

variable {α : Type*} {fits : α → Bool} {size : α → ℕ} {a : TicketLog α} {r : ℕ}

/-- A read that finds no entry. -/
theorem step_read_of_found {cursor room : ℕ} (hcursor : a.cursors r = some cursor)
    (hroom : a.rooms r = some room) {answer : ReadAnswer α}
    (hfound : a.found size cursor room = answer) (hnone : ∀ entry, answer ≠ .entry entry) :
    (ticketSystem fits size).step a (.read r) = some (a.setRoom r none, [.read r answer]) := by
  cases answer with
  | entry entry => exact absurd rfl (hnone entry)
  | _ => simp [ticketSystem, step, hcursor, hroom, hfound]

/-- A read that takes the entry at the cursor. -/
theorem step_read_entry {cursor room : ℕ} {entry : α} (hcursor : a.cursors r = some cursor)
    (hroom : a.rooms r = some room) (hfound : a.found size cursor room = .entry entry) :
    (ticketSystem fits size).step a (.read r) =
      some ((a.setCursor r (cursor + 1)).setRoom r none, [.read r (.entry entry)]) := by
  simp [ticketSystem, step, hcursor, hroom, hfound]

end Read

end TicketLog

end AarnnNsys.Lib
