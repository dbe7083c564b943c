import Mathlib.Data.List.Basic

/-!
# What a bridge adds to the bus

Both bridges run the same loop on one thread: take a message from the bus and write it to the link,
then look at the link and do what a frame found there asks for. `Device` is the part in which they
differ, the state that a bridge keeps beside the bus and its two halves: `forward` for a message
taken from the bus, `receive` for one look at the link. What a half does to the world is a list of
`Action`s, done in order: publish a message on the local bus or send a frame.
-/

set_option autoImplicit false
set_option relaxedAutoImplicit false

namespace AarnnNsys.Bridge

/-- What a bridge does to the world: publish a message on its bus, or send a frame on its link. -/
inductive Action
  | publish (message : List UInt8)
  | send (frame : List UInt8)
  deriving DecidableEq

/-- The messages published in a list of actions. -/
def published (actions : List Action) : List (List UInt8) :=
  actions.filterMap fun
    | .publish message => some message
    | .send _ => none

/-- The frames sent in a list of actions. -/
def sent (actions : List Action) : List (List UInt8) :=
  actions.filterMap fun
    | .publish _ => none
    | .send frame => some frame

/-- A bridge's own state and the two halves of its loop. `receive` is `none` when the process ends,
and `needsSubscription` says whether it also ends when the bus has no subscriber slot for it. -/
structure Device (State Input : Type) where
  needsSubscription : Bool
  init : State
  forward : State → List UInt8 → State × List (List UInt8)
  receive : State → Input → Option (State × List Action)

@[simp] theorem published_append (first last : List Action) :
    published (first ++ last) = published first ++ published last :=
  List.filterMap_append

@[simp] theorem sent_append (first last : List Action) :
    sent (first ++ last) = sent first ++ sent last :=
  List.filterMap_append

@[simp] theorem published_map_send (frames : List (List UInt8)) :
    published (frames.map .send) = [] := by
  simp [published, List.filterMap_map]

@[simp] theorem sent_map_send (frames : List (List UInt8)) : sent (frames.map .send) = frames := by
  simp [sent, List.filterMap_map]

end AarnnNsys.Bridge
