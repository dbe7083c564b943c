import AarnnNsys.Bridge.Forwarding

/-!
# Two buses joined by a link

`joinedSystem` joins two `l2bridge` processes, each on a bus with other threads, by a link that
neither loses nor duplicates nor reorders a frame: what one side writes is appended to the other
side's queue, and a look takes the first frame of its own queue or finds nothing. The steps of the
two sides interleave in any order.

`run_loop` says that each side of a run is a run of its bridge and its bus, and `wrote_eq` that
what one side has written is what the other one has found, and behind it what is under way.
-/

set_option autoImplicit false
set_option relaxedAutoImplicit false

namespace AarnnNsys.Bridge

open Function Lib

/-- The two sides of a link. -/
inductive Side
  | left
  | right
  deriving DecidableEq

/-- The side at the far end of the link. -/
def Side.other : Side → Side
  | .left => .right
  | .right => .left

theorem Side.other_ne (side : Side) : side.other ≠ side := by
  cases side <;> decide

theorem Side.other_other (side : Side) : side.other.other = side := by
  cases side <;> rfl

theorem Side.eq_or_eq_other (side this : Side) : side = this ∨ side = this.other := by
  cases side <;> cases this <;> decide

/-- What is fixed for one side: the bus and the options of the bridge. -/
structure Installation where
  geometry : Bus.Geometry
  slab : ℕ → UInt8
  link : L2.Link

/-- What a look at the link finds. -/
abbrev Found := Option (List UInt8)

/-- Both sides, and the frames under way to each. -/
structure Joined where
  loop : Side → LoopState L2State
  queue : Side → List (List UInt8)

/-- A step of one side. A look may come too early for a frame that is under way. -/
inductive JoinedAction
  | other (side : Side) (action : Bus.Action)
  | own (side : Side) (spurious : Bool)
  | look (side : Side) (arrives : Bool)

/-- The side that takes a step. -/
def JoinedAction.side : JoinedAction → Side
  | .other side _ | .own side _ | .look side _ => side

/-- What the step is for the bridge of its side, and what is left under way to it. -/
def Joined.local (s : Joined) : JoinedAction → LoopAction Found × List (List UInt8)
  | .other side action => (.other action, s.queue side)
  | .own side spurious => (.own spurious, s.queue side)
  | .look side true => (.look (s.queue side).head?, (s.queue side).tail)
  | .look side false => (.look none, s.queue side)

/-- One step of one side: the frames that it writes are under way to the other side. -/
def joinedStep (sides : Side → Installation) (s : Joined) (action : JoinedAction) :
    Option (Joined × List (Side × LoopEvent Found)) :=
  let side := action.side
  let here := sides side
  (loopStep here.geometry (l2bridge here.link) [] (s.loop side) (s.local action).1).map fun result ↦
    ({ loop := update s.loop side result.1
       queue := update (update s.queue side (s.local action).2) side.other
        (s.queue side.other ++ frames (bridgeEvents result.2)) },
      result.2.map fun event ↦ (side, event))

/-- Two bridges, each on a fresh bus of its own. -/
def joinedSystem (sides : Side → Installation) :
    TransitionSystem Joined JoinedAction (Side × LoopEvent Found) where
  init :=
    { loop := fun side ↦ ⟨Bus.State.init (sides side).slab, .subscribing,
        (l2bridge (sides side).link).init⟩
      queue := fun _ ↦ [] }
  step := joinedStep sides

/-- The events of one side. -/
def sideEvents (side : Side) (trace : List (Side × LoopEvent Found)) : List (LoopEvent Found) :=
  trace.filterMap fun event ↦ if event.1 = side then some event.2 else none

@[simp] theorem sideEvents_append (side : Side) (trace events : List (Side × LoopEvent Found)) :
    sideEvents side (trace ++ events) = sideEvents side trace ++ sideEvents side events :=
  eventsOf_append side trace events

@[simp] theorem sideEvents_map_self (side : Side) (events : List (LoopEvent Found)) :
    sideEvents side (events.map fun event ↦ (side, event)) = events :=
  eventsOf_map_self side events

theorem sideEvents_map_of_ne {side this : Side} (hne : side ≠ this)
    (events : List (LoopEvent Found)) :
    sideEvents this (events.map fun event ↦ (side, event)) = [] :=
  eventsOf_map_of_ne hne events

/-- A step of one side is a step of its bridge and its bus. -/
theorem joinedStep_cases {sides : Side → Installation} {s s' : Joined} {action : JoinedAction}
    {events : List (Side × LoopEvent Found)}
    (hstep : joinedStep sides s action = some (s', events)) :
    ∃ after reported, LoopStep (sides action.side).geometry (l2bridge (sides action.side).link) []
        (s.loop action.side) (s.local action).1 after reported ∧
      loopStep (sides action.side).geometry (l2bridge (sides action.side).link) []
        (s.loop action.side) (s.local action).1 = some (after, reported) ∧
      s'.loop = update s.loop action.side after ∧
      s'.queue action.side = (s.local action).2 ∧
      s'.queue action.side.other =
        s.queue action.side.other ++ frames (bridgeEvents reported) ∧
      events = reported.map fun event ↦ (action.side, event) := by
  simp only [joinedStep, Option.map_eq_some_iff, Prod.mk.injEq, Prod.exists] at hstep
  obtain ⟨after, reported, htaken, rfl, rfl⟩ := hstep
  refine ⟨after, reported, loopStep_cases htaken, htaken, rfl, ?_, update_self .., rfl⟩
  simp only [update_of_ne action.side.other_ne.symm, update_self]

section Run

variable {sides : Side → Installation} {trace : List (Side × LoopEvent Found)} {s : Joined}

/-- What a guard for each bus asks of a step. -/
def joinedGuard (sides : Side → Installation) (guard : Side → Bus.State → Bus.Action → Prop) :
    Guard Joined JoinedAction (Side × LoopEvent Found) := fun trace s action ↦
  busGuard (sides action.side).geometry (guard action.side) (sideEvents action.side trace)
    (s.loop action.side) (s.local action).1

instance (sides : Side → Installation) (guard : Side → Bus.State → Bus.Action → Prop)
    [∀ side bus action, Decidable (guard side bus action)]
    (trace : List (Side × LoopEvent Found)) (s : Joined) (action : JoinedAction) :
    Decidable (joinedGuard sides guard trace s action) := by
  unfold joinedGuard
  infer_instance

/-- Each side of a run is a run of its bridge and its bus. -/
theorem run_loop {guard : Side → Bus.State → Bus.Action → Prop}
    (hrun : Run (joinedSystem sides) (joinedGuard sides guard) trace s) (side : Side) :
    Run (loopSystem (sides side).geometry (sides side).slab (l2bridge (sides side).link) [])
      (busGuard (sides side).geometry (guard side)) (sideEvents side trace) (s.loop side) := by
  refine hrun.project (fun s ↦ s.loop side)
    (fun event ↦ if event.1 = side then some event.2 else none) ?_ ?_
  · rfl
  · intro trace s action s' events _ hguard hstep
    obtain ⟨after, reported, -, htaken, hafter, -, -, rfl⟩ := joinedStep_cases hstep
    by_cases hside : action.side = side
    · subst hside
      have hevents := sideEvents_map_self action.side reported
      rw [sideEvents] at hevents
      refine .inr ⟨(s.local action).1, hguard, ?_⟩
      rw [hafter, update_self, hevents]
      exact htaken
    · refine .inl ⟨?_, sideEvents_map_of_ne hside reported⟩
      rw [hafter, update_of_ne (Ne.symm hside)]

/-- The frames that the looks of one side have found. -/
def arrived (side : Side) (trace : List (Side × LoopEvent Found)) : List (List UInt8) :=
  (inputs (bridgeEvents (sideEvents side trace))).reduceOption

/-- The frames that one side has written. -/
def wrote (side : Side) (trace : List (Side × LoopEvent Found)) : List (List UInt8) :=
  frames (bridgeEvents (sideEvents side trace))

/-- What a step takes from the queue of its side. -/
theorem LoopStep.arrived_append {g : Bus.Geometry} {device : Device L2State Found}
    {startup : List Action} {action : JoinedAction} {after : LoopState L2State}
    {reported : List (LoopEvent Found)}
    (hstep : LoopStep g device startup (s.loop action.side) (s.local action).1 after reported) :
    (inputs (bridgeEvents reported)).reduceOption ++ (s.local action).2 = s.queue action.side := by
  rw [hstep.inputs_eq]
  cases action with
  | other side action => rfl
  | own side spurious => rfl
  | look side arrives =>
    cases arrives with
    | false => rfl
    | true =>
      simp only [Joined.local, JoinedAction.side]
      cases s.queue side <;> rfl

/-- What one side has written is what the other one has found, and behind it what is under way. -/
theorem wrote_eq {guard : Guard Joined JoinedAction (Side × LoopEvent Found)}
    (hrun : Run (joinedSystem sides) guard trace s) :
    ∀ side, wrote side.other trace = arrived side trace ++ s.queue side := by
  refine hrun.invariant
    (fun trace s ↦ ∀ side : Side, wrote side.other trace = arrived side trace ++ s.queue side)
    (fun _ ↦ rfl) ?_
  intro trace s action s' events _ hinv _ hstep side
  obtain ⟨after, reported, hloop, -, -, hhere, hthere, rfl⟩ := joinedStep_cases hstep
  have hwhole := hinv side
  rw [wrote, arrived] at hwhole ⊢
  rw [sideEvents_append, sideEvents_append, bridgeEvents_append, bridgeEvents_append,
    frames_append, inputs_append, List.reduceOption_append, hwhole]
  rcases side.eq_or_eq_other action.side with rfl | rfl
  · -- the side that looks
    rw [sideEvents_map_self, sideEvents_map_of_ne (Side.other_ne _).symm, hhere, List.append_assoc,
      List.append_assoc, hloop.arrived_append]
    exact congrArg _ (List.append_nil _)
  · -- the side that writes to it
    rw [Side.other_other, sideEvents_map_self, sideEvents_map_of_ne (Side.other_ne _).symm, hthere,
      List.append_assoc, List.append_assoc]
    rfl

end Run

end AarnnNsys.Bridge
