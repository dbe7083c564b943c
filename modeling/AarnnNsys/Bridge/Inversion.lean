import AarnnNsys.Bridge.Loop
import AarnnNsys.Bus.Blocking

/-!
# What a step of a bridge and its bus can do

The step function of `AarnnNsys.Bridge.Loop` read off as a relation, `LoopStep`: one case for each
step with its guard and the exact state and events it leaves. `loopStep_cases` says that a bridge
and its bus do nothing else, and every invariant of the loop is proved by cases on it.

`busEvents` is the bus's part of a trace and `LoopState.busAction` the step of the bus inside a step
of the loop. `run_bus` says that a run of a bridge and its bus is a run of the bus.
-/

set_option autoImplicit false
set_option relaxedAutoImplicit false

namespace AarnnNsys.Bridge

open Lib

variable {State Input : Type}

/-! ### One step -/

/-- The steps of a bridge and its bus. -/
inductive LoopStep (g : Bus.Geometry) (device : Device State Input) (startup : List Action)
    (s : LoopState State) : LoopAction Input → LoopState State → List (LoopEvent Input) → Prop
  | other {action : Bus.Action} {bus : Bus.State} {events : List Bus.Event}
      (hforeign : Foreign action) (hbus : Bus.step g s.bus action = some (bus, events)) :
      LoopStep g device startup s (.other action) { s with bus } (events.map .bus)
  | subscribe {spurious : Bool} {bus : Bus.State} {events : List Bus.Event}
      (hphase : s.phase = .subscribing)
      (hbus : Bus.step g s.bus (.subscriber 0 (nextAct (s.bus.subscribers 0))) =
        some (bus, events)) :
      LoopStep g device startup s (.own spurious) { s with bus } (events.map .bus)
  | subscribed {spurious : Bool} {bus : Bus.State} {events : List Bus.Event}
      (hphase : s.phase = .subscribing)
      (hbus : Bus.step g s.bus (.subscriber 0 (nextAct (s.bus.subscribers 0))) =
        some (bus, events)) :
      LoopStep g device startup s (.own spurious) { s with bus, phase := .acting startup }
        (events.map .bus)
  | unsubscribed {spurious : Bool} (hphase : s.phase = .drain)
      (hnone : ∀ id, s.bus.subscribers 0 ≠ .ready id) :
      LoopStep g device startup s (.own spurious) { s with phase := .look } []
  | tryRecv {spurious : Bool} {id : ℕ} {bus : Bus.State} {events : List Bus.Event}
      (hphase : s.phase = .drain) (hready : s.bus.subscribers 0 = .ready id)
      (hbus : Bus.step g s.bus (.reader 0 (.tryRecv 0 g.slotBytes)) = some (bus, events)) :
      LoopStep g device startup s (.own spurious) { s with bus, phase := .receiving }
        (events.map .bus)
  | recv {spurious : Bool} {bus : Bus.State} {events : List Bus.Event}
      (hphase : s.phase = .receiving)
      (hbus : Bus.step g s.bus (.reader 0 .next) = some (bus, events))
      (hactive : (bus.readers 0).pc ≠ .idle) :
      LoopStep g device startup s (.own spurious) { s with bus } (events.map .bus)
  | received {spurious : Bool} {message : List UInt8} {bus : Bus.State} {events : List Bus.Event}
      (hphase : s.phase = .receiving)
      (hbus : Bus.step g s.bus (.reader 0 .next) = some (bus, events))
      (hidle : (bus.readers 0).pc = .idle)
      (hmessage : (Bus.received 0 events).head? = some message) :
      LoopStep g device startup s (.own spurious)
        { s with bus, phase := .look, device := (device.forward s.device message).1 }
        (events.map .bus ++ (device.forward s.device message).2.map .wrote)
  | empty {spurious : Bool} {bus : Bus.State} {events : List Bus.Event}
      (hphase : s.phase = .receiving)
      (hbus : Bus.step g s.bus (.reader 0 .next) = some (bus, events))
      (hidle : (bus.readers 0).pc = .idle) (hnone : (Bus.received 0 events).head? = none) :
      LoopStep g device startup s (.own spurious) { s with bus, phase := .look } (events.map .bus)
  | look {input : Input} {after : State} {pending : List Action} (hphase : s.phase = .look)
      (hreceive : device.receive s.device input = some (after, pending)) :
      LoopStep g device startup s (.look input)
        { s with device := after, phase := .acting pending } [.looked input]
  | again {spurious : Bool} (hphase : s.phase = .acting []) :
      LoopStep g device startup s (.own spurious) { s with phase := .drain } []
  | send {spurious : Bool} {frame : List UInt8} {rest : List Action}
      (hphase : s.phase = .acting (.send frame :: rest)) :
      LoopStep g device startup s (.own spurious) { s with phase := .acting rest } [.wrote frame]
  | publish {spurious : Bool} {message : List UInt8} {rest : List Action} {bus : Bus.State}
      {events : List Bus.Event} (hphase : s.phase = .acting (.publish message :: rest))
      (hbus : Bus.step g s.bus (.producer 0 (.publish message)) = some (bus, events)) :
      LoopStep g device startup s (.own spurious) { s with bus, phase := .publishing rest }
        (events.map .bus)
  | publishing {spurious : Bool} {rest : List Action} {bus : Bus.State} {events : List Bus.Event}
      (hphase : s.phase = .publishing rest) (hactive : (s.bus.producers 0).pc ≠ .idle)
      (hbus : Bus.step g s.bus (.producer 0 (.next spurious)) = some (bus, events)) :
      LoopStep g device startup s (.own spurious) { s with bus } (events.map .bus)
  | published {spurious : Bool} {rest : List Action} (hphase : s.phase = .publishing rest)
      (hidle : (s.bus.producers 0).pc = .idle) :
      LoopStep g device startup s (.own spurious) { s with phase := .acting rest } []

section Cases

variable {g : Bus.Geometry} {device : Device State Input} {startup : List Action}
  {s s' : LoopState State}

theorem LoopState.busStep_cases {action : Bus.Action} {events : List Bus.Event}
    (hstep : s.busStep g action = some (s', events)) :
    ∃ bus, Bus.step g s.bus action = some (bus, events) ∧ s' = { s with bus } := by
  simp only [LoopState.busStep, Option.map_eq_some_iff, Prod.mk.injEq, Prod.exists] at hstep
  obtain ⟨bus, reported, hbus, rfl, rfl⟩ := hstep
  exact ⟨bus, hbus, rfl⟩

/-- A step that begins with a step of the bus. -/
theorem LoopState.busStep_bind {Result : Type} {action : Bus.Action}
    {next : LoopState State × List Bus.Event → Option Result} {result : Result}
    (hstep : s.busStep g action >>= next = some result) :
    ∃ bus events, Bus.step g s.bus action = some (bus, events) ∧
      next ({ s with bus }, events) = some result := by
  obtain ⟨⟨after, events⟩, htaken, hnext⟩ := Option.bind_eq_some_iff.mp hstep
  obtain ⟨bus, hbus, rfl⟩ := LoopState.busStep_cases htaken
  exact ⟨bus, events, hbus, hnext⟩

/-- The bridge's own steps are those of `LoopStep`. -/
theorem ownStep_cases {spurious : Bool} {events : List (LoopEvent Input)}
    (hstep : ownStep g device startup spurious s = some (s', events)) :
    LoopStep g device startup s (.own spurious) s' events := by
  unfold ownStep threadStep at hstep
  split at hstep
  · rename_i hphase
    obtain ⟨bus, reported, hbus, hstep⟩ := LoopState.busStep_bind hstep
    dsimp only at hstep
    split at hstep
    · cases hstep
      exact .subscribed hphase hbus
    · split at hstep
      · cases hstep
        exact .subscribe hphase hbus
      · cases hstep
        exact .subscribed hphase hbus
    · cases hstep
      exact .subscribe hphase hbus
  · rename_i hphase
    split at hstep
    · rename_i id hready
      obtain ⟨bus, reported, hbus, hstep⟩ := LoopState.busStep_bind hstep
      cases hstep
      exact .tryRecv hphase hready hbus
    · rename_i hnone
      cases hstep
      exact .unsubscribed hphase hnone
  · rename_i hphase
    obtain ⟨bus, reported, hbus, hstep⟩ := LoopState.busStep_bind hstep
    dsimp only at hstep
    split at hstep
    · rename_i hidle
      split at hstep
      · rename_i message hmessage
        cases hstep
        exact .received hphase hbus hidle hmessage
      · rename_i hnone
        cases hstep
        exact .empty hphase hbus hidle hnone
    · rename_i hactive
      cases hstep
      exact .recv hphase hbus hactive
  · cases hstep
  · cases hstep
    exact .again ‹_›
  · cases hstep
    exact .send ‹_›
  · rename_i hphase
    obtain ⟨bus, reported, hbus, hstep⟩ := LoopState.busStep_bind hstep
    cases hstep
    exact .publish hphase hbus
  · rename_i hphase
    split at hstep
    · cases hstep
      exact .published hphase ‹_›
    · rename_i hactive
      obtain ⟨bus, reported, hbus, hstep⟩ := LoopState.busStep_bind hstep
      cases hstep
      exact .publishing hphase hactive hbus

/-- A bridge and its bus do nothing but the steps of `LoopStep`. -/
theorem loopStep_cases {action : LoopAction Input} {events : List (LoopEvent Input)}
    (hstep : loopStep g device startup s action = some (s', events)) :
    LoopStep g device startup s action s' events := by
  cases action with
  | other action =>
    simp only [loopStep, Option.ite_none_right_eq_some, Option.map_eq_some_iff, Prod.mk.injEq,
      Prod.exists] at hstep
    obtain ⟨hforeign, after, reported, htaken, rfl, rfl⟩ := hstep
    obtain ⟨bus, hbus, rfl⟩ := LoopState.busStep_cases htaken
    exact .other hforeign hbus
  | own spurious => exact ownStep_cases hstep
  | look input =>
    simp only [loopStep] at hstep
    split at hstep
    · rename_i hphase
      simp only [Option.map_eq_some_iff, Prod.mk.injEq, Prod.exists] at hstep
      obtain ⟨after, pending, hreceive, rfl, rfl⟩ := hstep
      exact .look hphase hreceive
    · cases hstep

end Cases

/-! ### The events of the bus in a trace -/

/-- The event of the bus that an event reports. -/
def LoopEvent.bus? : LoopEvent Input → Option Bus.Event
  | .bus event => some event
  | _ => none

/-- The events of the bus. -/
def busEvents (trace : List (LoopEvent Input)) : List Bus.Event := trace.filterMap LoopEvent.bus?

section Parts

variable (trace events : List (LoopEvent Input)) (busTrace : List Bus.Event)
  (frames : List (List UInt8))

@[simp] theorem busEvents_append :
    busEvents (trace ++ events) = busEvents trace ++ busEvents events :=
  List.filterMap_append

@[simp] theorem busEvents_map_bus :
    busEvents (busTrace.map .bus : List (LoopEvent Input)) = busTrace := by
  simp [busEvents, LoopEvent.bus?, List.filterMap_map, Function.comp_def]

@[simp] theorem busEvents_map_wrote :
    busEvents (frames.map .wrote : List (LoopEvent Input)) = [] := by
  simp [busEvents, LoopEvent.bus?, List.filterMap_map, Function.comp_def]

end Parts

/-! ### The run of the bus -/

section Bus

variable {g : Bus.Geometry} {device : Device State Input} {startup : List Action}
  {s s' : LoopState State}

/-- The step of the bus inside a step of the loop. -/
def LoopState.busAction (g : Bus.Geometry) (s : LoopState State) :
    LoopAction Input → Option Bus.Action
  | .other action => some action
  | .look _ => none
  | .own spurious =>
    match s.phase with
    | .subscribing => some (.subscriber 0 (nextAct (s.bus.subscribers 0)))
    | .drain => some (.reader 0 (.tryRecv 0 g.slotBytes))
    | .receiving => some (.reader 0 .next)
    | .acting (.publish message :: _) => some (.producer 0 (.publish message))
    | .publishing _ => some (.producer 0 (.next spurious))
    | _ => none

/-- A step of the loop is a step of the bus in which the bridge's producer calls `publish` at most,
or does nothing to the bus. -/
theorem LoopStep.busAction {action : LoopAction Input} {events : List (LoopEvent Input)}
    (hstep : LoopStep g device startup s action s' events) :
    (s'.bus = s.bus ∧ busEvents events = []) ∨
      ∃ busAction, s.busAction g action = some busAction ∧ Bus.OnlyPublishes 0 busAction ∧
        Bus.step g s.bus busAction = some (s'.bus, busEvents events) := by
  cases hstep with
  | @other action bus events hforeign hbus =>
    refine .inr ⟨action, rfl, ?_, by simpa using hbus⟩
    unfold Bus.OnlyPublishes
    split
    · exact hforeign
    · trivial
  | subscribe hphase hbus | subscribed hphase hbus | tryRecv hphase _ hbus | recv hphase hbus
  | received hphase hbus | empty hphase hbus | publish hphase hbus | publishing hphase _ hbus =>
    refine .inr ⟨_, by simp only [LoopState.busAction, hphase]; rfl, ?_, by simpa using hbus⟩
    trivial
  | look | again | send | unsubscribed | published => exact .inl ⟨rfl, rfl⟩

/-- What a guard of the bus asks of a step of the loop. -/
def busGuard (g : Bus.Geometry) (guard : Bus.State → Bus.Action → Prop) :
    Guard (LoopState State) (LoopAction Input) (LoopEvent Input) := fun _ s action ↦
  ∀ busAction, s.busAction g action = some busAction → guard s.bus busAction

instance (g : Bus.Geometry) (guard : Bus.State → Bus.Action → Prop)
    [∀ bus action, Decidable (guard bus action)] (trace : List (LoopEvent Input))
    (s : LoopState State) (action : LoopAction Input) :
    Decidable (busGuard g guard trace s action) :=
  inferInstanceAs (Decidable (∀ busAction ∈ s.busAction g action, guard s.bus busAction))

/-- A run of a bridge and its bus is a run of the bus. -/
theorem run_bus {slab : ℕ → UInt8} {guard : Bus.State → Bus.Action → Prop}
    {trace : List (LoopEvent Input)}
    (hrun : Run (loopSystem g slab device startup) (busGuard g guard) trace s) :
    Run (Bus.busSystem g slab) (fun _ bus action ↦ guard bus action ∧ Bus.OnlyPublishes 0 action)
      (busEvents trace) s.bus := by
  refine hrun.project LoopState.bus LoopEvent.bus? rfl ?_
  intro trace s action s' events _ hguard hstep
  rcases (loopStep_cases hstep).busAction with hsame | ⟨busAction, haction, honly, hbus⟩
  · exact .inl hsame
  · exact .inr ⟨busAction, ⟨hguard busAction haction, honly⟩, hbus⟩

end Bus

end AarnnNsys.Bridge
