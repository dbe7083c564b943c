import Mathlib.Data.List.Basic

/-!
# Labelled transition systems, guarded runs and calls that run alone

A `TransitionSystem` is a partial step function on states and actions that also reports the
observable events of the step. `Run` collects the states reachable by finitely many steps together
with the trace of their events, every step being allowed by a `Guard` on the trace so far, the
state and the action. `Run.invariant` is the induction rule: what holds at the start and is kept by
every allowed step holds of every run. `Run.strengthen` moves a run to a stronger guard that an
invariant of the run supplies, and `Run.project` sees a run of one system, or of a component of it
(`eventsOf`), as a run of another.

A call of one thread is a `Call`: a partial step function with nothing to choose. `Leads` is the run
of a call that nothing interferes with, `Settles` such a run up to a state in which the call has no
further step, and `Diverges` says there is no such state. `Settles.unique` is determinism,
`diverges_of_invariant` the rule for a loop that never ends, and `Run.leads` places a call that runs
alone in a run of a system. `tally` counts some of the steps of a call.
-/

set_option autoImplicit false
set_option relaxedAutoImplicit false

namespace AarnnNsys.Lib

/-- A transition system: an initial state, and a partial step function that reports the events of
the step. -/
structure TransitionSystem (State Action Event : Type*) where
  init : State
  step : State → Action → Option (State × List Event)

/-- What a run may do next, from the trace so far, the state and the action. -/
abbrev Guard (State Action Event : Type*) := List Event → State → Action → Prop

section Runs

variable {State Action Event : Type*} {system : TransitionSystem State Action Event}

/-- The runs of a transition system whose steps all meet a guard: the trace of events so far and the
state reached. -/
inductive Run (system : TransitionSystem State Action Event) (guard : Guard State Action Event) :
    List Event → State → Prop
  | start : Run system guard [] system.init
  | next {trace events : List Event} {state state' : State} {action : Action}
      (hrun : Run system guard trace state) (hguard : guard trace state action)
      (hstep : system.step state action = some (state', events)) :
      Run system guard (trace ++ events) state'

/-- The guard that allows every step. -/
def unguarded : Guard State Action Event := fun _ _ _ ↦ True

/-- The induction rule for runs. Assumes: a property of the initial state that every allowed step of
a run keeps. It holds of every run. -/
theorem Run.invariant {guard : Guard State Action Event} (property : List Event → State → Prop)
    (hinit : property [] system.init)
    (hstep : ∀ {trace state action state' events}, Run system guard trace state →
      property trace state → guard trace state action →
        system.step state action = some (state', events) → property (trace ++ events) state')
    {trace : List Event} {state : State} (hrun : Run system guard trace state) :
    property trace state := by
  induction hrun with
  | start => exact hinit
  | next hprevious hguard hnext ih => exact hstep hprevious ih hguard hnext

/-- A run under a guard is a run under any guard that follows from it in the states of the run. -/
theorem Run.strengthen {guard stronger : Guard State Action Event}
    (himplies : ∀ {trace state action state' events}, Run system guard trace state →
      guard trace state action → system.step state action = some (state', events) →
        stronger trace state action)
    {trace : List Event} {state : State} (hrun : Run system guard trace state) :
    Run system stronger trace state := by
  induction hrun with
  | start => exact .start
  | next hprevious hguard hnext ih => exact .next ih (himplies hprevious hguard hnext) hnext

/-- The projection rule. Assumes: a view of the states and of the events under which every allowed
step of a run of a system is a step of another one that its guard allows, or nothing at all. Seen
that way a run of the first system is a run of the second. -/
theorem Run.project {State' Action' Event' : Type*} {other : TransitionSystem State' Action' Event'}
    {guard : Guard State Action Event} {guard' : Guard State' Action' Event'}
    (view : State → State') (observe : Event → Option Event')
    (hinit : view system.init = other.init)
    (hview : ∀ {trace state action state' events}, Run system guard trace state →
      guard trace state action → system.step state action = some (state', events) →
        (view state' = view state ∧ events.filterMap observe = []) ∨
        ∃ action', guard' (trace.filterMap observe) (view state) action' ∧
          other.step (view state) action' = some (view state', events.filterMap observe))
    {trace : List Event} {state : State} (hrun : Run system guard trace state) :
    Run other guard' (trace.filterMap observe) (view state) := by
  induction hrun with
  | start => exact hinit ▸ .start
  | next hprevious hguard hstep ih =>
    rw [List.filterMap_append]
    rcases hview hprevious hguard hstep with ⟨hsame, hsilent⟩ | ⟨action', hallowed, htaken⟩
    · rw [hsilent, List.append_nil, hsame]
      exact ih
    · exact ih.next hallowed htaken

/-- The same system under observation: a step also reports what an observer sees of it, from the
state before the step and the action. -/
def TransitionSystem.watch {Observation : Type*} (system : TransitionSystem State Action Event)
    (observe : State → Action → List Observation) :
    TransitionSystem State Action (Event ⊕ Observation) where
  init := system.init
  step state action := (system.step state action).map fun result ↦
    (result.1, result.2.map .inl ++ (observe state action).map .inr)

/-- A step under observation is a step, with what the observer sees of it. -/
theorem TransitionSystem.watch_step {Observation : Type*}
    {observe : State → Action → List Observation} {state state' : State} {action : Action}
    {reported : List (Event ⊕ Observation)}
    (hstep : (system.watch observe).step state action = some (state', reported)) :
    ∃ events, system.step state action = some (state', events) ∧
      reported = events.map .inl ++ (observe state action).map .inr := by
  simp only [watch, Option.map_eq_some_iff, Prod.mk.injEq, Prod.exists] at hstep
  obtain ⟨final, events, htaken, rfl, rfl⟩ := hstep
  exact ⟨events, htaken, rfl⟩

/-- A run under observation is a run, whose trace is what is left without the observations. -/
theorem Run.unwatch {Observation : Type*} {observe : State → Action → List Observation}
    {guard : Guard State Action (Event ⊕ Observation)} {guard' : Guard State Action Event}
    (hguard : ∀ trace state action, guard trace state action →
      guard' (trace.filterMap Sum.getLeft?) state action)
    {trace : List (Event ⊕ Observation)} {state : State}
    (hrun : Run (system.watch observe) guard trace state) :
    Run system guard' (trace.filterMap Sum.getLeft?) state := by
  refine hrun.project id Sum.getLeft? rfl ?_
  intro trace state action state' reported _ hallowed hstep
  obtain ⟨events, htaken, rfl⟩ := TransitionSystem.watch_step hstep
  refine Or.inr ⟨action, hguard _ _ _ hallowed, ?_⟩
  simpa [List.filterMap_map, Function.comp_def] using htaken

section Components

variable {Key : Type*} [DecidableEq Key]

/-- The events of one component in the trace of a system of several. -/
def eventsOf (key : Key) (trace : List (Key × Event)) : List Event :=
  trace.filterMap fun event ↦ if event.1 = key then some event.2 else none

@[simp] theorem eventsOf_append (key : Key) (trace events : List (Key × Event)) :
    eventsOf key (trace ++ events) = eventsOf key trace ++ eventsOf key events :=
  List.filterMap_append

theorem mem_eventsOf {key : Key} {trace : List (Key × Event)} {event : Event} :
    event ∈ eventsOf key trace ↔ (key, event) ∈ trace := by
  simp only [eventsOf, List.mem_filterMap, Option.ite_none_right_eq_some, Option.some.injEq,
    Prod.exists]
  exact ⟨fun ⟨_, _, hmem, rfl, rfl⟩ ↦ hmem, fun hmem ↦ ⟨key, event, hmem, rfl, rfl⟩⟩

@[simp] theorem eventsOf_map_self (key : Key) (events : List Event) :
    eventsOf key (events.map fun event ↦ (key, event)) = events := by
  simp [eventsOf, List.filterMap_map]

theorem eventsOf_map_of_ne {key other : Key} (hne : key ≠ other) (events : List Event) :
    eventsOf other (events.map fun event ↦ (key, event)) = [] := by
  simp [eventsOf, List.filterMap_map, hne]

end Components

/-- Runs a list of actions from a state, reporting the events of all steps. -/
def TransitionSystem.exec (system : TransitionSystem State Action Event) :
    State → List Action → Option (State × List Event)
  | state, [] => some (state, [])
  | state, action :: rest =>
    match system.step state action with
    | none => none
    | some (state', events) =>
      (system.exec state' rest).map fun result ↦ (result.1, events ++ result.2)

/-- One action in front of a list that executes. -/
theorem TransitionSystem.exec_cons {action : Action} {rest : List Action}
    {state middle final : State} {first last : List Event}
    (hstep : system.step state action = some (middle, first))
    (hrest : system.exec middle rest = some (final, last)) :
    system.exec state (action :: rest) = some (final, first ++ last) := by
  simp only [exec, hstep, hrest, Option.map_some]

/-- A list with an action in front executes by a step and the rest of the list. -/
theorem TransitionSystem.exec_uncons {action : Action} {rest : List Action}
    {state final : State} {events : List Event}
    (hexec : system.exec state (action :: rest) = some (final, events)) :
    ∃ middle first last, system.step state action = some (middle, first) ∧
      system.exec middle rest = some (final, last) ∧ events = first ++ last := by
  simp only [exec] at hexec
  cases hstep : system.step state action with
  | none => simp [hstep] at hexec
  | some result =>
    obtain ⟨middle, first⟩ := result
    simp only [hstep, Option.map_eq_some_iff, Prod.mk.injEq, Prod.exists] at hexec
    obtain ⟨final', last, hrest, rfl, rfl⟩ := hexec
    exact ⟨middle, first, last, rfl, hrest, rfl⟩

/-- Lists that execute one after the other execute together. -/
theorem TransitionSystem.exec_append {actions rest : List Action} {state middle final : State}
    {first last : List Event} (hfirst : system.exec state actions = some (middle, first))
    (hlast : system.exec middle rest = some (final, last)) :
    system.exec state (actions ++ rest) = some (final, first ++ last) := by
  induction actions generalizing state first with
  | nil =>
    simp only [exec, Option.some.injEq, Prod.mk.injEq] at hfirst
    obtain ⟨rfl, rfl⟩ := hfirst
    exact hlast
  | cons action actions ih =>
    obtain ⟨next, now, later, hstep, hactions, rfl⟩ := exec_uncons hfirst
    rw [List.append_assoc]
    exact exec_cons hstep (ih hactions)

/-- A list that executes does so in two parts. -/
theorem TransitionSystem.exec_split {actions rest : List Action} {state final : State}
    {events : List Event} (hexec : system.exec state (actions ++ rest) = some (final, events)) :
    ∃ middle first last, system.exec state actions = some (middle, first) ∧
      system.exec middle rest = some (final, last) ∧ events = first ++ last := by
  induction actions generalizing state events with
  | nil => exact ⟨state, [], events, rfl, hexec, rfl⟩
  | cons action actions ih =>
    obtain ⟨next, now, later, hstep, hlater, rfl⟩ := exec_uncons hexec
    obtain ⟨middle, first, last, hfirst, hlast, rfl⟩ := ih hlater
    exact ⟨middle, now ++ first, last, exec_cons hstep hfirst, hlast, by rw [List.append_assoc]⟩

/-- The frame rule for lists of actions: what no action changes stays as it is. -/
theorem TransitionSystem.exec_frame {Component : Type*} (component : State → Component)
    {actions : List Action}
    (hframe : ∀ action ∈ actions, ∀ {state state' events},
      system.step state action = some (state', events) → component state' = component state) :
    ∀ {state state' : State} {events : List Event},
      system.exec state actions = some (state', events) → component state' = component state := by
  induction actions with
  | nil =>
    intro state state' events hexec
    simp only [exec, Option.some.injEq, Prod.mk.injEq] at hexec
    rw [hexec.1]
  | cons action rest ih =>
    intro state state' events hexec
    obtain ⟨middle, first, last, hstep, hrest, -⟩ := exec_uncons hexec
    rw [ih (fun other hmem ↦ hframe other (List.mem_cons_of_mem _ hmem)) hrest]
    exact hframe action List.mem_cons_self hstep

/-- The accounting rule for lists of actions. Assumes: every action of one component is paid for
from what the component has left, or from what it is given, and no other action takes from either.
Then the component's actions are no more than what it had left and has been given. -/
theorem TransitionSystem.exec_countP_le (inside : State → Prop) (left given : State → ℕ)
    (own : Action → Bool) {actions : List Action}
    (hstep : ∀ action ∈ actions, ∀ {state state' events}, inside state →
      system.step state action = some (state', events) → inside state' ∧
        (own action).toNat + left state' + given state ≤ left state + given state') :
    ∀ {state final : State} {events : List Event}, inside state →
      system.exec state actions = some (final, events) → inside final ∧
        actions.countP own + left final + given state ≤ left state + given final := by
  induction actions with
  | nil =>
    intro state final events hinside hexec
    simp only [exec, Option.some.injEq, Prod.mk.injEq] at hexec
    obtain ⟨rfl, -⟩ := hexec
    simpa using hinside
  | cons action rest ih =>
    intro state final events hinside hexec
    obtain ⟨middle, first, last, hnext, hrest, -⟩ := exec_uncons hexec
    obtain ⟨hinside', hpaid⟩ := hstep action List.mem_cons_self hinside hnext
    obtain ⟨hfinal, hlater⟩ :=
      ih (fun other hmem ↦ hstep other (List.mem_cons_of_mem _ hmem)) hinside' hrest
    have hcount : (action :: rest).countP own = rest.countP own + (own action).toNat := by
      rw [List.countP_cons]
      cases own action <;> rfl
    exact ⟨hfinal, by omega⟩

/-- A list of actions leads through a state with a property, its first and its last state
included. -/
def TransitionSystem.Passes (system : TransitionSystem State Action Event)
    (property : State → Prop) : State → List Action → Prop
  | state, [] => property state
  | state, action :: rest =>
    property state ∨ ∃ result ∈ system.step state action, system.Passes property result.1 rest

/-- Whether a concrete list of actions leads through a decidable property can be computed. -/
instance TransitionSystem.Passes.decidable {property : State → Prop} [DecidablePred property] :
    ∀ (actions : List Action) (state : State), Decidable (system.Passes property state actions)
  | [], state => inferInstanceAs (Decidable (property state))
  | _ :: rest, _ =>
    have : ∀ state, Decidable (system.Passes property state rest) := Passes.decidable rest
    inferInstanceAs (Decidable (_ ∨ ∃ result ∈ _, _))

/-- The rule for an instant on the way. Assumes: an invariant that every action keeps in a state
without the property, and with which the property holds in the last state. -/
theorem TransitionSystem.passes_of_invariant {property : State → Prop} (inside : State → Prop)
    {actions : List Action}
    (hstep : ∀ action ∈ actions, ∀ {state state' events}, inside state →
      system.step state action = some (state', events) → property state ∨ inside state')
    {state final : State} {events : List Event} (hinside : inside state)
    (hexec : system.exec state actions = some (final, events))
    (hfinal : inside final → property final) : system.Passes property state actions := by
  induction actions generalizing state events with
  | nil =>
    simp only [exec, Option.some.injEq, Prod.mk.injEq] at hexec
    obtain ⟨rfl, -⟩ := hexec
    exact hfinal hinside
  | cons action rest ih =>
    obtain ⟨middle, first, last, hnext, hrest, -⟩ := exec_uncons hexec
    rcases hstep action List.mem_cons_self hinside hnext with hnow | hinside'
    · exact .inl hnow
    · exact .inr ⟨_, hnext, ih (fun other hmem ↦ hstep other (List.mem_cons_of_mem _ hmem))
        hinside' hrest⟩

/-- A property can be exchanged on the way for one that follows from it under an invariant. -/
theorem TransitionSystem.Passes.imp {property property' : State → Prop} (inside : State → Prop)
    {actions : List Action}
    (hstep : ∀ action ∈ actions, ∀ {state state' events}, inside state →
      system.step state action = some (state', events) → inside state')
    (himplies : ∀ state, inside state → property state → property' state) {state : State}
    (hinside : inside state) (hpasses : system.Passes property state actions) :
    system.Passes property' state actions := by
  induction actions generalizing state with
  | nil => exact himplies state hinside hpasses
  | cons action rest ih =>
    rcases hpasses with hnow | ⟨⟨middle, events⟩, hnext, hlater⟩
    · exact .inl (himplies state hinside hnow)
    · exact .inr ⟨_, hnext, ih (fun other hmem ↦ hstep other (List.mem_cons_of_mem _ hmem))
        (hstep action List.mem_cons_self hinside hnext) hlater⟩

/-- The guard holds at every step of a list of actions run from a state with a trace. -/
def Permitted (system : TransitionSystem State Action Event) (guard : Guard State Action Event) :
    List Event → State → List Action → Prop
  | _, _, [] => True
  | trace, state, action :: rest =>
    guard trace state action ∧
      match system.step state action with
      | none => True
      | some (state', events) => Permitted system guard (trace ++ events) state' rest

/-- Whether a concrete list of actions keeps to a decidable guard can be computed. -/
instance Permitted.decidable {guard : Guard State Action Event}
    [∀ trace state action, Decidable (guard trace state action)] :
    ∀ (actions : List Action) (trace : List Event) (state : State),
      Decidable (Permitted system guard trace state actions)
  | [], _, _ => isTrue trivial
  | action :: rest, trace, state =>
    have : Decidable (match system.step state action with
        | none => True
        | some (state', events) => Permitted system guard (trace ++ events) state' rest) :=
      match system.step state action with
      | none => isTrue trivial
      | some (state', events) => Permitted.decidable rest (trace ++ events) state'
    inferInstanceAs (Decidable (_ ∧ _))

/-- The induction rule for lists of actions that execute from any state and keep to a guard. -/
theorem Permitted.invariant {guard : Guard State Action Event}
    (property : List Event → State → Prop)
    (hstep : ∀ {trace state action state' events}, property trace state →
      guard trace state action → system.step state action = some (state', events) →
        property (trace ++ events) state') {actions : List Action} :
    ∀ {trace events : List Event} {state state' : State}, property trace state →
      Permitted system guard trace state actions →
        system.exec state actions = some (state', events) →
          property (trace ++ events) state' := by
  induction actions with
  | nil =>
    intro trace events state state' hproperty _ hexec
    simp only [TransitionSystem.exec, Option.some.injEq, Prod.mk.injEq] at hexec
    obtain ⟨rfl, rfl⟩ := hexec
    simpa using hproperty
  | cons action rest ih =>
    intro trace events state state' hproperty hpermitted hexec
    obtain ⟨middle, first, last, hnext, hrest, rfl⟩ := TransitionSystem.exec_uncons hexec
    obtain ⟨hguard, hafter⟩ := hpermitted
    rw [hnext] at hafter
    rw [← List.append_assoc]
    exact ih (hstep hproperty hguard hnext) hafter hrest

/-- A run can be continued by a list of actions that executes and keeps to the guard. -/
theorem Run.exec {guard : Guard State Action Event} {actions : List Action}
    {trace events : List Event} {state state' : State} (hrun : Run system guard trace state)
    (hpermitted : Permitted system guard trace state actions)
    (hexec : system.exec state actions = some (state', events)) :
    Run system guard (trace ++ events) state' :=
  Permitted.invariant (Run system guard) (fun hprevious hguard hstep ↦ hprevious.next hguard hstep)
    hrun hpermitted hexec

/-- A list of actions that executes from the initial state and keeps to the guard is a run. -/
theorem run_of_permitted {guard : Guard State Action Event} {actions : List Action} {state : State}
    {events : List Event} (hpermitted : Permitted system guard [] system.init actions)
    (hexec : system.exec system.init actions = some (state, events)) :
    Run system guard events state := by
  simpa using Run.start.exec hpermitted hexec

/-- The simulation rule. Assumes: a view of the runs and of the events under which every allowed
step of a run of a system is a list of steps of another one that its guard allows. Seen that way a
run of the first system is a run of the second. -/
theorem Run.simulate {State' Action' Event' : Type*}
    {other : TransitionSystem State' Action' Event'} {guard : Guard State Action Event}
    {guard' : Guard State' Action' Event'} (view : List Event → State → State')
    (observe : Event → Option Event') (hinit : view [] system.init = other.init)
    (hview : ∀ {trace state action state' events}, Run system guard trace state →
      guard trace state action → system.step state action = some (state', events) →
        ∃ actions', Permitted other guard' (trace.filterMap observe) (view trace state) actions' ∧
          other.exec (view trace state) actions' =
            some (view (trace ++ events) state', events.filterMap observe))
    {trace : List Event} {state : State} (hrun : Run system guard trace state) :
    Run other guard' (trace.filterMap observe) (view trace state) := by
  induction hrun with
  | start => exact hinit ▸ .start
  | next hprevious hguard hstep ih =>
    obtain ⟨actions', hpermitted, hexec⟩ := hview hprevious hguard hstep
    rw [List.filterMap_append]
    exact ih.exec hpermitted hexec

/-- A list of actions that keeps to a guard does so in two parts. -/
theorem Permitted.split {guard : Guard State Action Event} {actions rest : List Action} :
    ∀ {trace first : List Event} {state middle : State},
      Permitted system guard trace state (actions ++ rest) →
        system.exec state actions = some (middle, first) →
          Permitted system guard trace state actions ∧
            Permitted system guard (trace ++ first) middle rest := by
  induction actions with
  | nil =>
    intro trace first state middle hpermitted hexec
    simp only [TransitionSystem.exec, Option.some.injEq, Prod.mk.injEq] at hexec
    obtain ⟨rfl, rfl⟩ := hexec
    exact ⟨trivial, by simpa using hpermitted⟩
  | cons action actions ih =>
    intro trace first state middle hpermitted hexec
    obtain ⟨next, now, later, hstep, hlater, rfl⟩ := TransitionSystem.exec_uncons hexec
    obtain ⟨hguard, hafter⟩ := hpermitted
    rw [hstep] at hafter
    obtain ⟨hfirst, hrest⟩ := ih hafter hlater
    refine ⟨⟨hguard, ?_⟩, by rwa [← List.append_assoc]⟩
    rw [hstep]
    exact hfirst

/-- A list of actions that keeps to a guard after a run keeps to any guard that follows from it in
the states of the run. -/
theorem Permitted.strengthen {guard stronger : Guard State Action Event}
    (himplies : ∀ {trace state action}, Run system guard trace state →
      guard trace state action → stronger trace state action) {actions : List Action} :
    ∀ {trace : List Event} {state : State}, Run system guard trace state →
      Permitted system guard trace state actions →
        Permitted system stronger trace state actions := by
  induction actions with
  | nil => exact fun _ _ ↦ trivial
  | cons action rest ih =>
    intro trace state hrun hpermitted
    obtain ⟨hguard, hafter⟩ := hpermitted
    refine ⟨himplies hrun hguard, ?_⟩
    split
    · trivial
    · rename_i next events hnext
      rw [hnext] at hafter
      exact ih (hrun.next hguard hnext) hafter

/-- A list of actions of one kind keeps to any guard also when the guard asks for that kind. -/
theorem Permitted.and_of_forall {guard : Guard State Action Event} {kind : Action → Prop}
    {actions : List Action} (hkind : ∀ action ∈ actions, kind action) {trace : List Event}
    {state : State} (hpermitted : Permitted system guard trace state actions) :
    Permitted system (fun trace state action ↦ guard trace state action ∧ kind action) trace state
      actions := by
  induction actions generalizing trace state with
  | nil => trivial
  | cons action rest ih =>
    obtain ⟨hguard, hafter⟩ := hpermitted
    refine ⟨⟨hguard, hkind action List.mem_cons_self⟩, ?_⟩
    split
    · trivial
    · rename_i next events hnext
      rw [hnext] at hafter
      exact ih (fun other hmem ↦ hkind other (List.mem_cons_of_mem _ hmem)) hafter

/-- An allowed action in front of a list that keeps to the guard from anywhere. -/
theorem Permitted.cons {guard : Guard State Action Event} {action : Action} {rest : List Action}
    {trace : List Event} {state : State} (hguard : guard trace state action)
    (hrest : ∀ trace state, Permitted system guard trace state rest) :
    Permitted system guard trace state (action :: rest) := by
  refine ⟨hguard, ?_⟩
  split
  · trivial
  · exact hrest _ _

/-- A list of actions each of which is always allowed keeps to the guard. -/
theorem permitted_of_forall {guard : Guard State Action Event} {actions : List Action}
    (hallowed : ∀ action ∈ actions, ∀ trace state, guard trace state action) :
    ∀ (trace : List Event) (state : State), Permitted system guard trace state actions := by
  induction actions with
  | nil => exact fun _ _ ↦ trivial
  | cons action rest ih =>
    intro trace state
    exact .cons (hallowed action List.mem_cons_self trace state)
      (ih fun other hmem ↦ hallowed other (List.mem_cons_of_mem _ hmem))

/-- Any list of actions keeps to the guard that allows every step. -/
theorem permitted_unguarded (actions : List Action) (trace : List Event) (state : State) :
    Permitted system unguarded trace state actions :=
  permitted_of_forall (fun _ _ _ _ ↦ trivial) trace state

/-- A list of actions that executes from the initial state is an unguarded run. -/
theorem run_of_exec {actions : List Action} {state : State} {events : List Event}
    (hexec : system.exec system.init actions = some (state, events)) :
    Run system unguarded events state :=
  run_of_permitted (permitted_unguarded actions [] system.init) hexec

end Runs

section Calls

variable {State Event : Type*}

/-- A call of one thread: a partial step function with nothing to choose. It has returned, or died,
when it has no step. -/
abbrev Call (State Event : Type*) := State → Option (State × List Event)

/-- A call that nothing interferes with leads from one state to another. -/
inductive Leads (call : Call State Event) : State → State → List Event → Prop
  | refl (state : State) : Leads call state state []
  | next {state middle final : State} {first last : List Event}
      (hstep : call state = some (middle, first)) (hrest : Leads call middle final last) :
      Leads call state final (first ++ last)

/-- A call that nothing interferes with ends in a state in which it has no step. -/
def Settles (call : Call State Event) (state final : State) (events : List Event) : Prop :=
  Leads call state final events ∧ call final = none

/-- A call that runs alone and never stops. -/
def Diverges (call : Call State Event) (state : State) : Prop :=
  ∀ final events, ¬ Settles call state final events

variable {call : Call State Event}

/-- A call leads through the states it leads to. -/
theorem Leads.trans {state middle final : State} {first last : List Event}
    (hfirst : Leads call state middle first) (hlast : Leads call middle final last) :
    Leads call state final (first ++ last) := by
  induction hfirst with
  | refl => exact hlast
  | next hstep hrest ih =>
    rw [List.append_assoc]
    exact .next hstep (ih hlast)

/-- A step that reports nothing, in front of an undisturbed call. -/
theorem Leads.silent {state middle final : State} {events : List Event}
    (hstep : call state = some (middle, [])) (hrest : Leads call middle final events) :
    Leads call state final events :=
  .next hstep hrest

/-- A single step. -/
theorem Leads.single {state final : State} {events : List Event}
    (hstep : call state = some (final, events)) : Leads call state final events := by
  simpa using Leads.next hstep (.refl final)

/-- The induction rule for undisturbed calls: what every step keeps holds wherever they lead. -/
theorem Leads.invariant (property : State → Prop)
    (hstep : ∀ {state next events}, property state → call state = some (next, events) →
      property next)
    {state final : State} {events : List Event} (hleads : Leads call state final events)
    (hproperty : property state) : property final := by
  induction hleads with
  | refl => exact hproperty
  | next hfirst _ ih => exact ih (hstep hproperty hfirst)

/-- The same call with a count of the steps taken from states that a test picks out. -/
def tally (call : Call State Event) (counts : State → Bool) : Call (State × ℕ) Event :=
  fun state ↦ (call state.1).map fun outcome ↦
    ((outcome.1, state.2 + (counts state.1).toNat), outcome.2)

/-- A step with its count. -/
theorem tally_eq_some_iff {counts : State → Bool} {state next : State} {count count' : ℕ}
    {events : List Event} :
    tally call counts (state, count) = some ((next, count'), events) ↔
      call state = some (next, events) ∧ count' = count + (counts state).toNat := by
  simp only [tally, Option.map_eq_some_iff, Prod.mk.injEq, Prod.exists]
  constructor
  · rintro ⟨next, events, hstep, ⟨rfl, rfl⟩, rfl⟩
    exact ⟨hstep, rfl⟩
  · rintro ⟨hstep, rfl⟩
    exact ⟨next, events, hstep, ⟨rfl, rfl⟩, rfl⟩

/-- Counting steps does not change where a call leads. -/
theorem Leads.tally (counts : State → Bool) {state final : State} {events : List Event}
    (hleads : Leads call state final events) :
    ∀ count, ∃ total, Leads (Lib.tally call counts) (state, count) (final, total) events := by
  induction hleads with
  | refl => exact fun count ↦ ⟨count, .refl _⟩
  | next hstep _ ih =>
    intro count
    obtain ⟨total, hrest⟩ := ih (count + (counts _).toNat)
    exact ⟨total, .next (tally_eq_some_iff.mpr ⟨hstep, rfl⟩) hrest⟩

/-- Counting steps does not change where a call settles. -/
theorem Settles.tally (counts : State → Bool) {state final : State} {events : List Event}
    (hsettles : Settles call state final events) (count : ℕ) :
    ∃ total, Settles (Lib.tally call counts) (state, count) (final, total) events := by
  obtain ⟨total, hleads⟩ := hsettles.1.tally counts count
  exact ⟨total, hleads, by simp [Lib.tally, hsettles.2]⟩

/-- A call that runs alone inside a system continues a run. Assumes: every step of the call is a
step of the system under one action that the guard allows. -/
theorem Run.leads {Large Action Large' : Type*} {system : TransitionSystem Large Action Large'}
    {guard : Guard Large Action Large'} (embed : State → Large) (observe : Event → Large')
    {action : Action} (hguard : ∀ trace state, guard trace (embed state) action)
    (hembed : ∀ {state next events}, call state = some (next, events) →
      system.step (embed state) action = some (embed next, events.map observe))
    {state final : State} {events : List Event} (hleads : Leads call state final events) :
    ∀ {trace : List Large'}, Run system guard trace (embed state) →
      Run system guard (trace ++ events.map observe) (embed final) := by
  induction hleads with
  | refl => simp
  | next hstep hrest ih =>
    intro trace hrun
    rw [List.map_append, ← List.append_assoc]
    exact ih (hrun.next (hguard _ _) (hembed hstep))

/-- A call that leads to a state from which it settles settles. -/
theorem Leads.settles {state middle final : State} {first last : List Event}
    (hfirst : Leads call state middle first) (hlast : Settles call middle final last) :
    Settles call state final (first ++ last) :=
  ⟨hfirst.trans hlast.1, hlast.2⟩

/-- Undisturbed calls are deterministic. -/
theorem Settles.unique {state first second : State} {events events' : List Event}
    (hfirst : Settles call state first events) (hsecond : Settles call state second events') :
    first = second ∧ events = events' := by
  obtain ⟨hleads, hdone⟩ := hfirst
  induction hleads generalizing second events' with
  | refl state =>
    obtain ⟨hsecond, -⟩ := hsecond
    cases hsecond with
    | refl => exact ⟨rfl, rfl⟩
    | next hstep => simp [hdone] at hstep
  | next hstep hrest ih =>
    obtain ⟨hsecond, hdone'⟩ := hsecond
    cases hsecond with
    | refl => simp [hdone'] at hstep
    | next hstep' hrest' =>
      rw [hstep] at hstep'
      obtain ⟨rfl, rfl⟩ := Prod.mk.inj (Option.some.inj hstep')
      obtain ⟨rfl, rfl⟩ := ih ⟨hrest', hdone'⟩ hdone
      exact ⟨rfl, rfl⟩

/-- The rule for a loop that never ends. Assumes: a set of states in which the call always has a
step, and that every step stays in. -/
theorem diverges_of_invariant (inside : State → Prop)
    (hstep : ∀ state, inside state → ∃ next events, call state = some (next, events) ∧ inside next)
    {state : State} (hinside : inside state) : Diverges call state := by
  rintro final events ⟨hleads, hdone⟩
  induction hleads with
  | refl state =>
    obtain ⟨next, events, hnext, -⟩ := hstep state hinside
    simp [hdone] at hnext
  | next hfirst _ ih =>
    obtain ⟨next, events, hnext, hnextInside⟩ := hstep _ hinside
    rw [hfirst] at hnext
    obtain ⟨rfl, rfl⟩ := Prod.mk.inj (Option.some.inj hnext)
    exact ih hnextInside hdone

end Calls

end AarnnNsys.Lib
