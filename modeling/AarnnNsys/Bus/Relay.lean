import AarnnNsys.Bus.Delivery

/-!
# The relay between two buses

`relay_once` takes one message from a subscriber of the source bus and publishes it to the
destination bus, unless it is longer than a slot there. `relaySystem` composes a thread that calls
it over and over with the two buses and all their other threads, one atomic operation at a time. The
relay owns handle and reader thread `0` of the source and producer thread `0` of the destination;
its handle is the outcome of subscribe call `0` of the source, made at any time.

`RelayStep` says what a step can do, and seen from either bus a run is a run of that bus
(`run_source`, `run_destination`).
-/

set_option autoImplicit false
set_option relaxedAutoImplicit false

namespace AarnnNsys.Bus

open Function Lib

/-! ### The relay thread -/

/-- The result of a `relay_once` call. -/
abbrev RelayResult := Except BusError (Option ℕ)

/-- Where the relay is in a `relay_once` call: in `try_recv` on the source, about to call `publish`
on the destination, or inside `publish` with a message of `length` bytes. -/
inductive RelayPhase
  | idle
  | receiving
  | publishing (message : Message)
  | waiting (length : ℕ)
  deriving DecidableEq

/-- The two buses and the relay. -/
structure RelayState where
  source : State
  destination : State
  phase : RelayPhase

/-- A step of another thread of the source or the destination, or the next step of the relay. -/
inductive RelayAction
  | source (action : Action)
  | destination (action : Action)
  | relay
  deriving DecidableEq

/-- An event of one of the buses, or the return of a `relay_once` call. -/
inductive RelayEvent
  | source (event : Event)
  | destination (event : Event)
  | returned (result : RelayResult)
  deriving DecidableEq

/-- The result of a `try_recv` call that an event reports. -/
def Event.recvResult? : Event → Option (Except BusError (Option Message))
  | .reader _ (.returned result) => some result
  | _ => none

/-- The result of a `publish` call that an event reports. -/
def Event.publishResult? : Event → Option (Except BusError Unit)
  | .producer _ (.publishReturned result) => some result
  | _ => none

/-- What `relay_once` does once `try_recv` has returned. -/
def afterReceive (dst : Geometry) :
    Option (Except BusError (Option Message)) → RelayPhase × List RelayResult
  | none => (.receiving, [])
  | some (.error error) => (.idle, [.error error])
  | some (.ok none) => (.idle, [.ok none])
  | some (.ok (some message)) =>
    if dst.slotBytes < message.length then (.idle, [.error .msgTooLarge])
    else (.publishing message, [])

/-- What `relay_once` does once `publish` has returned. -/
def afterPublish (length : ℕ) : Option (Except BusError Unit) → RelayPhase × List RelayResult
  | none => (.waiting length, [])
  | some (.error error) => (.idle, [.error error])
  | some (.ok ()) => (.idle, [.ok (some length)])

/-- The next step of the relay, with a scratch buffer of `scratch` bytes. -/
def relayNext (src dst : Geometry) (scratch : ℕ) (s : RelayState) :
    Option (RelayState × List RelayEvent) :=
  match s.phase with
  | .idle =>
    (step src s.source (.reader 0 (.tryRecv 0 scratch))).map fun (bus, events) ↦
      ({ s with source := bus, phase := .receiving }, events.map .source)
  | .receiving =>
    (step src s.source (.reader 0 .next)).map fun (bus, events) ↦
      let (phase, results) := afterReceive dst (events.findSome? Event.recvResult?)
      ({ s with source := bus, phase }, events.map .source ++ results.map .returned)
  | .publishing message =>
    (step dst s.destination (.producer 0 (.publish message))).map fun (bus, events) ↦
      let (phase, results) :=
        afterPublish message.length (events.findSome? Event.publishResult?)
      ({ s with destination := bus, phase }, events.map .destination ++ results.map .returned)
  | .waiting length =>
    (step dst s.destination (.producer 0 (.next false))).map fun (bus, events) ↦
      let (phase, results) := afterPublish length (events.findSome? Event.publishResult?)
      ({ s with destination := bus, phase }, events.map .destination ++ results.map .returned)

/-- The actions of the source that are not those of the relay's reader thread. -/
def SourceOther : Action → Prop
  | .reader r _ => r ≠ 0
  | _ => True

instance SourceOther.decidable : ∀ action : Action, Decidable (SourceOther action)
  | .reader r _ => inferInstanceAs (Decidable (r ≠ 0))
  | .producer _ _ => isTrue trivial
  | .subscriber _ _ => isTrue trivial

/-- The actions of the destination that are not those of the relay's producer thread. -/
def DestinationOther : Action → Prop
  | .producer p _ => p ≠ 0
  | _ => True

instance DestinationOther.decidable : ∀ action : Action, Decidable (DestinationOther action)
  | .producer p _ => inferInstanceAs (Decidable (p ≠ 0))
  | .reader _ _ => isTrue trivial
  | .subscriber _ _ => isTrue trivial

/-- One step of the relay and the two buses. -/
def relayStep (src dst : Geometry) (scratch : ℕ) (s : RelayState) :
    RelayAction → Option (RelayState × List RelayEvent)
  | .source action =>
    if SourceOther action then
      (step src s.source action).map fun (bus, events) ↦
        ({ s with source := bus }, events.map .source)
    else none
  | .destination action =>
    if DestinationOther action then
      (step dst s.destination action).map fun (bus, events) ↦
        ({ s with destination := bus }, events.map .destination)
    else none
  | .relay => relayNext src dst scratch s

/-- A relay between two fresh buses. -/
def relaySystem (src dst : Geometry) (scratch : ℕ) (slab slab' : ℕ → UInt8) :
    TransitionSystem RelayState RelayAction RelayEvent :=
  ⟨⟨State.init slab, State.init slab', .idle⟩, relayStep src dst scratch⟩

/-- The steps of the relay and the two buses. -/
inductive RelayStep (src dst : Geometry) (scratch : ℕ) (s : RelayState) :
    RelayAction → RelayState → List RelayEvent → Prop
  | source {action : Action} {bus : State} {events : List Event} (hother : SourceOther action)
      (hbus : step src s.source action = some (bus, events)) :
      RelayStep src dst scratch s (.source action) { s with source := bus } (events.map .source)
  | destination {action : Action} {bus : State} {events : List Event}
      (hother : DestinationOther action)
      (hbus : step dst s.destination action = some (bus, events)) :
      RelayStep src dst scratch s (.destination action) { s with destination := bus }
        (events.map .destination)
  | call {bus : State} {events : List Event} (hphase : s.phase = .idle)
      (hbus : step src s.source (.reader 0 (.tryRecv 0 scratch)) = some (bus, events)) :
      RelayStep src dst scratch s .relay { s with source := bus, phase := .receiving }
        (events.map .source)
  | receive {bus : State} {events : List Event} {phase : RelayPhase} {results : List RelayResult}
      (hphase : s.phase = .receiving)
      (hbus : step src s.source (.reader 0 .next) = some (bus, events))
      (hafter : afterReceive dst (events.findSome? Event.recvResult?) = (phase, results)) :
      RelayStep src dst scratch s .relay { s with source := bus, phase }
        (events.map .source ++ results.map .returned)
  | publish {message : Message} {bus : State} {events : List Event} {phase : RelayPhase}
      {results : List RelayResult} (hphase : s.phase = .publishing message)
      (hbus : step dst s.destination (.producer 0 (.publish message)) = some (bus, events))
      (hafter : afterPublish message.length (events.findSome? Event.publishResult?) =
        (phase, results)) :
      RelayStep src dst scratch s .relay { s with destination := bus, phase }
        (events.map .destination ++ results.map .returned)
  | wait {length : ℕ} {bus : State} {events : List Event} {phase : RelayPhase}
      {results : List RelayResult} (hphase : s.phase = .waiting length)
      (hbus : step dst s.destination (.producer 0 (.next false)) = some (bus, events))
      (hafter : afterPublish length (events.findSome? Event.publishResult?) = (phase, results)) :
      RelayStep src dst scratch s .relay { s with destination := bus, phase }
        (events.map .destination ++ results.map .returned)

/-- The relay and the two buses do nothing but the steps of `RelayStep`. -/
theorem relayStep_cases {src dst : Geometry} {scratch : ℕ} {s s' : RelayState}
    {action : RelayAction} {events : List RelayEvent}
    (hstep : relayStep src dst scratch s action = some (s', events)) :
    RelayStep src dst scratch s action s' events := by
  cases action with
  | source action =>
    simp only [relayStep, Option.ite_none_right_eq_some, Option.map_eq_some_iff, Prod.mk.injEq,
      Prod.exists] at hstep
    obtain ⟨hother, bus, reported, hbus, rfl, rfl⟩ := hstep
    exact .source hother hbus
  | destination action =>
    simp only [relayStep, Option.ite_none_right_eq_some, Option.map_eq_some_iff, Prod.mk.injEq,
      Prod.exists] at hstep
    obtain ⟨hother, bus, reported, hbus, rfl, rfl⟩ := hstep
    exact .destination hother hbus
  | relay =>
    simp only [relayStep, relayNext] at hstep
    split at hstep <;> simp only [Option.map_eq_some_iff, Prod.mk.injEq, Prod.exists] at hstep
    · obtain ⟨bus, reported, hbus, rfl, rfl⟩ := hstep
      exact .call ‹_› hbus
    · obtain ⟨bus, reported, hbus, rfl, rfl⟩ := hstep
      exact .receive ‹_› hbus rfl
    · obtain ⟨bus, reported, hbus, rfl, rfl⟩ := hstep
      exact .publish ‹_› hbus rfl
    · obtain ⟨bus, reported, hbus, rfl, rfl⟩ := hstep
      exact .wait ‹_› hbus rfl

/-! ### The history of a relay -/

/-- The event of the source bus that an event reports. -/
def RelayEvent.source? : RelayEvent → Option Event
  | .source event => some event
  | _ => none

/-- The event of the destination bus that an event reports. -/
def RelayEvent.destination? : RelayEvent → Option Event
  | .destination event => some event
  | _ => none

/-- The result of a `relay_once` call that an event reports. -/
def RelayEvent.result? : RelayEvent → Option RelayResult
  | .returned result => some result
  | _ => none

/-- What happened on the source bus. -/
def sourceTrace (trace : List RelayEvent) : List Event := trace.filterMap RelayEvent.source?

/-- What happened on the destination bus. -/
def destinationTrace (trace : List RelayEvent) : List Event :=
  trace.filterMap RelayEvent.destination?

/-- What the `relay_once` calls have returned, in order. -/
def results (trace : List RelayEvent) : List RelayResult := trace.filterMap RelayEvent.result?

section History

variable (trace later : List RelayEvent) (events : List Event) (returned : List RelayResult)

@[simp] theorem sourceTrace_append :
    sourceTrace (trace ++ later) = sourceTrace trace ++ sourceTrace later :=
  List.filterMap_append

@[simp] theorem destinationTrace_append :
    destinationTrace (trace ++ later) = destinationTrace trace ++ destinationTrace later :=
  List.filterMap_append

@[simp] theorem results_append : results (trace ++ later) = results trace ++ results later :=
  List.filterMap_append

@[simp] theorem sourceTrace_map_source : sourceTrace (events.map .source) = events := by
  simp [sourceTrace, RelayEvent.source?, List.filterMap_map, Function.comp_def]

@[simp] theorem sourceTrace_map_destination : sourceTrace (events.map .destination) = [] := by
  simp [sourceTrace, RelayEvent.source?, List.filterMap_map, Function.comp_def]

@[simp] theorem sourceTrace_map_returned : sourceTrace (returned.map .returned) = [] := by
  simp [sourceTrace, RelayEvent.source?, List.filterMap_map, Function.comp_def]

@[simp] theorem destinationTrace_map_source : destinationTrace (events.map .source) = [] := by
  simp [destinationTrace, RelayEvent.destination?, List.filterMap_map, Function.comp_def]

@[simp] theorem destinationTrace_map_destination :
    destinationTrace (events.map .destination) = events := by
  simp [destinationTrace, RelayEvent.destination?, List.filterMap_map, Function.comp_def]

@[simp] theorem destinationTrace_map_returned :
    destinationTrace (returned.map .returned) = [] := by
  simp [destinationTrace, RelayEvent.destination?, List.filterMap_map, Function.comp_def]

@[simp] theorem results_map_source : results (events.map .source) = [] := by
  simp [results, RelayEvent.result?, List.filterMap_map, Function.comp_def]

@[simp] theorem results_map_destination : results (events.map .destination) = [] := by
  simp [results, RelayEvent.result?, List.filterMap_map, Function.comp_def]

@[simp] theorem results_map_returned : results (returned.map .returned) = returned := by
  simp [results, RelayEvent.result?, List.filterMap_map, Function.comp_def]

end History

/-! ### Each bus on its own -/

/-- How a bus that a relay works on may be used: every handle by its own thread, and subscribe calls
between complete calls of producers. -/
def BusUse (s : State) (action : Action) : Prop := KeepsHandles s action ∧ JoinsBetween s action

/-- Where a slot is narrow, the checks of a run that uses the bus so count who joined. -/
theorem run_safe {g : Geometry} (hslot : g.slotBytes < u32Size) {slab : ℕ → UInt8}
    {trace : List Event} {s : State}
    (hrun : Run (busSystem g slab) (fun _ s action ↦ BusUse s action) trace s) :
    Run (busSystem g slab) (fun _ s action ↦ KeepsHandles s action ∧ CountsJoined g s action ∧
      NarrowCall g action) trace s := by
  refine hrun.strengthen fun {_ s action _ _} hprevious hallowed _ ↦
    ⟨hallowed.1, ?_, narrowCall_of_slotBytes hslot action⟩
  have howners := ownersInv_run (fun _ _ _ hkept ↦ hkept.1.2) hprevious
  have hcounted := allCounted_run (fun _ _ _ hkept ↦ hkept.2) hprevious
  exact (hcounted.countsAll action).countsJoined howners

/-- What has been received through a handle is a stretch of the log. -/
theorem received_stretch {g : Geometry} (hslot : g.slotBytes < u32Size) {slab : ℕ → UInt8}
    {trace : List Event} {s : State}
    (hrun : Run (busSystem g slab) (fun _ s action ↦ BusUse s action) trace s) (h : ℕ) :
    received h trace <:+: (claims trace).map Claim.payload := by
  have hdelivery := deliveryInv_run (fun _ _ _ hkept ↦ hkept.1) (fun _ _ _ hkept ↦ hkept.2.1)
    (fun _ _ _ hkept ↦ hkept.2.2) (run_safe hslot hrun)
  by_cases hready : ∃ id, s.subscribers h = .ready id
  · obtain ⟨id, hready⟩ := hready
    obtain ⟨start, hstarted⟩ := hdelivery.ready h id hready
    rw [(hdelivery.received_eq h start id hstarted hready).2, messages]
    exact ((List.drop_suffix _ _).isInfix.trans (List.take_prefix _ _).isInfix).map _
  · push Not at hready
    rw [(hdelivery.unready h hready).1]
    exact List.nil_infix

/-- How the two buses of a relay may be used. -/
def RelayUse (s : RelayState) : RelayAction → Prop
  | .source action => BusUse s.source action
  | .destination action => BusUse s.destination action
  | .relay => True

section Projections

variable {src dst : Geometry} {scratch : ℕ} {slab slab' : ℕ → UInt8} {trace : List RelayEvent}
  {s : RelayState}

/-- Seen from the source, a run of a relay is a run of a bus. -/
theorem run_source
    (hrun : Run (relaySystem src dst scratch slab slab') (fun _ s action ↦ RelayUse s action)
      trace s) :
    Run (busSystem src slab) (fun _ s action ↦ BusUse s action) (sourceTrace trace) s.source := by
  refine hrun.project RelayState.source RelayEvent.source? rfl ?_
  intro trace s action s' events _ hallowed hstep
  change _ ∨ ∃ action', BusUse s.source action' ∧
    step src s.source action' = some (s'.source, sourceTrace events)
  cases relayStep_cases hstep with
  | source hother hbus => exact Or.inr ⟨_, hallowed, by simpa using hbus⟩
  | destination hother hbus => exact Or.inl ⟨rfl, sourceTrace_map_destination _⟩
  | call hphase hbus =>
    exact Or.inr ⟨.reader 0 (.tryRecv 0 scratch), ⟨⟨rfl, trivial⟩, trivial⟩, by simpa using hbus⟩
  | receive hphase hbus =>
    exact Or.inr ⟨.reader 0 .next, ⟨⟨trivial, trivial⟩, trivial⟩, by simpa using hbus⟩
  | publish hphase hbus | wait hphase hbus =>
    refine Or.inl ⟨rfl, ?_⟩
    change sourceTrace _ = []
    simp

/-- Seen from the destination, a run of a relay is a run of a bus. -/
theorem run_destination
    (hrun : Run (relaySystem src dst scratch slab slab') (fun _ s action ↦ RelayUse s action)
      trace s) :
    Run (busSystem dst slab') (fun _ s action ↦ BusUse s action) (destinationTrace trace)
      s.destination := by
  refine hrun.project RelayState.destination RelayEvent.destination? rfl ?_
  intro trace s action s' events _ hallowed hstep
  change _ ∨ ∃ action', BusUse s.destination action' ∧
    step dst s.destination action' = some (s'.destination, destinationTrace events)
  cases relayStep_cases hstep with
  | source hother hbus => exact Or.inl ⟨rfl, destinationTrace_map_source _⟩
  | destination hother hbus => exact Or.inr ⟨_, hallowed, by simpa using hbus⟩
  | call hphase hbus => exact Or.inl ⟨rfl, destinationTrace_map_source _⟩
  | receive hphase hbus =>
    refine Or.inl ⟨rfl, ?_⟩
    change destinationTrace _ = []
    simp
  | @publish message _ _ _ _ hphase hbus =>
    exact Or.inr ⟨.producer 0 (.publish message), ⟨⟨trivial, trivial⟩, trivial⟩,
      by simpa using hbus⟩
  | wait hphase hbus =>
    exact Or.inr ⟨.producer 0 (.next false), ⟨⟨trivial, trivial⟩, trivial⟩, by simpa using hbus⟩

end Projections

end AarnnNsys.Bus
