import AarnnNsys.Bridge.Inversion
import AarnnNsys.Bus.Registry

/-!
# A bridge without its bus

What is left of a bridge when the bus is taken away is `bridgeSystem`: the device and the actions it
still has to do. It takes a message, looks at the link, or does the next action, and its events are
the messages taken and published, the frames written and what the looks found.

`run_bridge` connects it to the loop: whatever the other threads of the bus do, as long as they use
handles of their own, a run of a bridge and its bus is seen this way a run of `bridgeSystem`
(`LoopStep.bridge` is the step). So what a bridge forwards and publishes can be proved without the
bus.
-/

set_option autoImplicit false
set_option relaxedAutoImplicit false

namespace AarnnNsys.Bridge

open Lib

variable {State Input : Type}

/-- A bridge takes a message from the bus, looks at the link, or does its next action. -/
inductive BridgeAction (Input : Type)
  | take (message : List UInt8)
  | look (input : Input)
  | act

/-- What a bridge reports. -/
inductive BridgeEvent (Input : Type)
  | took (message : List UInt8)
  | published (message : List UInt8)
  | wrote (frame : List UInt8)
  | looked (input : Input)

/-- A bridge with the actions that it still has to do. A new message or a new look comes only when
nothing is left to do. -/
def bridgeSystem (device : Device State Input) (startup : List Action) :
    TransitionSystem (State × List Action) (BridgeAction Input) (BridgeEvent Input) where
  init := (device.init, startup)
  step
    | (state, []), .take message =>
      let (after, frames) := device.forward state message
      some ((after, []), .took message :: frames.map .wrote)
    | (state, []), .look input =>
      (device.receive state input).map fun result ↦ (result, [.looked input])
    | (state, .send frame :: rest), .act => some ((state, rest), [.wrote frame])
    | (state, .publish message :: rest), .act => some ((state, rest), [.published message])
    | _, _ => none

/-- The steps of a bridge. -/
inductive BridgeStep (device : Device State Input) :
    State × List Action → State × List Action → List (BridgeEvent Input) → Prop
  | take (state : State) (message : List UInt8) :
      BridgeStep device (state, []) ((device.forward state message).1, [])
        (.took message :: (device.forward state message).2.map .wrote)
  | look {state after : State} {input : Input} {pending : List Action}
      (hreceive : device.receive state input = some (after, pending)) :
      BridgeStep device (state, []) (after, pending) [.looked input]
  | send (state : State) (frame : List UInt8) (rest : List Action) :
      BridgeStep device (state, .send frame :: rest) (state, rest) [.wrote frame]
  | publish (state : State) (message : List UInt8) (rest : List Action) :
      BridgeStep device (state, .publish message :: rest) (state, rest) [.published message]

/-- A bridge does nothing but the steps of `BridgeStep`. -/
theorem bridgeSystem_cases {device : Device State Input} {startup : List Action}
    {state state' : State × List Action} {action : BridgeAction Input}
    {events : List (BridgeEvent Input)}
    (hstep : (bridgeSystem device startup).step state action = some (state', events)) :
    BridgeStep device state state' events := by
  obtain ⟨state, pending⟩ := state
  match pending, action with
  | [], .take message =>
    cases hstep
    exact .take state message
  | [], .look input =>
    simp only [bridgeSystem, Option.map_eq_some_iff, Prod.mk.injEq] at hstep
    obtain ⟨result, hreceive, rfl, rfl⟩ := hstep
    exact .look hreceive
  | .send frame :: rest, .act =>
    cases hstep
    exact .send state frame rest
  | .publish message :: rest, .act =>
    cases hstep
    exact .publish state message rest
  | [], .act | _ :: _, .take _ | _ :: _, .look _ => simp [bridgeSystem] at hstep

/-! ### The history of a bridge -/

/-- The message that an event reports as taken from the bus. -/
def BridgeEvent.took? : BridgeEvent Input → Option (List UInt8)
  | .took message => some message
  | _ => none

/-- The message that an event reports as published. -/
def BridgeEvent.published? : BridgeEvent Input → Option (List UInt8)
  | .published message => some message
  | _ => none

/-- The frame that an event reports as written. -/
def BridgeEvent.wrote? : BridgeEvent Input → Option (List UInt8)
  | .wrote frame => some frame
  | _ => none

/-- What an event reports that a look at the link found. -/
def BridgeEvent.looked? : BridgeEvent Input → Option Input
  | .looked input => some input
  | _ => none

section History

variable (trace events : List (BridgeEvent Input))

/-- The messages taken from the bus, in order. -/
def took : List (List UInt8) := trace.filterMap BridgeEvent.took?

/-- The messages published, in order. -/
def publishes : List (List UInt8) := trace.filterMap BridgeEvent.published?

/-- The frames written, in order. -/
def frames : List (List UInt8) := trace.filterMap BridgeEvent.wrote?

/-- What the looks at the link found, in order. -/
def inputs : List Input := trace.filterMap BridgeEvent.looked?

@[simp] theorem took_append : took (trace ++ events) = took trace ++ took events :=
  List.filterMap_append

@[simp] theorem publishes_append :
    publishes (trace ++ events) = publishes trace ++ publishes events :=
  List.filterMap_append

@[simp] theorem frames_append : frames (trace ++ events) = frames trace ++ frames events :=
  List.filterMap_append

@[simp] theorem inputs_append : inputs (trace ++ events) = inputs trace ++ inputs events :=
  List.filterMap_append

end History

section Take

variable (message : List UInt8) (written : List (List UInt8))

/-- What the events of a taken message say. -/
@[simp] theorem took_take :
    took (.took message :: written.map .wrote : List (BridgeEvent Input)) = [message] := by
  simp [took, BridgeEvent.took?, List.filterMap_map, Function.comp_def]

@[simp] theorem publishes_take :
    publishes (.took message :: written.map .wrote : List (BridgeEvent Input)) = [] := by
  simp [publishes, BridgeEvent.published?]

@[simp] theorem frames_take :
    frames (.took message :: written.map .wrote : List (BridgeEvent Input)) = written := by
  rw [frames, List.filterMap_cons_none rfl, List.filterMap_map]
  exact List.filterMap_some

@[simp] theorem inputs_take :
    inputs (.took message :: written.map .wrote : List (BridgeEvent Input)) = [] := by
  simp [inputs, BridgeEvent.looked?]

end Take

section Single

variable (trace : List (BridgeEvent Input))

/-- What a look at the link adds to the history. -/
theorem history_looked (input : Input) :
    took (trace ++ [.looked input]) = took trace ∧
      publishes (trace ++ [.looked input]) = publishes trace ∧
      frames (trace ++ [.looked input]) = frames trace ∧
      inputs (trace ++ [.looked input]) = inputs trace ++ [input] := by
  simp [took, publishes, frames, inputs, BridgeEvent.took?, BridgeEvent.published?,
    BridgeEvent.wrote?, BridgeEvent.looked?]

/-- What a frame sent adds to the history. -/
theorem history_wrote (frame : List UInt8) :
    took (trace ++ [.wrote frame]) = took trace ∧
      publishes (trace ++ [.wrote frame]) = publishes trace ∧
      frames (trace ++ [.wrote frame]) = frames trace ++ [frame] ∧
      inputs (trace ++ [.wrote frame]) = inputs trace := by
  simp [took, publishes, frames, inputs, BridgeEvent.took?, BridgeEvent.published?,
    BridgeEvent.wrote?, BridgeEvent.looked?]

/-- What a message published adds to the history. -/
theorem history_published (message : List UInt8) :
    took (trace ++ [.published message]) = took trace ∧
      publishes (trace ++ [.published message]) = publishes trace ++ [message] ∧
      frames (trace ++ [.published message]) = frames trace ∧
      inputs (trace ++ [.published message]) = inputs trace := by
  simp [took, publishes, frames, inputs, BridgeEvent.took?, BridgeEvent.published?,
    BridgeEvent.wrote?, BridgeEvent.looked?]

end Single

/-! ### The loop as a bridge -/

/-- The actions that the bridge still has to do. Before its loop these are those of its start. -/
def Phase.pending (startup : List Action) : Phase → List Action
  | .subscribing => startup
  | .acting pending | .publishing pending => pending
  | _ => []

/-- What an event of the bus says about the bridge: its reader has received a message, or its
producer has called `publish`. -/
def bridgeEvent? : Bus.Event → Option (BridgeEvent Input)
  | .reader h (.returned (.ok (some message))) => if h = 0 then some (.took message) else none
  | .producer p (.called message) => if p = 0 then some (.published message) else none
  | _ => none

/-- What an event of the loop says about the bridge. -/
def LoopEvent.bridge? : LoopEvent Input → Option (BridgeEvent Input)
  | .bus event => bridgeEvent? event
  | .wrote frame => some (.wrote frame)
  | .looked input => some (.looked input)

/-- The history of the bridge in a trace of the loop. -/
def bridgeEvents (trace : List (LoopEvent Input)) : List (BridgeEvent Input) :=
  trace.filterMap LoopEvent.bridge?

section Events

@[simp] theorem bridgeEvents_append (trace events : List (LoopEvent Input)) :
    bridgeEvents (trace ++ events) = bridgeEvents trace ++ bridgeEvents events :=
  List.filterMap_append

@[simp] theorem bridgeEvents_map_bus (events : List Bus.Event) :
    bridgeEvents (events.map .bus : List (LoopEvent Input)) = events.filterMap bridgeEvent? := by
  simp [bridgeEvents, LoopEvent.bridge?, List.filterMap_map, Function.comp_def]

@[simp] theorem bridgeEvents_map_wrote (written : List (List UInt8)) :
    bridgeEvents (written.map .wrote : List (LoopEvent Input)) = written.map .wrote := by
  simp [bridgeEvents, LoopEvent.bridge?, List.filterMap_map, Function.comp_def]

/-- What an event of the bus says about the bridge: the message of a `try_recv` through its handle,
the message of one of its calls, or nothing. -/
theorem bridgeEvent?_cases (Input : Type) (event : Bus.Event) :
    (∃ message, event = .reader 0 (.returned (.ok (some message))) ∧
      (bridgeEvent? event : Option (BridgeEvent Input)) = some (.took message)) ∨
    (∃ message, event = .producer 0 (.called message) ∧
      (bridgeEvent? event : Option (BridgeEvent Input)) = some (.published message)) ∨
    ((bridgeEvent? event : Option (BridgeEvent Input)) = none ∧ event.received? 0 = none ∧
      event.call? 0 = none) := by
  rcases event with ⟨p, event⟩ | ⟨h, event⟩ | ⟨h, ⟨error | (none | message)⟩⟩
  · cases event with
    | called message =>
      by_cases hp : p = 0
      · exact .inr (.inl ⟨message, by rw [hp], by simp [bridgeEvent?, hp]⟩)
      · exact .inr (.inr ⟨by simp [bridgeEvent?, hp], rfl, by simp [Bus.Event.call?, hp]⟩)
    | _ => exact .inr (.inr ⟨rfl, rfl, rfl⟩)
  · exact .inr (.inr ⟨rfl, rfl, rfl⟩)
  · exact .inr (.inr ⟨rfl, rfl, rfl⟩)
  · exact .inr (.inr ⟨rfl, rfl, rfl⟩)
  · by_cases hh : h = 0
    · exact .inl ⟨message, by rw [hh], by simp [bridgeEvent?, hh]⟩
    · exact .inr (.inr ⟨by simp [bridgeEvent?, hh], by simp [Bus.Event.received?, hh], rfl⟩)

/-- The messages taken are those received through the bridge's handle. -/
theorem took_bridgeEvents (trace : List (LoopEvent Input)) :
    took (bridgeEvents trace) = Bus.received 0 (busEvents trace) := by
  simp only [took, bridgeEvents, Bus.received, busEvents, List.filterMap_filterMap]
  congr 1
  funext event
  cases event with
  | wrote | looked => rfl
  | bus event =>
    simp only [LoopEvent.bridge?, LoopEvent.bus?, Option.bind_some]
    rcases bridgeEvent?_cases Input event with
      ⟨message, rfl, htook⟩ | ⟨message, rfl, hpublished⟩ | ⟨hnone, hreceived, -⟩
    · rw [htook]
      rfl
    · rw [hpublished]
      rfl
    · rw [hnone, hreceived]
      rfl

/-- The messages published are those of the bridge's calls. -/
theorem publishes_bridgeEvents (trace : List (LoopEvent Input)) :
    publishes (bridgeEvents trace) = Bus.callsBy 0 (busEvents trace) := by
  simp only [publishes, bridgeEvents, Bus.callsBy, busEvents, List.filterMap_filterMap]
  congr 1
  funext event
  cases event with
  | wrote | looked => rfl
  | bus event =>
    simp only [LoopEvent.bridge?, LoopEvent.bus?, Option.bind_some]
    rcases bridgeEvent?_cases Input event with
      ⟨message, rfl, htook⟩ | ⟨message, rfl, hpublished⟩ | ⟨hnone, -, hcall⟩
    · rw [htook]
      rfl
    · rw [hpublished]
      rfl
    · rw [hnone, hcall]
      rfl

/-- Events of the bus say nothing about looks. -/
theorem inputs_map_bus (events : List Bus.Event) :
    inputs (bridgeEvents (events.map .bus : List (LoopEvent Input))) = [] := by
  rw [bridgeEvents_map_bus, inputs, List.filterMap_filterMap, List.filterMap_eq_nil_iff]
  intro event _
  rcases bridgeEvent?_cases Input event with
    ⟨message, rfl, htook⟩ | ⟨message, rfl, hpublished⟩ | ⟨hnone, -, -⟩
  · rw [htook]
    rfl
  · rw [hpublished]
    rfl
  · rw [hnone]
    rfl

/-- The other threads do nothing that the bridge does. Assumes: no reader but the bridge's is
receiving through the bridge's handle. -/
theorem filterMap_bridgeEvent?_foreign {g : Bus.Geometry} {bus bus' : Bus.State}
    {action : Bus.Action} {events : List Bus.Event}
    (hhandles : ∀ r, (bus.readers r).pc ≠ .idle → (bus.readers r).handle = 0 → r = 0)
    (hforeign : Foreign action) (hstep : Bus.BusStep g bus action bus' events) :
    (events.filterMap bridgeEvent? : List (BridgeEvent Input)) = [] := by
  rw [List.filterMap_eq_nil_iff]
  intro event hmem
  cases hstep with
  | @producer p act m t own hthread =>
    obtain ⟨reported, -, rfl⟩ := List.mem_map.mp hmem
    have hp : p ≠ 0 := hforeign
    cases reported with
    | called message => exact if_neg hp
    | _ => rfl
  | subscriber hthread =>
    obtain ⟨reported, -, rfl⟩ := List.mem_map.mp hmem
    rfl
  | @reader r act m t own hthread =>
    obtain ⟨⟨result⟩, hown, rfl⟩ := List.mem_map.mp hmem
    have hhandle : t.handle ≠ 0 := by
      intro hzero
      have hactive : (bus.readers r).pc ≠ .idle ∧ (bus.readers r).handle = 0 ∧
          act = .next := by
        cases hthread <;> simp_all
      obtain ⟨hactive, hsame, rfl⟩ := hactive
      exact hforeign (hhandles r hactive hsame)
    rcases result with error | (none | message)
    · rfl
    · rfl
    · exact if_neg hhandle

/-- A subscribe call says nothing about the bridge. -/
theorem filterMap_bridgeEvent?_subscriber {g : Bus.Geometry} {bus bus' : Bus.State} {h : ℕ}
    {act : Bus.SubscriberAct} {events : List Bus.Event}
    (hstep : Bus.BusStep g bus (.subscriber h act) bus' events) :
    (events.filterMap bridgeEvent? : List (BridgeEvent Input)) = [] := by
  cases hstep with
  | subscriber hthread => simp [bridgeEvent?, List.filterMap_map, Function.comp_def]

/-- What a receive call of the bridge says about it. -/
theorem filterMap_bridgeEvent?_reader {g : Bus.Geometry} {bus bus' : Bus.State} {r : ℕ}
    {act : Bus.ReaderAct} {events : List Bus.Event}
    (hstep : Bus.BusStep g bus (.reader r act) bus' events) :
    (events.filterMap bridgeEvent? : List (BridgeEvent Input)) =
      (Bus.received 0 events).head?.toList.map .took ∧
    ((bus'.readers r).pc ≠ .idle → (Bus.received 0 events).head? = none) := by
  cases hstep with
  | @reader r act m t own hthread =>
    cases hthread with
    | storeSeq seq out hpc =>
      by_cases hh : (bus.readers r).handle = 0 <;>
        simp [bridgeEvent?, Bus.received, Bus.Event.received?, Bus.State.setReader, hh]
    | _ => exact ⟨rfl, fun _ ↦ rfl⟩

/-- What the bridge's own `publish` says about it, at its first operation and at the others. -/
theorem filterMap_bridgeEvent?_producer {g : Bus.Geometry} {bus bus' : Bus.State}
    {act : Bus.ProducerAct} {events : List Bus.Event}
    (hstep : Bus.BusStep g bus (.producer 0 act) bus' events) :
    (events.filterMap bridgeEvent? : List (BridgeEvent Input)) =
      match act with
      | .publish message | .tryPublish message => [.published message]
      | .next _ => [] := by
  cases hstep with
  | @producer p act m t own hthread =>
    cases hthread with
    | advanceStop b w hpc huncommitted =>
      have hsuccess : (bridgeEvent? (.producer 0 (bus.producers 0).success) :
          Option (BridgeEvent Input)) = none := by
        unfold Bus.Producer.success
        split <;> rfl
      simp [hsuccess]
    | _ => simp [bridgeEvent?]

end Events

/-! ### The run of the bridge -/

section Run

variable {g : Bus.Geometry} {device : Device State Input} {startup : List Action}

/-- The bridge in a state of the loop. -/
def LoopState.bridge (startup : List Action) (s : LoopState State) : State × List Action :=
  (s.device, s.phase.pending startup)

/-- A step of the loop is a step of the bridge, or does nothing to it. -/
theorem LoopStep.bridge {s s' : LoopState State} {action : LoopAction Input}
    {events : List (LoopEvent Input)}
    (hhandles : ∀ r, (s.bus.readers r).pc ≠ .idle → (s.bus.readers r).handle = 0 → r = 0)
    (hstep : LoopStep g device startup s action s' events) :
    (s'.bridge startup = s.bridge startup ∧ bridgeEvents events = []) ∨
      ∃ bridgeAction, (bridgeSystem device startup).step (s.bridge startup) bridgeAction =
        some (s'.bridge startup, bridgeEvents events) := by
  cases hstep with
  | other hforeign hbus =>
    refine .inl ⟨rfl, ?_⟩
    rw [bridgeEvents_map_bus]
    exact filterMap_bridgeEvent?_foreign hhandles hforeign (Bus.step_cases hbus)
  | subscribe hphase hbus | subscribed hphase hbus =>
    refine .inl ⟨by simp [LoopState.bridge, hphase, Phase.pending], ?_⟩
    rw [bridgeEvents_map_bus]
    exact filterMap_bridgeEvent?_subscriber (Bus.step_cases hbus)
  | unsubscribed hphase hnone | again hphase | published hphase hidle =>
    exact .inl ⟨by simp [LoopState.bridge, hphase, Phase.pending], rfl⟩
  | tryRecv hphase hready hbus =>
    refine .inl ⟨by simp [LoopState.bridge, hphase, Phase.pending], ?_⟩
    cases Bus.step_cases hbus with
    | reader hthread => cases hthread with
      | tryRecv => rfl
  | recv hphase hbus hactive =>
    obtain ⟨hevents, hnone⟩ := filterMap_bridgeEvent?_reader (Bus.step_cases hbus)
    refine .inl ⟨rfl, ?_⟩
    rw [bridgeEvents_map_bus, hevents, hnone hactive]
    rfl
  | empty hphase hbus hidle hnone =>
    obtain ⟨hevents, -⟩ := filterMap_bridgeEvent?_reader (Bus.step_cases hbus)
    refine .inl ⟨by simp [LoopState.bridge, hphase, Phase.pending], ?_⟩
    rw [bridgeEvents_map_bus, hevents, hnone]
    rfl
  | @received spurious message bus events hphase hbus hidle hmessage =>
    obtain ⟨hevents, -⟩ := filterMap_bridgeEvent?_reader (Bus.step_cases hbus)
    refine .inr ⟨.take message, ?_⟩
    rw [bridgeEvents_append, bridgeEvents_map_bus, bridgeEvents_map_wrote, hevents, hmessage]
    simp [LoopState.bridge, hphase, Phase.pending, bridgeSystem]
  | @look input after pending hphase hreceive =>
    refine .inr ⟨.look input, ?_⟩
    simp [LoopState.bridge, hphase, Phase.pending, bridgeSystem, hreceive, bridgeEvents,
      LoopEvent.bridge?]
  | send hphase =>
    refine .inr ⟨.act, ?_⟩
    simp [LoopState.bridge, hphase, Phase.pending, bridgeSystem, bridgeEvents, LoopEvent.bridge?]
  | publish hphase hbus =>
    refine .inr ⟨.act, ?_⟩
    rw [bridgeEvents_map_bus, filterMap_bridgeEvent?_producer (Bus.step_cases hbus)]
    simp [LoopState.bridge, hphase, Phase.pending, bridgeSystem]
  | publishing hphase hactive hbus =>
    refine .inl ⟨rfl, ?_⟩
    rw [bridgeEvents_map_bus]
    exact filterMap_bridgeEvent?_producer (Bus.step_cases hbus)

/-- The looks at the link are the steps of that name. -/
theorem LoopStep.inputs_eq {s s' : LoopState State} {action : LoopAction Input}
    {events : List (LoopEvent Input)} (hstep : LoopStep g device startup s action s' events) :
    inputs (bridgeEvents events) =
      match action with
      | .look input => [input]
      | _ => [] := by
  cases hstep with
  | other | subscribe | subscribed | tryRecv | recv | empty | publish | publishing =>
    exact inputs_map_bus _
  | received =>
    rw [bridgeEvents_append, inputs_append, inputs_map_bus, bridgeEvents_map_wrote]
    simp [inputs, BridgeEvent.looked?]
  | look | again | send | unsubscribed | published => rfl

/-- A run of a bridge and its bus is a run of the bridge. Assumes: every reader thread receives
through its own handle, and at most `MAX_SUBSCRIBERS` calls subscribe. -/
theorem run_bridge {slab : ℕ → UInt8} {guard : Bus.State → Bus.Action → Prop}
    (hdiscipline : ∀ bus action, guard bus action → Bus.Disciplined bus action)
    {trace : List (LoopEvent Input)} {s : LoopState State}
    (hrun : Run (loopSystem g slab device startup) (busGuard g guard) trace s) :
    Run (bridgeSystem device startup) unguarded (bridgeEvents trace) (s.bridge startup) := by
  refine hrun.project (LoopState.bridge startup) LoopEvent.bridge? rfl ?_
  intro trace s action s' events hprevious _ hstep
  have hregistry : Bus.RegistryInv s.bus :=
    Bus.registryInv_run (fun _ _ _ hallowed ↦ hdiscipline _ _ hallowed.1) (run_bus hprevious)
  have hhandles : ∀ r, (s.bus.readers r).pc ≠ .idle → (s.bus.readers r).handle = 0 → r = 0 :=
    fun r hactive hzero ↦ (hregistry.reader_ready r hactive).1.symm.trans hzero
  rcases (loopStep_cases hstep).bridge hhandles with hsame | ⟨bridgeAction, hbridge⟩
  · exact .inl hsame
  · exact .inr ⟨bridgeAction, trivial, hbridge⟩

end Run

end AarnnNsys.Bridge
