import AarnnNsys.Bridge.Core
import AarnnNsys.L2.Stream
import Mathlib.Data.List.ReduceOption

/-!
# What the two bridges forward and publish

The history of each bridge, without its bus. `L2History` is that of `l2bridge`: the frames it has
written are the fragments of the messages it has taken, in order, with acknowledgements between
them, and what it has published and still has to publish is what its receiver makes of the frames
found. `UsbHistory` is that of `usbsim_bridge`: its frames on channel 0 are the messages it has
taken, in order and numbered.

Neither makes a difference between messages: nothing that a bridge keeps says where a message on its
bus comes from.
-/

set_option autoImplicit false
set_option relaxedAutoImplicit false

namespace AarnnNsys.Bridge

open Lib

/-! ### l2bridge -/

section L2

variable {link : L2.Link}

/-- The history of an `l2bridge`. -/
structure L2History (link : L2.Link) (trace : List (BridgeEvent (Option (List UInt8))))
    (state : L2State × List Action) : Prop where
  counter : state.1.msgIdCtr = L2.msgIdOf 1 (took trace).length
  frames_eq : ∃ arrivals : List L2.Arrival, arrivals.map L2.Arrival.bytes = frames trace ∧
    ∀ cfg, L2.Delivers cfg (L2.forwardAll link 1 (took trace)) arrivals
  published_eq : ∃ receptions : List L2.Reception,
    (L2.receiverSystem link).exec (.initial link.cfg) (inputs trace).reduceOption =
      some (state.1.receiver, receptions) ∧
    published (receptions.flatMap L2.Reception.actions) = publishes trace ++ published state.2
  acks : ∀ frame ∈ sent state.2, L2.IsAck frame

theorem L2History.init (link : L2.Link) : L2History link [] ((l2bridge link).init, []) where
  counter := (L2.msgIdOf_zero 1).symm
  frames_eq := ⟨[], rfl, fun _ ↦ ⟨rfl, fun _ hmem ↦ nomatch hmem⟩⟩
  published_eq := ⟨[], rfl, rfl⟩
  acks := fun _ hmem ↦ nomatch hmem

/-- A receiver that the frames found lead to is well formed. -/
theorem L2History.wellFormed {trace : List (BridgeEvent (Option (List UInt8)))}
    {state : L2State × List Action} (hinv : L2History link trace state) :
    state.1.receiver.WellFormed link := by
  obtain ⟨receptions, hexec, -⟩ := hinv.published_eq
  exact L2.Reachable.wellFormed ⟨_, run_of_exec hexec⟩

/-- A message is taken: its fragments are written. -/
theorem L2History.take {trace : List (BridgeEvent (Option (List UInt8)))} {state : L2State}
    (hinv : L2History link trace (state, [])) (message : List UInt8) :
    L2History link (trace ++ .took message :: ((l2bridge link).forward state message).2.map .wrote)
      (((l2bridge link).forward state message).1, []) := by
  have hcounter : state.msgIdCtr = L2.msgIdOf 1 (took trace).length := hinv.counter
  obtain ⟨arrivals, hbytes, hdelivers⟩ := hinv.frames_eq
  obtain ⟨receptions, hexec, hpublished⟩ := hinv.published_eq
  set written := ((l2bridge link).forward state message).2 with hwritten
  have hforward : written = (L2.forward link (L2.msgIdOf 1 (took trace).length) message).2 := by
    rw [hwritten, ← hcounter]
    rfl
  refine ⟨?_, ⟨arrivals ++ written.map fun frame ↦ .data frame [], ?_, fun cfg ↦ ?_⟩,
    ⟨receptions, ?_, ?_⟩, hinv.acks⟩
  · rw [took_append, took_take, List.length_append, List.length_singleton, ← L2.msgIdOf_add_one,
      ← hcounter]
    rfl
  · rw [frames_append, frames_take, List.map_append, hbytes]
    simp [L2.Arrival.bytes, Function.comp_def]
  · rw [took_append, took_take, L2.forwardAll_append_singleton, hforward]
    exact (hdelivers cfg).append (L2.delivers_forward ..)
  · rw [inputs_append, inputs_take, List.append_nil]
    exact hexec
  · rw [publishes_append, publishes_take, List.append_nil]
    exact hpublished

/-- A look at the link: a frame found goes through the receiver. -/
theorem L2History.look {trace : List (BridgeEvent (Option (List UInt8)))} {state after : L2State}
    {found : Option (List UInt8)} {pending : List Action}
    (hinv : L2History link trace (state, []))
    (hreceive : (l2bridge link).receive state found = some (after, pending)) :
    L2History link (trace ++ [.looked found]) (after, pending) := by
  obtain ⟨receptions, hexec, hpublished⟩ := hinv.published_eq
  obtain ⟨htook, hpublishes, hframes, hinputs⟩ := history_looked trace found
  cases found with
  | none =>
    obtain ⟨rfl, rfl⟩ : state = after ∧ [] = pending := by simpa [l2bridge] using hreceive
    refine ⟨htook ▸ hinv.counter, ?_, ⟨receptions, ?_, ?_⟩, hinv.acks⟩
    · rw [htook, hframes]
      exact hinv.frames_eq
    · rw [hinputs, List.reduceOption_append]
      simpa using hexec
    · rw [hpublishes]
      exact hpublished
  | some frame =>
    simp only [l2bridge, Option.bind_eq_bind, Option.bind_eq_some_iff, Prod.exists] at hreceive
    obtain ⟨receiver, reception, htaken, hresult⟩ := hreceive
    obtain ⟨rfl, rfl⟩ := Prod.mk.inj (Option.some.inj hresult)
    have hstep : (L2.receiverSystem link).exec state.receiver [frame] =
        some (receiver, [reception]) := by
      simp [TransitionSystem.exec, L2.receiverSystem, htaken]
    refine ⟨htook ▸ hinv.counter, ?_, ⟨receptions ++ [reception], ?_, ?_⟩, fun frame hmem ↦ ?_⟩
    · rw [htook, hframes]
      exact hinv.frames_eq
    · rw [hinputs, List.reduceOption_append]
      exact TransitionSystem.exec_append hexec hstep
    · rw [hpublishes, List.flatMap_append, published_append, hpublished]
      simp [published]
    · exact hinv.wellFormed.isAck_of_mem htaken hmem

/-- A frame is sent: it is an acknowledgement. -/
theorem L2History.send {trace : List (BridgeEvent (Option (List UInt8)))} {state : L2State}
    {frame : List UInt8} {rest : List Action}
    (hinv : L2History link trace (state, .send frame :: rest)) :
    L2History link (trace ++ [.wrote frame]) (state, rest) := by
  obtain ⟨arrivals, hbytes, hdelivers⟩ := hinv.frames_eq
  have hack : L2.IsAck frame := hinv.acks frame List.mem_cons_self
  obtain ⟨htook, hpublishes, hframes, hinputs⟩ := history_wrote trace frame
  refine ⟨htook ▸ hinv.counter, ⟨arrivals ++ [.noise frame], ?_, fun cfg ↦ ?_⟩, ?_,
    fun other hmem ↦ hinv.acks other (List.mem_cons_of_mem _ hmem)⟩
  · rw [hframes, List.map_append, hbytes]
    rfl
  · have hwhole := (hdelivers cfg).append (hack.delivers cfg)
    rwa [List.append_nil, ← htook] at hwhole
  · rw [hinputs, hpublishes]
    exact hinv.published_eq

/-- A message is published. -/
theorem L2History.publish {trace : List (BridgeEvent (Option (List UInt8)))} {state : L2State}
    {message : List UInt8} {rest : List Action}
    (hinv : L2History link trace (state, .publish message :: rest)) :
    L2History link (trace ++ [.published message]) (state, rest) := by
  obtain ⟨receptions, hexec, hpublished⟩ := hinv.published_eq
  obtain ⟨htook, hpublishes, hframes, hinputs⟩ := history_published trace message
  refine ⟨htook ▸ hinv.counter, ?_, ⟨receptions, hinputs ▸ hexec, ?_⟩, hinv.acks⟩
  · rw [htook, hframes]
    exact hinv.frames_eq
  · rw [hpublished, hpublishes, List.append_assoc]
    rfl

/-- What an `l2bridge` has written and published, in every run. -/
theorem l2bridge_history {guard : Guard (L2State × List Action) (BridgeAction (Option (List UInt8)))
    (BridgeEvent (Option (List UInt8)))} {trace : List (BridgeEvent (Option (List UInt8)))}
    {state : L2State × List Action}
    (hrun : Run (bridgeSystem (l2bridge link) []) guard trace state) :
    L2History link trace state := by
  refine hrun.invariant (L2History link) (.init link) ?_
  intro trace state action state' events _ hinv _ hstep
  cases bridgeSystem_cases hstep with
  | take state message => exact hinv.take message
  | look hreceive => exact hinv.look hreceive
  | send state frame rest => exact hinv.send
  | publish state message rest => exact hinv.publish

end L2

/-! ### usbsim_bridge -/

section Usb

variable {cfg : Usb.Cfg} {slotBytes : ℕ}

/-- The frames on channel 0 among those written. -/
def dataFrames (written : List (List UInt8)) : List (List UInt8) :=
  written.filter fun frame ↦ frame[3]? = some 0

/-- The frames on channel 0 for a list of messages, numbered from 0 on. -/
def numbered (cfg : Usb.Cfg) (messages : List (List UInt8)) : List (List UInt8) :=
  messages.mapIdx fun i message ↦ Usb.writeFrame 0 cfg.ttl (UInt32.ofNat i) message

/-- The history of a `usbsim_bridge`. -/
structure UsbHistory (cfg : Usb.Cfg) (trace : List (BridgeEvent UsbInput))
    (state : UsbState × List Action) : Prop where
  counter : state.1.seqCtr = UInt32.ofNat (took trace).length
  frames_eq : dataFrames (frames trace) = numbered cfg (took trace)
  acks : ∀ frame ∈ sent state.2, frame[3]? = some 1

/-- A look at the endpoint leaves the counter alone and asks for acknowledgements only. -/
theorem usbsimBridge_receive {state after : UsbState} {input : UsbInput} {pending : List Action}
    (hreceive : (usbsimBridge cfg slotBytes).receive state input = some (after, pending)) :
    after.seqCtr = state.seqCtr ∧ ∀ frame ∈ sent pending, frame[3]? = some 1 := by
  simp only [usbsimBridge] at hreceive
  split at hreceive
  · split at hreceive
    · obtain ⟨rfl, rfl⟩ := Prod.mk.inj (Option.some.inj hreceive)
      refine ⟨rfl, fun frame hmem ↦ ?_⟩
      split at hmem
      all_goals
        obtain rfl : frame = _ := List.mem_singleton.mp hmem
        rfl
    · obtain ⟨rfl, rfl⟩ := Prod.mk.inj (Option.some.inj hreceive)
      exact ⟨rfl, fun _ hmem ↦ nomatch hmem⟩
  · split at hreceive
    · cases hreceive
    · obtain ⟨rfl, rfl⟩ := Prod.mk.inj (Option.some.inj hreceive)
      exact ⟨rfl, fun _ hmem ↦ nomatch hmem⟩
  · obtain ⟨rfl, rfl⟩ := Prod.mk.inj (Option.some.inj hreceive)
    exact ⟨rfl, fun _ hmem ↦ nomatch hmem⟩

/-- What a `usbsim_bridge` has written, in every run. -/
theorem usbsimBridge_history {guard : Guard (UsbState × List Action) (BridgeAction UsbInput)
    (BridgeEvent UsbInput)} {trace : List (BridgeEvent UsbInput)}
    {state : UsbState × List Action}
    (hrun : Run (bridgeSystem (usbsimBridge cfg slotBytes) []) guard trace state) :
    UsbHistory cfg trace state := by
  refine hrun.invariant (UsbHistory cfg) ⟨rfl, rfl, fun _ ↦ List.not_mem_nil.elim⟩ ?_
  intro trace state action state' events _ hinv _ hstep
  cases bridgeSystem_cases hstep with
  | take state message =>
    have hcounter : state.seqCtr = UInt32.ofNat (took trace).length := hinv.counter
    refine ⟨?_, ?_, hinv.acks⟩
    · rw [took_append, took_take, List.length_append, List.length_singleton, UInt32.ofNat_add,
        ← hcounter]
      rfl
    · rw [frames_append, frames_take, took_append, took_take, dataFrames, List.filter_append,
        ← dataFrames, hinv.frames_eq, numbered, numbered, List.mapIdx_concat, ← hcounter]
      rfl
  | @look state after input pending hreceive =>
    obtain ⟨hcounter, hacks⟩ := usbsimBridge_receive hreceive
    obtain ⟨htook, -, hframes, -⟩ := history_looked trace input
    exact ⟨htook ▸ hcounter.trans hinv.counter, htook ▸ hframes ▸ hinv.frames_eq, hacks⟩
  | send state frame rest =>
    have hack : frame[3]? = some 1 := hinv.acks frame List.mem_cons_self
    obtain ⟨htook, -, hframes, -⟩ := history_wrote trace frame
    refine ⟨htook ▸ hinv.counter, ?_, fun other hmem ↦
      hinv.acks other (List.mem_cons_of_mem _ hmem)⟩
    rw [htook, hframes, ← hinv.frames_eq]
    simp [dataFrames, hack]
  | publish state message rest =>
    obtain ⟨htook, -, hframes, -⟩ := history_published trace message
    exact ⟨htook ▸ hinv.counter, htook ▸ hframes ▸ hinv.frames_eq, hinv.acks⟩

end Usb

end AarnnNsys.Bridge
