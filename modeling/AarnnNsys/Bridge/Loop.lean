import AarnnNsys.Bridge.Device
import AarnnNsys.Bus.Progress
import AarnnNsys.L2.Reassembly
import AarnnNsys.Usb.Frame

/-!
# The loop of a bridge on a shared bus

`l2bridge` and `usbsimBridge` are the two bridges as devices. `loopSystem` composes the loop of one
device with the bus: the bridge is a single thread that subscribes, then drains at most one message,
looks at the link and does what it finds, over and over, and between any two of its operations the
other threads of the bus do theirs. The bridge owns producer thread, handle and reader thread 0, and
everybody else the others (`Foreign`).

The self test's probe on the bus is part of the loop's start, its probes on the wire are left out. A
process that ends takes no further step.
-/

set_option autoImplicit false
set_option relaxedAutoImplicit false

namespace AarnnNsys.Bridge

open Lib

/-! ### The two bridges -/

/-- What `l2bridge` keeps beside the bus: `msg_id_ctr` and the receiving half. -/
structure L2State where
  msgIdCtr : UInt16
  receiver : L2.Receiver

/-- `l2bridge` as a device. A look at the link finds at most one frame. -/
def l2bridge (link : L2.Link) : Device L2State (Option (List UInt8)) where
  needsSubscription := true
  init := ⟨1, .initial link.cfg⟩
  forward state message :=
    let (msgIdCtr, frames) := L2.forward link state.msgIdCtr message
    ({ state with msgIdCtr }, frames)
  receive state arrived :=
    match arrived with
    | none => some (state, [])
    | some frame => do
      let (receiver, reception) ← state.receiver.receive link frame
      return ({ state with receiver }, reception.actions)

/-- What `usbsim_bridge` keeps beside the bus: `seq_ctr`, `rx_buf` and what is unread in the
endpoint. -/
structure UsbState where
  seqCtr : UInt32
  rxBuf : List UInt8
  unread : List UInt8

/-- What a look at the endpoint finds: the bytes that have arrived since the last one, and whether a
read behind them reports a closed endpoint or only that there is no more. -/
structure UsbInput where
  arrived : List UInt8
  closed : Bool
  deriving DecidableEq

/-- `usbsim_bridge` as a device. A closed endpoint ends the process, a bus without a free subscriber
slot does not. -/
def usbsimBridge (cfg : Usb.Cfg) (slotBytes : ℕ) : Device UsbState UsbInput where
  needsSubscription := false
  init := ⟨0, [], []⟩
  forward state message :=
    ({ state with seqCtr := state.seqCtr + 1 },
      [Usb.writeFrame 0 cfg.ttl state.seqCtr message])
  receive state input :=
    let (result, rxBuf, unread) := Usb.readFrame cfg state.rxBuf (state.unread ++ input.arrived)
    let state := { state with rxBuf, unread }
    match result with
    | .ok (chan, rttl, _, n) =>
      if chan = 0 then
        let payload := rxBuf.take n
        some (state, (if n ≤ slotBytes then [.publish payload] else []) ++
          [.send (Usb.writeFrame 1 (L2.nextTtl rttl) 0xB0000000 payload)])
      else some (state, [])
    | .error .io => if input.closed then none else some (state, [])
    | .error _ => some (state, [])

/-! ### The loop -/

/-- Where the bridge's thread is in its loop. `acting` and `publishing` keep the actions still to be
done. -/
inductive Phase
  | subscribing
  | drain
  | receiving
  | look
  | acting (pending : List Action)
  | publishing (pending : List Action)

/-- The bus with all its threads, and the bridge. -/
structure LoopState (State : Type) where
  bus : Bus.State
  phase : Phase
  device : State

/-- A step of another thread of the bus, the next step of the bridge, or its look at the link. -/
inductive LoopAction (Input : Type)
  | other (action : Bus.Action)
  | own (spurious : Bool)
  | look (input : Input)

/-- An event of the bus, a frame written to the link, or what a look at the link found. -/
inductive LoopEvent (Input : Type)
  | bus (event : Bus.Event)
  | wrote (frame : List UInt8)
  | looked (input : Input)

/-- The actions of the bus that are not the bridge's own. -/
def Foreign : Bus.Action → Prop
  | .producer p _ => p ≠ 0
  | .subscriber h _ => h ≠ 0
  | .reader r (.tryRecv h _) => r ≠ 0 ∧ h ≠ 0
  | .reader r .next => r ≠ 0

instance : DecidablePred Foreign
  | .producer p _ => inferInstanceAs (Decidable (p ≠ 0))
  | .subscriber h _ => inferInstanceAs (Decidable (h ≠ 0))
  | .reader r (.tryRecv h _) => inferInstanceAs (Decidable (r ≠ 0 ∧ h ≠ 0))
  | .reader r .next => inferInstanceAs (Decidable (r ≠ 0))

/-- The next step of a subscribe call. -/
def nextAct : Bus.SubscriberPc → Bus.SubscriberAct
  | .unsubscribed => .subscribe
  | _ => .next

section Step

variable {State Input : Type}

/-- A step of the bus in the composed system. -/
def LoopState.busStep (g : Bus.Geometry) (s : LoopState State) (action : Bus.Action) :
    Option (LoopState State × List Bus.Event) :=
  (Bus.step g s.bus action).map fun result ↦ ({ s with bus := result.1 }, result.2)

/-- The next step of a bridge that uses the threads of number `t`, except for its look at the
link. -/
def threadStep (t : ℕ) (g : Bus.Geometry) (device : Device State Input) (startup : List Action)
    (spurious : Bool) (s : LoopState State) :
    Option (LoopState State × List (LoopEvent Input)) :=
  match s.phase with
  | .subscribing => do
    let (s, events) ← s.busStep g (.subscriber t (nextAct (s.bus.subscribers t)))
    match s.bus.subscribers t with
    | .ready _ => return ({ s with phase := .acting startup }, events.map .bus)
    | .rejected =>
      if device.needsSubscription then return (s, events.map .bus)
      else return ({ s with phase := .acting startup }, events.map .bus)
    | _ => return (s, events.map .bus)
  | .drain =>
    match s.bus.subscribers t with
    | .ready _ => do
      let (s, events) ← s.busStep g (.reader t (.tryRecv t g.slotBytes))
      return ({ s with phase := .receiving }, events.map .bus)
    | _ => some ({ s with phase := .look }, [])
  | .receiving => do
    let (s, events) ← s.busStep g (.reader t .next)
    if (s.bus.readers t).pc = .idle then
      match (Bus.received t events).head? with
      | some message =>
        let (state, frames) := device.forward s.device message
        return ({ s with phase := .look, device := state },
          events.map .bus ++ frames.map .wrote)
      | none => return ({ s with phase := .look }, events.map .bus)
    else return (s, events.map .bus)
  | .look => none
  | .acting [] => some ({ s with phase := .drain }, [])
  | .acting (.send frame :: rest) => some ({ s with phase := .acting rest }, [.wrote frame])
  | .acting (.publish message :: rest) => do
    let (s, events) ← s.busStep g (.producer t (.publish message))
    return ({ s with phase := .publishing rest }, events.map .bus)
  | .publishing rest =>
    if (s.bus.producers t).pc = .idle then some ({ s with phase := .acting rest }, [])
    else do
      let (s, events) ← s.busStep g (.producer t (.next spurious))
      return (s, events.map .bus)

/-- The next step of the bridge, which uses the threads of number 0, except for its look at the
link. -/
def ownStep (g : Bus.Geometry) (device : Device State Input) (startup : List Action)
    (spurious : Bool) (s : LoopState State) :
    Option (LoopState State × List (LoopEvent Input)) :=
  threadStep 0 g device startup spurious s

/-- One step of the bridge and the bus. -/
def loopStep (g : Bus.Geometry) (device : Device State Input) (startup : List Action)
    (s : LoopState State) : LoopAction Input → Option (LoopState State × List (LoopEvent Input))
  | .other action =>
    if Foreign action then
      (s.busStep g action).map fun result ↦ (result.1, result.2.map .bus)
    else none
  | .own spurious => ownStep g device startup spurious s
  | .look input =>
    match s.phase with
    | .look =>
      (device.receive s.device input).map fun result ↦
        ({ s with device := result.1, phase := .acting result.2 }, [.looked input])
    | _ => none

/-- A bridge on a fresh bus, with what it does before its loop. -/
def loopSystem (g : Bus.Geometry) (slab : ℕ → UInt8) (device : Device State Input)
    (startup : List Action) :
    TransitionSystem (LoopState State) (LoopAction Input) (LoopEvent Input) where
  init := ⟨Bus.State.init slab, .subscribing, device.init⟩
  step := loopStep g device startup

end Step

end AarnnNsys.Bridge
