import AarnnNsys.Lib.Transition
import AarnnNsys.Bus.Basic
import Mathlib.Logic.Function.Basic

/-!
# The bus one atomic operation at a time

`Producer::publish`, `Producer::try_publish`, `BusHandle::subscribe` and `Subscriber::try_recv` as
programs of single steps on the shared region: every atomic load, store, `fetch_add` and
compare-exchange, every payload byte and every descriptor access is one step, sequentially
consistent. A call in flight is a record with a program counter; `producerStep`, `subscriberStep`
and `readerStep` are its next step, and the `begin…` functions are the first step of a call, from
its arguments. A call that has no step has returned, or has panicked.

`busSystem` interleaves any number of such calls: producer threads, subscribe calls (the `h`-th
handle is the outcome of the `h`-th call) and reader threads, each reader call going through some
handle. The action of a producer step says whether a weak compare-exchange fails spuriously.
Events report what a call did or returned; no step reads them.
-/

set_option autoImplicit false
set_option relaxedAutoImplicit false

namespace AarnnNsys.Bus

/-! ### Producer calls -/

/-- Program counter of a `publish` or `try_publish` call: the operation it does next, with the local
variables it still needs. In `try_publish` the claim is the `tail` it loaded until the
compare-exchange reserves it. -/
inductive ProducerPc
  | idle
  | loadSubs (claim : ℕ)
  | loadWrite (claim n : ℕ)
  | scan (claim n i minRead : ℕ)
  | casClaim (claim : ℕ)
  | copy (claim k : ℕ)
  | storeDesc (claim : ℕ)
  | storeSeq (claim : ℕ)
  | advanceLoad
  | advanceSlot (w : ℕ)
  | advanceCas (w : ℕ)
  | panicked (claim : ℕ)
  deriving DecidableEq, Repr

/-- A producer thread: its current call, `publish` when `blocking` and `try_publish` otherwise. -/
structure Producer where
  blocking : Bool
  payload : Message
  pc : ProducerPc
  deriving DecidableEq

/-- What a producer call reports: its arguments, the sequence number it reserved, its commit store
and its result. -/
inductive ProducerEvent
  | called (payload : Message)
  | claimed (sequence : ℕ) (payload : Message)
  | committed (sequence : ℕ)
  | publishReturned (result : Except BusError Unit)
  | tryPublishReturned (result : Except BusError Bool)
  | panicked
  deriving DecidableEq

/-- A thread with no call. -/
def Producer.idle : Producer := ⟨false, [], .idle⟩

/-- The result of a call that has published its message. -/
def Producer.success (t : Producer) : ProducerEvent :=
  if t.blocking then .publishReturned (.ok ()) else .tryPublishReturned (.ok true)

/-- A thread whose call has returned. -/
def Producer.finish (t : Producer) : Producer := { t with pc := .idle }

/-- A thread at the next operation of its call. -/
def Producer.goto (t : Producer) (pc : ProducerPc) : Producer := { t with pc := pc }

@[simp] theorem Producer.goto_pc (t : Producer) (pc : ProducerPc) : (t.goto pc).pc = pc := rfl

@[simp] theorem Producer.goto_payload (t : Producer) (pc : ProducerPc) :
    (t.goto pc).payload = t.payload := rfl

@[simp] theorem Producer.goto_blocking (t : Producer) (pc : ProducerPc) :
    (t.goto pc).blocking = t.blocking := rfl

@[simp] theorem Producer.finish_pc (t : Producer) : t.finish.pc = .idle := rfl

/-- `publish`: the size check and the `fetch_add` on `claim_seq`. -/
def beginPublish (g : Geometry) (m : Mem) (payload : Message) :
    Mem × Producer × List ProducerEvent :=
  if payload.isEmpty || g.slotBytes < payload.length then
    (m, ⟨true, payload, .idle⟩, [.called payload, .publishReturned (.error .msgTooLarge)])
  else
    ({ m with claimSeq := m.claimSeq + 1 }, ⟨true, payload, .loadSubs m.claimSeq⟩,
      [.called payload, .claimed m.claimSeq payload])

/-- `try_publish`: the size check and the load of `claim_seq` into `tail`. -/
def beginTryPublish (g : Geometry) (m : Mem) (payload : Message) :
    Mem × Producer × List ProducerEvent :=
  if payload.isEmpty || g.slotBytes < payload.length then
    (m, ⟨false, payload, .idle⟩, [.called payload, .tryPublishReturned (.error .msgTooLarge)])
  else
    (m, ⟨false, payload, .loadSubs m.claimSeq⟩, [.called payload])

/-- The next operation of a producer call. The compare-exchange on `claim_seq` is weak and may fail
spuriously; the one on `write_seq` is not. -/
def producerStep (g : Geometry) (spurious : Bool) (m : Mem) (t : Producer) :
    Option (Mem × Producer × List ProducerEvent) :=
  match t.pc with
  | .idle => none
  | .panicked _ => none
  | .loadSubs claim => some (m, t.goto (.loadWrite claim m.nSubs), [])
  | .loadWrite claim n => some (m, t.goto (.scan claim n 0 m.writeSeq), [])
  | .scan claim n i minRead =>
    if i < n then
      -- `sub_read_seq[i]` panics past the end of the array
      if i < maxSubscribers then
        let minRead' := if m.subReadSeq i < minRead then m.subReadSeq i else minRead
        some (m, t.goto (.scan claim n (i + 1) minRead'), [])
      else some (m, t.goto (.panicked claim), [.panicked])
    else if t.blocking then
      if claim < minRead + g.descCapacity then some (m, t.goto (.copy claim 0), [])
      else some (m, t.goto (.loadSubs claim), [])
    else if minRead + g.descCapacity ≤ claim then
      some (m, t.finish, [.tryPublishReturned (.ok false)])
    else some (m, t.goto (.casClaim claim), [])
  | .casClaim claim =>
    if m.claimSeq = claim ∧ spurious = false then
      some ({ m with claimSeq := claim + 1 }, t.goto (.copy claim 0), [.claimed claim t.payload])
    else some (m, t.finish, [.tryPublishReturned (.ok false)])
  | .copy claim k =>
    match t.payload[k]? with
    | some byte =>
      let address := g.payloadOffset (g.idx claim) k
      some ({ m with payload := Function.update m.payload address byte },
        t.goto (.copy claim (k + 1)), [])
    | none => some (m, t.goto (.storeDesc claim), [])
  | .storeDesc claim =>
    let len := t.payload.length % u32Size
    some ({ m with descLen := Function.update m.descLen (g.idx claim) len },
      t.goto (.storeSeq claim), [])
  | .storeSeq claim =>
    some ({ m with slotSeq := Function.update m.slotSeq (g.idx claim) (claim + 1) },
      t.goto .advanceLoad, [.committed claim])
  | .advanceLoad => some (m, t.goto (.advanceSlot m.writeSeq), [])
  | .advanceSlot w =>
    if m.slotSeq (g.idx w) = w + 1 then some (m, t.goto (.advanceCas w), [])
    else some (m, t.finish, [t.success])
  | .advanceCas w =>
    if m.writeSeq = w then some ({ m with writeSeq := w + 1 }, t.goto .advanceLoad, [])
    else some (m, t.goto .advanceLoad, [])

/-! ### Subscribe calls -/

/-- Program counter of a `subscribe` call, and the `Subscriber` it hands out. -/
inductive SubscriberPc
  | unsubscribed
  | loadStart (id : ℕ)
  | storeStart (id start : ℕ)
  | ready (id : ℕ)
  | rejected
  deriving DecidableEq, Repr

/-- What a `subscribe` call returns; a subscriber is reported with the read sequence it starts
from. -/
inductive SubscriberEvent
  | subscribed (id start : ℕ)
  | failed (error : BusError)
  deriving DecidableEq

/-- `subscribe`: the `fetch_add` on `n_subs` and the check against `MAX_SUBSCRIBERS`. -/
def beginSubscribe (m : Mem) : Mem × SubscriberPc × List SubscriberEvent :=
  let m' := { m with nSubs := (m.nSubs + 1) % u32Size }
  if maxSubscribers ≤ m.nSubs then (m', .rejected, [.failed .noSubscriberSlots])
  else (m', .loadStart m.nSubs, [])

/-- The next operation of a `subscribe` call. -/
def subscriberStep (m : Mem) (pc : SubscriberPc) :
    Option (Mem × SubscriberPc × List SubscriberEvent) :=
  match pc with
  | .loadStart id => some (m, .storeStart id m.writeSeq, [])
  | .storeStart id start =>
    some ({ m with subReadSeq := Function.update m.subReadSeq id start }, .ready id,
      [.subscribed id start])
  | _ => none

/-! ### Receive calls -/

/-- Program counter of a `try_recv` call, with the bytes copied to the output buffer so far. -/
inductive ReaderPc
  | idle
  | loadSeq (seq : ℕ)
  | loadLen (seq : ℕ)
  | copy (seq len : ℕ) (out : Message)
  | storeSeq (seq : ℕ) (out : Message)
  deriving DecidableEq, Repr

/-- A reader thread: the handle and `sub_id` its current `try_recv` goes through, the length of the
output buffer and the program counter. -/
structure Reader where
  handle : ℕ
  id : ℕ
  outLen : ℕ
  pc : ReaderPc
  deriving DecidableEq

/-- The result of a `try_recv` call; `Ok(Some(n))` is reported with the `n` bytes received. -/
inductive ReaderEvent
  | returned (result : Except BusError (Option Message))
  deriving DecidableEq

/-- A thread with no call. -/
def Reader.idle : Reader := ⟨0, 0, 0, .idle⟩

/-- A thread whose call has returned. -/
def Reader.finish (t : Reader) : Reader := { t with pc := .idle }

/-- A thread at the next operation of its call. -/
def Reader.goto (t : Reader) (pc : ReaderPc) : Reader := { t with pc := pc }

@[simp] theorem Reader.goto_pc (t : Reader) (pc : ReaderPc) : (t.goto pc).pc = pc := rfl

@[simp] theorem Reader.finish_pc (t : Reader) : t.finish.pc = .idle := rfl

@[simp] theorem Reader.finish_handle (t : Reader) : t.finish.handle = t.handle := rfl

/-- `try_recv`: the load of the cursor. -/
def beginTryRecv (m : Mem) (handle id outLen : ℕ) : Reader :=
  ⟨handle, id, outLen, .loadSeq (m.subReadSeq id)⟩

/-- The next operation of a `try_recv` call. -/
def readerStep (g : Geometry) (m : Mem) (t : Reader) : Option (Mem × Reader × List ReaderEvent) :=
  match t.pc with
  | .idle => none
  | .loadSeq seq =>
    if m.slotSeq (g.idx seq) = seq + 1 then some (m, t.goto (.loadLen seq), [])
    else some (m, t.finish, [.returned (.ok none)])
  | .loadLen seq =>
    if t.outLen < m.descLen (g.idx seq) then
      some (m, t.finish, [.returned (.error .msgTooLarge)])
    else some (m, t.goto (.copy seq (m.descLen (g.idx seq)) []), [])
  | .copy seq len out =>
    if out.length < len then
      let byte := m.payload (g.payloadOffset (g.idx seq) out.length)
      some (m, t.goto (.copy seq len (out ++ [byte])), [])
    else some (m, t.goto (.storeSeq seq out), [])
  | .storeSeq seq out =>
    some ({ m with subReadSeq := Function.update m.subReadSeq t.id (seq + 1) }, t.finish,
      [.returned (.ok (some out))])

/-! ### The interleaving of all calls -/

/-- What a producer thread does next: begin a call, or do the next operation of its call. -/
inductive ProducerAct
  | publish (payload : Message)
  | tryPublish (payload : Message)
  | next (spurious : Bool)
  deriving DecidableEq

/-- What happens next to a handle: its subscribe call begins, or does its next operation. -/
inductive SubscriberAct
  | subscribe
  | next
  deriving DecidableEq

/-- What a reader thread does next: begin a `try_recv` through a handle with an output buffer of
`outLen` bytes, or do the next operation of its call. -/
inductive ReaderAct
  | tryRecv (h outLen : ℕ)
  | next
  deriving DecidableEq

/-- A step of a producer thread. A call begins only when the thread has none in flight. -/
def producerAct (g : Geometry) (act : ProducerAct) (m : Mem) (t : Producer) :
    Option (Mem × Producer × List ProducerEvent) :=
  match act with
  | .publish payload => if t.pc = .idle then some (beginPublish g m payload) else none
  | .tryPublish payload => if t.pc = .idle then some (beginTryPublish g m payload) else none
  | .next spurious => producerStep g spurious m t

/-- A step of a subscribe call. Each handle is the outcome of one call. -/
def subscriberAct (act : SubscriberAct) (m : Mem) (pc : SubscriberPc) :
    Option (Mem × SubscriberPc × List SubscriberEvent) :=
  match act with
  | .subscribe => if pc = .unsubscribed then some (beginSubscribe m) else none
  | .next => subscriberStep m pc

/-- A step of a reader thread. A call begins only when the thread has none in flight, and only
through a handle that a subscribe call has returned. -/
def readerAct (g : Geometry) (act : ReaderAct) (handles : ℕ → SubscriberPc) (m : Mem)
    (t : Reader) : Option (Mem × Reader × List ReaderEvent) :=
  match act with
  | .tryRecv h outLen =>
    match handles h with
    | .ready id => if t.pc = .idle then some (m, beginTryRecv m h id outLen, []) else none
    | _ => none
  | .next => readerStep g m t

/-- The shared region and every thread. -/
structure State where
  mem : Mem
  producers : ℕ → Producer
  subscribers : ℕ → SubscriberPc
  readers : ℕ → Reader

/-- A step of one of the threads. -/
inductive Action
  | producer (p : ℕ) (act : ProducerAct)
  | subscriber (h : ℕ) (act : SubscriberAct)
  | reader (r : ℕ) (act : ReaderAct)
  deriving DecidableEq

/-- The events of a run, with the thread or handle they belong to. -/
inductive Event
  | producer (p : ℕ) (event : ProducerEvent)
  | subscriber (h : ℕ) (event : SubscriberEvent)
  | reader (h : ℕ) (event : ReaderEvent)
  deriving DecidableEq

/-- The state of a freshly initialised region with no thread inside it. -/
def State.init (slab : ℕ → UInt8) : State :=
  ⟨Mem.init slab, fun _ ↦ .idle, fun _ ↦ .unsubscribed, fun _ ↦ .idle⟩

/-- The state after a step of producer thread `p`. -/
def State.setProducer (s : State) (p : ℕ) (m : Mem) (t : Producer) : State :=
  { s with mem := m, producers := Function.update s.producers p t }

/-- The state after a step of subscribe call `h`. -/
def State.setSubscriber (s : State) (h : ℕ) (m : Mem) (pc : SubscriberPc) : State :=
  { s with mem := m, subscribers := Function.update s.subscribers h pc }

/-- The state after a step of reader thread `r`. -/
def State.setReader (s : State) (r : ℕ) (m : Mem) (t : Reader) : State :=
  { s with mem := m, readers := Function.update s.readers r t }

/-- One step of the bus. -/
def step (g : Geometry) (s : State) : Action → Option (State × List Event)
  | .producer p act =>
    (producerAct g act s.mem (s.producers p)).map fun outcome ↦
      (s.setProducer p outcome.1 outcome.2.1, outcome.2.2.map (.producer p))
  | .subscriber h act =>
    (subscriberAct act s.mem (s.subscribers h)).map fun outcome ↦
      (s.setSubscriber h outcome.1 outcome.2.1, outcome.2.2.map (.subscriber h))
  | .reader r act =>
    (readerAct g act s.subscribers s.mem (s.readers r)).map fun outcome ↦
      (s.setReader r outcome.1 outcome.2.1, outcome.2.2.map (.reader outcome.2.1.handle))

/-- The bus as a transition system, from a fresh region whose payload slab holds `slab`. -/
def busSystem (g : Geometry) (slab : ℕ → UInt8) : Lib.TransitionSystem State Action Event :=
  ⟨State.init slab, step g⟩

end AarnnNsys.Bus
