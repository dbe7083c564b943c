import AarnnNsys.Bus.Registration
import AarnnNsys.Bus.RelayLog
import Mathlib.Algebra.BigOperators.Group.Finset.Piecewise

/-!
# The programs that send and receive

The loops of the command line tool and of the examples around the bus. A producer program publishes
one payload over and over until its time is up, with `try_publish` and `publish` when that is
refused, or with `publish` alone, and counts what it has `sent`. A subscriber program calls
`recv_blocking`, which polls `try_recv` until its own time is up, and counts what it has `got`.
`programSystem` runs any number of them on one bus, one atomic operation at a time; what a program
reads off the clock is part of the action. A program panics when its call does, and a subscriber
program also when its `subscribe` is rejected, which it does not expect.

With at most `MAX_SUBSCRIBERS` subscribe calls no program panics (`not_panics`). `ProgramInv` keeps
their accounts, and `programs_add_up` reads them off when the producer programs are between two
calls: together they have counted the messages of the bus, each of them has counted
its own, and no subscriber program has counted more.
-/

set_option autoImplicit false
set_option relaxedAutoImplicit false

namespace AarnnNsys.Bus

open Function Lib

/-! ### The loops -/

/-- Where a producer program is: at the clock, in `try_publish`, refused and about to call
`publish`, in `publish`, past its loop, out of it with an error, or stopped by a panic. -/
inductive SenderPc
  | checking
  | trying
  | refused
  | publishing
  | done
  | failed (error : BusError)
  | panicked
  deriving DecidableEq

/-- A producer program, with the messages it has counted as sent. -/
structure Sender where
  pc : SenderPc
  sent : ℕ
  deriving DecidableEq

/-- Where a subscriber program is: about to call `try_recv` in `recv_blocking`, in `try_recv`, at
the clock of `recv_blocking` with nothing received, at its own clock, past its loop, out of it with
an error, or stopped by a panic. -/
inductive ListenerPc
  | polling
  | receiving
  | waiting
  | returned
  | done
  | failed (error : BusError)
  | panicked
  deriving DecidableEq

/-- A subscriber program, with the messages it has counted as received. -/
structure Listener where
  pc : ListenerPc
  got : ℕ
  deriving DecidableEq

/-- What the programs are started with: the payload of each producer program and whether it calls
`try_publish` first, and the length of the subscriber programs' buffers. -/
structure Workload where
  payload : ℕ → Message
  tries : ℕ → Bool
  outLen : ℕ

/-- The result of a `try_publish` call that an event reports. -/
def Event.tryPublishResult? : Event → Option (Except BusError Bool)
  | .producer _ (.tryPublishReturned result) => some result
  | _ => none

/-- A call of these events panics: a capacity check looks past the entries of `sub_read_seq`, or a
subscribe call is rejected and the program does not expect it. -/
def Panics (events : List Event) : Prop := ∃ event ∈ events, event.IsFailure

instance : DecidablePred Panics := fun events ↦ by
  unfold Panics
  infer_instance

/-- A producer program stops if its call panics, and else goes on. -/
def Sender.after (t : Sender) (events : List Event) (next : Sender) : Sender :=
  if Panics events then { t with pc := .panicked } else next

/-- What a producer program does once `try_publish` has returned. -/
def Sender.afterTry (t : Sender) : Option (Except BusError Bool) → Sender
  | none => { t with pc := .trying }
  | some (.ok true) => ⟨.checking, t.sent + 1⟩
  | some (.ok false) => { t with pc := .refused }
  | some (.error error) => { t with pc := .failed error }

/-- What a producer program does once `publish` has returned. -/
def Sender.afterPublish (t : Sender) : Option (Except BusError Unit) → Sender
  | none => { t with pc := .publishing }
  | some (.ok ()) => ⟨.checking, t.sent + 1⟩
  | some (.error error) => { t with pc := .failed error }

/-- What `recv_blocking`, and the subscriber program around it, does once `try_recv` has returned:
the program goes on when `recv_blocking` reports `NotReady`. -/
def Listener.afterReceive (t : Listener) : Option (Except BusError (Option Message)) → Listener
  | none => { t with pc := .receiving }
  | some (.ok (some _)) => ⟨.returned, t.got + 1⟩
  | some (.ok none) => { t with pc := .waiting }
  | some (.error .notReady) => { t with pc := .returned }
  | some (.error error) => { t with pc := .failed error }

/-- The bus and the programs: producer program `p` is the bus's producer `p`, and subscriber program
`h` is the thread of handle `h`. -/
structure ProgramState where
  bus : State
  senders : ℕ → Sender
  listeners : ℕ → Listener

/-- A step of a subscribe call, or of a program. `late` is what the program reads off the clock, if
it looks there. -/
inductive ProgramAction
  | join (h : ℕ) (act : SubscriberAct)
  | send (p : ℕ) (late spurious : Bool)
  | receive (h : ℕ) (late : Bool)
  deriving DecidableEq

/-- The state after a step of producer program `p`. -/
def ProgramState.setSender (s : ProgramState) (p : ℕ) (bus : State) (t : Sender) : ProgramState :=
  { s with bus, senders := update s.senders p t }

/-- The state after a step of subscriber program `h`. -/
def ProgramState.setListener (s : ProgramState) (h : ℕ) (bus : State) (t : Listener) :
    ProgramState :=
  { s with bus, listeners := update s.listeners h t }

/-- The state after a step of the subscribe call of program `h`. -/
def ProgramState.joined (s : ProgramState) (h : ℕ) (bus : State) (events : List Event) :
    ProgramState :=
  if Panics events then s.setListener h bus { s.listeners h with pc := .panicked }
  else { s with bus }

/-- A step of `try_publish`, and what the program does with its result. -/
def tryCall (g : Geometry) (s : ProgramState) (p : ℕ) (act : ProducerAct) :
    Option (ProgramState × List Event) :=
  (step g s.bus (.producer p act)).map fun (bus, events) ↦
    let t := s.senders p
    let next := t.afterTry (events.findSome? Event.tryPublishResult?)
    (s.setSender p bus (t.after events next), events)

/-- A step of `publish`, and what the program does with its result. -/
def publishCall (g : Geometry) (s : ProgramState) (p : ℕ) (act : ProducerAct) :
    Option (ProgramState × List Event) :=
  (step g s.bus (.producer p act)).map fun (bus, events) ↦
    let t := s.senders p
    let next := t.afterPublish (events.findSome? Event.publishResult?)
    (s.setSender p bus (t.after events next), events)

/-- A step of `try_recv`, and what the program does with its result. -/
def recvCall (g : Geometry) (s : ProgramState) (h : ℕ) (act : ReaderAct) :
    Option (ProgramState × List Event) :=
  (step g s.bus (.reader h act)).map fun (bus, events) ↦
    (s.setListener h bus ((s.listeners h).afterReceive (events.findSome? Event.recvResult?)),
      events)

/-- One step of the programs. -/
def programStep (g : Geometry) (w : Workload) (s : ProgramState) :
    ProgramAction → Option (ProgramState × List Event)
  | .join h act =>
    (step g s.bus (.subscriber h act)).map fun (bus, events) ↦ (s.joined h bus events, events)
  | .send p late spurious =>
    match (s.senders p).pc with
    | .checking =>
      if late then some (s.setSender p s.bus { s.senders p with pc := .done }, [])
      else if w.tries p then tryCall g s p (.tryPublish (w.payload p))
      else publishCall g s p (.publish (w.payload p))
    | .trying => tryCall g s p (.next spurious)
    | .refused => publishCall g s p (.publish (w.payload p))
    | .publishing => publishCall g s p (.next false)
    | .done | .failed _ | .panicked => none
  | .receive h late =>
    match (s.listeners h).pc with
    | .polling => recvCall g s h (.tryRecv h w.outLen)
    | .receiving => recvCall g s h .next
    -- `recv_blocking` returns `NotReady`, or polls again
    | .waiting =>
      let pc := if late then .returned else .polling
      some (s.setListener h s.bus { s.listeners h with pc }, [])
    | .returned =>
      let pc := if late then .done else .polling
      some (s.setListener h s.bus { s.listeners h with pc }, [])
    | .done | .failed _ | .panicked => none

/-- The programs on a fresh bus. -/
def programSystem (g : Geometry) (w : Workload) (slab : ℕ → UInt8) :
    TransitionSystem ProgramState ProgramAction Event :=
  ⟨⟨State.init slab, fun _ ↦ ⟨.checking, 0⟩, fun _ ↦ ⟨.polling, 0⟩⟩, programStep g w⟩

/-- The steps of the programs. -/
inductive ProgramStep (g : Geometry) (w : Workload) (s : ProgramState) :
    ProgramAction → ProgramState → List Event → Prop
  | join {h : ℕ} {act : SubscriberAct} {bus : State} {events : List Event}
      (hbus : step g s.bus (.subscriber h act) = some (bus, events)) :
      ProgramStep g w s (.join h act) (s.joined h bus events) events
  | stop {p : ℕ} {spurious : Bool} (hpc : (s.senders p).pc = .checking) :
      ProgramStep g w s (.send p true spurious)
        (s.setSender p s.bus { s.senders p with pc := .done }) []
  | tries {p : ℕ} {late spurious : Bool} {act : ProducerAct} {bus : State} {events : List Event}
      (hact : (s.senders p).pc = .checking ∧ act = .tryPublish (w.payload p) ∨
        (s.senders p).pc = .trying ∧ act = .next spurious)
      (hbus : step g s.bus (.producer p act) = some (bus, events)) :
      ProgramStep g w s (.send p late spurious) (s.setSender p bus ((s.senders p).after events
        ((s.senders p).afterTry (events.findSome? Event.tryPublishResult?)))) events
  | publishes {p : ℕ} {late spurious : Bool} {act : ProducerAct} {bus : State}
      {events : List Event} (hact : ((s.senders p).pc = .checking ∨ (s.senders p).pc = .refused) ∧
        act = .publish (w.payload p) ∨ (s.senders p).pc = .publishing ∧ act = .next false)
      (hbus : step g s.bus (.producer p act) = some (bus, events)) :
      ProgramStep g w s (.send p late spurious) (s.setSender p bus ((s.senders p).after events
        ((s.senders p).afterPublish (events.findSome? Event.publishResult?)))) events
  | receives {h : ℕ} {late : Bool} {act : ReaderAct} {bus : State} {events : List Event}
      (hact : (s.listeners h).pc = .polling ∧ act = .tryRecv h w.outLen ∨
        (s.listeners h).pc = .receiving ∧ act = .next)
      (hbus : step g s.bus (.reader h act) = some (bus, events)) :
      ProgramStep g w s (.receive h late) (s.setListener h bus
        ((s.listeners h).afterReceive (events.findSome? Event.recvResult?))) events
  | looks {h : ℕ} {late : Bool} {pc : ListenerPc}
      (hpc : (s.listeners h).pc = .waiting ∨ (s.listeners h).pc = .returned)
      (hnext : pc = .polling ∨ pc = .returned ∨ pc = .done) :
      ProgramStep g w s (.receive h late) (s.setListener h s.bus { s.listeners h with pc }) []

/-- The programs do nothing but the steps of `ProgramStep`. -/
theorem programStep_cases {g : Geometry} {w : Workload} {s s' : ProgramState}
    {action : ProgramAction} {events : List Event}
    (hstep : programStep g w s action = some (s', events)) :
    ProgramStep g w s action s' events := by
  cases action with
  | join h act =>
    simp only [programStep, Option.map_eq_some_iff, Prod.mk.injEq, Prod.exists] at hstep
    obtain ⟨bus, reported, hbus, rfl, rfl⟩ := hstep
    exact .join hbus
  | send p late spurious =>
    simp only [programStep, tryCall, publishCall] at hstep
    split at hstep
    · split_ifs at hstep with hlate htries
      · cases hstep
        subst hlate
        exact .stop ‹_›
      · simp only [Option.map_eq_some_iff, Prod.mk.injEq, Prod.exists] at hstep
        obtain ⟨bus, reported, hbus, rfl, rfl⟩ := hstep
        exact .tries (.inl ⟨‹_›, rfl⟩) hbus
      · simp only [Option.map_eq_some_iff, Prod.mk.injEq, Prod.exists] at hstep
        obtain ⟨bus, reported, hbus, rfl, rfl⟩ := hstep
        exact .publishes (.inl ⟨.inl ‹_›, rfl⟩) hbus
    · simp only [Option.map_eq_some_iff, Prod.mk.injEq, Prod.exists] at hstep
      obtain ⟨bus, reported, hbus, rfl, rfl⟩ := hstep
      exact .tries (.inr ⟨‹_›, rfl⟩) hbus
    · simp only [Option.map_eq_some_iff, Prod.mk.injEq, Prod.exists] at hstep
      obtain ⟨bus, reported, hbus, rfl, rfl⟩ := hstep
      exact .publishes (.inl ⟨.inr ‹_›, rfl⟩) hbus
    · simp only [Option.map_eq_some_iff, Prod.mk.injEq, Prod.exists] at hstep
      obtain ⟨bus, reported, hbus, rfl, rfl⟩ := hstep
      exact .publishes (.inr ⟨‹_›, rfl⟩) hbus
    · cases hstep
    · cases hstep
    · cases hstep
  | receive h late =>
    simp only [programStep, recvCall] at hstep
    split at hstep
    · simp only [Option.map_eq_some_iff, Prod.mk.injEq, Prod.exists] at hstep
      obtain ⟨bus, reported, hbus, rfl, rfl⟩ := hstep
      exact .receives (.inl ⟨‹_›, rfl⟩) hbus
    · simp only [Option.map_eq_some_iff, Prod.mk.injEq, Prod.exists] at hstep
      obtain ⟨bus, reported, hbus, rfl, rfl⟩ := hstep
      exact .receives (.inr ⟨‹_›, rfl⟩) hbus
    · cases hstep
      exact .looks (.inl ‹_›) (by split_ifs <;> simp)
    · cases hstep
      exact .looks (.inr ‹_›) (by split_ifs <;> simp)
    · cases hstep
    · cases hstep
    · cases hstep

/-! ### What a call adds -/

/-- The messages that a call in flight has claimed a number for. -/
def Producer.claimed (t : Producer) : ℕ :=
  match t.pc with
  | .idle | .casClaim _ => 0
  | .loadSubs _ | .loadWrite _ _ | .scan _ _ _ _ | .panicked _ => if t.blocking then 1 else 0
  | _ => 1

/-- A `publish` call in flight has claimed its number. -/
theorem Producer.Publishing.claimed_eq {t : Producer} (hpublishing : t.Publishing) :
    t.claimed = 1 := by
  obtain ⟨hblocking, hactive, hreserved⟩ := hpublishing
  unfold Producer.claimed
  split <;> simp_all

/-- A step of `try_publish`: it claims at most one number, and returns `Ok(true)` when it has one
and `Ok(false)` when it has none. -/
theorem ProducerStep.tries {g : Geometry} {m m' : Mem} {t t' : Producer} {b : Bool}
    {events : List ProducerEvent} (hstep : ProducerStep g m t (.next b) m' t' events)
    (hblocking : t.blocking = false) (p : ℕ) :
    ∃ n, claimsBy p (events.map (.producer p)) = List.replicate n t.payload ∧
      ((events.map (Event.producer p)).findSome? Event.tryPublishResult? = none ∧
          t'.pc ≠ .idle ∧ t'.blocking = false ∧ t'.claimed = t.claimed + n ∨
        (events.map (Event.producer p)).findSome? Event.tryPublishResult? = some (.ok true) ∧
          t'.pc = .idle ∧ t.claimed + n = 1 ∨
        (events.map (Event.producer p)).findSome? Event.tryPublishResult? = some (.ok false) ∧
          t'.pc = .idle ∧ t.claimed + n = 0) := by
  cases hstep with
  | claim b claim hpc heq =>
    refine ⟨1, ?_, .inl ⟨rfl, by simp, hblocking, by simp [Producer.claimed, hpc]⟩⟩
    simp [claimsBy, claims, Event.claim?]
  | advanceStop b w hpc huncommitted =>
    refine ⟨0, ?_, .inr (.inl ⟨?_, rfl, by simp [Producer.claimed, hpc]⟩)⟩
    · simp [claimsBy, claims, Event.claim?, Producer.success, hblocking]
    · simp [Producer.success, hblocking, Event.tryPublishResult?]
  | refuse b claim n i minRead hpc =>
    exact ⟨0, rfl, .inr (.inr ⟨rfl, rfl, by simp [Producer.claimed, hpc, hblocking]⟩)⟩
  | claimLost b claim hpc =>
    exact ⟨0, rfl, .inr (.inr ⟨rfl, rfl, by simp [Producer.claimed, hpc]⟩)⟩
  | pass b claim n i minRead hpc hi htry | retry b claim n i minRead hpc hi htry =>
    exact absurd (htry.symm.trans hblocking) (by decide)
  | _ =>
    exact ⟨0, rfl, .inl ⟨rfl, by simp, hblocking, by simp [Producer.claimed, *]⟩⟩

/-- A `try_publish` call with a message that passes the size check begins. -/
theorem ProducerStep.tryPublish_begins {g : Geometry} {m m' : Mem} {t t' : Producer}
    {message : Message} {events : List ProducerEvent}
    (hstep : ProducerStep g m t (.tryPublish message) m' t' events) (hne : message ≠ [])
    (hsize : message.length ≤ g.slotBytes) (p : ℕ) :
    claimsBy p (events.map (.producer p)) = [] ∧ t'.pc ≠ .idle ∧ t'.blocking = false ∧
      t'.payload = message ∧ t'.claimed = 0 ∧
      (events.map (Event.producer p)).findSome? Event.tryPublishResult? = none := by
  cases hstep with
  | tryPublishRejected payload hpc hrejected =>
    rcases hrejected with hempty | hlarge
    · exact absurd hempty hne
    · omega
  | tryPublish payload hpc => exact ⟨rfl, by simp, rfl, rfl, rfl, rfl⟩

/-- A `publish` call has the payload it was called with. -/
theorem ProducerStep.publish_payload {g : Geometry} {m m' : Mem} {t t' : Producer}
    {message : Message} {events : List ProducerEvent}
    (hstep : ProducerStep g m t (.publish message) m' t' events) : t'.payload = message := by
  cases hstep <;> rfl

/-- Others claim no number for a producer. -/
theorem BusStep.claimsBy_other {g : Geometry} {s s' : State} {action : Action}
    {events : List Event} (hstep : BusStep g s action s' events) {p : ℕ}
    (hother : ¬ ∃ act, action = .producer p act) : claimsBy p events = [] := by
  cases hstep with
  | @producer q act m t own hthread =>
    refine claimsBy_map_producer_of_ne ?_ own
    rintro rfl
    exact hother ⟨act, rfl⟩
  | subscriber hthread | reader hthread => simp [claimsBy]

/-- Others receive nothing through a handle. -/
theorem BusStep.received_other {g : Geometry} {s s' : State} {action : Action}
    {events : List Event} (hstep : BusStep g s action s' events) (hhandles : HandlesInv s) {h : ℕ}
    (hother : ¬ ∃ act, action = .reader h act) : received h events = [] := by
  cases hstep with
  | producer hthread | subscriber hthread => simp
  | @reader r act m t own hthread =>
    have hr : r ≠ h := by
      rintro rfl
      exact hother ⟨act, rfl⟩
    cases hthread with
    | storeSeq seq out hpc =>
      have hhandle := hhandles.handle_eq r (by simp [hpc])
      simp [received, Event.received?, hhandle, hr]
    | _ => simp [received, Event.received?]

/-! ### The accounts -/

/-- The thread of a producer program, as its place in the loop says. It has met no error and no
panic. -/
def SenderPc.Thread (payload : Message) (producer : Producer) : SenderPc → Prop
  | .trying => producer.pc ≠ .idle ∧ producer.blocking = false ∧ producer.payload = payload
  | .publishing => producer.Publishing ∧ producer.payload = payload
  | .failed _ | .panicked => False
  | .checking | .refused | .done => producer.pc = .idle

/-- The thread of a subscriber program, as its place in the loop says. It has met no error and no
panic. -/
def ListenerPc.Thread (outLen : ℕ) (reader : Reader) : ListenerPc → Prop
  | .receiving => reader.pc ≠ .idle ∧ reader.outLen = outLen
  | .failed _ | .panicked => False
  | .polling | .waiting | .returned | .done => reader.pc = .idle

theorem SenderPc.Thread.running {payload : Message} {producer : Producer} {pc : SenderPc}
    (hthread : pc.Thread payload producer) : pc ≠ .panicked ∧ ∀ error, pc ≠ .failed error := by
  constructor
  · rintro rfl
    exact hthread
  · rintro error rfl
    exact hthread

theorem ListenerPc.Thread.running {outLen : ℕ} {reader : Reader} {pc : ListenerPc}
    (hthread : pc.Thread outLen reader) : pc ≠ .panicked ∧ ∀ error, pc ≠ .failed error := by
  constructor
  · rintro rfl
    exact hthread
  · rintro error rfl
    exact hthread

/-- The account of a producer program: what it has claimed are the messages it has counted, and the
one it is about to count. -/
structure SenderInv (payload : Message) (mine : List Message) (t : Sender) (producer : Producer) :
    Prop where
  thread : t.pc.Thread payload producer
  account : mine = List.replicate (t.sent + producer.claimed) payload

/-- The account of a subscriber program. -/
structure ListenerInv (outLen : ℕ) (mine : List Message) (t : Listener) (reader : Reader) :
    Prop where
  thread : t.pc.Thread outLen reader
  account : mine.length = t.got

/-- The accounts of all programs. -/
structure ProgramInv (w : Workload) (trace : List Event) (s : ProgramState) : Prop where
  senders : ∀ p, SenderInv (w.payload p) (claimsBy p trace) (s.senders p) (s.bus.producers p)
  listeners : ∀ h, ListenerInv w.outLen (received h trace) (s.listeners h) (s.bus.readers h)

/-- A producer between two calls has claimed nothing that it has not counted. -/
theorem Producer.claimed_idle {t : Producer} (hidle : t.pc = .idle) : t.claimed = 0 := by
  rw [Producer.claimed, hidle]

namespace SenderInv

variable {g : Geometry} {payload : Message} {mine : List Message} {t : Sender}
  {m m' : Mem} {producer producer' : Producer} {act : ProducerAct} {events : List ProducerEvent}

/-- A step of `try_publish` keeps the account. -/
theorem try_step (hinv : SenderInv payload mine t producer) (hne : payload ≠ [])
    (hsize : payload.length ≤ g.slotBytes) {spurious : Bool}
    (hact : t.pc = .checking ∧ act = .tryPublish payload ∨ t.pc = .trying ∧ act = .next spurious)
    (hstep : ProducerStep g m producer act m' producer' events) (p : ℕ) :
    SenderInv payload (mine ++ claimsBy p (events.map (.producer p)))
      (t.afterTry ((events.map (Event.producer p)).findSome? Event.tryPublishResult?))
      producer' := by
  obtain ⟨hthread, haccount⟩ := hinv
  rcases hact with ⟨hpc, rfl⟩ | ⟨hpc, rfl⟩ <;> rw [hpc] at hthread
  · obtain ⟨hclaims, hactive, hblocking, hpayload, hclaimed, hnone⟩ :=
      hstep.tryPublish_begins hne hsize p
    rw [hnone, hclaims, List.append_nil]
    refine ⟨⟨hactive, hblocking, hpayload⟩, ?_⟩
    rw [haccount, hclaimed, Producer.claimed_idle hthread]
    rfl
  · obtain ⟨hactive, hblocking, rfl⟩ := hthread
    obtain ⟨n, hclaims, ⟨hnone, hgoes, hstill, hclaimed⟩ | ⟨htrue, hidle, hclaimed⟩ |
      ⟨hfalse, hidle, hclaimed⟩⟩ := hstep.tries hblocking p
    · rw [hnone, hclaims, haccount, List.replicate_append_replicate]
      exact ⟨⟨hgoes, hstill, hstep.payload_eq hactive⟩, by rw [hclaimed, Nat.add_assoc]; rfl⟩
    · rw [htrue, hclaims, haccount, List.replicate_append_replicate]
      refine ⟨hidle, ?_⟩
      rw [Producer.claimed_idle hidle, Nat.add_assoc, hclaimed]
      rfl
    · rw [hfalse, hclaims, haccount, List.replicate_append_replicate]
      refine ⟨hidle, ?_⟩
      rw [Producer.claimed_idle hidle, Nat.add_assoc, hclaimed]
      rfl

/-- A step of `publish` keeps the account. -/
theorem publish_step (hinv : SenderInv payload mine t producer) (hne : payload ≠ [])
    (hsize : payload.length ≤ g.slotBytes)
    (hact : (t.pc = .checking ∨ t.pc = .refused) ∧ act = .publish payload ∨
      t.pc = .publishing ∧ act = .next false)
    (hstep : ProducerStep g m producer act m' producer' events) (p : ℕ) :
    SenderInv payload (mine ++ claimsBy p (events.map (.producer p)))
      (t.afterPublish ((events.map (Event.producer p)).findSome? Event.publishResult?))
      producer' := by
  obtain ⟨hthread, haccount⟩ := hinv
  rcases hact with ⟨hpc, rfl⟩ | ⟨hpc, rfl⟩
  · have hidle : producer.pc = .idle := by
      rcases hpc with hpc | hpc <;> rwa [hpc] at hthread
    obtain ⟨hclaims, hpublishing, hnone⟩ := hstep.publish_claims hne hsize p
    rw [hnone, hclaims, haccount, Producer.claimed_idle hidle]
    refine ⟨⟨hpublishing, hstep.publish_payload⟩, ?_⟩
    rw [hpublishing.claimed_eq]
    exact List.replicate_append_replicate (n := t.sent) (m := 1)
  · rw [hpc] at hthread
    obtain ⟨hpublishing, hpayload⟩ := hthread
    rw [hpublishing.claimed_eq] at haccount
    obtain ⟨hclaims, ⟨hstill, hnone⟩ | ⟨hidle, hsome⟩⟩ := hstep.publishing hpublishing p
    · rw [hnone, hclaims, List.append_nil]
      exact ⟨⟨hstill, (hstep.payload_eq hpublishing.active).trans hpayload⟩,
        by rw [haccount, hstill.claimed_eq]; rfl⟩
    · rw [hsome, hclaims, List.append_nil]
      exact ⟨hidle, by rw [haccount, Producer.claimed_idle hidle]; rfl⟩

end SenderInv

/-- A step of `try_recv` keeps the account of a subscriber program. Assumes: it goes through the
program's handle, and the message fits the buffer. -/
theorem ListenerInv.receive_step {g : Geometry} {outLen : ℕ} {mine : List Message} {t : Listener}
    {handles : ℕ → SubscriberPc} {m m' : Mem} {reader reader' : Reader} {act : ReaderAct}
    {events : List ReaderEvent} (hinv : ListenerInv outLen mine t reader) {h : ℕ}
    (hhandle : reader.pc ≠ .idle → reader.handle = h)
    (hfits : ∀ seq, reader.pc = .loadLen seq → m.descLen (g.idx seq) ≤ outLen)
    (hact : t.pc = .polling ∧ act = .tryRecv h outLen ∨ t.pc = .receiving ∧ act = .next)
    (hstep : ReaderStep g handles m reader act m' reader' events) :
    ListenerInv outLen (mine ++ received h (events.map (.reader reader'.handle)))
      (t.afterReceive ((events.map (Event.reader reader'.handle)).findSome? Event.recvResult?))
      reader' := by
  obtain ⟨hthread, haccount⟩ := hinv
  rcases hact with ⟨hpc, rfl⟩ | ⟨hpc, rfl⟩ <;> rw [hpc] at hthread
  · cases hstep with
    | tryRecv h' id outLen' hidle hready =>
      refine ⟨⟨by simp, rfl⟩, ?_⟩
      simpa [received, Listener.afterReceive] using haccount
  · obtain ⟨hactive, houtLen⟩ := hthread
    cases hstep with
    | loadSeq seq hseq | loadLen seq hseq | copyByte seq len out hseq
    | copyDone seq len out hseq =>
      refine ⟨⟨by simp, houtLen⟩, ?_⟩
      simpa [received, Listener.afterReceive] using haccount
    | empty seq hseq =>
      have hnone : received h ([ReaderEvent.returned (.ok none)].map
          (Event.reader reader.finish.handle)) = [] := rfl
      rw [hnone, List.append_nil]
      exact ⟨rfl, haccount⟩
    | tooLarge seq hseq hlt =>
      have hle := hfits seq hseq
      omega
    | storeSeq seq out hseq =>
      refine ⟨rfl, ?_⟩
      simpa [received, Event.received?, hhandle hactive, Listener.afterReceive, Event.recvResult?]
        using haccount

/-- How the bus of the programs may be used: at most `MAX_SUBSCRIBERS` subscribe calls, between
complete calls of producers. -/
def ProgramUse (s : ProgramState) : ProgramAction → Prop
  | .join h act => BusUse s.bus (.subscriber h act) ∧ FindsEntry s.bus (.subscriber h act)
  | _ => True

section Run

variable {g : Geometry} {w : Workload} {slab : ℕ → UInt8} {trace : List Event} {s : ProgramState}

@[simp] theorem ProgramState.joined_bus (s : ProgramState) (h : ℕ) (bus : State)
    (events : List Event) : (s.joined h bus events).bus = bus := by
  unfold joined
  split <;> rfl

@[simp] theorem ProgramState.joined_senders (s : ProgramState) (h : ℕ) (bus : State)
    (events : List Event) : (s.joined h bus events).senders = s.senders := by
  unfold joined
  split <;> rfl

/-- Seen from the bus, a run of the programs is a run of the bus. -/
theorem run_programBus
    (hrun : Run (programSystem g w slab) (fun _ s action ↦ ProgramUse s action) trace s) :
    Run (busSystem g slab) (fun _ s action ↦ BusUse s action ∧ FindsEntry s action) trace
      s.bus := by
  induction hrun with
  | start => exact .start
  | @next trace events s s' action hprevious hallowed hstep ih =>
    have hproducer : ∀ p act, BusUse s.bus (.producer p act) ∧ FindsEntry s.bus (.producer p act) :=
      fun _ _ ↦ ⟨⟨⟨trivial, trivial⟩, trivial⟩, trivial⟩
    cases programStep_cases hstep with
    | join hbus =>
      rw [ProgramState.joined_bus]
      exact ih.next hallowed hbus
    | stop | looks => rwa [List.append_nil]
    | tries hact hbus | publishes hact hbus => exact ih.next (hproducer _ _) hbus
    | @receives h late act bus events hact hbus =>
      have huse : BusUse s.bus (.reader h act) ∧ FindsEntry s.bus (.reader h act) := by
        rcases hact with ⟨-, rfl⟩ | ⟨-, rfl⟩
        · exact ⟨⟨⟨rfl, trivial⟩, trivial⟩, trivial⟩
        · exact ⟨⟨⟨trivial, trivial⟩, trivial⟩, trivial⟩
      exact ih.next huse hbus

/-- No call of the programs panics. -/
theorem not_panics {s' : ProgramState} {action : ProgramAction} {events : List Event}
    (hrun : Run (programSystem g w slab) (fun _ s action ↦ ProgramUse s action) trace s)
    (hallowed : ProgramUse s action) (hstep : programStep g w s action = some (s', events)) :
    ¬ Panics events := by
  rintro ⟨event, hmem, hfailure⟩
  have hregistered := registrationInv_run (fun _ _ _ hkept ↦ hkept.2)
    (run_programBus (hrun.next hallowed hstep))
  exact hregistered.no_failure event (List.mem_append_right _ hmem) hfailure

/-- The accounts hold in every run of programs whose payloads and buffers suit the bus. -/
theorem programInv_run (hslot : g.slotBytes < u32Size) (hne : ∀ p, w.payload p ≠ [])
    (hsize : ∀ p, (w.payload p).length ≤ g.slotBytes) (houtLen : g.slotBytes ≤ w.outLen)
    (hrun : Run (programSystem g w slab) (fun _ s action ↦ ProgramUse s action) trace s) :
    ProgramInv w trace s := by
  have hinit : ProgramInv w [] (programSystem g w slab).init :=
    ⟨fun p ↦ ⟨rfl, rfl⟩, fun h ↦ ⟨rfl, rfl⟩⟩
  refine hrun.invariant (ProgramInv w) hinit ?_
  intro trace s action s' events hprevious hinv hallowed hstep
  have hquiet := not_panics hprevious hallowed hstep
  have hsafe := run_safe hslot
    ((run_programBus hprevious).strengthen fun _ hkept _ ↦ hkept.1)
  have hhandles := handlesInv_run (fun _ _ _ hkept ↦ hkept.1) hsafe
  -- what a step of the bus leaves alone
  have hothers : ∀ {operation : Action} {bus : State},
      BusStep g s.bus operation bus events →
      (∀ p, (¬ ∃ act, operation = .producer p act) →
        SenderInv (w.payload p) (claimsBy p (trace ++ events)) (s.senders p) (bus.producers p)) ∧
      ∀ h, (¬ ∃ act, operation = .reader h act) →
        ListenerInv w.outLen (received h (trace ++ events)) (s.listeners h) (bus.readers h) := by
    intro operation bus hbus
    refine ⟨fun p hother ↦ ?_, fun h hother ↦ ?_⟩
    · rw [claimsBy_append, hbus.claimsBy_other hother, List.append_nil, hbus.producers_eq hother]
      exact hinv.senders p
    · rw [received_append, hbus.received_other hhandles hother, List.append_nil,
        hbus.readers_eq hother]
      exact hinv.listeners h
  cases programStep_cases hstep with
  | join hbus =>
    obtain ⟨hsenders, hlisteners⟩ := hothers (step_cases hbus)
    rw [ProgramState.joined, if_neg hquiet]
    exact ⟨fun p ↦ hsenders p (by simp), fun h ↦ hlisteners h (by simp)⟩
  | @stop p spurious hpc =>
    rw [List.append_nil]
    refine ⟨fun q ↦ ?_, hinv.listeners⟩
    have hsender := hinv.senders q
    by_cases hq : q = p
    · subst hq
      have hthread := hsender.thread
      rw [hpc] at hthread
      simp only [ProgramState.setSender, update_self]
      exact ⟨hthread, hsender.account⟩
    · simpa only [ProgramState.setSender, update_of_ne hq] using hsender
  | @tries p late spurious act bus events hact hbus =>
    have hbus := step_cases hbus
    obtain ⟨hsenders, hlisteners⟩ := hothers hbus
    rw [Sender.after, if_neg hquiet]
    refine ⟨fun q ↦ ?_, fun h ↦ hlisteners h (by simp)⟩
    by_cases hq : q = p
    · subst hq
      cases hbus with
      | producer hthread =>
        simp only [ProgramState.setSender, State.setProducer, update_self, claimsBy_append]
        exact (hinv.senders q).try_step (hne q) (hsize q) hact hthread q
    · simp only [ProgramState.setSender, update_of_ne hq]
      exact hsenders q (by simp [Ne.symm hq])
  | @publishes p late spurious act bus events hact hbus =>
    have hbus := step_cases hbus
    obtain ⟨hsenders, hlisteners⟩ := hothers hbus
    rw [Sender.after, if_neg hquiet]
    refine ⟨fun q ↦ ?_, fun h ↦ hlisteners h (by simp)⟩
    by_cases hq : q = p
    · subst hq
      cases hbus with
      | producer hthread =>
        simp only [ProgramState.setSender, State.setProducer, update_self, claimsBy_append]
        exact (hinv.senders q).publish_step (hne q) (hsize q) hact hthread q
    · simp only [ProgramState.setSender, update_of_ne hq]
      exact hsenders q (by simp [Ne.symm hq])
  | @receives h late act bus events hact hbus =>
    have hbus := step_cases hbus
    obtain ⟨hsenders, hlisteners⟩ := hothers hbus
    refine ⟨fun p ↦ hsenders p (by simp), fun h' ↦ ?_⟩
    by_cases hh : h' = h
    · subst hh
      have hfits : ∀ seq, (s.bus.readers h').pc = .loadLen seq →
          s.bus.mem.descLen (g.idx seq) ≤ w.outLen := by
        intro seq hpc
        have hcursor := cursorInv_run (fun _ _ _ hkept ↦ hkept.1) (fun _ _ _ hkept ↦ hkept.2.1)
          hsafe
        obtain ⟨claim, -, hroom, -, hlen⟩ := reading_stored (commitInv_run hsafe)
          (payloadInv_run hsafe) hhandles hcursor (by rw [hpc]; rfl)
        rw [hlen]
        exact (Nat.mod_le _ _).trans (hroom.trans houtLen)
      cases hbus with
      | reader hthread =>
        simp only [ProgramState.setListener, State.setReader, update_self, received_append]
        exact (hinv.listeners h').receive_step (hhandles.handle_eq h') hfits hact hthread
    · simp only [ProgramState.setListener, update_of_ne hh]
      exact hlisteners h' (by simp [Ne.symm hh])
  | @looks h late pc hpc hnext =>
    rw [List.append_nil]
    refine ⟨hinv.senders, fun h' ↦ ?_⟩
    have hlistener := hinv.listeners h'
    by_cases hh : h' = h
    · subst hh
      have hidle : (s.bus.readers h').pc = .idle := by
        have hthread := hlistener.thread
        rcases hpc with hpc | hpc <;> rwa [hpc] at hthread
      simp only [ProgramState.setListener, update_self]
      refine ⟨?_, hlistener.account⟩
      rcases hnext with rfl | rfl | rfl <;> exact hidle
    · simpa only [ProgramState.setListener, update_of_ne hh] using hlistener

end Run

/-! ### The sums -/

/-- A producer program is between two calls. -/
def Sender.AtRest (t : Sender) : Prop := t.pc ≠ .trying ∧ t.pc ≠ .publishing

/-- What a producer program has claimed between two calls. -/
theorem SenderInv.at_rest {payload : Message} {mine : List Message} {t : Sender}
    {producer : Producer} (hinv : SenderInv payload mine t producer) (hrest : t.AtRest) :
    mine = List.replicate t.sent payload := by
  have hidle : producer.pc = .idle := by
    have hthread := hinv.thread
    obtain ⟨htrying, hpublishing⟩ := hrest
    cases hpc : t.pc with
    | checking | refused | done => rwa [hpc] at hthread
    | trying => exact absurd hpc htrying
    | publishing => exact absurd hpc hpublishing
    | failed | panicked =>
      rw [hpc] at hthread
      exact absurd hthread not_false
  rw [hinv.account, Producer.claimed_idle hidle, Nat.add_zero]

/-- A list is as long as its parts by a key are together. -/
theorem length_eq_sum_filter {α : Type*} (key : α → ℕ) {n : ℕ} (list : List α)
    (hkey : ∀ a ∈ list, key a < n) :
    list.length = ∑ p ∈ Finset.range n, (list.filter fun a ↦ key a = p).length := by
  induction list with
  | nil => simp
  | cons a rest ih =>
    have hpart : ∀ p, ((a :: rest).filter fun a ↦ key a = p).length =
        (if key a = p then 1 else 0) + (rest.filter fun a ↦ key a = p).length := by
      intro p
      by_cases hp : key a = p <;> simp [hp, Nat.add_comm]
    rw [Finset.sum_congr rfl fun p _ ↦ hpart p, Finset.sum_add_distrib, Finset.sum_ite_eq,
      if_pos (Finset.mem_range.mpr (hkey a List.mem_cons_self)),
      ← ih fun b hmem ↦ hkey b (List.mem_cons_of_mem a hmem), List.length_cons, Nat.add_comm]

/-- The counters of the programs add up. Assumes: payloads that pass the size check, buffers for a
whole slot, slots narrower than the length word, and at most `MAX_SUBSCRIBERS` subscribe calls,
between complete calls of producers. No program meets an error or panics, and a subscriber program
has counted the messages it has received. When the producer programs are between two calls, and
those from the `n`-th on have sent nothing: the messages of the bus are as many as the others have
counted together, no subscriber program has counted more, and of the messages of a program that is
alone with its payload it has received no more than the program has counted. -/
theorem programs_add_up (g : Geometry) (hslot : g.slotBytes < u32Size) (w : Workload)
    (hne : ∀ p, w.payload p ≠ []) (hsize : ∀ p, (w.payload p).length ≤ g.slotBytes)
    (houtLen : g.slotBytes ≤ w.outLen) (slab : ℕ → UInt8) (trace : List Event) (s : ProgramState)
    (hrun : Run (programSystem g w slab) (fun _ s action ↦ ProgramUse s action) trace s) :
    (∀ p, (s.senders p).pc ≠ .panicked ∧ ∀ error, (s.senders p).pc ≠ .failed error) ∧
    (∀ h, (s.listeners h).pc ≠ .panicked ∧ ∀ error, (s.listeners h).pc ≠ .failed error) ∧
    (∀ h, (s.listeners h).got = (received h trace).length) ∧
    ∀ n, (∀ p, (s.senders p).AtRest ∧ (n ≤ p → (s.senders p).sent = 0)) →
      (claims trace).length = ∑ p ∈ Finset.range n, (s.senders p).sent ∧
      ∀ h, (s.listeners h).got ≤ ∑ p ∈ Finset.range n, (s.senders p).sent ∧
        ∀ p, (∀ q, 0 < (s.senders q).sent → w.payload q = w.payload p → q = p) →
          (received h trace).count (w.payload p) ≤ (s.senders p).sent := by
  have hinv := programInv_run hslot hne hsize houtLen hrun
  refine ⟨fun p ↦ (hinv.senders p).thread.running, fun h ↦ (hinv.listeners h).thread.running,
    fun h ↦ (hinv.listeners h).account.symm, fun n hrest ↦ ?_⟩
  have hmine : ∀ p, claimsBy p trace = List.replicate (s.senders p).sent (w.payload p) :=
    fun p ↦ (hinv.senders p).at_rest (hrest p).1
  have hown : ∀ claim ∈ claims trace, 0 < (s.senders claim.producer).sent ∧
      claim.payload = w.payload claim.producer := by
    intro claim hmem
    have hclaim : claim.payload ∈ claimsBy claim.producer trace :=
      List.mem_map_of_mem (List.mem_filter.mpr ⟨hmem, by simp⟩)
    rw [hmine, List.mem_replicate] at hclaim
    exact ⟨Nat.pos_of_ne_zero hclaim.1, hclaim.2⟩
  have hlength : ∀ p, ((claims trace).filter fun claim ↦ claim.producer = p).length =
      (s.senders p).sent := by
    intro p
    rw [← List.length_map Claim.payload]
    exact (congrArg List.length (hmine p)).trans List.length_replicate
  have htotal : (claims trace).length = ∑ p ∈ Finset.range n, (s.senders p).sent := by
    rw [length_eq_sum_filter Claim.producer (claims trace) fun claim hmem ↦ ?_,
      Finset.sum_congr rfl fun p _ ↦ hlength p]
    by_contra hle
    have hnone := (hrest claim.producer).2 (not_lt.mp hle)
    have hsome := (hown claim hmem).1
    omega
  refine ⟨htotal, fun h ↦ ?_⟩
  have hstretch := received_stretch hslot
    ((run_programBus hrun).strengthen fun _ hkept _ ↦ hkept.1) h
  refine ⟨?_, fun p halone ↦ ?_⟩
  · rw [← (hinv.listeners h).account, ← htotal, ← List.length_map Claim.payload]
    exact hstretch.length_le
  · refine (hstretch.sublist.count_le (w.payload p)).trans ?_
    rw [← hlength p, List.count, List.countP_map, ← List.countP_eq_length_filter]
    refine List.countP_mono_left fun claim hmem hsame ↦ ?_
    obtain ⟨hsent, hpayload⟩ := hown claim hmem
    have hequal : claim.payload = w.payload p := by simpa using hsame
    exact decide_eq_true (halone _ hsent (hpayload.symm.trans hequal))

/-- A producer program stays as it is in the steps of others. -/
theorem programStep_senders {g : Geometry} {w : Workload} {s s' : ProgramState}
    {action : ProgramAction} {events : List Event}
    (hstep : programStep g w s action = some (s', events)) {p : ℕ}
    (hother : ∀ late spurious, action ≠ .send p late spurious) : s'.senders p = s.senders p := by
  cases programStep_cases hstep with
  | join hbus => rw [ProgramState.joined_senders]
  | receives hact hbus | looks hpc hnext => rfl
  | stop hpc | tries hact hbus | publishes hact hbus =>
    refine update_of_ne ?_ _ _
    rintro rfl
    exact hother _ _ rfl

/-- The steps of the programs that no use of the bus rules out. -/
def ProgramAction.Plain : ProgramAction → Prop
  | .join _ .subscribe => False
  | _ => True

instance ProgramAction.Plain.decidable : ∀ action : ProgramAction, Decidable action.Plain
  | .join _ .subscribe => isFalse not_false
  | .join _ .next => isTrue trivial
  | .send _ _ _ => isTrue trivial
  | .receive _ _ => isTrue trivial

theorem ProgramAction.Plain.programUse {action : ProgramAction} (hplain : action.Plain)
    (s : ProgramState) : ProgramUse s action := by
  cases action with
  | join h act =>
    cases act with
    | subscribe => exact absurd hplain not_false
    | next => exact ⟨⟨⟨trivial, trivial⟩, trivial⟩, trivial⟩
  | send p late spurious => trivial
  | receive h late => trivial

/-- Two producer programs with payloads of their own, the first with `try_publish`, and one
subscriber program, which has received both messages. -/
theorem programs_add_up_two : ∃ (trace : List Event) (s : ProgramState),
    (claims trace).length = 2 ∧ (s.listeners 0).got = 2 ∧
    (s.listeners 0).got ≤ ∑ p ∈ Finset.range 2, (s.senders p).sent := by
  let w : Workload := ⟨fun p ↦ if p = 0 then [7] else [8], fun p ↦ p = 0, 1⟩
  let system := programSystem tinyGeometry w fun _ ↦ 0
  let rest : List ProgramAction :=
    [List.replicate 2 (.join 0 .next), List.replicate 15 (.send 0 false false),
      [.send 0 true false], List.replicate 6 (.receive 0 false),
      List.replicate 14 (.send 1 false false), [.send 1 true false],
      List.replicate 7 (.receive 0 false)].flatten
  have hlast : (system.exec system.init (.join 0 .subscribe :: rest)).map (fun result ↦
      ((result.1.senders 0), (result.1.senders 1), (result.1.listeners 0).got,
        (claims result.2).length)) = some (⟨.done, 1⟩, ⟨.done, 1⟩, 2, 2) := by decide +kernel
  obtain ⟨⟨s, trace⟩, hexec, hresult⟩ := Option.map_eq_some_iff.mp hlast
  simp only [Prod.mk.injEq] at hresult
  obtain ⟨hfirst, hsecond, hgot, hclaims⟩ := hresult
  have hrun : Run system (fun _ s action ↦ ProgramUse s action) trace s := by
    refine run_of_permitted ?_ hexec
    refine .cons ⟨⟨⟨trivial, by decide⟩, fun _ ↦ rfl⟩, by decide⟩ ?_
    have hplain : ∀ action ∈ rest, action.Plain := by decide
    exact permitted_of_forall fun action hmem _ state ↦ (hplain action hmem).programUse state
  have hothers : ∀ p, 2 ≤ p → s.senders p = ⟨.checking, 0⟩ := by
    intro p hp
    refine TransitionSystem.exec_frame (fun s ↦ s.senders p) ?_ hexec
    intro action hmem state state' reported hstep
    refine programStep_senders hstep fun late spurious hact ↦ ?_
    subst hact
    simp [rest] at hmem
    omega
  obtain ⟨-, -, -, hsums⟩ := programs_add_up tinyGeometry (by decide) w
    (fun p ↦ by by_cases hp : p = 0 <;> simp [w, hp])
    (fun p ↦ by by_cases hp : p = 0 <;> simp [w, hp, tinyGeometry]) le_rfl _ trace s hrun
  refine ⟨trace, s, hclaims, hgot, ((hsums 2 fun p ↦ ?_).2 0).1⟩
  by_cases hp : 2 ≤ p
  · rw [hothers p hp]
    exact ⟨⟨by decide, by decide⟩, fun _ ↦ rfl⟩
  · obtain rfl | rfl : p = 0 ∨ p = 1 := by omega
    · rw [hfirst]
      exact ⟨⟨by decide, by decide⟩, fun hle ↦ absurd hle hp⟩
    · rw [hsecond]
      exact ⟨⟨by decide, by decide⟩, fun hle ↦ absurd hle hp⟩

end AarnnNsys.Bus
