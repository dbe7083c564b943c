import AarnnNsys.Bus.Relay

/-!
# What a relay forwards

`RelayInv` keeps the account of a relay: what it has put into the log of the destination, and what
its calls have returned, against the messages it has received from the source. `relay_forwards`
reads it off between two calls: the messages from the relay's start up to its cursor that fit a slot
of the destination, in order and once each, with one result for every message. A call that returns
`Ok(None)` has changed neither bus.
-/

set_option autoImplicit false
set_option relaxedAutoImplicit false

namespace AarnnNsys.Bus

open Function Lib

/-! ### What the other threads leave alone -/

/-- The other threads of the source receive nothing through the relay's handle. -/
theorem BusStep.sourceOther {g : Geometry} {s s' : State} {action : Action} {events : List Event}
    (hstep : BusStep g s action s' events) (hhandles : HandlesInv s)
    (hother : SourceOther action) : received 0 events = [] ∧ s'.readers 0 = s.readers 0 := by
  cases hstep with
  | producer hthread => exact ⟨by simp, rfl⟩
  | subscriber hthread => exact ⟨by simp, rfl⟩
  | @reader r act m t own hthread =>
    have hr : r ≠ 0 := hother
    refine ⟨?_, update_of_ne hr.symm _ _⟩
    cases hthread with
    | storeSeq seq out hpc =>
      have hhandle := hhandles.handle_eq r (by simp [hpc])
      simp [received, Event.received?, hhandle, hr]
    | _ => simp [received, Event.received?]

/-- The other threads of the destination make no claim for the relay. -/
theorem BusStep.destinationOther {g : Geometry} {s s' : State} {action : Action}
    {events : List Event} (hstep : BusStep g s action s' events)
    (hother : DestinationOther action) :
    claimsBy 0 events = [] ∧ s'.producers 0 = s.producers 0 := by
  cases hstep with
  | @producer p act m t own hthread =>
    have hp : p ≠ 0 := hother
    exact ⟨claimsBy_map_producer_of_ne hp own, update_of_ne hp.symm _ _⟩
  | subscriber hthread => exact ⟨by simp [claimsBy], rfl⟩
  | reader hthread => exact ⟨by simp [claimsBy], rfl⟩

/-! ### The `publish` call of a relay -/

/-- A `publish` call in flight. -/
structure Producer.Publishing (t : Producer) : Prop where
  blocking : t.blocking = true
  active : t.pc ≠ .idle
  reserved : ∀ claim, t.pc ≠ .casClaim claim

/-- A `publish` call claims nothing more, and returns only `Ok(())`. -/
theorem ProducerStep.publishing {g : Geometry} {m m' : Mem} {t t' : Producer} {b : Bool}
    {events : List ProducerEvent} (hstep : ProducerStep g m t (.next b) m' t' events)
    (hpublishing : t.Publishing) (p : ℕ) :
    claimsBy p (events.map (.producer p)) = [] ∧
      (t'.Publishing ∧ (events.map (Event.producer p)).findSome? Event.publishResult? = none ∨
        t'.pc = .idle ∧
          (events.map (Event.producer p)).findSome? Event.publishResult? = some (.ok ())) := by
  obtain ⟨hblocking, hactive, hreserved⟩ := hpublishing
  cases hstep with
  | refuse b claim n i minRead hpc hi htry | accept b claim n i minRead hpc hi htry =>
    exact absurd (hblocking.symm.trans htry) (by decide)
  | claim b claim hpc | claimLost b claim hpc => exact absurd hpc (hreserved claim)
  | advanceStop b w hpc huncommitted =>
    have hsuccess : t.success = .publishReturned (.ok ()) := by
      rw [Producer.success, hblocking]
      rfl
    rw [hsuccess]
    exact ⟨rfl, Or.inr ⟨rfl, rfl⟩⟩
  | _ =>
    exact ⟨rfl, Or.inl ⟨⟨by simpa using hblocking, by simp, fun claim ↦ by simp⟩, rfl⟩⟩

/-- A `publish` call with a message that passes the size check claims it at once. -/
theorem ProducerStep.publish_claims {g : Geometry} {m m' : Mem} {t t' : Producer}
    {message : Message} {events : List ProducerEvent}
    (hstep : ProducerStep g m t (.publish message) m' t' events) (hne : message ≠ [])
    (hsize : message.length ≤ g.slotBytes) (p : ℕ) :
    claimsBy p (events.map (.producer p)) = [message] ∧ t'.Publishing ∧
      (events.map (Event.producer p)).findSome? Event.publishResult? = none := by
  cases hstep with
  | publishRejected payload hpc hrejected =>
    rcases hrejected with hempty | hlarge
    · exact absurd hempty hne
    · omega
  | publish payload hpc =>
    have hclaims : claims ([.called message, .claimed m.claimSeq message].map (Event.producer p)) =
        [⟨m.claimSeq, p, message⟩] := rfl
    refine ⟨?_, ⟨rfl, by simp, fun claim ↦ by simp⟩, rfl⟩
    rw [claimsBy, hclaims]
    simp

/-! ### The account of a relay -/

/-- What `relay_once` returns for a message it has taken. -/
def outcome (dst : Geometry) (message : Message) : RelayResult :=
  if dst.slotBytes < message.length then .error .msgTooLarge else .ok (some message.length)

/-- The messages that fit a slot. -/
def fitting (dst : Geometry) (log : List Message) : List Message :=
  log.filter fun message ↦ message.length ≤ dst.slotBytes

/-- The results of the calls that found a message. -/
def settled (trace : List RelayEvent) : List RelayResult :=
  (results trace).filter fun result ↦ result ≠ .ok none

/-- The message that a call has taken and still has to publish. -/
def RelayPhase.pending : RelayPhase → List Message
  | .publishing message => [message]
  | _ => []

/-- The result that a call still owes for the message it has taken. -/
def RelayPhase.owed : RelayPhase → List RelayResult
  | .publishing message => [.ok (some message.length)]
  | .waiting length => [.ok (some length)]
  | _ => []

/-- The relay's threads on the two buses, as its phase says. -/
def RelayPhase.Threads (dst : Geometry) (scratch : ℕ) (reader : Reader) (producer : Producer) :
    RelayPhase → Prop
  | .idle => reader.pc = .idle ∧ producer.pc = .idle
  | .receiving => reader.pc ≠ .idle ∧ reader.outLen = scratch ∧ producer.pc = .idle
  | .publishing message => reader.pc = .idle ∧ producer.pc = .idle ∧ message ≠ [] ∧
      message.length ≤ dst.slotBytes
  | .waiting _ => reader.pc = .idle ∧ producer.Publishing

/-- The account of a relay. -/
structure RelayInv (dst : Geometry) (scratch : ℕ) (trace : List RelayEvent) (s : RelayState) :
    Prop where
  threads : s.phase.Threads dst scratch (s.source.readers 0) (s.destination.producers 0)
  forwarded : claimsBy 0 (destinationTrace trace) ++ s.phase.pending =
    fitting dst (received 0 (sourceTrace trace))
  accounted : settled trace ++ s.phase.owed = (received 0 (sourceTrace trace)).map (outcome dst)

@[simp] theorem settled_append (trace later : List RelayEvent) :
    settled (trace ++ later) = settled trace ++ settled later := by
  simp [settled]

@[simp] theorem settled_map_source (events : List Event) : settled (events.map .source) = [] := by
  simp [settled]

@[simp] theorem settled_map_destination (events : List Event) :
    settled (events.map .destination) = [] := by
  simp [settled]

@[simp] theorem settled_map_returned (returned : List RelayResult) :
    settled (returned.map .returned) = returned.filter fun result ↦ result ≠ .ok none := by
  simp [settled]

@[simp] theorem fitting_append (dst : Geometry) (log later : List Message) :
    fitting dst (log ++ later) = fitting dst log ++ fitting dst later := by
  simp [fitting]

/-- The account of a relay that has done nothing. -/
theorem relayInv_init (dst : Geometry) (scratch : ℕ) (slab slab' : ℕ → UInt8) :
    RelayInv dst scratch [] ⟨State.init slab, State.init slab', .idle⟩ where
  threads := ⟨rfl, rfl⟩
  forwarded := rfl
  accounted := rfl

namespace RelayInv

variable {src dst : Geometry} {scratch : ℕ} {trace : List RelayEvent} {s : RelayState}

/-- What a step adds to the account. Assumes: the messages that the step receives, with what was
pending before, are those it claims with what is pending after, and likewise the results. -/
theorem extend (hinv : RelayInv dst scratch trace s) {s' : RelayState} {events : List RelayEvent}
    (hthreads : s'.phase.Threads dst scratch (s'.source.readers 0) (s'.destination.producers 0))
    (hforwarded : s.phase.pending ++ fitting dst (received 0 (sourceTrace events)) =
      claimsBy 0 (destinationTrace events) ++ s'.phase.pending)
    (haccounted : s.phase.owed ++ (received 0 (sourceTrace events)).map (outcome dst) =
      settled events ++ s'.phase.owed) :
    RelayInv dst scratch (trace ++ events) s' where
  threads := hthreads
  forwarded := by
    rw [destinationTrace_append, sourceTrace_append, claimsBy_append, received_append,
      fitting_append, ← hinv.forwarded, List.append_assoc, List.append_assoc, hforwarded]
  accounted := by
    rw [settled_append, sourceTrace_append, received_append, List.map_append, ← hinv.accounted,
      List.append_assoc, List.append_assoc, haccounted]

/-- The account between two calls. -/
theorem at_rest (hinv : RelayInv dst scratch trace s) (hphase : s.phase = .idle) :
    claimsBy 0 (destinationTrace trace) = fitting dst (received 0 (sourceTrace trace)) ∧
      settled trace = (received 0 (sourceTrace trace)).map (outcome dst) := by
  obtain ⟨-, hforwarded, haccounted⟩ := hinv
  rw [hphase] at hforwarded haccounted
  exact ⟨(List.append_nil _).symm.trans hforwarded, (List.append_nil _).symm.trans haccounted⟩

/-- What a step of the relay on the source adds to the account. -/
theorem extend_source (hinv : RelayInv dst scratch trace s) {bus : State} {events : List Event}
    {phase : RelayPhase} {returned : List RelayResult}
    (hthreads : phase.Threads dst scratch (bus.readers 0) (s.destination.producers 0))
    (hforwarded : s.phase.pending ++ fitting dst (received 0 events) = phase.pending)
    (haccounted : s.phase.owed ++ (received 0 events).map (outcome dst) =
      (returned.filter fun result ↦ result ≠ .ok none) ++ phase.owed) :
    RelayInv dst scratch (trace ++ (events.map .source ++ returned.map .returned))
      { s with source := bus, phase } :=
  hinv.extend hthreads (by simpa [claimsBy, claims] using hforwarded) (by simpa using haccounted)

/-- What a step of the relay on the destination adds to the account. -/
theorem extend_destination (hinv : RelayInv dst scratch trace s) {bus : State}
    {events : List Event} {phase : RelayPhase} {returned : List RelayResult}
    (hthreads : phase.Threads dst scratch (s.source.readers 0) (bus.producers 0))
    (hforwarded : s.phase.pending = claimsBy 0 events ++ phase.pending)
    (haccounted : s.phase.owed = (returned.filter fun result ↦ result ≠ .ok none) ++ phase.owed) :
    RelayInv dst scratch (trace ++ (events.map .destination ++ returned.map .returned))
      { s with destination := bus, phase } :=
  hinv.extend hthreads (by simpa [received, fitting] using hforwarded)
    (by simpa [received] using haccounted)

/-- A step of another thread of the source keeps the account. -/
theorem source_step (hinv : RelayInv dst scratch trace s) (hhandles : HandlesInv s.source)
    {action : Action} {bus : State} {events : List Event} (hother : SourceOther action)
    (hbus : BusStep src s.source action bus events) :
    RelayInv dst scratch (trace ++ events.map .source) { s with source := bus } := by
  obtain ⟨hreceived, hreader⟩ := hbus.sourceOther hhandles hother
  refine hinv.extend ?_ ?_ ?_
  · rw [hreader]
    exact hinv.threads
  · simp [hreceived, fitting, claimsBy, claims]
  · simp [hreceived]

/-- A step of another thread of the destination keeps the account. -/
theorem destination_step (hinv : RelayInv dst scratch trace s) {action : Action} {bus : State}
    {events : List Event} (hother : DestinationOther action)
    (hbus : BusStep dst s.destination action bus events) :
    RelayInv dst scratch (trace ++ events.map .destination) { s with destination := bus } := by
  obtain ⟨hclaims, hproducer⟩ := hbus.destinationOther hother
  refine hinv.extend ?_ ?_ ?_
  · rw [hproducer]
    exact hinv.threads
  · simp [hclaims, fitting, received]
  · simp [received]

/-- A call of `relay_once` begins. -/
theorem call_step (hinv : RelayInv dst scratch trace s) {bus : State} {events : List Event}
    (hphase : s.phase = .idle)
    (hbus : BusStep src s.source (.reader 0 (.tryRecv 0 scratch)) bus events) :
    RelayInv dst scratch (trace ++ events.map .source)
      { s with source := bus, phase := .receiving } := by
  have hthreads := hinv.threads
  rw [hphase] at hthreads
  cases hbus with
  | reader hthread =>
    cases hthread with
    | tryRecv h id outLen hpc hready =>
      refine hinv.extend ⟨?_, ?_, hthreads.2⟩ ?_ ?_
      · simp [State.setReader]
      · simp [State.setReader]
      · rw [hphase]
        rfl
      · rw [hphase]
        rfl

/-- A step of `try_recv`, and what the relay does with its result. Assumes: the message fits the
scratch buffer and is not empty. -/
theorem receive_step (hinv : RelayInv dst scratch trace s) {bus : State} {events : List Event}
    {phase : RelayPhase} {returned : List RelayResult} (hphase : s.phase = .receiving)
    (hfits : ∀ seq, (s.source.readers 0).pc = .loadLen seq →
      s.source.mem.descLen (src.idx seq) ≤ scratch)
    (hne : ∀ seq out, (s.source.readers 0).pc = .storeSeq seq out → out ≠ [])
    (hhandle : (s.source.readers 0).handle = 0)
    (hbus : BusStep src s.source (.reader 0 .next) bus events)
    (hafter : afterReceive dst (events.findSome? Event.recvResult?) = (phase, returned)) :
    RelayInv dst scratch (trace ++ (events.map .source ++ returned.map .returned))
      { s with source := bus, phase } := by
  have hthreads := hinv.threads
  rw [hphase] at hthreads
  obtain ⟨hactive, houtLen, hidle⟩ := hthreads
  have hfinal : phase.Threads dst scratch (bus.readers 0) (s.destination.producers 0) ∧
      fitting dst (received 0 events) = phase.pending ∧
      (received 0 events).map (outcome dst) =
        (returned.filter fun result ↦ result ≠ .ok none) ++ phase.owed := by
    cases hbus with
    | @reader r act m t own hthread =>
      simp only [State.setReader, update_self]
      cases hthread with
      | loadSeq seq hpc | loadLen seq hpc | copyByte seq len out hpc | copyDone seq len out hpc =>
        obtain ⟨rfl, rfl⟩ := Prod.mk.inj hafter
        exact ⟨⟨by simp, houtLen, hidle⟩, rfl, rfl⟩
      | empty seq hpc =>
        obtain ⟨rfl, rfl⟩ := Prod.mk.inj hafter
        exact ⟨⟨rfl, hidle⟩, rfl, by simp [received, Event.received?, RelayPhase.owed]⟩
      | tooLarge seq hpc hlt =>
        have hle := hfits seq hpc
        omega
      | storeSeq seq out hpc =>
        have hreceived : received 0 ([.returned (.ok (some out))].map
            (Event.reader (s.source.readers 0).finish.handle)) = [out] := by
          simp [received, Event.received?, hhandle]
        rw [hreceived]
        simp only [List.map_cons, List.map_nil, List.findSome?_cons, Event.recvResult?,
          afterReceive] at hafter
        split_ifs at hafter with hlarge
        · obtain ⟨rfl, rfl⟩ := Prod.mk.inj hafter
          refine ⟨⟨rfl, hidle⟩, ?_, ?_⟩
          · simpa [fitting, RelayPhase.pending] using hlarge
          · simp [outcome, hlarge, RelayPhase.owed]
        · obtain ⟨rfl, rfl⟩ := Prod.mk.inj hafter
          refine ⟨⟨rfl, hidle, hne seq out hpc, by omega⟩, ?_, ?_⟩
          · simpa [fitting, RelayPhase.pending] using hlarge
          · simp [outcome, hlarge, RelayPhase.owed]
  obtain ⟨hthreads, hforwarded, haccounted⟩ := hfinal
  refine hinv.extend_source hthreads ?_ ?_
  · rw [hphase]
    exact hforwarded
  · rw [hphase]
    exact haccounted

/-- The step in which the relay calls `publish`. -/
theorem publish_step (hinv : RelayInv dst scratch trace s) {message : Message} {bus : State}
    {events : List Event} {phase : RelayPhase} {returned : List RelayResult}
    (hphase : s.phase = .publishing message)
    (hbus : BusStep dst s.destination (.producer 0 (.publish message)) bus events)
    (hafter : afterPublish message.length (events.findSome? Event.publishResult?) =
      (phase, returned)) :
    RelayInv dst scratch (trace ++ (events.map .destination ++ returned.map .returned))
      { s with destination := bus, phase } := by
  have hthreads := hinv.threads
  rw [hphase] at hthreads
  obtain ⟨hreader, -, hne, hsize⟩ := hthreads
  cases hbus with
  | producer hthread =>
    obtain ⟨hclaims, hpublishing, hnone⟩ := hthread.publish_claims hne hsize 0
    rw [hnone] at hafter
    obtain ⟨rfl, rfl⟩ := Prod.mk.inj hafter
    refine hinv.extend_destination ⟨hreader, ?_⟩ ?_ ?_
    · simpa only [State.setProducer, update_self] using hpublishing
    · rw [hphase, hclaims]
      rfl
    · rw [hphase]
      rfl

/-- A step of `publish`, and its return. -/
theorem wait_step (hinv : RelayInv dst scratch trace s) {length : ℕ} {bus : State}
    {events : List Event} {phase : RelayPhase} {returned : List RelayResult}
    (hphase : s.phase = .waiting length)
    (hbus : BusStep dst s.destination (.producer 0 (.next false)) bus events)
    (hafter : afterPublish length (events.findSome? Event.publishResult?) = (phase, returned)) :
    RelayInv dst scratch (trace ++ (events.map .destination ++ returned.map .returned))
      { s with destination := bus, phase } := by
  have hthreads := hinv.threads
  rw [hphase] at hthreads
  obtain ⟨hreader, hpublishing⟩ := hthreads
  cases hbus with
  | producer hthread =>
    obtain ⟨hclaims, ⟨hstill, hnone⟩ | ⟨hdone, hsome⟩⟩ := hthread.publishing hpublishing 0
    · rw [hnone] at hafter
      obtain ⟨rfl, rfl⟩ := Prod.mk.inj hafter
      refine hinv.extend_destination ⟨hreader, ?_⟩ ?_ ?_
      · simpa only [State.setProducer, update_self] using hstill
      · rw [hphase, hclaims]
        rfl
      · rw [hphase]
        rfl
    · rw [hsome] at hafter
      obtain ⟨rfl, rfl⟩ := Prod.mk.inj hafter
      refine hinv.extend_destination ⟨hreader, ?_⟩ ?_ ?_
      · simpa only [State.setProducer, update_self] using hdone
      · rw [hphase, hclaims]
        rfl
      · rw [hphase]
        rfl

end RelayInv

section Run

variable {src dst : Geometry} {scratch : ℕ} {slab slab' : ℕ → UInt8} {trace : List RelayEvent}
  {s : RelayState}

/-- The account holds in every run of a relay whose scratch buffer holds a slot of the source. -/
theorem relayInv_run (hsrc : src.slotBytes < u32Size) (hscratch : src.slotBytes ≤ scratch)
    (hrun : Run (relaySystem src dst scratch slab slab') (fun _ s action ↦ RelayUse s action)
      trace s) : RelayInv dst scratch trace s := by
  refine hrun.invariant (RelayInv dst scratch) (relayInv_init dst scratch slab slab') ?_
  intro trace s action s' events hprevious hinv hallowed hstep
  have hsafe := run_safe hsrc (run_source hprevious)
  have hhandles := handlesInv_run (fun _ _ _ hkept ↦ hkept.1) hsafe
  cases relayStep_cases hstep with
  | source hother hbus => exact hinv.source_step hhandles hother (step_cases hbus)
  | destination hother hbus => exact hinv.destination_step hother (step_cases hbus)
  | call hphase hbus => exact hinv.call_step hphase (step_cases hbus)
  | receive hphase hbus hafter =>
    have hpayload := payloadInv_run hsafe
    have hcursor := cursorInv_run (fun _ _ _ hkept ↦ hkept.1) (fun _ _ _ hkept ↦ hkept.2.1) hsafe
    have hdelivery := deliveryInv_run (fun _ _ _ hkept ↦ hkept.1) (fun _ _ _ hkept ↦ hkept.2.1)
      (fun _ _ _ hkept ↦ hkept.2.2) hsafe
    have hactive : (s.source.readers 0).pc ≠ .idle := by
      have hthreads := hinv.threads
      rw [hphase] at hthreads
      exact hthreads.1
    refine hinv.receive_step hphase (fun seq hpc ↦ ?_) (fun seq out hpc ↦ ?_)
      (hhandles.handle_eq 0 hactive) (step_cases hbus) hafter
    · obtain ⟨claim, -, hsize, -, hlen⟩ := reading_stored (commitInv_run hsafe) hpayload hhandles
        hcursor (by rw [hpc]; rfl)
      rw [hlen]
      exact (Nat.mod_le _ _).trans (hsize.trans hscratch)
    · have hfollows := hdelivery.follows 0
      simp only [Reader.Follows, hpc] at hfollows
      obtain ⟨claim, hclaim, rfl⟩ := hfollows
      exact ((payloadsHave_run hsafe).claimed claim (List.mem_of_getElem? hclaim)).1
  | publish hphase hbus hafter => exact hinv.publish_step hphase (step_cases hbus) hafter
  | wait hphase hbus hafter => exact hinv.wait_step hphase (step_cases hbus) hafter

end Run

/-- A claim of a thread with no call in flight is committed. -/
theorem committed_of_idle {g : Geometry} {trace : List Event} {s : State}
    (hcommit : CommitInv g trace s) (hpayload : PayloadInv g trace s) {claim : Claim}
    (hclaim : claim ∈ claims trace) (hidle : (s.producers claim.producer).pc = .idle) :
    s.mem.Committed g claim.sequence := by
  obtain ⟨i, hlog⟩ := List.getElem?_of_mem hclaim
  have hsequence : claim.sequence = i := by
    have hat : ((claims trace).map Claim.sequence)[i]? = some claim.sequence := by
      rw [List.getElem?_map, hlog]
      rfl
    rw [hcommit.claims_sequence] at hat
    obtain ⟨hlt, hget⟩ := List.getElem?_eq_some_iff.mp hat
    rw [← hget, List.getElem_range]
  have hlt : claim.sequence < s.mem.claimSeq := by
    rw [hsequence, ← hcommit.length_claims]
    exact (List.getElem?_eq_some_iff.mp hlog).1
  rcases hcommit.claimed_cases claim.sequence hlt with hcommitted | ⟨p, howned⟩
  · exact hcommitted
  · have hown := hpayload.claimed p claim.sequence howned
    rw [hsequence, hlog] at hown
    have hp : claim.producer = p := congrArg Claim.producer (Option.some.inj hown)
    exact absurd (hp ▸ hidle) (Producer.ne_idle_of_owned howned)

/-- What `relay_once` returns from its `publish` call is no `Ok(None)`. -/
theorem afterPublish_ne {length : ℕ} {result : Option (Except BusError Unit)} {phase : RelayPhase}
    {returned : List RelayResult} (hafter : afterPublish length result = (phase, returned)) :
    phase ≠ .receiving ∧ .ok none ∉ returned := by
  rcases result with - | error | ⟨⟩ <;> obtain ⟨rfl, rfl⟩ := Prod.mk.inj hafter <;> simp

/-- A step of the relay that stays in `try_recv`, or returns `Ok(None)`, is a step from the start of
the call or from `try_recv`, and changes neither bus. -/
theorem RelayStep.unchanged {src dst : Geometry} {scratch : ℕ} {s s' : RelayState}
    {events : List RelayEvent} (hstep : RelayStep src dst scratch s .relay s' events)
    (hnone : s'.phase = .receiving ∨ .returned (.ok none) ∈ events) :
    (s.phase = .idle ∨ s.phase = .receiving) ∧ s'.source.mem = s.source.mem ∧
      s'.destination.mem = s.destination.mem := by
  cases hstep with
  | call hphase hbus =>
    refine ⟨Or.inl hphase, ?_, rfl⟩
    cases step_cases hbus with
    | reader hthread =>
      cases hthread
      rfl
  | receive hphase hbus hafter =>
    refine ⟨Or.inr hphase, ?_, rfl⟩
    cases step_cases hbus with
    | reader hthread =>
      cases hthread with
      | storeSeq seq out hpc =>
        -- a call that has stored the cursor returns something else
        simp only [List.map_cons, List.map_nil, List.findSome?_cons, Event.recvResult?,
          afterReceive] at hafter
        split_ifs at hafter with hlarge <;> obtain ⟨rfl, rfl⟩ := Prod.mk.inj hafter <;>
          simp at hnone
      | _ => rfl
  | publish hphase hbus hafter | wait hphase hbus hafter =>
    obtain ⟨hphase', hresults⟩ := afterPublish_ne hafter
    rcases hnone with hreceiving | hmem
    · exact absurd hreceiving hphase'
    · exact absurd (by simpa using hmem) hresults

/-- Relaying. In every run of a relay between two buses, whose scratch buffer holds a slot of the
source, with any other threads on both buses: between two calls of `relay_once`, what the relay has
put into the log of the destination is exactly the messages of the source from its start up to its
cursor that fit a slot of the destination, in order and once each, and all of it is committed; every
message has produced one result, `Err(MsgTooLarge)` or `Ok(Some(length))`; and the steps of a call
that returns `Ok(None)` change neither bus. -/
theorem relay_forwards (src dst : Geometry) (hsrc : src.slotBytes < u32Size) (scratch : ℕ)
    (hscratch : src.slotBytes ≤ scratch) (slab slab' : ℕ → UInt8) (trace : List RelayEvent)
    (s : RelayState)
    (hrun : Run (relaySystem src dst scratch slab slab') (fun _ s action ↦ RelayUse s action)
      trace s) :
    (s.phase = .idle →
      (∀ start, Started 0 start (sourceTrace trace) → ∃ id, s.source.subscribers 0 = .ready id ∧
        start ≤ s.source.mem.subReadSeq id ∧
        claimsBy 0 (destinationTrace trace) = fitting dst
          (messages (claims (sourceTrace trace)) start (s.source.mem.subReadSeq id)) ∧
        settled trace = (messages (claims (sourceTrace trace)) start
          (s.source.mem.subReadSeq id)).map (outcome dst)) ∧
      ∀ claim ∈ claims (destinationTrace trace), claim.producer = 0 →
        s.destination.mem.Committed dst claim.sequence) ∧
    ∀ s' events, relayStep src dst scratch s .relay = some (s', events) →
      s'.phase = .receiving ∨ .returned (.ok none) ∈ events →
        (s.phase = .idle ∨ s.phase = .receiving) ∧ s'.source.mem = s.source.mem ∧
          s'.destination.mem = s.destination.mem := by
  have hinv := relayInv_run hsrc hscratch hrun
  have hsafe := run_safe hsrc (run_source hrun)
  have hdestination := run_destination hrun
  refine ⟨fun hphase ↦ ⟨fun start hstarted ↦ ?_, fun claim hclaim hown ↦ ?_⟩,
    fun s' events hstep ↦ (relayStep_cases hstep).unchanged⟩
  · obtain ⟨id, hserved⟩ := served_of_run (fun _ _ _ hkept ↦ hkept.1)
      (fun _ _ _ hkept ↦ hkept.2.1) (fun _ _ _ hkept ↦ hkept.2.2) hsafe hstarted
    obtain ⟨hforwarded, haccounted⟩ := hinv.at_rest hphase
    rw [hserved.received_eq] at hforwarded haccounted
    exact ⟨id, hserved.ready, hserved.start_le, hforwarded, haccounted⟩
  · refine committed_of_idle (commitInv_run hdestination) (payloadInv_run hdestination) hclaim ?_
    have hthreads := hinv.threads
    rw [hphase] at hthreads
    rw [hown]
    exact hthreads.2

/-- The steps of a relay that no use of the buses rules out. -/
def RelayAction.Plain : RelayAction → Prop
  | .relay | .source (.producer _ _) | .source (.subscriber _ .next) => True
  | _ => False

instance RelayAction.Plain.decidable : ∀ action : RelayAction, Decidable action.Plain
  | .relay => isTrue trivial
  | .source (.producer _ _) => isTrue trivial
  | .source (.subscriber _ .next) => isTrue trivial
  | .source (.subscriber _ .subscribe) => isFalse not_false
  | .source (.reader _ _) => isFalse not_false
  | .destination _ => isFalse not_false

theorem RelayAction.Plain.relayUse {action : RelayAction} (hplain : action.Plain)
    (s : RelayState) : RelayUse s action := by
  unfold RelayAction.Plain at hplain
  split at hplain
  · trivial
  · exact ⟨⟨trivial, trivial⟩, trivial⟩
  · exact ⟨⟨trivial, trivial⟩, trivial⟩
  · cases hplain

/-- The ring of one slot of two bytes. -/
def wideGeometry : Geometry := ⟨1, 2, isPow2_one⟩

/-- A relay from slots of two bytes to a slot of one: it forwards a message of one byte, drops one
of two, and then finds nothing. -/
theorem relay_forwards_one : ∃ (trace : List RelayEvent) (s : RelayState) (id : ℕ),
    s.source.subscribers 0 = .ready id ∧
    results trace = [.ok (some 1), .error .msgTooLarge, .ok none] ∧
    claimsBy 0 (destinationTrace trace) = [[7]] ∧
    claimsBy 0 (destinationTrace trace) = fitting tinyGeometry
      (messages (claims (sourceTrace trace)) 0 (s.source.mem.subReadSeq id)) := by
  let system := relaySystem wideGeometry tinyGeometry 2 (fun _ ↦ 0) (fun _ ↦ 0)
  let use : Guard RelayState RelayAction RelayEvent := fun _ s action ↦ RelayUse s action
  let first : RelayAction := .source (.subscriber 0 .subscribe)
  let rest : List RelayAction :=
    [List.replicate 2 (.source (.subscriber 0 .next)),
      .source (.producer 0 (.publish [7])) ::
        List.replicate 13 (.source (.producer 0 (.next false))),
      List.replicate 19 .relay, [.source (.producer 0 (.publish [8, 9]))],
      List.replicate 14 (.source (.producer 0 (.next false))), List.replicate 9 .relay].flatten
  have hplain : ∀ action ∈ rest, action.Plain := by decide
  have hfirst : use [] system.init first := ⟨⟨trivial, by decide⟩, fun _ ↦ rfl⟩
  have hexec : (system.exec system.init (first :: rest)).map
      (fun result ↦ (decide (.subscriber 0 (.subscribed 0 0) ∈ sourceTrace result.2),
        result.1.phase,
        decide (results result.2 = [.ok (some 1), .error .msgTooLarge, .ok none]),
        claimsBy 0 (destinationTrace result.2))) = some (true, .idle, true, [[7]]) := by
    decide +kernel
  obtain ⟨⟨s, trace⟩, hfinal, hresult⟩ := Option.map_eq_some_iff.mp hexec
  simp only [Prod.mk.injEq] at hresult
  obtain ⟨hsubscribed, hphase, hresults, hclaims⟩ := hresult
  have hpermitted : Permitted system use [] system.init (first :: rest) :=
    .cons hfirst (permitted_of_forall fun action hmem _ state ↦ (hplain action hmem).relayUse state)
  have hrun : Run system use trace s := run_of_permitted hpermitted hfinal
  obtain ⟨hrest, -⟩ :=
    relay_forwards wideGeometry tinyGeometry (by decide) 2 le_rfl _ _ trace s hrun
  obtain ⟨id, hready, -, hforwarded, -⟩ :=
    (hrest hphase).1 0 ⟨0, of_decide_eq_true hsubscribed⟩
  exact ⟨trace, s, id, hready, of_decide_eq_true hresults, hclaims, hforwarded⟩

end AarnnNsys.Bus
