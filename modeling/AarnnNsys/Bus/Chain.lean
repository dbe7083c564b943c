import AarnnNsys.Bus.RelayLog

/-!
# Buses concatenated by relays

Relays put buses one after the other: relay `i` takes the messages of bus `i` and publishes them on
bus `i + 1`. `chainSystem` is such a chain of any length, with all the other threads of all the
buses, one atomic operation at a time. Seen from one relay, a run of a chain is a run of that relay
between its two buses (`run_pair`), so that what is known of one relay is known of each.

`chain_forwards` composes the relays. When only the relays publish on the buses after the first, the
log of every bus, and what any subscriber there has received, is a stretch without gaps of those
messages of the first bus that fit a slot of every bus on the way. `pipeline_adds_up` is the account
of one relay in numbers.
-/

set_option autoImplicit false
set_option relaxedAutoImplicit false

namespace AarnnNsys.Bus

open Function Lib

/-! ### The chain -/

/-- The buses, and where every relay is in its `relay_once` call. -/
structure ChainState where
  buses : ℕ → State
  phases : ℕ → RelayPhase

/-- A step of another thread of a bus, or the next step of a relay. -/
inductive ChainAction
  | bus (i : ℕ) (action : Action)
  | relay (i : ℕ)
  deriving DecidableEq

/-- An event of one of the buses, or the return of a `relay_once` call. -/
inductive ChainEvent
  | bus (i : ℕ) (event : Event)
  | returned (i : ℕ) (result : RelayResult)
  deriving DecidableEq

/-- A relay with its two buses. -/
def ChainState.pair (i : ℕ) (s : ChainState) : RelayState :=
  ⟨s.buses i, s.buses (i + 1), s.phases i⟩

/-- The chain after a step of a relay. -/
def ChainState.setPair (s : ChainState) (i : ℕ) (pair : RelayState) : ChainState where
  buses := update (update s.buses i pair.source) (i + 1) pair.destination
  phases := update s.phases i pair.phase

/-- An event of relay `i` and its two buses. -/
def RelayEvent.inChain (i : ℕ) : RelayEvent → ChainEvent
  | .source event => .bus i event
  | .destination event => .bus (i + 1) event
  | .returned result => .returned i result

@[simp] theorem RelayEvent.inChain_source (i : ℕ) :
    RelayEvent.inChain i ∘ RelayEvent.source = ChainEvent.bus i := rfl

@[simp] theorem RelayEvent.inChain_destination (i : ℕ) :
    RelayEvent.inChain i ∘ RelayEvent.destination = ChainEvent.bus (i + 1) := rfl

@[simp] theorem RelayEvent.inChain_returned (i : ℕ) :
    RelayEvent.inChain i ∘ RelayEvent.returned = ChainEvent.returned i := rfl

/-- A relay that has only touched its source has changed one bus of the chain. -/
theorem ChainState.setPair_source (s : ChainState) (j : ℕ) (bus : State) (phase : RelayPhase) :
    (s.setPair j { s.pair j with source := bus, phase }).buses = update s.buses j bus := by
  simp only [setPair, pair]
  rw [← update_of_ne (Nat.succ_ne_self j) bus s.buses, update_eq_self]

/-- A relay that has only touched its destination has changed one bus of the chain. -/
theorem ChainState.setPair_destination (s : ChainState) (j : ℕ) (bus : State)
    (phase : RelayPhase) :
    (s.setPair j { s.pair j with destination := bus, phase }).buses =
      update s.buses (j + 1) bus := by
  simp [setPair, pair]

/-- The actions of bus `i` that are not those of a relay's threads. -/
def ChainOther (i : ℕ) (action : Action) : Prop :=
  SourceOther action ∧ (0 < i → DestinationOther action)

instance (i : ℕ) : DecidablePred (ChainOther i) := fun action ↦
  inferInstanceAs (Decidable (SourceOther action ∧ (0 < i → DestinationOther action)))

/-- One step of the chain, with a scratch buffer of `scratch i` bytes for relay `i`. -/
def chainStep (geometry : ℕ → Geometry) (scratch : ℕ → ℕ) (s : ChainState) :
    ChainAction → Option (ChainState × List ChainEvent)
  | .bus i action =>
    if ChainOther i action then
      (step (geometry i) (s.buses i) action).map fun (bus, events) ↦
        ({ s with buses := update s.buses i bus }, events.map (.bus i))
    else none
  | .relay i =>
    (relayNext (geometry i) (geometry (i + 1)) (scratch i) (s.pair i)).map fun (pair, events) ↦
      (s.setPair i pair, events.map (RelayEvent.inChain i))

/-- The operation that the next step of relay `i` is, and the bus it is done on. -/
def RelayPhase.operation (scratch i : ℕ) : RelayPhase → ℕ × Action
  | .idle => (i, .reader 0 (.tryRecv 0 scratch))
  | .receiving => (i, .reader 0 .next)
  | .publishing message => (i + 1, .producer 0 (.publish message))
  | .waiting _ => (i + 1, .producer 0 (.next false))

/-- A relay does nothing but the operations of its reader on its source and of its producer on its
destination. -/
theorem RelayPhase.operation_cases {phase : RelayPhase} {scratch i k : ℕ} {action : Action}
    (hoperation : phase.operation scratch i = (k, action)) :
    OwnThread action ∧
      (k = i ∧ (∃ act, action = .reader 0 act) ∨ k = i + 1 ∧ ∃ act, action = .producer 0 act) := by
  cases phase <;> cases hoperation
  · exact ⟨rfl, .inl ⟨rfl, _, rfl⟩⟩
  · exact ⟨trivial, .inl ⟨rfl, _, rfl⟩⟩
  · exact ⟨trivial, .inr ⟨rfl, _, rfl⟩⟩
  · exact ⟨trivial, .inr ⟨rfl, _, rfl⟩⟩

/-- The operation that a step of a chain is, and the bus it is done on. -/
def ChainAction.operation (scratch : ℕ → ℕ) (s : ChainState) : ChainAction → ℕ × Action
  | .bus i action => (i, action)
  | .relay i => (s.phases i).operation (scratch i) i

/-- A chain of fresh buses. -/
def chainSystem (geometry : ℕ → Geometry) (scratch : ℕ → ℕ) (slabs : ℕ → ℕ → UInt8) :
    TransitionSystem ChainState ChainAction ChainEvent :=
  ⟨⟨fun i ↦ State.init (slabs i), fun _ ↦ .idle⟩, chainStep geometry scratch⟩

/-- How the buses of a chain may be used. -/
def ChainUse (s : ChainState) : ChainAction → Prop
  | .bus i action => BusUse (s.buses i) action
  | .relay _ => True

/-- Only the relays publish on the buses after the first. -/
def FedFirst : ChainAction → Prop
  | .bus (_ + 1) (.producer _ _) => False
  | _ => True

/-! ### The history of a chain -/

/-- The event of bus `i` that an event reports. -/
def ChainEvent.bus? (i : ℕ) : ChainEvent → Option Event
  | .bus j event => if j = i then some event else none
  | .returned _ _ => none

/-- An event, as relay `i` and its two buses see it. -/
def ChainEvent.relay? (i : ℕ) : ChainEvent → Option RelayEvent
  | .bus j event =>
    if j = i then some (.source event) else if j = i + 1 then some (.destination event) else none
  | .returned j result => if j = i then some (.returned result) else none

/-- What happened on bus `i`. -/
def busTrace (i : ℕ) (trace : List ChainEvent) : List Event := trace.filterMap (ChainEvent.bus? i)

/-- What happened to relay `i` and its two buses. -/
def relayTrace (i : ℕ) (trace : List ChainEvent) : List RelayEvent :=
  trace.filterMap (ChainEvent.relay? i)

/-- The messages of bus `i`, in the order of their sequence numbers. -/
def logOf (i : ℕ) (trace : List ChainEvent) : List Message :=
  (claims (busTrace i trace)).map Claim.payload

section History

variable (i : ℕ) (trace later : List ChainEvent)

@[simp] theorem busTrace_append :
    busTrace i (trace ++ later) = busTrace i trace ++ busTrace i later :=
  List.filterMap_append

@[simp] theorem relayTrace_append :
    relayTrace i (trace ++ later) = relayTrace i trace ++ relayTrace i later :=
  List.filterMap_append

theorem busTrace_map_bus (k : ℕ) (events : List Event) :
    busTrace i (events.map (.bus k)) = if k = i then events else [] := by
  by_cases hk : k = i <;>
    simp [busTrace, List.filterMap_map, ChainEvent.bus?, hk, Function.comp_def]

@[simp] theorem busTrace_map_returned (j : ℕ) (results : List RelayResult) :
    busTrace i (results.map (.returned j)) = [] := by
  simp [busTrace, List.filterMap_map, ChainEvent.bus?, Function.comp_def]

/-- The source of relay `i` is bus `i`. -/
@[simp] theorem sourceTrace_relayTrace : sourceTrace (relayTrace i trace) = busTrace i trace := by
  rw [sourceTrace, relayTrace, List.filterMap_filterMap, busTrace]
  congr 1
  funext event
  cases event with
  | bus j event =>
    by_cases hi : j = i
    · simp [ChainEvent.relay?, ChainEvent.bus?, RelayEvent.source?, hi]
    · by_cases hnext : j = i + 1 <;>
        simp [ChainEvent.relay?, ChainEvent.bus?, RelayEvent.source?, hi, hnext]
  | returned j result =>
    by_cases hi : j = i <;> simp [ChainEvent.relay?, ChainEvent.bus?, RelayEvent.source?, hi]

/-- The destination of relay `i` is bus `i + 1`. -/
@[simp] theorem destinationTrace_relayTrace :
    destinationTrace (relayTrace i trace) = busTrace (i + 1) trace := by
  rw [destinationTrace, relayTrace, List.filterMap_filterMap, busTrace]
  congr 1
  funext event
  cases event with
  | bus j event =>
    by_cases hi : j = i
    · simp [ChainEvent.relay?, ChainEvent.bus?, RelayEvent.destination?, hi]
    · by_cases hnext : j = i + 1 <;>
        simp [ChainEvent.relay?, ChainEvent.bus?, RelayEvent.destination?, hi, hnext]
  | returned j result =>
    by_cases hi : j = i <;> simp [ChainEvent.relay?, ChainEvent.bus?, RelayEvent.destination?, hi]

/-- A relay sees its own events. -/
@[simp] theorem relayTrace_inChain (events : List RelayEvent) :
    relayTrace i (events.map (RelayEvent.inChain i)) = events := by
  have hown : ChainEvent.relay? i ∘ RelayEvent.inChain i = some := by
    funext event
    cases event <;> simp [RelayEvent.inChain, ChainEvent.relay?]
  rw [relayTrace, List.filterMap_map, hown, List.filterMap_some]

/-- A relay does not see what other relays return. -/
theorem relayTrace_returned {j : ℕ} (hne : j ≠ i) (results : List RelayResult) :
    relayTrace i (results.map (.returned j)) = [] := by
  simp [relayTrace, List.filterMap_map, ChainEvent.relay?, hne]

@[simp] theorem relayTrace_source (events : List Event) :
    relayTrace i (events.map (.bus i)) = events.map .source := by
  simp [relayTrace, List.filterMap_map, ChainEvent.relay?, Function.comp_def]

@[simp] theorem relayTrace_destination (events : List Event) :
    relayTrace i (events.map (.bus (i + 1))) = events.map .destination := by
  simp [relayTrace, List.filterMap_map, ChainEvent.relay?, Function.comp_def]

/-- A relay does not see the events of other buses. -/
theorem relayTrace_other {k : ℕ} (hsource : k ≠ i) (hdestination : k ≠ i + 1)
    (events : List Event) : relayTrace i (events.map (.bus k)) = [] := by
  simp [relayTrace, List.filterMap_map, ChainEvent.relay?, hsource, hdestination]

end History

/-! ### Each relay on its own -/

section Projection

variable {geometry : ℕ → Geometry} {scratch : ℕ → ℕ}

/-- A step of a bus of the chain that is not one of relay `i` is seen by it as a step of another
thread of one of its buses, or not at all. -/
theorem seen_by_relay {s s' : ChainState} {i k : ℕ} {action : Action} {bus : State}
    {events : List Event} (hbus : step (geometry k) (s.buses k) action = some (bus, events))
    (hbuses : s'.buses = update s.buses k bus) (hphase : s'.phases i = s.phases i)
    (huse : BusUse (s.buses k) action) (hsource : k = i → SourceOther action)
    (hdestination : k = i + 1 → DestinationOther action) :
    s'.pair i = s.pair i ∧ relayTrace i (events.map (.bus k)) = [] ∨
      ∃ action', RelayUse (s.pair i) action' ∧
        relayStep (geometry i) (geometry (i + 1)) (scratch i) (s.pair i) action' =
          some (s'.pair i, relayTrace i (events.map (.bus k))) := by
  by_cases hi : k = i
  · subst hi
    refine .inr ⟨.source action, huse, ?_⟩
    simp [relayStep, hsource rfl, ChainState.pair, hbus, hbuses, hphase]
  · by_cases hnext : k = i + 1
    · subst hnext
      refine .inr ⟨.destination action, huse, ?_⟩
      simp [relayStep, hdestination rfl, ChainState.pair, hbus, hbuses, hphase]
    · refine .inl ⟨?_, relayTrace_other i hi hnext events⟩
      simp [ChainState.pair, hbuses, hphase, update_of_ne (Ne.symm hi),
        update_of_ne (Ne.symm hnext)]

/-- What a step of a relay does to the buses of the chain. -/
theorem relayNext_bus {s : ChainState} {j : ℕ} {pair : RelayState} {events : List RelayEvent}
    (hstep : relayNext (geometry j) (geometry (j + 1)) (scratch j) (s.pair j) =
      some (pair, events)) {k : ℕ} {action : Action}
    (hoperation : (s.phases j).operation (scratch j) j = (k, action)) :
    ∃ (bus : State) (reported : List Event) (results : List RelayResult),
      step (geometry k) (s.buses k) action = some (bus, reported) ∧
      (s.setPair j pair).buses = update s.buses k bus ∧
      events.map (RelayEvent.inChain j) = reported.map (.bus k) ++ results.map (.returned j) := by
  have hrelay : relayStep (geometry j) (geometry (j + 1)) (scratch j) (s.pair j) .relay =
      some (pair, events) := hstep
  cases relayStep_cases hrelay with
  | @call bus reported hphase hbus =>
    rw [show s.phases j = .idle from hphase] at hoperation
    cases hoperation
    exact ⟨bus, reported, [], hbus, s.setPair_source j _ _, by simp⟩
  | @receive bus reported phase results hphase hbus hafter =>
    rw [show s.phases j = .receiving from hphase] at hoperation
    cases hoperation
    exact ⟨bus, reported, results, hbus, s.setPair_source j _ _, by simp⟩
  | @publish message bus reported phase results hphase hbus hafter =>
    rw [show s.phases j = .publishing message from hphase] at hoperation
    cases hoperation
    exact ⟨bus, reported, results, hbus, s.setPair_destination j _ _, by simp⟩
  | @wait length bus reported phase results hphase hbus hafter =>
    rw [show s.phases j = .waiting length from hphase] at hoperation
    cases hoperation
    exact ⟨bus, reported, results, hbus, s.setPair_destination j _ _, by simp⟩

/-- A step of a chain is one operation on one of its buses. -/
theorem chainStep_bus {s s' : ChainState} {action : ChainAction} {events : List ChainEvent}
    (hstep : chainStep geometry scratch s action = some (s', events)) {k : ℕ} {operation : Action}
    (hoperation : action.operation scratch s = (k, operation)) :
    ∃ (bus : State) (reported : List Event) (j : ℕ) (results : List RelayResult),
      step (geometry k) (s.buses k) operation = some (bus, reported) ∧
      s'.buses = update s.buses k bus ∧
      events = reported.map (.bus k) ++ results.map (.returned j) := by
  cases action with
  | bus i action =>
    simp only [chainStep, Option.ite_none_right_eq_some, Option.map_eq_some_iff, Prod.mk.injEq,
      Prod.exists] at hstep
    obtain ⟨-, bus, reported, hbus, rfl, rfl⟩ := hstep
    cases hoperation
    exact ⟨bus, reported, 0, [], hbus, rfl, (List.append_nil _).symm⟩
  | relay j =>
    simp only [chainStep, Option.map_eq_some_iff, Prod.mk.injEq, Prod.exists] at hstep
    obtain ⟨pair, reported, hnext, rfl, rfl⟩ := hstep
    obtain ⟨bus, own, results, hbus, hbuses, hevents⟩ := relayNext_bus hnext hoperation
    exact ⟨bus, own, j, results, hbus, hbuses, hevents⟩

/-- Seen from one relay, a run of a chain is a run of that relay between its two buses. -/
theorem run_pair {slabs : ℕ → ℕ → UInt8} {trace : List ChainEvent} {s : ChainState}
    (hrun : Run (chainSystem geometry scratch slabs) (fun _ s action ↦ ChainUse s action) trace s)
    (i : ℕ) :
    Run (relaySystem (geometry i) (geometry (i + 1)) (scratch i) (slabs i) (slabs (i + 1)))
      (fun _ s action ↦ RelayUse s action) (relayTrace i trace) (s.pair i) := by
  refine hrun.project (ChainState.pair i) (ChainEvent.relay? i) rfl ?_
  intro trace s action s' events _ hallowed hstep
  change s'.pair i = s.pair i ∧ relayTrace i events = [] ∨ ∃ action', RelayUse (s.pair i) action' ∧
    relayStep (geometry i) (geometry (i + 1)) (scratch i) (s.pair i) action' =
      some (s'.pair i, relayTrace i events)
  cases action with
  | bus k action =>
    simp only [chainSystem, chainStep, Option.ite_none_right_eq_some, Option.map_eq_some_iff,
      Prod.mk.injEq, Prod.exists] at hstep
    obtain ⟨⟨hsource, hdestination⟩, bus, reported, hbus, rfl, rfl⟩ := hstep
    exact seen_by_relay hbus rfl rfl hallowed (fun _ ↦ hsource)
      fun hnext ↦ hdestination (by omega)
  | relay j =>
    simp only [chainSystem, chainStep, Option.map_eq_some_iff, Prod.mk.injEq, Prod.exists] at hstep
    obtain ⟨pair, reported, hnext, rfl, rfl⟩ := hstep
    by_cases hj : j = i
    · subst hj
      refine .inr ⟨.relay, trivial, ?_⟩
      rw [relayTrace_inChain]
      simpa [ChainState.setPair, ChainState.pair, relayStep, update_of_ne] using hnext
    · obtain ⟨⟨k, action⟩, hoperation⟩ : ∃ operation,
          (s.phases j).operation (scratch j) j = operation := ⟨_, rfl⟩
      obtain ⟨hown, hkind⟩ := RelayPhase.operation_cases hoperation
      obtain ⟨bus, own, results, hbus, hbuses, hevents⟩ := relayNext_bus hnext hoperation
      rw [hevents, relayTrace_append, relayTrace_returned i hj, List.append_nil]
      have hphase : (s.setPair j pair).phases i = s.phases i := update_of_ne (Ne.symm hj) _ _
      rcases hkind with ⟨rfl, act, rfl⟩ | ⟨rfl, act, rfl⟩
      · exact seen_by_relay hbus hbuses hphase ⟨⟨hown, trivial⟩, trivial⟩
          (fun heq ↦ absurd heq hj) fun _ ↦ trivial
      · exact seen_by_relay hbus hbuses hphase ⟨⟨hown, trivial⟩, trivial⟩ (fun _ ↦ trivial)
          fun heq ↦ absurd (Nat.succ_injective heq) hj

/-- Seen from one of its buses, a run of a chain is a run of that bus. -/
theorem run_chainBus {slabs : ℕ → ℕ → UInt8} {trace : List ChainEvent} {s : ChainState}
    (hrun : Run (chainSystem geometry scratch slabs) (fun _ s action ↦ ChainUse s action) trace s)
    (i : ℕ) :
    Run (busSystem (geometry i) (slabs i)) (fun _ s action ↦ BusUse s action) (busTrace i trace)
      (s.buses i) := by
  simpa [ChainState.pair] using run_source (run_pair hrun i)

end Projection

/-! ### The logs of a chain -/

/-- A claim is made by the producer whose step it is. -/
theorem BusStep.producer_of_claim {g : Geometry} {s s' : State} {action : Action}
    {events : List Event} (hstep : BusStep g s action s' events) {claim : Claim}
    (hclaim : claim ∈ claims events) : ∃ act, action = .producer claim.producer act := by
  cases hstep with
  | @producer p act m t reported hthread =>
    obtain ⟨event, hmem, hreports⟩ := List.mem_filterMap.mp hclaim
    obtain ⟨own, -, rfl⟩ := List.mem_map.mp hmem
    refine ⟨act, ?_⟩
    cases own <;> simp only [Event.claim?, Option.some.injEq, reduceCtorEq] at hreports
    rw [← hreports]
  | subscriber hthread => simp at hclaim
  | reader hthread => simp at hclaim

section Logs

variable {geometry : ℕ → Geometry} {scratch : ℕ → ℕ} {slabs : ℕ → ℕ → UInt8}
  {trace : List ChainEvent} {s : ChainState}

/-- How the buses of a chain may be used that is fed at its first bus. -/
theorem run_of_fedFirst
    (hrun : Run (chainSystem geometry scratch slabs)
      (fun _ s action ↦ ChainUse s action ∧ FedFirst action) trace s) :
    Run (chainSystem geometry scratch slabs) (fun _ s action ↦ ChainUse s action) trace s :=
  hrun.strengthen fun _ hallowed _ ↦ hallowed.1

/-- When only the relays publish after the first bus, all messages there are theirs. -/
theorem claims_of_fedFirst
    (hrun : Run (chainSystem geometry scratch slabs)
      (fun _ s action ↦ ChainUse s action ∧ FedFirst action) trace s) (i : ℕ) :
    ∀ claim ∈ claims (busTrace (i + 1) trace), claim.producer = 0 := by
  refine hrun.invariant (fun trace _ ↦ ∀ claim ∈ claims (busTrace (i + 1) trace),
    claim.producer = 0) (fun _ hmem ↦ nomatch hmem) ?_
  intro trace s action s' events _ hinv hallowed hstep claim hmem
  rw [busTrace_append, claims_append, List.mem_append] at hmem
  rcases hmem with hold | hnew
  · exact hinv claim hold
  obtain ⟨⟨k, operation⟩, hoperation⟩ : ∃ operation, action.operation scratch s = operation :=
    ⟨_, rfl⟩
  obtain ⟨bus, reported, j, results, hbus, -, rfl⟩ := chainStep_bus hstep hoperation
  rw [busTrace_append, busTrace_map_returned, List.append_nil, busTrace_map_bus] at hnew
  split_ifs at hnew with hk
  · obtain ⟨act, rfl⟩ := (step_cases hbus).producer_of_claim hnew
    cases action with
    | bus i action =>
      cases hoperation
      subst hk
      exact absurd hallowed.2 not_false
    | relay j =>
      obtain ⟨-, ⟨-, other, hother⟩ | ⟨-, other, hother⟩⟩ := RelayPhase.operation_cases hoperation
      · cases hother
      · exact (Action.producer.inj hother).1
  · cases hnew

/-- What a relay has forwarded, with what it is about to publish, are the messages it has received
that fit. -/
theorem logOf_succ (hslot : ∀ i, (geometry i).slotBytes < u32Size)
    (hscratch : ∀ i, (geometry i).slotBytes ≤ scratch i)
    (hrun : Run (chainSystem geometry scratch slabs)
      (fun _ s action ↦ ChainUse s action ∧ FedFirst action) trace s) (i : ℕ) :
    logOf (i + 1) trace ++ (s.phases i).pending =
      fitting (geometry (i + 1)) (received 0 (busTrace i trace)) := by
  have hinv := relayInv_run (hslot i) (hscratch i) (run_pair (run_of_fedFirst hrun) i)
  have hown : claimsBy 0 (busTrace (i + 1) trace) = logOf (i + 1) trace := by
    rw [claimsBy, List.filter_eq_self.mpr, logOf]
    exact fun claim hmem ↦ decide_eq_true (claims_of_fedFirst hrun i claim hmem)
  simpa [hown, ChainState.pair] using hinv.forwarded

/-- The message fits a slot of each of the first `n` buses after the first. -/
def FitsAll (geometry : ℕ → Geometry) (n : ℕ) (message : Message) : Prop :=
  ∀ i < n, message.length ≤ (geometry (i + 1)).slotBytes

instance (geometry : ℕ → Geometry) (n : ℕ) : DecidablePred (FitsAll geometry n) := fun message ↦
  inferInstanceAs (Decidable (∀ i < n, message.length ≤ (geometry (i + 1)).slotBytes))

/-- The messages that fit on the way to one bus more. -/
theorem filter_fitsAll_succ (geometry : ℕ → Geometry) (n : ℕ) (log : List Message) :
    log.filter (FitsAll geometry (n + 1)) =
      fitting (geometry (n + 1)) (log.filter (FitsAll geometry n)) := by
  rw [fitting, List.filter_filter]
  refine List.filter_congr fun message _ ↦ ?_
  rw [← Bool.decide_and, decide_eq_decide, FitsAll, FitsAll, Nat.forall_lt_succ_right, and_comm]

/-- The log of every bus of a chain is a stretch of the messages of the first bus that fit all slots
on the way. -/
theorem logOf_stretch (hslot : ∀ i, (geometry i).slotBytes < u32Size)
    (hscratch : ∀ i, (geometry i).slotBytes ≤ scratch i)
    (hrun : Run (chainSystem geometry scratch slabs)
      (fun _ s action ↦ ChainUse s action ∧ FedFirst action) trace s) (n : ℕ) :
    logOf n trace <:+: (logOf 0 trace).filter (FitsAll geometry n) := by
  induction n with
  | zero => simp [FitsAll]
  | succ n ih =>
    have hforwarded := logOf_succ hslot hscratch hrun n
    have hreceived := received_stretch (hslot n) (run_chainBus (run_of_fedFirst hrun) n) 0
    rw [filter_fitsAll_succ]
    have hstart : logOf (n + 1) trace <+:
        fitting (geometry (n + 1)) (received 0 (busTrace n trace)) := ⟨_, hforwarded⟩
    exact hstart.isInfix.trans ((hreceived.filter _).trans (ih.filter _))

/-- When every relay up to a bus is between two calls and has received all of its source, the log of
that bus is all the messages of the first bus that fit. -/
theorem logOf_eq (hslot : ∀ i, (geometry i).slotBytes < u32Size)
    (hscratch : ∀ i, (geometry i).slotBytes ≤ scratch i)
    (hrun : Run (chainSystem geometry scratch slabs)
      (fun _ s action ↦ ChainUse s action ∧ FedFirst action) trace s) {n : ℕ}
    (hsettled : ∀ i < n, s.phases i = .idle ∧ received 0 (busTrace i trace) = logOf i trace) :
    logOf n trace = (logOf 0 trace).filter (FitsAll geometry n) := by
  induction n with
  | zero => simp [FitsAll]
  | succ n ih =>
    obtain ⟨hphase, hreceived⟩ := hsettled n (Nat.lt_succ_self n)
    have hforwarded := logOf_succ hslot hscratch hrun n
    rw [hphase, hreceived, ih fun i hi ↦ hsettled i (Nat.lt_succ_of_lt hi)] at hforwarded
    rw [filter_fitsAll_succ, ← hforwarded]
    exact (List.append_nil _).symm

end Logs

/-! ### A chain of two relays -/

/-- The first bus of the chain has slots of two bytes, the others have slots of one. -/
def narrowing (i : ℕ) : Geometry := if i = 0 then wideGeometry else tinyGeometry

theorem narrowing_slotBytes (i : ℕ) : (narrowing i).slotBytes ≤ 2 := by
  unfold narrowing
  split_ifs <;> decide

/-- The steps of a chain that no use of the buses rules out. -/
def ChainAction.Plain : ChainAction → Prop
  | .relay _ | .bus 0 (.producer _ _) | .bus _ (.subscriber _ .next) => True
  | _ => False

instance ChainAction.Plain.decidable : ∀ action : ChainAction, Decidable action.Plain
  | .relay _ => isTrue trivial
  | .bus 0 (.producer _ _) => isTrue trivial
  | .bus (_ + 1) (.producer _ _) => isFalse not_false
  | .bus 0 (.subscriber _ .next) => isTrue trivial
  | .bus (_ + 1) (.subscriber _ .next) => isTrue trivial
  | .bus 0 (.subscriber _ .subscribe) => isFalse not_false
  | .bus (_ + 1) (.subscriber _ .subscribe) => isFalse not_false
  | .bus 0 (.reader _ _) => isFalse not_false
  | .bus (_ + 1) (.reader _ _) => isFalse not_false

theorem ChainAction.Plain.chainUse {action : ChainAction} (hplain : action.Plain)
    (s : ChainState) : ChainUse s action ∧ FedFirst action := by
  unfold ChainAction.Plain at hplain
  split at hplain
  · exact ⟨trivial, trivial⟩
  · exact ⟨⟨⟨trivial, trivial⟩, trivial⟩, trivial⟩
  · rename_i i h
    exact ⟨⟨⟨trivial, trivial⟩, trivial⟩, by cases i <;> trivial⟩
  · cases hplain

/-- A run in which both relays have joined first, the first message has gone all the way, and the
second one is too large for the second bus. -/
theorem exists_narrowing_run : ∃ (trace : List ChainEvent) (s : ChainState),
    Run (chainSystem narrowing (fun _ ↦ 2) fun _ _ ↦ 0)
      (fun _ s action ↦ ChainUse s action ∧ FedFirst action) trace s ∧
    s.phases 0 = .idle ∧ s.phases 1 = .idle ∧ logOf 0 trace = [[7], [8, 9]] ∧
    logOf 1 trace = [[7]] ∧ logOf 2 trace = [[7]] ∧
    received 0 (busTrace 0 trace) = [[7], [8, 9]] ∧ received 0 (busTrace 1 trace) = [[7]] := by
  let system := chainSystem narrowing (fun _ ↦ 2) fun _ _ ↦ 0
  let use : Guard ChainState ChainAction ChainEvent :=
    fun _ s action ↦ ChainUse s action ∧ FedFirst action
  let first : ChainAction := .bus 0 (.subscriber 0 .subscribe)
  let second : ChainAction := .bus 1 (.subscriber 0 .subscribe)
  let rest : List ChainAction :=
    [List.replicate 2 (.bus 0 (.subscriber 0 .next)),
      List.replicate 2 (.bus 1 (.subscriber 0 .next)),
      .bus 0 (.producer 0 (.publish [7])) ::
        List.replicate 13 (.bus 0 (.producer 0 (.next false))),
      List.replicate 20 (.relay 0), List.replicate 19 (.relay 1),
      .bus 0 (.producer 0 (.publish [8, 9])) ::
        List.replicate 14 (.bus 0 (.producer 0 (.next false))),
      List.replicate 7 (.relay 0)].flatten
  have hplain : ∀ action ∈ rest, action.Plain := by decide
  have hphases : (system.exec system.init (first :: second :: rest)).map
      (fun result ↦ (result.1.phases 0, result.1.phases 1)) = some (.idle, .idle) := by
    decide +kernel
  have hlogs : (system.exec system.init (first :: second :: rest)).map
      (fun result ↦ [logOf 0 result.2, logOf 1 result.2, logOf 2 result.2,
        received 0 (busTrace 0 result.2), received 0 (busTrace 1 result.2)]) =
      some [[[7], [8, 9]], [[7]], [[7]], [[7], [8, 9]], [[7]]] := by decide +kernel
  have hpermitted : Permitted system use [] system.init (first :: second :: rest) := by
    refine ⟨⟨⟨⟨trivial, by decide⟩, fun _ ↦ rfl⟩, trivial⟩, ?_⟩
    refine .cons ⟨⟨⟨trivial, by decide⟩, fun _ ↦ rfl⟩, trivial⟩ ?_
    exact permitted_of_forall fun action hmem _ state ↦ (hplain action hmem).chainUse state
  obtain ⟨⟨s, trace⟩, hfinal, hidle⟩ := Option.map_eq_some_iff.mp hphases
  rw [hfinal] at hlogs
  simp only [Option.map_some, Option.some.injEq, Prod.mk.injEq, List.cons.injEq, and_true]
    at hidle hlogs
  exact ⟨trace, s, run_of_permitted hpermitted hfinal, hidle.1, hidle.2, hlogs⟩

/-- What a chain of relays does. In every run of a chain that is fed at its first bus, whose
subscribe calls come between complete calls of producers: the log of bus `n`, and what any
subscriber of it has received, is a stretch without gaps of the messages of the first bus that fit a
slot of every bus on the way; and it is all of them when the relays on the way are between two calls
and have received all there was. -/
theorem chain_forwards (geometry : ℕ → Geometry) (scratch : ℕ → ℕ) (slabs : ℕ → ℕ → UInt8)
    (hslot : ∀ i, (geometry i).slotBytes < u32Size)
    (hscratch : ∀ i, (geometry i).slotBytes ≤ scratch i) (trace : List ChainEvent) (s : ChainState)
    (hrun : Run (chainSystem geometry scratch slabs)
      (fun _ s action ↦ ChainUse s action ∧ FedFirst action) trace s) (n : ℕ) :
    logOf n trace <:+: (logOf 0 trace).filter (FitsAll geometry n) ∧
    (∀ h, received h (busTrace n trace) <:+: (logOf 0 trace).filter (FitsAll geometry n)) ∧
    ((∀ i < n, s.phases i = .idle ∧ received 0 (busTrace i trace) = logOf i trace) →
      logOf n trace = (logOf 0 trace).filter (FitsAll geometry n)) := by
  have hlog := logOf_stretch hslot hscratch hrun n
  refine ⟨hlog, fun h ↦ ?_, logOf_eq hslot hscratch hrun⟩
  exact (received_stretch (hslot n) (run_chainBus (run_of_fedFirst hrun) n) h).trans hlog

/-- The first message has gone all the way, and the second is too large for the second bus. -/
theorem chain_forwards_two : ∃ trace : List ChainEvent,
    logOf 0 trace = [[7], [8, 9]] ∧ logOf 2 trace = [[7]] ∧
    logOf 2 trace = (logOf 0 trace).filter (FitsAll narrowing 2) := by
  obtain ⟨trace, s, hrun, hfirst, hsecond, hlog, hnext, hlast, hreceived, hforwarded⟩ :=
    exists_narrowing_run
  refine ⟨trace, hlog, hlast, (chain_forwards narrowing (fun _ ↦ 2) _ (fun i ↦ ?_)
    narrowing_slotBytes trace s hrun 2).2.2 fun i hi ↦ ?_⟩
  · exact (narrowing_slotBytes i).trans_lt (by decide)
  · obtain rfl | rfl : i = 0 ∨ i = 1 := by omega
    · exact ⟨hfirst, hreceived.trans hlog.symm⟩
    · exact ⟨hsecond, hforwarded.trans hnext.symm⟩

/-! ### The account of one relay -/

/-- The call has forwarded a message. -/
def isForwarded : RelayResult → Bool
  | .ok (some _) => true
  | _ => false

/-- The call has dropped a message. -/
def isDropped : RelayResult → Bool
  | .error .msgTooLarge => true
  | _ => false

/-- Among the calls that found a message, those with a result are those with that result. -/
theorem countP_settled {kind : RelayResult → Bool} (hkind : kind (.ok none) = false)
    (trace : List RelayEvent) : (settled trace).countP kind = (results trace).countP kind := by
  rw [settled, List.countP_filter]
  refine List.countP_congr fun result _ ↦ ?_
  by_cases hnone : result = .ok none <;> simp [hnone, hkind]

/-- The messages that a relay has taken are those it has forwarded and those it has dropped. -/
theorem countP_outcome (dst : Geometry) (taken : List Message) :
    (taken.map (outcome dst)).countP isForwarded = (fitting dst taken).length ∧
      (taken.map (outcome dst)).countP isForwarded + (taken.map (outcome dst)).countP isDropped =
        taken.length := by
  induction taken with
  | nil => exact ⟨rfl, rfl⟩
  | cons message taken ih =>
    obtain ⟨hforwarded, htotal⟩ := ih
    rw [List.map_cons, List.countP_cons, List.countP_cons]
    by_cases hlarge : dst.slotBytes < message.length
    · have houtcome : outcome dst message = .error .msgTooLarge := if_pos hlarge
      have hfitting : fitting dst (message :: taken) = fitting dst taken :=
        List.filter_cons_of_neg (by simpa using hlarge)
      rw [houtcome, hfitting]
      simp only [isForwarded, isDropped, List.length_cons, Bool.false_eq_true, if_false, if_true]
      omega
    · have houtcome : outcome dst message = .ok (some message.length) := if_neg hlarge
      have hfitting : fitting dst (message :: taken) = message :: fitting dst taken :=
        List.filter_cons_of_pos (by simpa using hlarge)
      rw [houtcome, hfitting]
      simp only [isForwarded, isDropped, List.length_cons, Bool.false_eq_true, if_false, if_true]
      omega

/-- The counters of a relay add up. In every run of a chain that is fed at its first bus, when a
relay is between two calls: it has forwarded or dropped each message it has taken; no more than its
source has; what it has forwarded is what its destination has; and no subscriber there has received
more. A `relay_once` call of the run has no other error than that the message is too large. -/
theorem pipeline_adds_up (geometry : ℕ → Geometry) (scratch : ℕ → ℕ) (slabs : ℕ → ℕ → UInt8)
    (hslot : ∀ i, (geometry i).slotBytes < u32Size)
    (hscratch : ∀ i, (geometry i).slotBytes ≤ scratch i) (trace : List ChainEvent) (s : ChainState)
    (hrun : Run (chainSystem geometry scratch slabs)
      (fun _ s action ↦ ChainUse s action ∧ FedFirst action) trace s) (i : ℕ) :
    (s.phases i = .idle →
      (results (relayTrace i trace)).countP isForwarded +
          (results (relayTrace i trace)).countP isDropped =
        (received 0 (busTrace i trace)).length ∧
      (received 0 (busTrace i trace)).length ≤ (logOf i trace).length ∧
      (results (relayTrace i trace)).countP isForwarded = (logOf (i + 1) trace).length ∧
      ∀ h, (received h (busTrace (i + 1) trace)).length ≤
        (results (relayTrace i trace)).countP isForwarded) ∧
    ∀ error, .error error ∈ results (relayTrace i trace) → error = .msgTooLarge := by
  have huse := run_of_fedFirst hrun
  have hinv := relayInv_run (hslot i) (hscratch i) (run_pair huse i)
  refine ⟨fun hphase ↦ ?_, fun error hmem ↦ ?_⟩
  · obtain ⟨-, haccounted⟩ := hinv.at_rest hphase
    obtain ⟨hforwarded, htotal⟩ :=
      countP_outcome (geometry (i + 1)) (received 0 (busTrace i trace))
    rw [sourceTrace_relayTrace] at haccounted
    rw [← haccounted, countP_settled rfl] at hforwarded htotal
    rw [countP_settled rfl] at htotal
    have hlog := logOf_succ hslot hscratch hrun i
    rw [hphase] at hlog
    have hlength : (results (relayTrace i trace)).countP isForwarded =
        (logOf (i + 1) trace).length := by
      rw [hforwarded, ← hlog]
      exact congrArg List.length (List.append_nil _)
    refine ⟨htotal, (received_stretch (hslot i) (run_chainBus huse i) 0).length_le, hlength,
      fun h ↦ ?_⟩
    rw [hlength]
    exact (received_stretch (hslot (i + 1)) (run_chainBus huse (i + 1)) h).length_le
  · have hfound : .error error ∈ settled (relayTrace i trace) ++ (s.pair i).phase.owed :=
      List.mem_append_left _ (List.mem_filter.mpr ⟨hmem, by simp⟩)
    rw [hinv.accounted, List.mem_map] at hfound
    obtain ⟨message, -, hresult⟩ := hfound
    unfold outcome at hresult
    split_ifs at hresult
    exact (Except.error.inj hresult).symm

/-- The first relay has forwarded one message and dropped one. -/
theorem pipeline_adds_up_two : ∃ trace : List ChainEvent,
    (received 0 (busTrace 0 trace)).length = 2 ∧
    (results (relayTrace 0 trace)).countP isForwarded = 1 ∧
    (results (relayTrace 0 trace)).countP isForwarded +
      (results (relayTrace 0 trace)).countP isDropped = (received 0 (busTrace 0 trace)).length := by
  obtain ⟨trace, s, hrun, hfirst, -, -, hnext, -, hreceived, -⟩ := exists_narrowing_run
  obtain ⟨hrest, -⟩ := pipeline_adds_up narrowing (fun _ ↦ 2) _
    (fun i ↦ (narrowing_slotBytes i).trans_lt (by decide)) narrowing_slotBytes trace s hrun 0
  obtain ⟨htotal, -, hforwarded, -⟩ := hrest hfirst
  exact ⟨trace, by rw [hreceived]; rfl, by rw [hforwarded, hnext]; rfl, htotal⟩

end AarnnNsys.Bus
