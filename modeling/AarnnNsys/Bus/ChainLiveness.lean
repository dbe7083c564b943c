import AarnnNsys.Bus.Quiescence
import AarnnNsys.Bus.Chain

/-!
# Every message gets through a chain of relays

A relay that waits for space on its destination does not read its source, so that each bus of a
chain depends on the next one to treat its readers fairly. In a fair behaviour of a finite chain of
relays (`ChainFair`) nobody waits for ever nevertheless: seen from its last bus the behaviour is
fair (`Fair`), and what is fair on the destination of a relay is fair on its source
(`fair_chainBus`), because there every `publish` call of the relay returns (`relay_returns`).

`chain_delivers` is the result: every message that is claimed on the first bus and fits all slots on
the way gets to the last one, in its order, and to the subscribers there.
-/

set_option autoImplicit false
set_option relaxedAutoImplicit false

namespace AarnnNsys.Bus

open Function Lib

/-! ### Fair behaviours of a chain -/

/-- The steps of a chain of `length` relays: after the last bus nothing is relayed, and handle `0`
belongs to a relay. -/
def Within (length : ℕ) : ChainAction → Prop
  | .relay i => i < length
  | .bus i (.subscriber h _) => h = 0 → i < length
  | _ => True

/-- The steps of a chain of `length` relays that is fed at its first bus and serves its
subscribers. -/
structure ChainServes (geometry : ℕ → Geometry) (length : ℕ) (s : ChainState)
    (action : ChainAction) : Prop where
  fedFirst : FedFirst action
  within : Within length action
  bus : ∀ i act, action = .bus i act →
    Disciplined (s.buses i) act ∧ JoinsBetween (s.buses i) act ∧ Roomy (geometry i) act

/-- A relay that is in a call, or has an unread message. -/
def ChainState.RelayWorking (geometry : ℕ → Geometry) (i : ℕ) (s : ChainState) : Prop :=
  s.phases i ≠ .idle ∨ (s.buses i).HasUnread (geometry i) 0

variable {geometry : ℕ → Geometry} {scratch : ℕ → ℕ} {slabs : ℕ → ℕ → UInt8}

/-- Every thread of a chain with something to do takes a step. -/
structure ChainFair (length : ℕ) (b : Behaviour (chainSystem geometry scratch slabs)) : Prop where
  producers : ∀ p, b.WeaklyFair (fun s ↦ ((s.buses 0).producers p).Working)
    fun action ↦ ∃ act, action = .bus 0 (.producer p act)
  subscribers : ∀ i h, b.WeaklyFair (fun s ↦ ((s.buses i).subscribers h).Working)
    fun action ↦ ∃ act, action = .bus i (.subscriber h act)
  readers : ∀ i h, h ≠ 0 → b.WeaklyFair (fun s ↦ (s.buses i).HasUnread (geometry i) h)
    fun action ↦ ∃ act, action = .bus i (.reader h act)
  relays : ∀ i < length, b.WeaklyFair (fun s ↦ s.RelayWorking geometry i)
    fun action ↦ action = .relay i

/-! ### Each bus of a behaviour -/

/-- What an action of a chain does on bus `k`. -/
def ChainAction.onBus (scratch : ℕ → ℕ) (k : ℕ) (s : ChainState) (action : ChainAction) :
    Option Action :=
  if (action.operation scratch s).1 = k then some (action.operation scratch s).2 else none

/-- What does nothing on a bus leaves it as it is. -/
theorem chainStep_silent {s s' : ChainState} {action : ChainAction} {events : List ChainEvent}
    {k : ℕ} (hstep : chainStep geometry scratch s action = some (s', events))
    (hother : action.onBus scratch k s = none) :
    s'.buses k = s.buses k ∧ busTrace k events = [] := by
  obtain ⟨⟨i, operation⟩, hoperation⟩ : ∃ operation, action.operation scratch s = operation :=
    ⟨_, rfl⟩
  obtain ⟨bus, reported, j, results, -, hbuses, rfl⟩ := chainStep_bus hstep hoperation
  have hne : i ≠ k := by
    rintro rfl
    simp [ChainAction.onBus, hoperation] at hother
  refine ⟨by rw [hbuses, update_of_ne (Ne.symm hne)], ?_⟩
  rw [busTrace_append, busTrace_map_returned, List.append_nil, busTrace_map_bus, if_neg hne]

/-- What does something on a bus is a step of it. -/
theorem chainStep_seen {s s' : ChainState} {action : ChainAction} {events : List ChainEvent}
    {k : ℕ} {operation : Action} (hstep : chainStep geometry scratch s action = some (s', events))
    (hown : action.onBus scratch k s = some operation) :
    step (geometry k) (s.buses k) operation = some (s'.buses k, busTrace k events) := by
  simp only [ChainAction.onBus, Option.ite_none_right_eq_some, Option.some.injEq] at hown
  obtain ⟨hk, hact⟩ := hown
  obtain ⟨bus, reported, j, results, hbus, hbuses, rfl⟩ :=
    chainStep_bus hstep (Prod.ext hk hact)
  rw [busTrace_append, busTrace_map_returned, List.append_nil, busTrace_map_bus, if_pos rfl, hbuses,
    update_self]
  exact hbus

/-- A behaviour of a chain, as seen from bus `k`. -/
def chainBus (b : Behaviour (chainSystem geometry scratch slabs)) (k : ℕ) :
    Behaviour (busSystem (geometry k) (slabs k)) :=
  b.project (fun s ↦ s.buses k) (ChainEvent.bus? k) (fun s action ↦ action.onBus scratch k s) rfl
    chainStep_silent chainStep_seen

@[simp] theorem chainBus_state (b : Behaviour (chainSystem geometry scratch slabs)) (k n : ℕ) :
    (chainBus b k).state n = (b.state n).buses k := rfl

@[simp] theorem chainBus_trace (b : Behaviour (chainSystem geometry scratch slabs)) (k n : ℕ) :
    (chainBus b k).trace n = busTrace k (b.trace n) := Behaviour.trace_project n

section Serves

variable {length : ℕ} {b : Behaviour (chainSystem geometry scratch slabs)}

/-- A chain that serves its subscribers is used as it may be. -/
theorem ChainServes.chainUse {s : ChainState} {action : ChainAction}
    (hserves : ChainServes geometry length s action) : ChainUse s action ∧ FedFirst action := by
  refine ⟨?_, hserves.fedFirst⟩
  cases action with
  | bus i act =>
    obtain ⟨hdisciplined, hbetween, -⟩ := hserves.bus i act rfl
    exact ⟨hdisciplined.keepsHandles, hbetween⟩
  | relay i => trivial

/-- How the buses of a chain are used that serves its subscribers. -/
theorem run_of_serves {trace : List ChainEvent} {s : ChainState}
    (hrun : Run (chainSystem geometry scratch slabs) (fun _ ↦ ChainServes geometry length)
      trace s) :
    Run (chainSystem geometry scratch slabs) (fun _ s action ↦ ChainUse s action ∧ FedFirst action)
      trace s :=
  hrun.strengthen fun _ hserves _ ↦ hserves.chainUse

/-- Each bus of a chain serves its subscribers. -/
theorem chainBus_allowed (hslot : ∀ i, (geometry i).slotBytes < u32Size)
    (hscratch : ∀ i, (geometry i).slotBytes ≤ scratch i)
    (hallowed : b.Allowed fun _ ↦ ChainServes geometry length) (k : ℕ) :
    (chainBus b k).Allowed fun _ ↦ Serves (geometry k) := by
  refine Behaviour.allowed_project hallowed ?_
  intro trace s action operation hrun hserves hown
  have hbus := run_chainBus (run_of_fedFirst (run_of_serves hrun)) k
  have howners := ownersInv_run (fun _ _ _ huse ↦ huse.1.2) hbus
  have hcounted := allCounted_run (fun _ _ _ huse ↦ huse.2) hbus
  simp only [ChainAction.onBus, Option.ite_none_right_eq_some, Option.some.injEq] at hown
  obtain ⟨rfl, rfl⟩ := hown
  suffices hkind : Disciplined (s.buses (action.operation scratch s).1)
      (action.operation scratch s).2 ∧
        Roomy (geometry (action.operation scratch s).1) (action.operation scratch s).2 from
    ⟨⟨hkind.1, narrowCall_of_slotBytes (hslot _) _, (hcounted.countsAll _).countsJoined howners⟩,
      hkind.2⟩
  cases action with
  | bus i act =>
    obtain ⟨hdisciplined, -, hroomy⟩ := hserves.bus i act rfl
    exact ⟨hdisciplined, hroomy⟩
  | relay i =>
    simp only [ChainAction.operation]
    cases s.phases i with
    | idle => exact ⟨rfl, hscratch i⟩
    | receiving | publishing message | waiting size => exact ⟨trivial, trivial⟩

end Serves

/-! ### What others leave alone -/

/-- A relay is about to publish a message, or is publishing it. -/
def RelayPhase.Sending : RelayPhase → Prop
  | .publishing _ | .waiting _ => True
  | _ => False

section Steps

variable {s s' : ChainState} {action : ChainAction} {events : List ChainEvent}

/-- A relay stays where it is in the steps of others. -/
theorem chainStep_phases (hstep : chainStep geometry scratch s action = some (s', events)) {i : ℕ}
    (hother : action ≠ .relay i) : s'.phases i = s.phases i := by
  cases action with
  | bus j act =>
    simp only [chainStep, Option.ite_none_right_eq_some, Option.map_eq_some_iff, Prod.mk.injEq,
      Prod.exists] at hstep
    obtain ⟨-, bus, reported, -, rfl, -⟩ := hstep
    rfl
  | relay j =>
    simp only [chainStep, Option.map_eq_some_iff, Prod.mk.injEq, Prod.exists] at hstep
    obtain ⟨pair, reported, -, rfl, -⟩ := hstep
    refine update_of_ne ?_ _ _
    rintro rfl
    exact hother rfl

/-- After a step of `publish` the call goes on or has returned. -/
theorem afterPublish_phase {length : ℕ} {result : Option (Except BusError Unit)}
    {phase : RelayPhase} {results : List RelayResult}
    (hafter : afterPublish length result = (phase, results)) :
    phase = .idle ∨ ∃ length, phase = .waiting length := by
  rcases result with _ | error | _ <;> cases hafter
  · exact .inr ⟨length, rfl⟩
  · exact .inl rfl
  · exact .inl rfl

/-- A relay that is publishing and takes a step is in its `publish` call or has returned. -/
theorem chainStep_sending {i : ℕ}
    (hstep : chainStep geometry scratch s (.relay i) = some (s', events))
    (hsending : (s.phases i).Sending) :
    s'.phases i = .idle ∨ ∃ length, s'.phases i = .waiting length := by
  simp only [chainStep, Option.map_eq_some_iff, Prod.mk.injEq, Prod.exists] at hstep
  obtain ⟨pair, reported, hnext, rfl, -⟩ := hstep
  have hrelay : relayStep (geometry i) (geometry (i + 1)) (scratch i) (s.pair i) .relay =
      some (pair, reported) := hnext
  have hphase : (s.setPair i pair).phases i = pair.phase := update_self _ _ _
  rw [hphase]
  cases relayStep_cases hrelay with
  | call hidle =>
    rw [show s.phases i = .idle from hidle] at hsending
    exact absurd hsending not_false
  | receive hreceiving =>
    rw [show s.phases i = .receiving from hreceiving] at hsending
    exact absurd hsending not_false
  | publish hpublishing hbus hafter | wait hwaiting hbus hafter => exact afterPublish_phase hafter

/-- A `publish` call in flight claims no further number. -/
theorem ProducerStep.claimSeq_eq {g : Geometry} {m m' : Mem} {t t' : Producer} {b : Bool}
    {events : List ProducerEvent} (hstep : ProducerStep g m t (.next b) m' t' events)
    (hpublishing : t.Publishing) : m'.claimSeq = m.claimSeq := by
  cases hstep with
  | claim b claim hpc => exact absurd hpc (hpublishing.reserved claim)
  | _ => rfl

/-- Only producers claim numbers. -/
theorem BusStep.claimSeq_eq {g : Geometry} {s s' : State} {action : Action} {events : List Event}
    (hstep : BusStep g s action s' events) (hother : ∀ p act, action ≠ .producer p act) :
    s'.mem.claimSeq = s.mem.claimSeq := by
  cases hstep with
  | producer hthread => exact absurd rfl (hother _ _)
  | subscriber hthread => cases hthread <;> rfl
  | reader hthread => cases hthread <;> rfl

/-- While a relay is in its `publish` call nothing is claimed on its destination. -/
theorem chainStep_claimSeq {i size : ℕ} (hfed : FedFirst action)
    (hstep : chainStep geometry scratch s action = some (s', events))
    (hwaiting : s.phases i = .waiting size)
    (hpublishing : ((s.buses (i + 1)).producers 0).Publishing) :
    (s'.buses (i + 1)).mem.claimSeq = (s.buses (i + 1)).mem.claimSeq := by
  cases hown : action.onBus scratch (i + 1) s with
  | none => rw [(chainStep_silent hstep hown).1]
  | some operation =>
    have hbus := step_cases (chainStep_seen hstep hown)
    simp only [ChainAction.onBus, Option.ite_none_right_eq_some, Option.some.injEq] at hown
    obtain ⟨hk, hact⟩ := hown
    cases action with
    | bus j act =>
      obtain rfl : j = i + 1 := hk
      obtain rfl : act = operation := hact
      refine hbus.claimSeq_eq fun p claiming hclaiming ↦ ?_
      subst hclaiming
      exact hfed
    | relay j =>
      obtain ⟨-, ⟨-, act, hact'⟩ | ⟨hj, -⟩⟩ := RelayPhase.operation_cases (Prod.ext hk hact)
      · subst hact'
        exact hbus.claimSeq_eq fun p claiming hclaiming ↦ by cases hclaiming
      · obtain rfl : i = j := Nat.succ_injective hj
        simp only [ChainAction.operation, RelayPhase.operation, hwaiting] at hact
        subst hact
        generalize s'.buses (i + 1) = bus, busTrace (i + 1) events = reported at hbus ⊢
        cases hbus with
        | producer hthread => exact hthread.claimSeq_eq hpublishing

end Steps

/-! ### Threads that take no step -/

section Idle

variable {guard : Guard ChainState ChainAction ChainEvent} {trace : List ChainEvent}
  {s : ChainState} {k : ℕ}

/-- A step of a producer on bus `k` is its own or that of the relay to `k`. -/
theorem onBus_producer {action : ChainAction} {p : ℕ} {act : ProducerAct}
    (hown : action.onBus scratch k s = some (.producer p act)) :
    action = .bus k (.producer p act) ∨ p = 0 ∧ 0 < k := by
  simp only [ChainAction.onBus, Option.ite_none_right_eq_some, Option.some.injEq] at hown
  obtain ⟨hk, hact⟩ := hown
  cases action with
  | bus j operation =>
    obtain rfl : j = k := hk
    exact .inl (congrArg _ hact)
  | relay j =>
    obtain ⟨-, ⟨-, other, hother⟩ | ⟨rfl, other, hother⟩⟩ :=
      RelayPhase.operation_cases (Prod.ext hk hact)
    · cases hother
    · exact .inr ⟨(Action.producer.inj hother).1, Nat.succ_pos j⟩

/-- A step of a subscribe call on bus `k` is its own. -/
theorem onBus_subscriber {action : ChainAction} {h : ℕ} {act : SubscriberAct}
    (hown : action.onBus scratch k s = some (.subscriber h act)) :
    action = .bus k (.subscriber h act) := by
  simp only [ChainAction.onBus, Option.ite_none_right_eq_some, Option.some.injEq] at hown
  obtain ⟨hk, hact⟩ := hown
  cases action with
  | bus j operation =>
    obtain rfl : j = k := hk
    exact congrArg _ hact
  | relay j =>
    obtain ⟨-, ⟨-, other, hother⟩ | ⟨-, other, hother⟩⟩ :=
      RelayPhase.operation_cases (Prod.ext hk hact)
    · cases hother
    · cases hother

/-- A producer of bus `k` that takes no step has no call. -/
theorem producer_idle {p : ℕ}
    (hnever : ∀ trace s action act, guard trace s action →
      action.onBus scratch k s ≠ some (.producer p act))
    (hrun : Run (chainSystem geometry scratch slabs) guard trace s) :
    (s.buses k).producers p = .idle := by
  refine hrun.invariant (fun _ s ↦ (s.buses k).producers p = .idle) rfl ?_
  intro trace s action s' events _ hidle hallowed hstep
  cases hown : action.onBus scratch k s with
  | none => rw [(chainStep_silent hstep hown).1, hidle]
  | some operation =>
    rw [(step_cases (chainStep_seen hstep hown)).producers_eq, hidle]
    rintro ⟨act, rfl⟩
    exact hnever trace s action act hallowed hown

/-- A handle of bus `k` whose call takes no step is not subscribed. -/
theorem unsubscribed {h : ℕ}
    (hnever : ∀ trace s action act, guard trace s action →
      action ≠ .bus k (.subscriber h act))
    (hrun : Run (chainSystem geometry scratch slabs) guard trace s) :
    (s.buses k).subscribers h = .unsubscribed := by
  refine hrun.invariant (fun _ s ↦ (s.buses k).subscribers h = .unsubscribed) rfl ?_
  intro trace s action s' events _ hnone hallowed hstep
  cases hown : action.onBus scratch k s with
  | none => rw [(chainStep_silent hstep hown).1, hnone]
  | some operation =>
    rw [(step_cases (chainStep_seen hstep hown)).subscribers_eq, hnone]
    rintro ⟨act, rfl⟩
    exact hnever trace s action act hallowed (onBus_subscriber hown)

/-- On the buses after the first only the relays are producers. -/
theorem producers_idle {length : ℕ}
    (hrun : Run (chainSystem geometry scratch slabs) (fun _ ↦ ChainServes geometry length) trace s)
    (i : ℕ) {p : ℕ} (hp : p ≠ 0) : (s.buses (i + 1)).producers p = .idle := by
  refine producer_idle (fun trace s action act hserves hown ↦ ?_) hrun
  rcases onBus_producer hown with rfl | ⟨hzero, -⟩
  · exact hserves.fedFirst
  · exact hp hzero

/-- Nobody joins the last bus in the place of a relay. -/
theorem last_unsubscribed {length : ℕ}
    (hrun : Run (chainSystem geometry scratch slabs) (fun _ ↦ ChainServes geometry length)
      trace s) : (s.buses length).subscribers 0 = .unsubscribed := by
  refine unsubscribed (fun trace s action act hserves hact ↦ ?_) hrun
  subst hact
  exact lt_irrefl length (hserves.within rfl)

end Idle

/-! ### Relays do not wait for ever -/

section Live

variable {length : ℕ} {b : Behaviour (chainSystem geometry scratch slabs)}

/-- What the phase of a relay says of its threads. -/
theorem relay_threads (hslot : ∀ i, (geometry i).slotBytes < u32Size)
    (hscratch : ∀ i, (geometry i).slotBytes ≤ scratch i)
    (hallowed : b.Allowed fun _ ↦ ChainServes geometry length) (i n : ℕ) :
    ((b.state n).phases i).Threads (geometry (i + 1)) (scratch i)
      (((b.state n).buses i).readers 0) (((b.state n).buses (i + 1)).producers 0) :=
  (relayInv_run (hslot i) (hscratch i)
    (run_pair (run_of_fedFirst (run_of_serves (Behaviour.run hallowed n))) i)).threads

/-- Where the destination is fair, the `publish` calls of a relay return. -/
theorem relay_returns (hslot : ∀ i, (geometry i).slotBytes < u32Size)
    (hscratch : ∀ i, (geometry i).slotBytes ≤ scratch i)
    (hallowed : b.Allowed fun _ ↦ ChainServes geometry length) (hfair : ChainFair length b) {i : ℕ}
    (hi : i < length) (hnext : Fair (chainBus b (i + 1))) (n : ℕ) :
    ∃ m ≥ n, ¬ ((b.state m).phases i).Sending := by
  by_contra hstuck
  push Not at hstuck
  -- the relay takes a step, and from then on it is inside `publish`
  obtain ⟨first, hfirst, act, haction, rfl⟩ := hfair.relays i hi n fun m hm ↦ .inl fun hidle ↦ by
    have hsending := hstuck m hm
    rw [hidle] at hsending
    exact hsending
  have hwaiting : ∀ m ≥ first + 1, ∃ size, (b.state m).phases i = .waiting size := by
    have hgoes : ∀ m ≥ n, b.action m = some (.relay i) →
        ∃ size, (b.state (m + 1)).phases i = .waiting size := by
      intro m hm haction
      rcases chainStep_sending (b.taken m _ haction) (hstuck m hm) with hidle | hwait
      · have hsending := hstuck (m + 1) (by omega)
        rw [hidle] at hsending
        exact absurd hsending not_false
      · exact hwait
    intro m hm
    induction m, hm using Nat.le_induction with
    | base => exact hgoes first hfirst haction
    | succ m hm ih =>
      cases hact : b.action m with
      | none => rwa [(b.idle m hact).1]
      | some act =>
        by_cases hown : act = .relay i
        · subst hown
          exact hgoes m (by omega) hact
        · rwa [chainStep_phases (b.taken m act hact) hown]
  have hpublishing : ∀ m ≥ first + 1, (((b.state m).buses (i + 1)).producers 0).Publishing := by
    intro m hm
    obtain ⟨size, hsize⟩ := hwaiting m hm
    have hthreads := relay_threads hslot hscratch hallowed i m
    rw [hsize] at hthreads
    exact hthreads.2
  -- meanwhile nothing is claimed there, so that the call returns
  have hstop : ∀ m ≥ first + 1, ((b.state m).buses (i + 1)).mem.claimSeq =
      ((b.state (first + 1)).buses (i + 1)).mem.claimSeq := by
    intro m hm
    induction m, hm using Nat.le_induction with
    | base => rfl
    | succ m hm ih =>
      cases hact : b.action m with
      | none => rw [(b.idle m hact).1, ih]
      | some act =>
        obtain ⟨size, hsize⟩ := hwaiting m hm
        rw [chainStep_claimSeq (hallowed m act hact).fedFirst (b.taken m act hact) hsize
          (hpublishing m hm), ih]
  obtain ⟨m, hm, hidle⟩ :=
    calls_return (chainBus_allowed hslot hscratch hallowed (i + 1)) hnext hstop 0
  exact (hpublishing m hm).active hidle

/-- The producers of every bus of a fair chain are treated fairly there. -/
theorem chainBus_producers (hslot : ∀ i, (geometry i).slotBytes < u32Size)
    (hscratch : ∀ i, (geometry i).slotBytes ≤ scratch i)
    (hallowed : b.Allowed fun _ ↦ ChainServes geometry length) (hfair : ChainFair length b) {k : ℕ}
    (hk : k ≤ length) (p : ℕ) : (chainBus b k).WeaklyFair (fun s ↦ (s.producers p).Working)
      fun action ↦ ∃ act, action = .producer p act := by
  cases k with
  | zero =>
    refine Behaviour.weaklyFair_project (hfair.producers p) (fun _ hworking ↦ hworking) ?_
    rintro s action ⟨act, rfl⟩
    exact ⟨_, if_pos rfl, act, rfl⟩
  | succ i =>
    intro n hworking
    by_cases hp : p = 0
    · subst hp
      have hwaiting : ∀ m ≥ n, ∃ size, (b.state m).phases i = .waiting size := by
        intro m hm
        have hthreads := relay_threads hslot hscratch hallowed i m
        have hactive := (hworking m hm).1
        cases hphase : (b.state m).phases i with
        | waiting size => exact ⟨size, rfl⟩
        | idle =>
          rw [hphase] at hthreads
          exact absurd hthreads.2 hactive
        | receiving =>
          rw [hphase] at hthreads
          exact absurd hthreads.2.2 hactive
        | publishing message =>
          rw [hphase] at hthreads
          exact absurd hthreads.2.1 hactive
      obtain ⟨m, hm, act, haction, rfl⟩ := hfair.relays i hk n fun m hm ↦ .inl fun hidle ↦ by
        obtain ⟨size, hsize⟩ := hwaiting m hm
        cases hidle.symm.trans hsize
      obtain ⟨size, hsize⟩ := hwaiting m hm
      refine ⟨m, hm, .producer 0 (.next false), ?_, _, rfl⟩
      refine Option.bind_eq_some_iff.mpr ⟨_, haction, ?_⟩
      simp [ChainAction.onBus, ChainAction.operation, RelayPhase.operation, hsize]
    · have hidle := producers_idle (Behaviour.run hallowed n) i hp
      refine absurd ?_ (hworking n le_rfl).1
      rw [chainBus_state, hidle]
      rfl

/-- The subscriber of a relay is treated fairly when the `publish` calls of the relay return. -/
theorem chainBus_relay (hallowed : b.Allowed fun _ ↦ ChainServes geometry length)
    (hfair : ChainFair length b) {k : ℕ} (hk : k ≤ length)
    (hleaves : k < length → ∀ n, ∃ m ≥ n, ¬ ((b.state m).phases k).Sending) :
    (chainBus b k).WeaklyFair (fun s ↦ s.HasUnread (geometry k) 0)
      fun action ↦ ∃ act, action = .reader 0 act := by
  intro n hunread
  rcases hk.lt_or_eq with hlt | rfl
  · have hkept : ∀ n, (∀ act, b.action n = some act → ¬ act = .relay k) →
        ¬ ((b.state n).phases k).Sending → ¬ ((b.state (n + 1)).phases k).Sending := by
      intro n hother hfree
      cases haction : b.action n with
      | none => rwa [(b.idle n haction).1]
      | some act => rwa [chainStep_phases (b.taken n act haction) (hother act haction)]
    obtain ⟨m, hm, act, haction, rfl, hfree⟩ := (hfair.relays k hlt).free
      (fun s ↦ (s.phases k).Sending) hkept (hleaves hlt) fun m hm ↦ .inr (hunread m hm)
    refine ⟨m, hm, ?_⟩
    cases hphase : (b.state m).phases k with
    | idle =>
      refine ⟨.reader 0 (.tryRecv 0 (scratch k)), ?_, _, rfl⟩
      refine Option.bind_eq_some_iff.mpr ⟨_, haction, ?_⟩
      simp [ChainAction.onBus, ChainAction.operation, RelayPhase.operation, hphase]
    | receiving =>
      refine ⟨.reader 0 .next, ?_, _, rfl⟩
      refine Option.bind_eq_some_iff.mpr ⟨_, haction, ?_⟩
      simp [ChainAction.onBus, ChainAction.operation, RelayPhase.operation, hphase]
    | publishing message | waiting size =>
      rw [hphase] at hfree
      exact absurd trivial hfree
  · obtain ⟨id, hready, -⟩ := hunread n le_rfl
    have hnone := last_unsubscribed (Behaviour.run hallowed n)
    cases hready.symm.trans hnone

/-- Every bus of a fair chain is treated fairly. -/
theorem fair_chainBus (hslot : ∀ i, (geometry i).slotBytes < u32Size)
    (hscratch : ∀ i, (geometry i).slotBytes ≤ scratch i)
    (hallowed : b.Allowed fun _ ↦ ChainServes geometry length) (hfair : ChainFair length b) {k : ℕ}
    (hk : k ≤ length) : Fair (chainBus b k) := by
  have hstep : ∀ k ≤ length, (k < length → Fair (chainBus b (k + 1))) → Fair (chainBus b k) := by
    intro k hk hnext
    refine ⟨chainBus_producers hslot hscratch hallowed hfair hk, fun h ↦ ?_, fun h ↦ ?_⟩
    · refine Behaviour.weaklyFair_project (hfair.subscribers k h) (fun _ hworking ↦ hworking) ?_
      rintro s action ⟨act, rfl⟩
      exact ⟨_, if_pos rfl, act, rfl⟩
    · by_cases hh : h = 0
      · subst hh
        exact chainBus_relay hallowed hfair hk fun hlt ↦
          relay_returns hslot hscratch hallowed hfair hlt (hnext hlt)
      · refine Behaviour.weaklyFair_project (hfair.readers k h hh) (fun _ hunread ↦ hunread) ?_
        rintro s action ⟨act, rfl⟩
        exact ⟨_, if_pos rfl, act, rfl⟩
  -- from the last bus to the first: a relay reads its source because its destination takes on
  induction hrest : length - k generalizing k with
  | zero => exact hstep k hk fun hlt ↦ absurd hlt (by omega)
  | succ rest ih => exact hstep k hk fun hlt ↦ ih hlt (by omega)

end Live

/-! ### From one end to the other -/

/-- The messages of the first bus that get to bus `n`, when relay `i` has joined bus `i` at number
`starts i`. -/
def carried (geometry : ℕ → Geometry) (starts : ℕ → ℕ) : ℕ → List Message → List Message
  | 0, log => log
  | n + 1, log => fitting (geometry (n + 1)) ((carried geometry starts n log).drop (starts n))

section Delivery

variable {length : ℕ} {b : Behaviour (chainSystem geometry scratch slabs)}

/-- What is on the source of a relay that has joined gets to its destination. -/
theorem relay_delivers (hslot : ∀ i, (geometry i).slotBytes < u32Size)
    (hscratch : ∀ i, (geometry i).slotBytes ≤ scratch i)
    (hallowed : b.Allowed fun _ ↦ ChainServes geometry length) (hfair : ChainFair length b)
    {i start n : ℕ} (hi : i < length) (hstarted : Started 0 start (busTrace i (b.trace n))) :
    ∃ m ≥ n, fitting (geometry (i + 1)) ((logOf i (b.trace n)).drop start) <+:
      logOf (i + 1) (b.trace m) := by
  rw [← chainBus_trace] at hstarted
  obtain ⟨first, hfirst, hreceived⟩ := receives (chainBus_allowed hslot hscratch hallowed i)
    (fair_chainBus hslot hscratch hallowed hfair hi.le) hstarted
  obtain ⟨m, hm, hfree⟩ := relay_returns hslot hscratch hallowed hfair hi
    (fair_chainBus hslot hscratch hallowed hfair hi) first
  refine ⟨m, hfirst.trans hm, ?_⟩
  have hforwarded := logOf_succ hslot hscratch (run_of_serves (Behaviour.run hallowed m)) i
  have hnone : ((b.state m).phases i).pending = [] := by
    cases hphase : (b.state m).phases i with
    | idle | receiving | waiting size => rfl
    | publishing message =>
      rw [hphase] at hfree
      exact absurd trivial hfree
  rw [hnone, List.append_nil] at hforwarded
  rw [hforwarded]
  have hlater : received 0 (busTrace i (b.trace first)) <+:
      received 0 (busTrace i (b.trace m)) := by
    obtain ⟨later, hlater⟩ := Behaviour.trace_prefix (b := b) hm
    rw [← hlater, busTrace_append, received_append]
    exact List.prefix_append _ _
  rw [chainBus_trace, chainBus_trace, List.map_drop] at hreceived
  exact (hreceived.trans hlater).filter _

/-- What is on the first bus gets to every bus of the chain. -/
theorem chain_reaches (hslot : ∀ i, (geometry i).slotBytes < u32Size)
    (hscratch : ∀ i, (geometry i).slotBytes ≤ scratch i)
    (hallowed : b.Allowed fun _ ↦ ChainServes geometry length) (hfair : ChainFair length b)
    {starts : ℕ → ℕ} {n : ℕ}
    (hstarted : ∀ i < length, Started 0 (starts i) (busTrace i (b.trace n))) {k : ℕ}
    (hk : k ≤ length) : ∃ m ≥ n,
      carried geometry starts k (logOf 0 (b.trace n)) <+: logOf k (b.trace m) := by
  induction k with
  | zero => exact ⟨n, le_rfl, List.prefix_rfl⟩
  | succ k ih =>
    obtain ⟨first, hfirst, hcarried⟩ := ih (by omega)
    have hstarted' : Started 0 (starts k) (busTrace k (b.trace first)) := by
      rw [← chainBus_trace]
      refine started_stable ?_ hfirst
      rw [chainBus_trace]
      exact hstarted k hk
    obtain ⟨m, hm, hforwarded⟩ := relay_delivers hslot hscratch hallowed hfair hk hstarted'
    exact ⟨m, hfirst.trans hm, ((hcarried.drop (starts k)).filter _).trans hforwarded⟩

end Delivery

/-! ### A behaviour of two relays -/

/-- The steps of two relays, of their subscribe calls and of one producer of the first bus. -/
def ChainAction.Lone : ChainAction → Prop
  | .relay i => i < 2
  | .bus i (.producer p _) => i = 0 ∧ p = 0
  | .bus i (.subscriber h _) => i < 2 ∧ h = 0
  | .bus _ (.reader _ _) => False

instance ChainAction.Lone.decidable : ∀ action : ChainAction, Decidable action.Lone
  | .relay i => inferInstanceAs (Decidable (i < 2))
  | .bus i (.producer p _) => inferInstanceAs (Decidable (i = 0 ∧ p = 0))
  | .bus i (.subscriber h _) => inferInstanceAs (Decidable (i < 2 ∧ h = 0))
  | .bus _ (.reader _ _) => isFalse not_false

/-- Such a step serves the subscribers of a chain of two relays, when nobody joins in it. -/
theorem ChainAction.Lone.serves {action : ChainAction} (hlone : action.Lone)
    (hplain : action.Plain) (s : ChainState) : ChainServes narrowing 2 s action := by
  cases action with
  | relay i => exact ⟨trivial, hlone, fun _ _ hact ↦ by cases hact⟩
  | bus i act =>
    cases act with
    | producer p act =>
      obtain ⟨rfl, rfl⟩ := hlone
      refine ⟨trivial, trivial, fun i other hact ↦ ?_⟩
      cases hact
      exact ⟨trivial, trivial, trivial⟩
    | subscriber h act =>
      refine ⟨by cases i <;> trivial, fun _ ↦ hlone.1, fun j other hact ↦ ?_⟩
      cases hact
      cases act with
      | subscribe => cases i <;> exact absurd hplain not_false
      | next => exact ⟨trivial, trivial, trivial⟩
    | reader r act => exact absurd hlone not_false

/-- A fair behaviour of two relays and one message: at instant `7` it has been claimed. -/
theorem exists_fair_chain :
    ∃ b : Behaviour (chainSystem narrowing (fun _ ↦ 2) fun _ _ ↦ 0),
      (b.Allowed fun _ ↦ ChainServes narrowing 2) ∧ ChainFair 2 b ∧
      (∀ i < 2, Started 0 0 (busTrace i (b.trace 7))) ∧ logOf 0 (b.trace 7) = [[7]] ∧
      logOf 2 (b.trace 7) = [] := by
  let system := chainSystem narrowing (fun _ ↦ 2) fun _ _ ↦ 0
  let first : ChainAction := .bus 0 (.subscriber 0 .subscribe)
  let second : ChainAction := .bus 1 (.subscriber 0 .subscribe)
  let rest : List ChainAction :=
    [List.replicate 2 (.bus 0 (.subscriber 0 .next)),
      List.replicate 2 (.bus 1 (.subscriber 0 .next)),
      .bus 0 (.producer 0 (.publish [7])) ::
        List.replicate 13 (.bus 0 (.producer 0 (.next false))),
      List.replicate 20 (.relay 0), List.replicate 19 (.relay 1)].flatten
  have hlone : ∀ action ∈ first :: second :: rest, action.Lone := by decide
  have hplain : ∀ action ∈ rest, action.Plain := by decide
  have hlast : (system.exec system.init (first :: second :: rest)).map (fun result ↦
      (((result.1.buses 0).producers 0).pc, (result.1.buses 0).subscribers 0,
        (result.1.buses 1).subscribers 0, result.1.phases 0, result.1.phases 1)) =
      some (.idle, .ready 0, .ready 0, .idle, .idle) := by decide +kernel
  have hread : (system.exec system.init (first :: second :: rest)).map (fun result ↦
      [(result.1.buses 0).mem.subReadSeq 0, (result.1.buses 1).mem.subReadSeq 0,
        (result.1.buses 0).mem.slotSeq 0, (result.1.buses 1).mem.slotSeq 0]) =
      some [1, 1, 1, 1] := by decide +kernel
  obtain ⟨⟨final, reported⟩, hexec, hresult⟩ := Option.map_eq_some_iff.mp hlast
  rw [hexec] at hread
  simp only [Prod.mk.injEq, Option.map_some, Option.some.injEq, List.cons.injEq, and_true]
    at hresult hread
  obtain ⟨hpc, hready, hready', hphase, hphase'⟩ := hresult
  obtain ⟨hcursor, hcursor', hslot, hslot'⟩ := hread
  have hrun : Run system (fun _ _ action ↦ action.Lone) reported final :=
    run_of_permitted (permitted_of_forall (fun action hmem _ _ ↦ hlone action hmem) _ _) hexec
  have hproducers : ∀ p, ((final.buses 0).producers p).pc = .idle := by
    intro p
    by_cases hp : p = 0
    · exact hp ▸ hpc
    · rw [producer_idle (fun trace s action act hallowed hown ↦ ?_) hrun]
      · rfl
      rcases onBus_producer hown with rfl | ⟨hzero, -⟩
      · exact hp hallowed.2
      · exact hp hzero
  have hsubscribers : ∀ i h, (final.buses i).subscribers h = .ready 0 ∧ i < 2 ∧ h = 0 ∨
      (final.buses i).subscribers h = .unsubscribed := by
    intro i h
    by_cases hown : i < 2 ∧ h = 0
    · obtain ⟨hi, rfl⟩ := hown
      obtain rfl | rfl : i = 0 ∨ i = 1 := by omega
      · exact .inl ⟨hready, hi, rfl⟩
      · exact .inl ⟨hready', hi, rfl⟩
    · refine .inr (unsubscribed (fun trace s action act hallowed hact ↦ ?_) hrun)
      subst hact
      exact hown hallowed
  have hunread : ∀ i h, ¬ (final.buses i).HasUnread (narrowing i) h := by
    rintro i h ⟨id, hid, hcommitted⟩
    rcases hsubscribers i h with ⟨hzero, hi, rfl⟩ | hnone
    · obtain rfl : id = 0 := by simpa [hzero] using hid.symm
      obtain rfl | rfl : i = 0 ∨ i = 1 := by omega
      · rw [hcursor] at hcommitted
        have hlt : 1 < (final.buses 0).mem.slotSeq 0 := hcommitted
        omega
      · rw [hcursor'] at hcommitted
        have hlt : 1 < (final.buses 1).mem.slotSeq 0 := hcommitted
        omega
    · cases hid.symm.trans hnone
  have hfair : ChainFair 2 (Behaviour.ofExec hexec) := by
    refine ⟨fun p ↦ ?_, fun i h ↦ ?_, fun i h _ ↦ ?_, fun i hi ↦ ?_⟩ <;>
      apply Behaviour.weaklyFair_ofExec
    · exact fun hworking ↦ hworking.1 (hproducers p)
    · rcases hsubscribers i h with ⟨hzero, -⟩ | hnone
      · rw [hzero]
        exact not_false
      · rw [hnone]
        exact not_false
    · exact hunread i h
    · rintro (hactive | hread)
      · obtain rfl | rfl : i = 0 ∨ i = 1 := by omega
        · exact hactive hphase
        · exact hactive hphase'
      · exact hunread i 0 hread
  have hallowed : (Behaviour.ofExec hexec).Allowed fun _ ↦ ChainServes narrowing 2 := by
    refine Behaviour.allowed_ofExec hexec ⟨⟨trivial, fun _ ↦ by decide, ?_⟩, ?_⟩
    · intro i act hact
      obtain ⟨rfl, rfl⟩ := ChainAction.bus.inj hact
      exact ⟨by decide, fun _ ↦ rfl, trivial⟩
    refine .cons ⟨trivial, fun _ ↦ by decide, ?_⟩ ?_
    · intro i act hact
      obtain ⟨rfl, rfl⟩ := ChainAction.bus.inj hact
      exact ⟨by decide, fun _ ↦ rfl, trivial⟩
    refine permitted_of_forall fun action hmem _ state ↦ ?_
    exact (hlone action (by simp [hmem])).serves (hplain action hmem) state
  have hearly : [logOf 0 (Behaviour.stage system (first :: second :: rest) 7).2,
      logOf 2 (Behaviour.stage system (first :: second :: rest) 7).2] = [[[7]], []] := by
    decide +kernel
  have hjoined : ∀ i < 2, Event.subscriber 0 (.subscribed 0 0) ∈
      busTrace i (Behaviour.stage system (first :: second :: rest) 7).2 := by decide +kernel
  rw [← Behaviour.trace_ofExec hexec] at hearly hjoined
  simp only [List.cons.injEq, and_true] at hearly
  exact ⟨Behaviour.ofExec hexec, hallowed, hfair, fun i hi ↦ ⟨0, hjoined i hi⟩, hearly.1, hearly.2⟩

/-- Every message gets through. Assumes: a behaviour of a chain of `length` relays that treats its
threads fairly and is fed at its first bus, with at most `MAX_SUBSCRIBERS` subscribe calls for each
bus, between complete calls of producers, one thread for each subscriber, buffers for whole slots,
and an instant at which relay `i` has joined bus `i` at number `starts i`. The messages of the first
bus at that instant that are not before a relay's start and fit all slots on the way get to the last
bus, in their order and with nothing between them; and a subscriber there receives them, from its
start on. -/
theorem chain_delivers (geometry : ℕ → Geometry) (scratch : ℕ → ℕ) (slabs : ℕ → ℕ → UInt8)
    (hslot : ∀ i, (geometry i).slotBytes < u32Size)
    (hscratch : ∀ i, (geometry i).slotBytes ≤ scratch i) (length : ℕ)
    (b : Behaviour (chainSystem geometry scratch slabs))
    (hallowed : b.Allowed fun _ ↦ ChainServes geometry length) (hfair : ChainFair length b)
    (starts : ℕ → ℕ) (n : ℕ)
    (hstarted : ∀ i < length, Started 0 (starts i) (busTrace i (b.trace n))) :
    (∃ m ≥ n, carried geometry starts length (logOf 0 (b.trace n)) <+:
      logOf length (b.trace m)) ∧
    ∀ h start, Started h start (busTrace length (b.trace n)) → ∃ m ≥ n,
      (carried geometry starts length (logOf 0 (b.trace n))).drop start <+:
        received h (busTrace length (b.trace m)) := by
  obtain ⟨first, hfirst, hcarried⟩ := chain_reaches hslot hscratch hallowed hfair hstarted le_rfl
  refine ⟨⟨first, hfirst, hcarried⟩, fun h start hjoined ↦ ?_⟩
  rw [← chainBus_trace] at hjoined
  obtain ⟨m, hm, hreceived⟩ := receives (chainBus_allowed hslot hscratch hallowed length)
    (fair_chainBus hslot hscratch hallowed hfair le_rfl) (started_stable hjoined hfirst)
  refine ⟨m, hfirst.trans hm, ?_⟩
  rw [chainBus_trace, chainBus_trace, List.map_drop] at hreceived
  exact (hcarried.drop start).trans hreceived

/-- The one message of the behaviour gets to the last bus. -/
theorem chain_delivers_two : ∃ b : Behaviour (chainSystem narrowing (fun _ ↦ 2) fun _ _ ↦ 0),
    logOf 0 (b.trace 7) = [[7]] ∧ logOf 2 (b.trace 7) = [] ∧
    ∃ m ≥ 7, [[7]] <+: logOf 2 (b.trace m) := by
  obtain ⟨b, hallowed, hfair, hstarted, hlog, hnone⟩ := exists_fair_chain
  obtain ⟨⟨m, hm, hcarried⟩, -⟩ := chain_delivers narrowing (fun _ ↦ 2) _
    (fun i ↦ (narrowing_slotBytes i).trans_lt (by decide)) narrowing_slotBytes 2 b hallowed hfair
    (fun _ ↦ 0) 7 hstarted
  rw [hlog] at hcarried
  exact ⟨b, hlog, hnone, m, hm, hcarried⟩

end AarnnNsys.Bus
