import AarnnNsys.Bus.Step

/-!
# What a step of the bus can do

The step functions of `AarnnNsys.Bus.Step` read off as relations, one case for each atomic operation
with the guard under which it happens and the exact state it leaves: `ProducerStep`,
`SubscriberStep` and `ReaderStep` for one thread, `BusStep` for the whole bus. `step_cases` says the
bus does nothing else. Every invariant of the bus is proved by cases on these relations, so no later
proof unfolds a step function.
-/

set_option autoImplicit false
set_option relaxedAutoImplicit false

namespace AarnnNsys.Bus

open Function Lib

/-! ### One thread -/

/-- The steps of a producer thread, begin steps included. -/
inductive ProducerStep (g : Geometry) (m : Mem) (t : Producer) :
    ProducerAct → Mem → Producer → List ProducerEvent → Prop
  | publishRejected (payload : Message) (hpc : t.pc = .idle)
      (hsize : payload = [] ∨ g.slotBytes < payload.length) :
      ProducerStep g m t (.publish payload) m ⟨true, payload, .idle⟩
        [.called payload, .publishReturned (.error .msgTooLarge)]
  | publish (payload : Message) (hpc : t.pc = .idle) (hne : payload ≠ [])
      (hsize : payload.length ≤ g.slotBytes) :
      ProducerStep g m t (.publish payload) { m with claimSeq := m.claimSeq + 1 }
        ⟨true, payload, .loadSubs m.claimSeq⟩ [.called payload, .claimed m.claimSeq payload]
  | tryPublishRejected (payload : Message) (hpc : t.pc = .idle)
      (hsize : payload = [] ∨ g.slotBytes < payload.length) :
      ProducerStep g m t (.tryPublish payload) m ⟨false, payload, .idle⟩
        [.called payload, .tryPublishReturned (.error .msgTooLarge)]
  | tryPublish (payload : Message) (hpc : t.pc = .idle) (hne : payload ≠ [])
      (hsize : payload.length ≤ g.slotBytes) :
      ProducerStep g m t (.tryPublish payload) m ⟨false, payload, .loadSubs m.claimSeq⟩
        [.called payload]
  | loadSubs (b : Bool) (claim : ℕ) (hpc : t.pc = .loadSubs claim) :
      ProducerStep g m t (.next b) m (t.goto (.loadWrite claim m.nSubs)) []
  | loadWrite (b : Bool) (claim n : ℕ) (hpc : t.pc = .loadWrite claim n) :
      ProducerStep g m t (.next b) m (t.goto (.scan claim n 0 m.writeSeq)) []
  | scanRead (b : Bool) (claim n i minRead : ℕ) (hpc : t.pc = .scan claim n i minRead)
      (hi : i < n) (hmax : i < maxSubscribers) :
      ProducerStep g m t (.next b) m (t.goto (.scan claim n (i + 1) (min (m.subReadSeq i) minRead)))
        []
  | scanPanic (b : Bool) (claim n i minRead : ℕ) (hpc : t.pc = .scan claim n i minRead)
      (hi : i < n) (hmax : maxSubscribers ≤ i) :
      ProducerStep g m t (.next b) m (t.goto (.panicked claim)) [.panicked]
  | pass (b : Bool) (claim n i minRead : ℕ) (hpc : t.pc = .scan claim n i minRead) (hi : n ≤ i)
      (hblocking : t.blocking = true) (hspace : claim < minRead + g.descCapacity) :
      ProducerStep g m t (.next b) m (t.goto (.copy claim 0)) []
  | retry (b : Bool) (claim n i minRead : ℕ) (hpc : t.pc = .scan claim n i minRead) (hi : n ≤ i)
      (hblocking : t.blocking = true) (hfull : minRead + g.descCapacity ≤ claim) :
      ProducerStep g m t (.next b) m (t.goto (.loadSubs claim)) []
  | refuse (b : Bool) (claim n i minRead : ℕ) (hpc : t.pc = .scan claim n i minRead) (hi : n ≤ i)
      (hblocking : t.blocking = false) (hfull : minRead + g.descCapacity ≤ claim) :
      ProducerStep g m t (.next b) m t.finish [.tryPublishReturned (.ok false)]
  | accept (b : Bool) (claim n i minRead : ℕ) (hpc : t.pc = .scan claim n i minRead) (hi : n ≤ i)
      (hblocking : t.blocking = false) (hspace : claim < minRead + g.descCapacity) :
      ProducerStep g m t (.next b) m (t.goto (.casClaim claim)) []
  | claim (b : Bool) (claim : ℕ) (hpc : t.pc = .casClaim claim) (heq : m.claimSeq = claim) :
      ProducerStep g m t (.next b) { m with claimSeq := claim + 1 } (t.goto (.copy claim 0))
        [.claimed claim t.payload]
  | claimLost (b : Bool) (claim : ℕ) (hpc : t.pc = .casClaim claim)
      (hlost : m.claimSeq ≠ claim ∨ b = true) :
      ProducerStep g m t (.next b) m t.finish [.tryPublishReturned (.ok false)]
  | copyByte (b : Bool) (claim k : ℕ) (byte : UInt8) (hpc : t.pc = .copy claim k)
      (hbyte : t.payload[k]? = some byte) :
      ProducerStep g m t (.next b)
        { m with payload := update m.payload (g.payloadOffset (g.idx claim) k) byte }
        (t.goto (.copy claim (k + 1))) []
  | copyDone (b : Bool) (claim k : ℕ) (hpc : t.pc = .copy claim k)
      (hk : t.payload.length ≤ k) :
      ProducerStep g m t (.next b) m (t.goto (.storeDesc claim)) []
  | storeDesc (b : Bool) (claim : ℕ) (hpc : t.pc = .storeDesc claim) :
      ProducerStep g m t (.next b)
        { m with descLen := update m.descLen (g.idx claim) (t.payload.length % u32Size) }
        (t.goto (.storeSeq claim)) []
  | storeSeq (b : Bool) (claim : ℕ) (hpc : t.pc = .storeSeq claim) :
      ProducerStep g m t (.next b)
        { m with slotSeq := update m.slotSeq (g.idx claim) (claim + 1) }
        (t.goto .advanceLoad) [.committed claim]
  | advanceLoad (b : Bool) (hpc : t.pc = .advanceLoad) :
      ProducerStep g m t (.next b) m (t.goto (.advanceSlot m.writeSeq)) []
  | advanceSlot (b : Bool) (w : ℕ) (hpc : t.pc = .advanceSlot w)
      (hcommitted : m.slotSeq (g.idx w) = w + 1) :
      ProducerStep g m t (.next b) m (t.goto (.advanceCas w)) []
  | advanceStop (b : Bool) (w : ℕ) (hpc : t.pc = .advanceSlot w)
      (huncommitted : m.slotSeq (g.idx w) ≠ w + 1) :
      ProducerStep g m t (.next b) m t.finish [t.success]
  | advanceCas (b : Bool) (w : ℕ) (hpc : t.pc = .advanceCas w) (heq : m.writeSeq = w) :
      ProducerStep g m t (.next b) { m with writeSeq := w + 1 } (t.goto .advanceLoad) []
  | advanceLost (b : Bool) (w : ℕ) (hpc : t.pc = .advanceCas w) (hne : m.writeSeq ≠ w) :
      ProducerStep g m t (.next b) m (t.goto .advanceLoad) []

/-- The steps of a subscribe call. -/
inductive SubscriberStep (m : Mem) (pc : SubscriberPc) :
    SubscriberAct → Mem → SubscriberPc → List SubscriberEvent → Prop
  | reject (hpc : pc = .unsubscribed) (hmax : maxSubscribers ≤ m.nSubs) :
      SubscriberStep m pc .subscribe { m with nSubs := (m.nSubs + 1) % u32Size } .rejected
        [.failed .noSubscriberSlots]
  | register (hpc : pc = .unsubscribed) (hmax : m.nSubs < maxSubscribers) :
      SubscriberStep m pc .subscribe { m with nSubs := m.nSubs + 1 } (.loadStart m.nSubs) []
  | loadStart (id : ℕ) (hpc : pc = .loadStart id) :
      SubscriberStep m pc .next m (.storeStart id m.writeSeq) []
  | storeStart (id start : ℕ) (hpc : pc = .storeStart id start) :
      SubscriberStep m pc .next { m with subReadSeq := update m.subReadSeq id start } (.ready id)
        [.subscribed id start]

/-- The steps of a reader thread. -/
inductive ReaderStep (g : Geometry) (handles : ℕ → SubscriberPc) (m : Mem) (t : Reader) :
    ReaderAct → Mem → Reader → List ReaderEvent → Prop
  | tryRecv (h id outLen : ℕ) (hpc : t.pc = .idle) (hready : handles h = .ready id) :
      ReaderStep g handles m t (.tryRecv h outLen) m ⟨h, id, outLen, .loadSeq (m.subReadSeq id)⟩ []
  | loadSeq (seq : ℕ) (hpc : t.pc = .loadSeq seq) (hcommitted : m.slotSeq (g.idx seq) = seq + 1) :
      ReaderStep g handles m t .next m (t.goto (.loadLen seq)) []
  | empty (seq : ℕ) (hpc : t.pc = .loadSeq seq) (hother : m.slotSeq (g.idx seq) ≠ seq + 1) :
      ReaderStep g handles m t .next m t.finish [.returned (.ok none)]
  | loadLen (seq : ℕ) (hpc : t.pc = .loadLen seq) (hle : m.descLen (g.idx seq) ≤ t.outLen) :
      ReaderStep g handles m t .next m (t.goto (.copy seq (m.descLen (g.idx seq)) [])) []
  | tooLarge (seq : ℕ) (hpc : t.pc = .loadLen seq) (hlt : t.outLen < m.descLen (g.idx seq)) :
      ReaderStep g handles m t .next m t.finish [.returned (.error .msgTooLarge)]
  | copyByte (seq len : ℕ) (out : Message) (hpc : t.pc = .copy seq len out)
      (hlt : out.length < len) :
      ReaderStep g handles m t .next m
        (t.goto (.copy seq len (out ++ [m.payload (g.payloadOffset (g.idx seq) out.length)]))) []
  | copyDone (seq len : ℕ) (out : Message) (hpc : t.pc = .copy seq len out)
      (hle : len ≤ out.length) :
      ReaderStep g handles m t .next m (t.goto (.storeSeq seq out)) []
  | storeSeq (seq : ℕ) (out : Message) (hpc : t.pc = .storeSeq seq out) :
      ReaderStep g handles m t .next
        { m with subReadSeq := update m.subReadSeq t.id (seq + 1) } t.finish
        [.returned (.ok (some out))]

/-- A producer thread does nothing but the steps of `ProducerStep`. -/
theorem producerAct_cases {g : Geometry} {act : ProducerAct} {m m' : Mem} {t t' : Producer}
    {events : List ProducerEvent} (hact : producerAct g act m t = some (m', t', events)) :
    ProducerStep g m t act m' t' events := by
  cases act with
  | publish payload =>
    simp only [producerAct, Option.ite_none_right_eq_some, Option.some.injEq] at hact
    obtain ⟨hpc, hbegin⟩ := hact
    unfold beginPublish at hbegin
    split_ifs at hbegin with hsize
    · cases hbegin
      exact .publishRejected payload hpc (by simpa using hsize)
    · cases hbegin
      simp only [Bool.or_eq_true, List.isEmpty_iff, decide_eq_true_eq, not_or, not_lt] at hsize
      exact .publish payload hpc hsize.1 hsize.2
  | tryPublish payload =>
    simp only [producerAct, Option.ite_none_right_eq_some, Option.some.injEq] at hact
    obtain ⟨hpc, hbegin⟩ := hact
    unfold beginTryPublish at hbegin
    split_ifs at hbegin with hsize
    · cases hbegin
      exact .tryPublishRejected payload hpc (by simpa using hsize)
    · cases hbegin
      simp only [Bool.or_eq_true, List.isEmpty_iff, decide_eq_true_eq, not_or, not_lt] at hsize
      exact .tryPublish payload hpc hsize.1 hsize.2
  | next b =>
    simp only [producerAct, producerStep] at hact
    split at hact
    · cases hact
    · cases hact
    · cases hact
      exact .loadSubs b _ ‹_›
    · cases hact
      exact .loadWrite b _ _ ‹_›
    · rename_i claim n i minRead hpc
      have hmin : (if m.subReadSeq i < minRead then m.subReadSeq i else minRead) =
          min (m.subReadSeq i) minRead := by
        split_ifs <;> omega
      rw [hmin] at hact
      split_ifs at hact with hi hmax hblocking hspace hfull
      · cases hact
        exact .scanRead b claim n i minRead hpc hi hmax
      · cases hact
        exact .scanPanic b claim n i minRead hpc hi (by omega)
      · cases hact
        exact .pass b claim n i minRead hpc (by omega) hblocking hspace
      · cases hact
        exact .retry b claim n i minRead hpc (by omega) hblocking (by omega)
      · cases hact
        exact .refuse b claim n i minRead hpc (by omega) (by simpa using hblocking) hfull
      · cases hact
        exact .accept b claim n i minRead hpc (by omega) (by simpa using hblocking) (by omega)
    · rename_i claim hpc
      split_ifs at hact with hcas
      · cases hact
        exact .claim b claim hpc hcas.1
      · cases hact
        refine .claimLost b claim hpc ?_
        by_contra hwon
        push Not at hwon
        exact hcas ⟨hwon.1, by simpa using hwon.2⟩
    · rename_i claim k hpc
      split at hact
      · cases hact
        exact .copyByte b claim k _ hpc ‹_›
      · rename_i hnone
        cases hact
        exact .copyDone b claim k hpc (List.getElem?_eq_none_iff.mp hnone)
    · cases hact
      exact .storeDesc b _ ‹_›
    · cases hact
      exact .storeSeq b _ ‹_›
    · cases hact
      exact .advanceLoad b ‹_›
    · split_ifs at hact with hcommitted
      · cases hact
        exact .advanceSlot b _ ‹_› hcommitted
      · cases hact
        exact .advanceStop b _ ‹_› hcommitted
    · split_ifs at hact with heq
      · cases hact
        exact .advanceCas b _ ‹_› heq
      · cases hact
        exact .advanceLost b _ ‹_› heq

/-- A subscribe call does nothing but the steps of `SubscriberStep`. -/
theorem subscriberAct_cases {act : SubscriberAct} {m m' : Mem} {pc pc' : SubscriberPc}
    {events : List SubscriberEvent} (hact : subscriberAct act m pc = some (m', pc', events)) :
    SubscriberStep m pc act m' pc' events := by
  cases act with
  | subscribe =>
    simp only [subscriberAct, Option.ite_none_right_eq_some, Option.some.injEq] at hact
    obtain ⟨hpc, hbegin⟩ := hact
    unfold beginSubscribe at hbegin
    split_ifs at hbegin with hmax
    · cases hbegin
      exact .reject hpc hmax
    · have hword : (m.nSubs + 1) % u32Size = m.nSubs + 1 := by
        rw [Nat.mod_eq_of_lt]
        simp only [maxSubscribers, u32Size] at hmax ⊢
        omega
      rw [hword] at hbegin
      cases hbegin
      exact .register hpc (by omega)
  | next =>
    simp only [subscriberAct, subscriberStep] at hact
    split at hact
    · cases hact
      exact .loadStart _ rfl
    · cases hact
      exact .storeStart _ _ rfl
    · cases hact

/-- A reader thread does nothing but the steps of `ReaderStep`. -/
theorem readerAct_cases {g : Geometry} {act : ReaderAct} {handles : ℕ → SubscriberPc} {m m' : Mem}
    {t t' : Reader} {events : List ReaderEvent}
    (hact : readerAct g act handles m t = some (m', t', events)) :
    ReaderStep g handles m t act m' t' events := by
  cases act with
  | tryRecv h outLen =>
    simp only [readerAct] at hact
    split at hact
    · rename_i id hready
      simp only [Option.ite_none_right_eq_some, Option.some.injEq] at hact
      obtain ⟨hpc, hbegin⟩ := hact
      cases hbegin
      exact .tryRecv h id outLen hpc hready
    · cases hact
  | next =>
    simp only [readerAct, readerStep] at hact
    split at hact
    · cases hact
    · split_ifs at hact with hcommitted
      · cases hact
        exact .loadSeq _ ‹_› hcommitted
      · cases hact
        exact .empty _ ‹_› hcommitted
    · split_ifs at hact with hlt
      · cases hact
        exact .tooLarge _ ‹_› hlt
      · cases hact
        exact .loadLen _ ‹_› (by omega)
    · split_ifs at hact with hlt
      · cases hact
        exact .copyByte _ _ _ ‹_› hlt
      · cases hact
        exact .copyDone _ _ _ ‹_› (by omega)
    · cases hact
      exact .storeSeq _ _ ‹_›

/-! ### The bus -/

/-- The steps of the bus: a step of one thread on the shared region. -/
inductive BusStep (g : Geometry) (s : State) : Action → State → List Event → Prop
  | producer {p : ℕ} {act : ProducerAct} {m : Mem} {t : Producer} {events : List ProducerEvent}
      (hstep : ProducerStep g s.mem (s.producers p) act m t events) :
      BusStep g s (.producer p act) (s.setProducer p m t) (events.map (.producer p))
  | subscriber {h : ℕ} {act : SubscriberAct} {m : Mem} {pc : SubscriberPc}
      {events : List SubscriberEvent}
      (hstep : SubscriberStep s.mem (s.subscribers h) act m pc events) :
      BusStep g s (.subscriber h act) (s.setSubscriber h m pc) (events.map (.subscriber h))
  | reader {r : ℕ} {act : ReaderAct} {m : Mem} {t : Reader} {events : List ReaderEvent}
      (hstep : ReaderStep g s.subscribers s.mem (s.readers r) act m t events) :
      BusStep g s (.reader r act) (s.setReader r m t) (events.map (.reader t.handle))

/-- The bus does nothing but the steps of `BusStep`. -/
theorem step_cases {g : Geometry} {s s' : State} {action : Action} {events : List Event}
    (hstep : step g s action = some (s', events)) : BusStep g s action s' events := by
  cases action with
  | producer p act =>
    simp only [step, Option.map_eq_some_iff, Prod.mk.injEq, Prod.exists] at hstep
    obtain ⟨m, t, reported, hact, rfl, rfl⟩ := hstep
    exact .producer (producerAct_cases hact)
  | subscriber h act =>
    simp only [step, Option.map_eq_some_iff, Prod.mk.injEq, Prod.exists] at hstep
    obtain ⟨m, pc, reported, hact, rfl, rfl⟩ := hstep
    exact .subscriber (subscriberAct_cases hact)
  | reader r act =>
    simp only [step, Option.map_eq_some_iff, Prod.mk.injEq, Prod.exists] at hstep
    obtain ⟨m, t, reported, hact, rfl, rfl⟩ := hstep
    exact .reader (readerAct_cases hact)

section Others

variable {g : Geometry} {s s' : State} {action : Action} {events : List Event}

/-- A producer thread stays as it is in the steps of others. -/
theorem BusStep.producers_eq (hstep : BusStep g s action s' events) {p : ℕ}
    (hother : ¬ ∃ act, action = .producer p act) : s'.producers p = s.producers p := by
  cases hstep with
  | @producer q act m t own hthread =>
    refine update_of_ne ?_ _ _
    rintro rfl
    exact hother ⟨act, rfl⟩
  | subscriber hthread => rfl
  | reader hthread => rfl

/-- A subscribe call stays as it is in the steps of others. -/
theorem BusStep.subscribers_eq (hstep : BusStep g s action s' events) {h : ℕ}
    (hother : ¬ ∃ act, action = .subscriber h act) : s'.subscribers h = s.subscribers h := by
  cases hstep with
  | @subscriber h' act m pc own hthread =>
    refine update_of_ne ?_ _ _
    rintro rfl
    exact hother ⟨act, rfl⟩
  | producer hthread => rfl
  | reader hthread => rfl

/-- A reader thread stays as it is in the steps of others. -/
theorem BusStep.readers_eq (hstep : BusStep g s action s' events) {r : ℕ}
    (hother : ¬ ∃ act, action = .reader r act) : s'.readers r = s.readers r := by
  cases hstep with
  | @reader r' act m t own hthread =>
    refine update_of_ne ?_ _ _
    rintro rfl
    exact hother ⟨act, rfl⟩
  | producer hthread => rfl
  | subscriber hthread => rfl

end Others

section Frame

variable {g : Geometry} {slab : ℕ → UInt8} {actions : List Action} {s s' : State}
  {events : List Event}

/-- A producer thread that takes no step stays as it is. -/
theorem exec_producers_of_forall_ne {p : ℕ} (hnot : ∀ act, .producer p act ∉ actions)
    (hexec : (busSystem g slab).exec s actions = some (s', events)) :
    s'.producers p = s.producers p := by
  refine TransitionSystem.exec_frame (fun s ↦ s.producers p) ?_ hexec
  intro action hmem state state' reported hstep
  cases step_cases hstep with
  | @producer q act m t own hthread =>
    have hpq : p ≠ q := by
      rintro rfl
      exact hnot act hmem
    exact update_of_ne hpq _ _
  | subscriber hthread => rfl
  | reader hthread => rfl

/-- A handle whose call takes no step stays as it is. -/
theorem exec_subscribers_of_forall_ne {h : ℕ} (hnot : ∀ act, .subscriber h act ∉ actions)
    (hexec : (busSystem g slab).exec s actions = some (s', events)) :
    s'.subscribers h = s.subscribers h := by
  refine TransitionSystem.exec_frame (fun s ↦ s.subscribers h) ?_ hexec
  intro action hmem state state' reported hstep
  cases step_cases hstep with
  | @subscriber other act m pc own hthread =>
    have hne : h ≠ other := by
      rintro rfl
      exact hnot act hmem
    exact update_of_ne hne _ _
  | producer hthread => rfl
  | reader hthread => rfl

/-- A reader thread that takes no step stays as it is. -/
theorem exec_readers_of_forall_ne {r : ℕ} (hnot : ∀ act, .reader r act ∉ actions)
    (hexec : (busSystem g slab).exec s actions = some (s', events)) :
    s'.readers r = s.readers r := by
  refine TransitionSystem.exec_frame (fun s ↦ s.readers r) ?_ hexec
  intro action hmem state state' reported hstep
  cases step_cases hstep with
  | @reader other act m t own hthread =>
    have hne : r ≠ other := by
      rintro rfl
      exact hnot act hmem
    exact update_of_ne hne _ _
  | producer hthread => rfl
  | subscriber hthread => rfl

end Frame

end AarnnNsys.Bus
