import AarnnNsys.Bus.Shared

/-!
# How many steps a call takes

A `try_recv` call is wait-free: whatever the other threads do between its steps, it takes at most
four operations and one for each byte that it copies, and in no state is it stuck. A `try_publish`
call, and a `publish` call once it has been admitted, are lock-free. They repeat nothing but their
advance loop, and a pass of that loop that fails has seen `write_seq` moved by somebody else, so
that three more operations of the call are paid for by every number that `write_seq` has gone on
(`Producer.stepsLeft`). `calls_bounded` says both.
-/

set_option autoImplicit false
set_option relaxedAutoImplicit false

namespace AarnnNsys.Bus

open Function Lib

/-! ### Receive calls -/

/-- The operations that a receive call has left at most. -/
def Reader.stepsLeft (t : Reader) : ℕ :=
  match t.pc with
  | .idle => 0
  | .loadSeq _ => t.outLen + 4
  | .loadLen _ => t.outLen + 3
  | .copy _ len out => len - out.length + 2
  | .storeSeq _ _ => 1

/-- A receive call has fewer operations left after each of them. -/
theorem ReaderStep.stepsLeft_lt {g : Geometry} {handles : ℕ → SubscriberPc} {m m' : Mem}
    {t t' : Reader} {events : List ReaderEvent}
    (hstep : ReaderStep g handles m t .next m' t' events) : t'.stepsLeft < t.stepsLeft := by
  cases hstep with
  | loadSeq seq hpc hcommitted =>
    simp only [Reader.stepsLeft, Reader.goto, hpc]
    omega
  | loadLen seq hpc hle =>
    simp only [Reader.stepsLeft, Reader.goto, hpc, List.length_nil]
    omega
  | copyByte seq len out hpc hlt =>
    simp only [Reader.stepsLeft, Reader.goto, hpc, List.length_append, List.length_singleton]
    omega
  | copyDone seq len out hpc hle =>
    simp only [Reader.stepsLeft, Reader.goto, hpc]
    omega
  | empty seq hpc hother | tooLarge seq hpc hlt | storeSeq seq out hpc =>
    simp only [Reader.stepsLeft, Reader.finish, hpc]
    omega

/-- A receive call in flight has a next operation. -/
theorem readerStep_isSome {g : Geometry} {m : Mem} {t : Reader} (hactive : t.pc ≠ .idle) :
    ∃ result, readerStep g m t = some result := by
  rw [← Option.isSome_iff_exists]
  cases hpc : t.pc with
  | idle => exact absurd hpc hactive
  | loadSeq seq | loadLen seq | copy seq len out =>
    simp only [readerStep, hpc]
    split_ifs <;> rfl
  | storeSeq seq out => simp [readerStep, hpc]

/-! ### Producer calls -/

/-- The operations that a producer call outside a wait loop has left at most, but for those that its
advance loop takes for numbers that `write_seq` has still to pass. -/
def Producer.stepsLeft (m : Mem) (t : Producer) : ℕ :=
  match t.pc with
  | .idle | .panicked _ => 0
  | .loadSubs _ => t.payload.length + maxSubscribers + 9
  | .loadWrite _ _ => t.payload.length + maxSubscribers + 8
  | .scan _ _ i _ => t.payload.length + (maxSubscribers - i) + 7
  | .casClaim _ => t.payload.length + 6
  | .copy _ k => t.payload.length - k + 5
  | .storeDesc _ => 4
  | .storeSeq _ => 3
  | .advanceLoad => 2
  | .advanceSlot w => 3 * (m.writeSeq - w) + 1
  | .advanceCas w => 3 * (m.writeSeq - w)

/-- A producer call that is not in the wait loop of `publish`. -/
def Producer.PastWait (t : Producer) : Prop :=
  match t.pc with
  | .loadSubs _ | .loadWrite _ _ | .scan _ _ _ _ => t.blocking = false
  | _ => True

/-- A producer call outside a wait loop pays for each operation, or `write_seq` does. -/
theorem ProducerStep.stepsLeft_lt {g : Geometry} {m m' : Mem} {t t' : Producer} {b : Bool}
    {events : List ProducerEvent} (hpast : t.PastWait) (hbounded : t.Bounded g m)
    (hstep : ProducerStep g m t (.next b) m' t' events) :
    t'.PastWait ∧
      1 + t'.stepsLeft m' + 3 * m.writeSeq ≤ t.stepsLeft m + 3 * m'.writeSeq := by
  cases hstep with
  | retry b claim n i minRead hpc hi hblocking hfull =>
    simp only [Producer.PastWait, hpc] at hpast
    exact absurd (hblocking.symm.trans hpast) (by decide)
  | copyByte b claim k byte hpc hbyte =>
    have hk := (List.getElem?_eq_some_iff.mp hbyte).1
    refine ⟨trivial, ?_⟩
    simp only [Producer.stepsLeft, Producer.goto, hpc]
    omega
  | advanceLost b w hpc hne =>
    simp only [Producer.Bounded, hpc] at hbounded
    refine ⟨trivial, ?_⟩
    simp only [Producer.stepsLeft, Producer.goto, hpc]
    omega
  | _ =>
    refine ⟨by simp_all [Producer.PastWait], ?_⟩
    simp only [Producer.stepsLeft, Producer.goto, Producer.finish, *]
    omega

/-- While others take their steps, `write_seq` pays for what it adds to a call. -/
theorem Producer.stepsLeft_grow {g : Geometry} {m m' : Mem} {t : Producer}
    (hbounded : t.Bounded g m) (hle : m.writeSeq ≤ m'.writeSeq) :
    t.stepsLeft m' + 3 * m.writeSeq ≤ t.stepsLeft m + 3 * m'.writeSeq := by
  unfold Producer.Bounded at hbounded
  unfold Producer.stepsLeft
  cases hpc : t.pc <;> simp only [hpc] at hbounded ⊢ <;> omega

/-- A call that is admitted is not in a wait loop. -/
theorem Producer.pastWait_of_admitted {t : Producer} {claim : ℕ}
    (hadmitted : t.admitted = some claim) : t.PastWait := by
  unfold Producer.admitted at hadmitted
  unfold Producer.PastWait
  split at hadmitted <;> simp_all

/-- An admitted call copies its payload, and then commits. -/
theorem Producer.stepsLeft_of_admitted {m : Mem} {t : Producer} {claim : ℕ}
    (hadmitted : t.admitted = some claim) : t.stepsLeft m ≤ t.payload.length + 5 := by
  unfold Producer.admitted at hadmitted
  unfold Producer.stepsLeft
  split at hadmitted <;> simp_all

/-! ### Runs -/

/-- The step is an operation of producer thread `p`. -/
def Action.operates (p : ℕ) : Action → Bool
  | .producer q (.next _) => q = p
  | _ => false

section Run

variable {g : Geometry} {slab : ℕ → UInt8} {trace : List Event} {s s' : State}
  {actions : List Action} {events : List Event}

/-- A step pays for its reader, unless a call begins. -/
theorem BusStep.recv_pays {action : Action} (hstep : BusStep g s action s' events) {r : ℕ}
    (hcall : ∀ h outLen, action ≠ .reader r (.tryRecv h outLen)) :
    (decide (action = .reader r .next)).toNat + (s'.readers r).stepsLeft ≤
      (s.readers r).stepsLeft := by
  by_cases hown : ∃ act, action = .reader r act
  · obtain ⟨act, rfl⟩ := hown
    cases hstep with
    | reader hthread =>
      simp only [State.setReader, update_self]
      cases act with
      | tryRecv h outLen => exact absurd rfl (hcall h outLen)
      | next =>
        have := hthread.stepsLeft_lt
        simp only [decide_true, Bool.toNat_true]
        omega
  · have hother : action ≠ .reader r .next := fun heq ↦ hown ⟨_, heq⟩
    rw [hstep.readers_eq hown]
    simp [hother]

/-- A step pays for its producer outside a wait loop, unless a call begins. -/
theorem BusStep.publish_pays {action : Action} (hstep : BusStep g s action s' events) {p : ℕ}
    (hcall : ∀ payload, action ≠ .producer p (.publish payload) ∧
      action ≠ .producer p (.tryPublish payload))
    (hpast : (s.producers p).PastWait) (hbounded : (s.producers p).Bounded g s.mem)
    (hle : s.mem.writeSeq ≤ s'.mem.writeSeq) :
    (s'.producers p).PastWait ∧
      (action.operates p).toNat + (s'.producers p).stepsLeft s'.mem + 3 * s.mem.writeSeq ≤
        (s.producers p).stepsLeft s.mem + 3 * s'.mem.writeSeq := by
  by_cases hown : ∃ act, action = .producer p act
  · obtain ⟨act, rfl⟩ := hown
    cases hstep with
    | producer hthread =>
      simp only [State.setProducer, update_self]
      cases act with
      | publish payload => exact absurd rfl (hcall payload).1
      | tryPublish payload => exact absurd rfl (hcall payload).2
      | next b =>
        simp only [Action.operates, decide_true, Bool.toNat_true]
        exact hthread.stepsLeft_lt hpast hbounded
  · have hother : action.operates p = false := by
      by_contra htrue
      refine hown ?_
      unfold Action.operates at htrue
      split at htrue <;> simp_all
    rw [hstep.producers_eq hown, hother]
    have := Producer.stepsLeft_grow hbounded hle
    refine ⟨hpast, ?_⟩
    simp only [Bool.toNat_false]
    omega

/-- The operations of a receive call that begins no other meanwhile. -/
theorem recv_steps (hexec : (busSystem g slab).exec s actions = some (s', events)) {r : ℕ}
    (hcall : ∀ h outLen, .reader r (.tryRecv h outLen) ∉ actions) :
    actions.countP (· = .reader r .next) + (s'.readers r).stepsLeft ≤
      (s.readers r).stepsLeft := by
  refine ((busSystem g slab).exec_countP_le (fun _ ↦ True) (fun s ↦ (s.readers r).stepsLeft)
    (fun _ ↦ 0) (fun action ↦ action = .reader r .next) ?_ trivial hexec).2
  intro action hmem state state' reported _ hstep
  have hbus : BusStep g state action state' reported := step_cases hstep
  refine ⟨trivial, hbus.recv_pays fun h outLen heq ↦ ?_⟩
  exact hcall h outLen (heq ▸ hmem)

/-- The operations of a producer call outside a wait loop that begins no other meanwhile. -/
theorem publish_steps (hrun : Run (busSystem g slab) unguarded trace s)
    (hexec : (busSystem g slab).exec s actions = some (s', events)) {p : ℕ}
    (hcall : ∀ payload, .producer p (.publish payload) ∉ actions ∧
      .producer p (.tryPublish payload) ∉ actions)
    (hpast : (s.producers p).PastWait) :
    actions.countP (Action.operates p) + (s'.producers p).stepsLeft s'.mem + 3 * s.mem.writeSeq ≤
      (s.producers p).stepsLeft s.mem + 3 * s'.mem.writeSeq := by
  refine ((busSystem g slab).exec_countP_le
    (fun s ↦ (∃ trace, Run (busSystem g slab) unguarded trace s) ∧ (s.producers p).PastWait)
    (fun s ↦ (s.producers p).stepsLeft s.mem) (fun s ↦ 3 * s.mem.writeSeq) (Action.operates p) ?_
    ⟨⟨trace, hrun⟩, hpast⟩ hexec).2
  rintro action hmem state state' reported ⟨⟨before, hbefore⟩, hpast⟩ hstep
  have hbus : BusStep g state action state' reported := step_cases hstep
  obtain ⟨hpast', hpaid⟩ := hbus.publish_pays
    (fun payload ↦ ⟨fun heq ↦ (hcall payload).1 (heq ▸ hmem),
      fun heq ↦ (hcall payload).2 (heq ▸ hmem)⟩)
    hpast ((commitInv_run hbefore).bounded p) (writeSeq_mono hbefore hstep)
  exact ⟨⟨⟨_, hbefore.next trivial hstep⟩, hpast'⟩, hpaid⟩

end Run

/-- The operations of a call, in any run and whatever the other threads do meanwhile. A `try_recv`
takes at most four and one for each byte of its buffer, and has a next one until it has returned. A
`try_publish` takes a number bounded by the length of its payload and by what `write_seq` goes on
meanwhile, and so does a `publish` that is admitted. -/
theorem calls_bounded (g : Geometry) (slab : ℕ → UInt8) (trace : List Event) (s : State)
    (hrun : Run (busSystem g slab) unguarded trace s) (actions : List Action) (s' : State)
    (events : List Event) (hexec : (busSystem g slab).exec s actions = some (s', events)) :
    (∀ r seq, (s.readers r).pc = .loadSeq seq →
      (∀ h outLen, .reader r (.tryRecv h outLen) ∉ actions) →
        actions.countP (· = .reader r .next) ≤ (s.readers r).outLen + 4 ∧
        ((s'.readers r).pc ≠ .idle →
          ∃ result, readerStep g s'.mem (s'.readers r) = some result)) ∧
    ∀ p, (∀ payload, .producer p (.publish payload) ∉ actions ∧
        .producer p (.tryPublish payload) ∉ actions) →
      (∀ claim, (s.producers p).pc = .loadSubs claim → (s.producers p).blocking = false →
        actions.countP (Action.operates p) ≤ (s.producers p).payload.length + maxSubscribers + 9 +
          3 * (s'.mem.writeSeq - s.mem.writeSeq)) ∧
      ∀ claim, (s.producers p).admitted = some claim →
        actions.countP (Action.operates p) ≤ (s.producers p).payload.length + 5 +
          3 * (s'.mem.writeSeq - s.mem.writeSeq) := by
  refine ⟨fun r seq hpc hcall ↦ ⟨?_, readerStep_isSome⟩, fun p hcall ↦
    ⟨fun claim hpc hblocking ↦ ?_, fun claim hadmitted ↦ ?_⟩⟩
  · have hcount := recv_steps hexec hcall
    rw [show (s.readers r).stepsLeft = (s.readers r).outLen + 4 by simp [Reader.stepsLeft, hpc]]
      at hcount
    omega
  · have hpast : (s.producers p).PastWait := by
      simpa only [Producer.PastWait, hpc] using hblocking
    have hcount := publish_steps hrun hexec hcall hpast
    simp only [Producer.stepsLeft, hpc] at hcount
    omega
  · have hcount := publish_steps hrun hexec hcall (Producer.pastWait_of_admitted hadmitted)
    have := Producer.stepsLeft_of_admitted (m := s.mem) hadmitted
    omega

/-- Between the first and the second step of a `try_publish` and of a `try_recv`, another producer
publishes; the `try_publish` loses its claim and the `try_recv` returns the message. -/
theorem calls_bounded_lost : ∃ (s s' : State) (actions : List Action),
    s.mem.writeSeq = 0 ∧ s'.mem.writeSeq = 1 ∧ (s'.producers 0).pc = .idle ∧
    (s'.readers 0).pc = .idle ∧ actions.countP (· = .reader 0 .next) ≤ 4 + 4 ∧
    actions.countP (Action.operates 0) ≤ 1 + maxSubscribers + 9 + 3 * (1 - 0) := by
  let system := busSystem tinyGeometry fun _ ↦ 0
  let before : List Action :=
    [subscribing, [.producer 0 (.tryPublish [7]), .reader 0 (.tryRecv 0 4)]].flatten
  let after : List Action :=
    [[.producer 1 (.publish [8])], List.replicate 13 (.producer 1 (.next false)),
      List.replicate 5 (.producer 0 (.next false)), List.replicate 5 (.reader 0 .next)].flatten
  have hbefore : (system.exec system.init before).map (fun result ↦
      ((result.1.producers 0).pc, (result.1.producers 0).blocking, (result.1.producers 0).payload,
        (result.1.readers 0).pc, (result.1.readers 0).outLen, result.1.mem.writeSeq)) =
      some (.loadSubs 0, false, [7], .loadSeq 0, 4, 0) := by decide +kernel
  have hafter : (system.exec system.init (before ++ after)).map (fun result ↦
      ((result.1.producers 0).pc, (result.1.readers 0).pc, result.1.mem.writeSeq)) =
      some (.idle, .idle, 1) := by decide +kernel
  obtain ⟨⟨s, trace⟩, hstopped, hs⟩ := Option.map_eq_some_iff.mp hbefore
  obtain ⟨⟨s', whole⟩, hwhole, hs'⟩ := Option.map_eq_some_iff.mp hafter
  obtain ⟨middle, first, last, hfirst, hlast, rfl⟩ := TransitionSystem.exec_split hwhole
  obtain ⟨rfl, rfl⟩ := Prod.mk.inj (Option.some.inj (hstopped.symm.trans hfirst))
  simp only [Prod.mk.injEq] at hs hs'
  obtain ⟨hproducer, hblocking, hpayload, hreader, hout, hwrite⟩ := hs
  obtain ⟨hproducer', hreader', hwrite'⟩ := hs'
  obtain ⟨hrecv, hpublish⟩ := calls_bounded tinyGeometry _ trace s (run_of_exec hstopped) after s'
    last hlast
  have hreceived := (hrecv 0 0 hreader (by simp [after])).1
  have hlost := (hpublish 0 (by simp [after])).1 0 hproducer hblocking
  rw [hout] at hreceived
  rw [hpayload, hwrite, hwrite'] at hlost
  exact ⟨s, s', after, hwrite, hwrite', hproducer', hreader', hreceived, hlost⟩

end AarnnNsys.Bus
