import AarnnNsys.Bridge.Inversion
import AarnnNsys.Bus.Registry
import AarnnNsys.L2.RoundTrip

/-!
# When a bridge waits for itself

A bridge publishes on the bus that it also drains, on one thread. Its `publish` reserves a number
first and then waits for every cursor, its own included, and while it waits nobody moves its own
cursor: `SelfBlocked` is the state in which its own subscription is a lap or more behind the number
that it has reserved.

`OwnsCursor` is what keeps the bridge's cursor its own, for any other producers, subscribers and
readers, and `LoopInv` puts the phases of the loop beside it. With them `never_selfBlocked` says
that the bridge never waits for itself in a run in which less than a lap of numbers is reserved past
its cursor whenever it calls `publish` (`KeepsRoom`).

Both bridges can break this: `waits_for_itself` is a run of each. A `publish` without room leads to
the wait at once (`selfBlocked_of_publish`), and no step of any thread ends it (`Stuck.step`,
`Stuck.exec`).
-/

set_option autoImplicit false
set_option relaxedAutoImplicit false

namespace AarnnNsys.Bridge

open Function Lib

variable {State Input : Type}

/-! ### The bridge's own cursor -/

/-- Nobody else has the bridge's identifier: every identifier is below `n_subs`, handle 0 shares its
own with no other, and a `try_recv` in flight goes through handle 0 exactly when it is the
bridge's. -/
structure OwnsCursor (s : Bus.State) : Prop where
  id_lt : ∀ h id, (s.subscribers h).id? = some id → id < s.mem.nSubs
  id_unique : ∀ h id, h ≠ 0 → (s.subscribers 0).id? = some id → (s.subscribers h).id? ≠ some id
  reader_ready : ∀ r, (s.readers r).pc ≠ .idle →
    ((s.readers r).handle = 0 ↔ r = 0) ∧
      s.subscribers (s.readers r).handle = .ready (s.readers r).id

/-- The counter of subscribe calls does not wrap. -/
def KeepsCount (m : Bus.Mem) : Bus.Action → Prop
  | .subscriber _ .subscribe => m.nSubs + 1 < Bus.u32Size
  | _ => True

instance (m : Bus.Mem) : DecidablePred (KeepsCount m)
  | .subscriber _ .subscribe => inferInstanceAs (Decidable (m.nSubs + 1 < Bus.u32Size))
  | .subscriber _ .next | .producer _ _ | .reader _ _ => inferInstanceAs (Decidable True)

/-- Only the bridge's reader goes through the bridge's handle. -/
def KeepsHandle : Bus.Action → Prop
  | .reader r (.tryRecv h _) => h = 0 ↔ r = 0
  | _ => True

theorem Foreign.keepsHandle {action : Bus.Action} (hforeign : Foreign action) :
    KeepsHandle action := by
  cases action with
  | reader r act =>
    cases act with
    | tryRecv h outLen => exact ⟨fun hh ↦ absurd hh hforeign.2, fun hr ↦ absurd hr hforeign.1⟩
    | next => trivial
  | producer p act => trivial
  | subscriber h act => trivial

namespace OwnsCursor

variable {g : Bus.Geometry} {s : Bus.State}

theorem init (slab : ℕ → UInt8) : OwnsCursor (Bus.State.init slab) where
  id_lt := fun _ _ hid ↦ nomatch hid
  id_unique := fun _ _ _ hid ↦ nomatch hid
  reader_ready := fun _ hactive ↦ absurd rfl hactive

/-- A step of a subscribe call. -/
theorem subscriber_step (hinv : OwnsCursor s) {h : ℕ} {act : Bus.SubscriberAct} {m : Bus.Mem}
    {pc : Bus.SubscriberPc} {events : List Bus.SubscriberEvent}
    (hcount : KeepsCount s.mem (.subscriber h act))
    (hstep : Bus.SubscriberStep s.mem (s.subscribers h) act m pc events) :
    OwnsCursor (s.setSubscriber h m pc) := by
  have hreaders : (∀ id, s.subscribers h ≠ .ready id) → ∀ r, (s.readers r).pc ≠ .idle →
      ((s.readers r).handle = 0 ↔ r = 0) ∧
        update s.subscribers h pc (s.readers r).handle = .ready (s.readers r).id := by
    intro hnot r hactive
    obtain ⟨hown, hready⟩ := hinv.reader_ready r hactive
    have hne : (s.readers r).handle ≠ h := fun heq ↦ hnot _ (heq ▸ hready)
    exact ⟨hown, by rw [update_of_ne hne, hready]⟩
  -- a call that keeps its identifier
  have hkeep : pc.id? = (s.subscribers h).id? → s.mem.nSubs ≤ m.nSubs →
      (∀ id, s.subscribers h ≠ .ready id) → OwnsCursor (s.setSubscriber h m pc) := by
    intro hsame hle hnot
    have hids : ∀ h', (update s.subscribers h pc h').id? = (s.subscribers h').id? := by
      intro h'
      by_cases hh : h' = h
      · rw [hh, update_self, hsame]
      · rw [update_of_ne hh]
    exact
      { id_lt := fun h' id hid ↦ (hinv.id_lt h' id (hids h' ▸ hid)).trans_le hle
        id_unique := fun h' id hne hid ↦ by
          simp only [Bus.State.setSubscriber, hids] at hid ⊢
          exact hinv.id_unique h' id hne hid
        reader_ready := hreaders hnot }
  cases hstep with
  | reject hpc hmax =>
    refine hkeep (by rw [hpc]; rfl) ?_ (by simp [hpc])
    simp only [KeepsCount] at hcount
    simp only [Nat.mod_eq_of_lt hcount]
    omega
  | loadStart id hpc => exact hkeep (by rw [hpc]; rfl) le_rfl (by simp [hpc])
  | storeStart id start hpc => exact hkeep (by rw [hpc]; rfl) le_rfl (by simp [hpc])
  | register hpc hmax =>
    have hcases : ∀ h' id, (update s.subscribers h (.loadStart s.mem.nSubs) h').id? = some id →
        h' = h ∧ id = s.mem.nSubs ∨ h' ≠ h ∧ (s.subscribers h').id? = some id := by
      intro h' id hid
      by_cases hh : h' = h
      · rw [hh, update_self] at hid
        exact .inl ⟨hh, (Option.some.inj hid).symm⟩
      · rw [update_of_ne hh] at hid
        exact .inr ⟨hh, hid⟩
    refine ⟨?_, ?_, hreaders (by simp [hpc])⟩
    · intro h' id hid
      simp only [Bus.State.setSubscriber]
      rcases hcases h' id hid with ⟨-, rfl⟩ | ⟨-, hold⟩
      · exact Nat.lt_succ_self _
      · exact (hinv.id_lt h' id hold).trans (Nat.lt_succ_self _)
    · intro h' id hne hid hid'
      rcases hcases 0 id hid with ⟨hzero, rfl⟩ | ⟨-, hold⟩
      · rcases hcases h' _ hid' with ⟨hh, -⟩ | ⟨-, hold'⟩
        · exact hne (hh.trans hzero.symm)
        · exact lt_irrefl _ (hinv.id_lt h' _ hold')
      · rcases hcases h' id hid' with ⟨-, rfl⟩ | ⟨-, hold'⟩
        · exact lt_irrefl _ (hinv.id_lt 0 _ hold)
        · exact hinv.id_unique h' id hne hold hold'

/-- A step of a reader thread. -/
theorem reader_step (hinv : OwnsCursor s) {r : ℕ} {act : Bus.ReaderAct} {m : Bus.Mem}
    {t : Bus.Reader} {events : List Bus.ReaderEvent} (hkeeps : KeepsHandle (.reader r act))
    (hstep : Bus.ReaderStep g s.subscribers s.mem (s.readers r) act m t events) :
    OwnsCursor (s.setReader r m t) := by
  have hnSubs : m.nSubs = s.mem.nSubs := by cases hstep <;> rfl
  have hready : t.pc ≠ .idle → (t.handle = 0 ↔ r = 0) ∧ s.subscribers t.handle = .ready t.id := by
    intro hactive
    cases hstep with
    | tryRecv h id outLen hpc hid => exact ⟨hkeeps, hid⟩
    | empty seq hpc | tooLarge seq hpc | storeSeq seq out hpc => exact absurd rfl hactive
    | _ => exact hinv.reader_ready r (by simp [*])
  refine ⟨?_, hinv.id_unique, ?_⟩
  · simpa [Bus.State.setReader, hnSubs] using hinv.id_lt
  · intro r' hactive
    simp only [Bus.State.setReader] at hactive ⊢
    by_cases hr : r' = r
    · subst hr
      rw [update_self] at hactive ⊢
      exact hready hactive
    · rw [update_of_ne hr] at hactive ⊢
      exact hinv.reader_ready r' hactive

/-- Every step of the bus keeps the bridge's cursor its own. -/
theorem step (hinv : OwnsCursor s) {action : Bus.Action} {s' : Bus.State}
    {events : List Bus.Event} (hstep : Bus.BusStep g s action s' events)
    (hcount : KeepsCount s.mem action) (hkeeps : KeepsHandle action) : OwnsCursor s' := by
  cases hstep with
  | producer hthread =>
    obtain ⟨hnSubs, -⟩ := hthread.registry
    refine ⟨?_, hinv.id_unique, hinv.reader_ready⟩
    simpa [Bus.State.setProducer, hnSubs] using hinv.id_lt
  | subscriber hthread => exact hinv.subscriber_step hcount hthread
  | reader hthread => exact hinv.reader_step hkeeps hthread

/-- A step of another thread changes nothing of the bridge's: not its threads, and not its
cursor. -/
theorem foreign_step (hinv : OwnsCursor s) {action : Bus.Action} {s' : Bus.State}
    {events : List Bus.Event} (hforeign : Foreign action)
    (hstep : Bus.BusStep g s action s' events) :
    s'.producers 0 = s.producers 0 ∧ s'.subscribers 0 = s.subscribers 0 ∧
      s'.readers 0 = s.readers 0 ∧
      ∀ id, s.subscribers 0 = .ready id → s'.mem.subReadSeq id = s.mem.subReadSeq id := by
  cases hstep with
  | @producer p act m t own hthread =>
    exact ⟨update_of_ne (Ne.symm hforeign) _ _, rfl, rfl, fun id _ ↦ by
      simp [Bus.State.setProducer, hthread.registry.2]⟩
  | @subscriber h act m pc own hthread =>
    refine ⟨rfl, update_of_ne (Ne.symm hforeign) _ _, rfl, ?_⟩
    intro id hready
    cases hthread with
    | storeStart other start hpc =>
      refine update_of_ne ?_ _ _
      rintro rfl
      exact hinv.id_unique h id hforeign (by rw [hready]; rfl) (by rw [hpc]; rfl)
    | _ => rfl
  | @reader r act m t own hthread =>
    have hr : r ≠ 0 := by
      cases act with
      | tryRecv h outLen => exact hforeign.1
      | next => exact hforeign
    refine ⟨rfl, rfl, update_of_ne (Ne.symm hr) _ _, ?_⟩
    intro id hready
    cases hthread with
    | storeSeq seq out hpc =>
      obtain ⟨hown, hother⟩ := hinv.reader_ready r (by simp [hpc])
      refine update_of_ne ?_ _ _
      rintro rfl
      exact hinv.id_unique _ _ (fun hzero ↦ hr (hown.mp hzero)) (by rw [hready]; rfl)
        (by rw [hother]; rfl)
    | _ => rfl

end OwnsCursor

/-! ### Waiting for oneself -/

/-- The bridge is in the wait loop of its own `publish`, and the number it has reserved is a lap or
more past its own cursor. -/
def SelfBlocked (g : Bus.Geometry) (s : LoopState State) : Prop :=
  ∃ rest id claim, s.phase = .publishing rest ∧ s.bus.subscribers 0 = .ready id ∧
    (s.bus.producers 0).Waiting claim ∧ s.bus.mem.subReadSeq id + g.descCapacity ≤ claim

/-- Less than a lap of numbers has been reserved past the bridge's own cursor. -/
def HasRoom (g : Bus.Geometry) (bus : Bus.State) : Prop :=
  match bus.subscribers 0 with
  | .ready id => bus.mem.claimSeq < bus.mem.subReadSeq id + g.descCapacity
  | _ => True

instance (g : Bus.Geometry) (bus : Bus.State) : Decidable (HasRoom g bus) := by
  unfold HasRoom
  split <;> infer_instance

/-- The condition on a step: there is room when the bridge calls `publish` with a message that fits.
And no subscribe call wraps `n_subs`. -/
def KeepsRoom (g : Bus.Geometry) : Guard (LoopState State) (LoopAction Input) (LoopEvent Input) :=
  fun _ s action ↦
    match action, s.phase with
    | .other action, _ => KeepsCount s.bus.mem action
    | .own _, .subscribing => s.bus.mem.nSubs + 1 < Bus.u32Size
    | .own _, .acting (.publish message :: _) =>
      message ≠ [] → message.length ≤ g.slotBytes → HasRoom g s.bus
    | _, _ => True

instance (g : Bus.Geometry) (trace : List (LoopEvent Input)) (s : LoopState State)
    (action : LoopAction Input) : Decidable (KeepsRoom g trace s action) := by
  unfold KeepsRoom
  split <;> infer_instance

/-- The bus and the phase of the bridge agree: its reader is only at work while it receives, its
producer only while it publishes, and then with room for its claim. -/
structure LoopInv (g : Bus.Geometry) (s : LoopState State) : Prop where
  owns : OwnsCursor s.bus
  reader_idle : s.phase ≠ .receiving → (s.bus.readers 0).pc = .idle
  producer_idle : (∀ rest, s.phase ≠ .publishing rest) → (s.bus.producers 0).pc = .idle
  room : ∀ claim id, (s.bus.producers 0).Waiting claim → s.bus.subscribers 0 = .ready id →
    claim < s.bus.mem.subReadSeq id + g.descCapacity

/-- A thread without a call does not wait. -/
theorem not_waiting_of_idle {t : Bus.Producer} {claim : ℕ} (hidle : t.pc = .idle) :
    ¬ t.Waiting claim := by
  simp [Bus.Producer.Waiting, hidle]

/-- A call that waits after an operation waited before it, with the same claim. -/
theorem waiting_of_next {g : Bus.Geometry} {m m' : Bus.Mem} {t t' : Bus.Producer} {spurious : Bool}
    {events : List Bus.ProducerEvent} {claim : ℕ}
    (hstep : Bus.ProducerStep g m t (.next spurious) m' t' events) (hwaiting : t'.Waiting claim) :
    t.Waiting claim := by
  obtain ⟨hblocking, hpc⟩ := hwaiting
  cases hstep <;> simp_all [Bus.Producer.Waiting, Bus.Producer.finish]

namespace LoopInv

variable {g : Bus.Geometry} {s : LoopState State}

theorem init (slab : ℕ → UInt8) (device : Device State Input) (startup : List Action) :
    LoopInv g (loopSystem g slab device startup).init where
  owns := .init slab
  reader_idle := fun _ ↦ rfl
  producer_idle := fun _ ↦ rfl
  room := fun _ _ hwaiting ↦ absurd hwaiting (not_waiting_of_idle rfl)

/-- A step of another thread. -/
theorem other_step (hinv : LoopInv g s) {action : Bus.Action} {bus : Bus.State}
    {events : List Bus.Event} (hcount : KeepsCount s.bus.mem action) (hforeign : Foreign action)
    (hbus : Bus.BusStep g s.bus action bus events) : LoopInv g { s with bus } := by
  obtain ⟨hproducer, hhandle, hreader, hcursor⟩ := hinv.owns.foreign_step hforeign hbus
  refine ⟨hinv.owns.step hbus hcount hforeign.keepsHandle, ?_, ?_, ?_⟩
  · exact fun hphase ↦ hreader ▸ hinv.reader_idle hphase
  · exact fun hphase ↦ hproducer ▸ hinv.producer_idle hphase
  · intro claim id hwaiting hready
    simp only [hproducer, hhandle] at hwaiting hready
    simp only [hcursor id hready]
    exact hinv.room claim id hwaiting hready

/-- A step of the bridge in which its producer has no call. -/
theorem quiet_step (hinv : LoopInv g s) {action : Bus.Action} {bus : Bus.State}
    {events : List Bus.Event} {phase : Phase} {device : State}
    (hbus : Bus.BusStep g s.bus action bus events) (hcount : KeepsCount s.bus.mem action)
    (hkeeps : KeepsHandle action) (hidle : (bus.producers 0).pc = .idle)
    (hreader : phase ≠ .receiving → (bus.readers 0).pc = .idle) :
    LoopInv g ⟨bus, phase, device⟩ :=
  ⟨hinv.owns.step hbus hcount hkeeps, hreader, fun _ ↦ hidle,
    fun _ _ hwaiting ↦ absurd hwaiting (not_waiting_of_idle hidle)⟩

/-- A step of the bridge's own subscribe call. -/
theorem subscribe_step (hinv : LoopInv g s) (hphase : s.phase = .subscribing)
    (hcount : s.bus.mem.nSubs + 1 < Bus.u32Size) {act : Bus.SubscriberAct} {bus : Bus.State}
    {events : List Bus.Event} (hbus : Bus.BusStep g s.bus (.subscriber 0 act) bus events)
    (phase : Phase) : LoopInv g { s with bus, phase } := by
  have hproducer := hinv.producer_idle (by simp [hphase])
  have hreader := hinv.reader_idle (by simp [hphase])
  have hkept : KeepsCount s.bus.mem (.subscriber 0 act) := by
    cases act with
    | subscribe => exact hcount
    | next => trivial
  cases hbus with
  | subscriber hthread =>
    exact hinv.quiet_step (.subscriber hthread) hkept trivial hproducer fun _ ↦ hreader

/-- A step of the bridge's own receive call. -/
theorem recv_step (hinv : LoopInv g s) (hphase : s.phase ≠ .receiving → s.phase = .drain)
    {act : Bus.ReaderAct} {bus : Bus.State} {events : List Bus.Event}
    (hbus : Bus.BusStep g s.bus (.reader 0 act) bus events) (hkeeps : KeepsHandle (.reader 0 act))
    (phase : Phase) (device : State) (hreader : phase ≠ .receiving → (bus.readers 0).pc = .idle) :
    LoopInv g ⟨bus, phase, device⟩ := by
  have hidle : (s.bus.producers 0).pc = .idle := by
    refine hinv.producer_idle fun rest hpublishing ↦ ?_
    have hdrain := hphase (by simp [hpublishing])
    simp [hpublishing] at hdrain
  refine hinv.quiet_step hbus trivial hkeeps ?_ hreader
  cases hbus with
  | reader hthread => exact hidle

/-- Every step keeps the loop's invariant. -/
theorem step (hinv : LoopInv g s) {device : Device State Input} {startup : List Action}
    {s' : LoopState State} {trace events : List (LoopEvent Input)} {action : LoopAction Input}
    (hguard : KeepsRoom g trace s action) (hstep : LoopStep g device startup s action s' events) :
    LoopInv g s' := by
  cases hstep with
  | other hforeign hbus => exact hinv.other_step hguard hforeign (Bus.step_cases hbus)
  | subscribe hphase hbus =>
    simp only [KeepsRoom, hphase] at hguard
    simpa only [← hphase] using hinv.subscribe_step hphase hguard (Bus.step_cases hbus) s.phase
  | subscribed hphase hbus =>
    simp only [KeepsRoom, hphase] at hguard
    exact hinv.subscribe_step hphase hguard (Bus.step_cases hbus) _
  | tryRecv hphase hready hbus =>
    exact hinv.recv_step (fun _ ↦ hphase) (Bus.step_cases hbus) ⟨fun _ ↦ rfl, fun _ ↦ rfl⟩ _ _
      (fun hne ↦ absurd rfl hne)
  | recv hphase hbus hactive =>
    exact hinv.recv_step (fun hne ↦ absurd hphase hne) (Bus.step_cases hbus) trivial _ _
      (fun hne ↦ absurd hphase hne)
  | received hphase hbus hreader hmessage =>
    exact hinv.recv_step (fun hne ↦ absurd hphase hne) (Bus.step_cases hbus) trivial _ _
      (fun _ ↦ hreader)
  | empty hphase hbus hreader hnone =>
    exact hinv.recv_step (fun hne ↦ absurd hphase hne) (Bus.step_cases hbus) trivial _ _
      (fun _ ↦ hreader)
  | look hphase hreceive =>
    exact ⟨hinv.owns, fun _ ↦ hinv.reader_idle (by simp [hphase]),
      fun _ ↦ hinv.producer_idle (by simp [hphase]), hinv.room⟩
  | again hphase | send hphase | unsubscribed hphase =>
    exact ⟨hinv.owns, fun _ ↦ hinv.reader_idle (by simp [hphase]),
      fun _ ↦ hinv.producer_idle (by simp [hphase]), hinv.room⟩
  | publish hphase hbus =>
    have hreader := hinv.reader_idle (by simp [hphase])
    have hbus := Bus.step_cases hbus
    refine ⟨hinv.owns.step hbus trivial trivial, ?_, fun hne ↦ absurd rfl (hne _), ?_⟩
    · cases hbus with
      | producer hthread => exact fun _ ↦ hreader
    · intro claim id hwaiting hready
      simp only [KeepsRoom, hphase] at hguard
      cases hbus with
      | producer hthread =>
        simp only [Bus.State.setProducer, update_self] at hwaiting hready ⊢
        cases hthread with
        | publishRejected _ hpc hsize => exact absurd hwaiting (not_waiting_of_idle rfl)
        | publish _ hpc hne hsize =>
          obtain ⟨-, rfl⟩ := hwaiting
          have hroom := hguard hne hsize
          simpa only [HasRoom, hready] using hroom
  | publishing hphase hactive hbus =>
    have hreader := hinv.reader_idle (by simp [hphase])
    have hbus := Bus.step_cases hbus
    refine ⟨hinv.owns.step hbus trivial trivial, ?_, fun hne ↦ absurd hphase (hne _), ?_⟩
    · cases hbus with
      | producer hthread => exact fun _ ↦ hreader
    · intro claim id hwaiting hready
      cases hbus with
      | producer hthread =>
        simp only [Bus.State.setProducer, update_self] at hwaiting hready ⊢
        rw [hthread.registry.2]
        exact hinv.room claim id (waiting_of_next hthread hwaiting) hready
  | published hphase hidle =>
    exact ⟨hinv.owns, fun _ ↦ hinv.reader_idle (by simp [hphase]), fun _ ↦ hidle, hinv.room⟩

/-- A bridge with room for its claim does not wait for itself. -/
theorem not_selfBlocked (hinv : LoopInv g s) : ¬ SelfBlocked g s := by
  rintro ⟨rest, id, claim, -, hready, hwaiting, hbehind⟩
  have hlt := hinv.room claim id hwaiting hready
  omega

end LoopInv

/-- A bridge that only publishes with room never waits for itself, whatever device it is and
whatever the other threads of the bus do. -/
theorem not_selfBlocked_of_run {g : Bus.Geometry} {slab : ℕ → UInt8} {device : Device State Input}
    {startup : List Action} {trace : List (LoopEvent Input)} {s : LoopState State}
    (hrun : Run (loopSystem g slab device startup) (KeepsRoom g) trace s) : ¬ SelfBlocked g s := by
  refine LoopInv.not_selfBlocked (hrun.invariant (fun _ ↦ LoopInv g) (.init slab device startup) ?_)
  intro trace s action s' events _ hinv hguard hstep
  exact hinv.step hguard (loopStep_cases hstep)

/-- When the two bridges never wait for themselves: in every run in which there is room at each of
the bridge's own `publish` calls, with any other producers, subscribers and readers on the bus and
whatever arrives. -/
theorem never_selfBlocked (g : Bus.Geometry) (slab : ℕ → UInt8) (startup : List Action) :
    (∀ (link : L2.Link) (trace : List (LoopEvent (Option (List UInt8)))) (s : LoopState L2State),
      Run (loopSystem g slab (l2bridge link) startup) (KeepsRoom g) trace s → ¬ SelfBlocked g s) ∧
    ∀ (cfg : Usb.Cfg) (trace : List (LoopEvent UsbInput)) (s : LoopState UsbState),
      Run (loopSystem g slab (usbsimBridge cfg g.slotBytes) startup) (KeepsRoom g) trace s →
        ¬ SelfBlocked g s :=
  ⟨fun _ _ _ ↦ not_selfBlocked_of_run, fun _ _ _ ↦ not_selfBlocked_of_run⟩

/-- A bus with a single slot of 4096 bytes. -/
def oneSlot : Bus.Geometry := ⟨1, 4096, Bus.isPow2_one⟩

/-- A bridge in the wait loop of its self test's probe, on a bus with a single slot. -/
theorem probe_run (device : Device State Input) :
    ∃ (trace : List (LoopEvent Input)) (s : LoopState State),
      Run (loopSystem oneSlot (fun _ ↦ 0) device [.publish [80]]) (KeepsRoom oneSlot) trace s ∧
        s.bus.producers 0 = ⟨true, [80], .loadSubs 0⟩ := by
  let system := loopSystem oneSlot (fun _ ↦ 0) device [.publish [80]]
  let actions : List (LoopAction Input) := List.replicate 4 (.own false)
  have hexec : (system.exec system.init actions).map (fun result ↦ result.1.bus.producers 0) =
      some ⟨true, [80], .loadSubs 0⟩ := by with_unfolding_all rfl
  have hpermitted : Permitted system (KeepsRoom oneSlot) [] system.init actions :=
    of_decide_eq_true (by with_unfolding_all rfl)
  obtain ⟨⟨s, trace⟩, hfinal, hproducer⟩ := Option.map_eq_some_iff.mp hexec
  exact ⟨trace, s, run_of_permitted hpermitted hfinal, hproducer⟩

/-- Both bridges in the wait loop of their self test's probe. -/
theorem never_selfBlocked_probe :
    (∃ s : LoopState L2State, s.bus.producers 0 = ⟨true, [80], .loadSubs 0⟩ ∧
      ¬ SelfBlocked oneSlot s) ∧
    ∃ s : LoopState UsbState, s.bus.producers 0 = ⟨true, [80], .loadSubs 0⟩ ∧
      ¬ SelfBlocked oneSlot s := by
  constructor
  · obtain ⟨trace, s, hrun, hproducer⟩ := probe_run (l2bridge (.defaults (Vector.replicate 6 2)))
    exact ⟨s, hproducer, (never_selfBlocked oneSlot (fun _ ↦ 0) [.publish [80]]).1 _ trace s hrun⟩
  · obtain ⟨trace, s, hrun, hproducer⟩ := probe_run (usbsimBridge ⟨4096, 8⟩ oneSlot.slotBytes)
    exact ⟨s, hproducer, (never_selfBlocked oneSlot (fun _ ↦ 0) [.publish [80]]).2 _ trace s hrun⟩

/-! ### Without room -/

/-- The condition is exact. A bridge that calls `publish` without room waits for itself from its
first operation on. -/
theorem selfBlocked_of_publish {g : Bus.Geometry} {device : Device State Input}
    {startup : List Action} {s : LoopState State} {message : List UInt8} {rest : List Action}
    (hphase : s.phase = .acting (.publish message :: rest))
    (hidle : (s.bus.producers 0).pc = .idle) (hne : message ≠ [])
    (hsize : message.length ≤ g.slotBytes) (hfull : ¬ HasRoom g s.bus) (spurious : Bool) :
    ∃ s' events, loopStep g device startup s (.own spurious) = some (s', events) ∧
      SelfBlocked g s' := by
  have hbegin : Bus.step g s.bus (.producer 0 (.publish message)) =
      some (s.bus.setProducer 0 { s.bus.mem with claimSeq := s.bus.mem.claimSeq + 1 }
        ⟨true, message, .loadSubs s.bus.mem.claimSeq⟩,
        [.producer 0 (.called message), .producer 0 (.claimed s.bus.mem.claimSeq message)]) := by
    have hfits : ¬ (message.isEmpty || decide (g.slotBytes < message.length)) = true := by
      simpa [List.isEmpty_iff] using ⟨hne, hsize⟩
    simp only [Bus.step, Bus.producerAct, if_pos hidle, Bus.beginPublish, if_neg hfits]
    rfl
  obtain ⟨id, hready⟩ : ∃ id, s.bus.subscribers 0 = .ready id := by
    unfold HasRoom at hfull
    split at hfull
    · exact ⟨_, ‹_›⟩
    · exact absurd trivial hfull
  obtain ⟨events, hstep⟩ : ∃ events, loopStep g device startup s (.own spurious) = some
      ({ s with
        bus := s.bus.setProducer 0 { s.bus.mem with claimSeq := s.bus.mem.claimSeq + 1 }
          ⟨true, message, .loadSubs s.bus.mem.claimSeq⟩
        phase := .publishing rest }, events) := by
    simp only [loopStep, ownStep, threadStep, hphase, LoopState.busStep, hbegin]
    exact ⟨_, rfl⟩
  have hbehind : s.bus.mem.subReadSeq id + g.descCapacity ≤ s.bus.mem.claimSeq := by
    simpa only [HasRoom, hready, Nat.not_lt] using hfull
  refine ⟨_, events, hstep, rest, id, s.bus.mem.claimSeq, rfl, hready, ?_, hbehind⟩
  simp [Bus.State.setProducer, Bus.Producer.Waiting]

/-- The wait loop of a bridge that waits for itself: its subscriber is among those that it scans,
and once it has seen its own cursor it cannot pass the capacity check. It can only go round again,
or panic at a subscriber past the end of the array. -/
def Spins (s : LoopState State) (id claim : ℕ) : Prop :=
  (s.bus.producers 0).blocking = true ∧
    match (s.bus.producers 0).pc with
    | .loadSubs c | .panicked c => c = claim
    | .loadWrite c n => c = claim ∧ id < n
    | .scan c n i minRead => c = claim ∧ id < n ∧ (id < i → minRead ≤ s.bus.mem.subReadSeq id)
    | _ => False

/-- A bridge that has started to wait for itself and has not returned from its `publish`. -/
structure Stuck (g : Bus.Geometry) (s : LoopState State) : Prop where
  owns : OwnsCursor s.bus
  spins : ∃ rest id claim, s.phase = .publishing rest ∧ s.bus.subscribers 0 = .ready id ∧
    s.bus.mem.subReadSeq id + g.descCapacity ≤ claim ∧ Spins s id claim

/-- The guard that only keeps `n_subs` from wrapping. -/
def CountsSubscribers : Guard (LoopState State) (LoopAction Input) (LoopEvent Input) :=
  fun _ s action ↦ match action with
  | .other action => KeepsCount s.bus.mem action
  | _ => True

/-- No step of any thread ends the wait of a bridge for itself. -/
theorem Stuck.step {g : Bus.Geometry} {device : Device State Input} {startup : List Action}
    {s s' : LoopState State} {trace events : List (LoopEvent Input)} {action : LoopAction Input}
    (hstuck : Stuck g s) (hguard : CountsSubscribers trace s action)
    (hstep : LoopStep g device startup s action s' events) : Stuck g s' := by
  obtain ⟨howns, rest, id, claim, hpublishing, hready, hbehind, hblocking, hspins⟩ := hstuck
  cases hstep with
  | other hforeign hbus =>
    have hbus := Bus.step_cases hbus
    obtain ⟨hproducer, hhandle, -, hcursor⟩ := howns.foreign_step hforeign hbus
    refine ⟨howns.step hbus hguard hforeign.keepsHandle, rest, id, claim, hpublishing,
      hhandle.trans hready, ?_, ?_⟩
    · simpa only [hcursor id hready] using hbehind
    · simpa only [Spins, hproducer, hcursor id hready] using ⟨hblocking, hspins⟩
  | publishing hphase hactive hbus =>
    have hbus := Bus.step_cases hbus
    refine ⟨howns.step hbus trivial trivial, ?_⟩
    cases hbus with
    | producer hthread =>
      refine ⟨rest, id, claim, hpublishing, hready, ?_, ?_⟩
      · simpa only [Bus.State.setProducer, hthread.registry.2] using hbehind
      · have hid := howns.id_lt 0 id (by rw [hready]; rfl)
        simp only [Spins, Bus.State.setProducer, update_self, hthread.registry.2]
        cases hthread with
        | pass b claim' n i minRead hpc hi _ hspace =>
          simp only [hpc] at hspins
          obtain ⟨rfl, hscanned, hseen⟩ := hspins
          have := hseen (by omega)
          omega
        | scanRead b claim' n i minRead hpc hi hmax =>
          simp only [hpc] at hspins
          obtain ⟨rfl, hscanned, hseen⟩ := hspins
          refine ⟨hblocking, rfl, hscanned, fun hlt ↦ ?_⟩
          rcases Nat.lt_succ_iff_lt_or_eq.mp hlt with hbefore | rfl
          · exact (min_le_right _ _).trans (hseen hbefore)
          · exact min_le_left _ _
        | _ => simp_all
  | published hphase hidle => simp [hidle] at hspins
  | _ => simp_all

/-- A bridge that calls `publish` without room is stuck in it. -/
theorem stuck_of_publish {g : Bus.Geometry} {device : Device State Input} {startup : List Action}
    {s s' : LoopState State} {message : List UInt8} {rest : List Action} {spurious : Bool}
    {events : List (LoopEvent Input)} (howns : OwnsCursor s.bus)
    (hphase : s.phase = .acting (.publish message :: rest)) (hne : message ≠ [])
    (hsize : message.length ≤ g.slotBytes) (hfull : ¬ HasRoom g s.bus)
    (hstep : LoopStep g device startup s (.own spurious) s' events) : Stuck g s' := by
  cases hstep with
  | publish hacting hbus =>
    obtain ⟨rfl, -⟩ : message = _ ∧ rest = _ := by simpa [hphase] using hacting
    have hbus := Bus.step_cases hbus
    refine ⟨howns.step hbus trivial trivial, ?_⟩
    unfold HasRoom at hfull
    split at hfull
    · rename_i id hready
      cases hbus with
      | producer hthread =>
        cases hthread with
        | publishRejected _ hpc hreject =>
          exact absurd hreject (not_or.mpr ⟨hne, hsize.not_gt⟩)
        | publish _ hpc _ _ =>
          refine ⟨_, id, s.bus.mem.claimSeq, rfl, hready, not_lt.mp hfull, ?_⟩
          simp [Spins, Bus.State.setProducer]
    · exact absurd trivial hfull
  | _ => simp_all

/-- A bridge that waits for itself never returns from its `publish`, whatever the other threads
do. -/
theorem Stuck.exec {g : Bus.Geometry} {slab : ℕ → UInt8} {device : Device State Input}
    {startup : List Action} {s s' : LoopState State} {trace events : List (LoopEvent Input)}
    {actions : List (LoopAction Input)} (hstuck : Stuck g s)
    (hpermitted : Permitted (loopSystem g slab device startup) CountsSubscribers trace s actions)
    (hexec : (loopSystem g slab device startup).exec s actions = some (s', events)) :
    Stuck g s' :=
  Permitted.invariant (fun _ ↦ Stuck g)
    (fun hbefore hguard hnext ↦ hbefore.step hguard (loopStep_cases hnext)) hstuck hpermitted hexec

/-- A local publish between the drain and a frame with a message. On a bus with one slot the bridge
then waits for itself: its drain came too early for the local message, which now fills the ring. -/
theorem selfBlocked_of_burst {device : Device State Input} {input : Input} {after : State}
    {message : List UInt8} {rest : List Action}
    (hreceive : device.receive device.init input = some (after, .publish message :: rest))
    (hne : message ≠ []) (hsize : message.length ≤ 4096) :
    ∃ (trace : List (LoopEvent Input)) (s : LoopState State),
      Run (loopSystem oneSlot (fun _ ↦ 0) device []) unguarded trace s ∧ SelfBlocked oneSlot s := by
  set system := loopSystem oneSlot (fun _ ↦ 0) device []
  let actions : List (LoopAction Input) :=
    List.replicate 6 (.own false) ++ .other (.producer 1 (.publish [8])) ::
      List.replicate 13 (.other (.producer 1 (.next false)))
  have hexec : (system.exec system.init actions).map (fun result ↦
      ((result.1.phase, result.1.device), (result.1.bus.producers 0).pc,
        result.1.bus.subscribers 0, result.1.bus.mem.claimSeq, result.1.bus.mem.subReadSeq 0)) =
      some ((.look, device.init), .idle, .ready 0, 1, 0) := by with_unfolding_all rfl
  obtain ⟨⟨s, trace⟩, hfinal, hresult⟩ := Option.map_eq_some_iff.mp hexec
  simp only [Prod.mk.injEq] at hresult
  obtain ⟨⟨hphase, hdevice⟩, hidle, hready, hclaim, hread⟩ := hresult
  have hrun : Run system unguarded trace s := run_of_exec hfinal
  obtain ⟨looked, hlook, hacting, hbus⟩ : ∃ looked, system.step s (.look input) =
      some (looked, [.looked input]) ∧ looked.phase = .acting (.publish message :: rest) ∧
        looked.bus = s.bus := by
    refine ⟨{ s with device := after, phase := .acting (.publish message :: rest) }, ?_, rfl, rfl⟩
    simp [system, loopSystem, loopStep, hphase, hdevice, hreceive]
  have hfull : ¬ HasRoom oneSlot looked.bus := by
    simp [hbus, HasRoom, hready, hclaim, hread, oneSlot]
  obtain ⟨s', events, hpublish, hblocked⟩ : ∃ s' events,
      system.step looked (.own false) = some (s', events) ∧ SelfBlocked oneSlot s' :=
    selfBlocked_of_publish hacting (hbus ▸ hidle) hne hsize hfull false
  exact ⟨_, s', (hrun.next trivial hlook).next trivial hpublish, hblocked⟩

/-- Both bridges can come to wait for themselves: one local message and one frame are enough. -/
theorem waits_for_itself :
    (∃ (trace : List (LoopEvent (Option (List UInt8)))) (s : LoopState L2State),
      Run (loopSystem oneSlot (fun _ ↦ 0) (l2bridge (.defaults (Vector.replicate 6 2))) [])
        unguarded trace s ∧ SelfBlocked oneSlot s) ∧
    ∃ (trace : List (LoopEvent UsbInput)) (s : LoopState UsbState),
      Run (loopSystem oneSlot (fun _ ↦ 0) (usbsimBridge ⟨4096, 8⟩ 4096) []) unguarded trace s ∧
        SelfBlocked oneSlot s := by
  constructor
  · set link : L2.Link := .defaults (Vector.replicate 6 2)
    have hframe : (L2.fragmentFrame link 0 7 1 [7] 0 ++ []).length ≤ L2.rxBufLen := by
      rw [List.append_nil]
      exact (L2.length_fragmentFrame_le (by decide)).trans (by decide)
    obtain ⟨after, -, -, -, -, hreceive⟩ :=
      L2.receive_fragmentFrame (rfl : link.cfg.ethertype = link.cfg.ethertype)
        (L2.Receiver.wellFormed_initial link) (fun hpos ↦ absurd hpos (lt_irrefl 0))
        (by decide : 0 < L2.fragmentCount [7]) (by decide) (by decide) 7 hframe
    have hpublish : (l2bridge link).receive (l2bridge link).init
        (some (L2.fragmentFrame link 0 7 1 [7] 0 ++ [])) =
          some (⟨1, after⟩, L2.delivery link 7 1 [7]) := by
      simp only [l2bridge, hreceive]
      rfl
    exact selfBlocked_of_burst hpublish (by decide) (by decide)
  · have hread : Usb.readFrame ⟨4096, 8⟩ [] (Usb.writeFrame 0 8 0 [7] ++ []) =
        (.ok (0, 8, 0, 1), [7], []) := Usb.readFrame_writeFrame (by decide) (by decide) [] []
    have hpublish : (usbsimBridge ⟨4096, 8⟩ 4096).receive (usbsimBridge ⟨4096, 8⟩ 4096).init
        ⟨Usb.writeFrame 0 8 0 [7], false⟩ =
          some (⟨0, [7], []⟩, [.publish [7], .send (Usb.writeFrame 1 7 0xB0000000 [7])]) := by
      rw [List.append_nil] at hread
      simp only [usbsimBridge, List.nil_append, hread]
      rfl
    exact selfBlocked_of_burst hpublish (by decide) (by decide)

end AarnnNsys.Bridge
