import AarnnNsys.Bus.Commit
import AarnnNsys.Bus.Registry
import Mathlib.Order.Lattice.Nat

/-!
# When `try_publish` says that the bus is full

A `try_publish` call returns `Ok(false)` in two places. One is the check of the capacity, which
compares the number the call has loaded with words it loads later, one at a time: `Full` held when
the call loaded the smallest of them (`Producer.Sampled` is the invariant of the call). The other is
the compare-exchange on `claim_seq`, which also fails when another producer has claimed a number in
the meantime, with any amount of room left.

`refused_full` is the result: a call that is refused has met a full bus, if its compare-exchange
found the number that the call had loaded, or a full bus (`Unraced`). Every other exchange refuses
a message that the bus has room for; `race_refused` is one.
-/

set_option autoImplicit false
set_option relaxedAutoImplicit false

namespace AarnnNsys.Bus

open Function Lib

/-! ### A full bus -/

/-- The words that bound the claims: `write_seq` and the read sequence of every subscriber that has
registered. -/
def State.marks (s : State) : Set ℕ :=
  {mark | mark = s.mem.writeSeq ∨
    ∃ h id, (s.subscribers h).id? = some id ∧ mark = s.mem.subReadSeq id}

/-- The bus is back-pressured: `claim_seq` is a whole ring ahead of the smallest of these words. -/
def Full (g : Geometry) (s : State) : Prop :=
  sInf s.marks + g.descCapacity ≤ s.mem.claimSeq

/-- It is enough that one of the words is a ring behind. -/
theorem full_iff {g : Geometry} {s : State} :
    Full g s ↔ ∃ mark ∈ s.marks, mark + g.descCapacity ≤ s.mem.claimSeq := by
  constructor
  · exact fun hfull ↦ ⟨_, Nat.sInf_mem ⟨s.mem.writeSeq, .inl rfl⟩, hfull⟩
  · rintro ⟨mark, hmark, hbehind⟩
    exact (Nat.add_le_add_right (Nat.sInf_le hmark) _).trans hbehind

/-! ### The subscribers that a check counts are registered -/

/-- Every entry below a count belongs to a subscriber that has registered. -/
def Covers (s : State) (n : ℕ) : Prop :=
  ∀ id < n, id < maxSubscribers → ∃ h, (s.subscribers h).id? = some id

/-- A handle keeps its entry. -/
theorem BusStep.id?_kept {g : Geometry} {s s' : State} {action : Action} {events : List Event}
    (hstep : BusStep g s action s' events) {h id : ℕ} (hid : (s.subscribers h).id? = some id) :
    (s'.subscribers h).id? = some id := by
  cases hstep with
  | @subscriber h' act m pc reported hthread =>
    by_cases hh : h = h'
    · subst hh
      simp only [State.setSubscriber, update_self]
      cases hthread with
      | reject hpc hmax | register hpc hmax =>
        rw [hpc] at hid
        cases hid
      | loadStart _ hpc | storeStart _ start hpc =>
        rw [hpc] at hid
        exact hid
    · simpa only [State.setSubscriber, update_of_ne hh] using hid
  | _ => exact hid

theorem BusStep.covers {g : Geometry} {s s' : State} {action : Action} {events : List Event}
    (hstep : BusStep g s action s' events) {n : ℕ} (hcovers : Covers s n) : Covers s' n := by
  intro id hid hmax
  obtain ⟨h, htaken⟩ := hcovers id hid hmax
  exact ⟨h, hstep.id?_kept htaken⟩

/-- `n_subs`, and the count of every check in flight, only counts registered subscribers. -/
structure CountsRegistered (s : State) : Prop where
  nSubs : Covers s s.mem.nSubs
  counted : ∀ p n, (s.producers p).counted? = some n → Covers s n

theorem countsRegistered_init (slab : ℕ → UInt8) : CountsRegistered (State.init slab) where
  nSubs := fun _ hid ↦ absurd hid (Nat.not_lt_zero _)
  counted := fun _ _ hcounted ↦ nomatch hcounted

/-- Every step keeps the counts, also one that makes the count of calls wrap around. -/
theorem CountsRegistered.step {g : Geometry} {s s' : State} {action : Action} {events : List Event}
    (hinv : CountsRegistered s) (hstep : BusStep g s action s' events) : CountsRegistered s' := by
  have hkept : ∀ {n}, Covers s n → Covers s' n := hstep.covers
  constructor
  · cases hstep with
    | producer hthread => exact hthread.registry.1 ▸ hkept hinv.nSubs
    | reader hthread => cases hthread <;> exact hkept hinv.nSubs
    | @subscriber h act m pc reported hthread =>
      cases hthread with
      | reject hpc hmax =>
        exact fun id _ hid ↦ hkept hinv.nSubs id (hid.trans_le hmax) hid
      | register hpc hmax =>
        intro id hid hentry
        rcases Nat.lt_succ_iff_lt_or_eq.mp hid with hold | rfl
        · exact hkept hinv.nSubs id hold hentry
        · exact ⟨h, by simp [State.setSubscriber, SubscriberPc.id?]⟩
      | loadStart id hpc | storeStart id start hpc => exact hkept hinv.nSubs
  · intro q n hcounted
    cases hstep with
    | @producer p act m t reported hthread =>
      by_cases hq : q = p
      · subst hq
        simp only [State.setProducer, update_self] at hcounted
        exact hthread.counted (Covers _) (hkept hinv.nSubs)
          (fun k hk ↦ hkept (hinv.counted q k hk)) n hcounted
      · simp only [State.setProducer, update_of_ne hq] at hcounted
        exact hkept (hinv.counted q n hcounted)
    | subscriber hthread => exact hkept (hinv.counted q n hcounted)
    | reader hthread => exact hkept (hinv.counted q n hcounted)

theorem countsRegistered_run {g : Geometry} {slab : ℕ → UInt8} {guard : Guard State Action Event}
    {trace : List Event} {s : State} (hrun : Run (busSystem g slab) guard trace s) :
    CountsRegistered s :=
  hrun.invariant (fun _ s ↦ CountsRegistered s) (countsRegistered_init slab)
    fun _ hinv _ hstep ↦ hinv.step (step_cases hstep)

/-! ### What a call has sampled -/

/-- The number that a call has loaded has been reached, and none of the words that it has compared
it with is a ring behind. -/
def Producer.Sampled (g : Geometry) (m : Mem) (t : Producer) : Prop :=
  match t.pc with
  | .loadSubs claim | .loadWrite claim _ => claim ≤ m.claimSeq
  | .scan claim _ _ minRead => claim ≤ m.claimSeq ∧ claim < minRead + g.descCapacity
  | _ => True

/-- What a call has sampled stays true while other threads claim numbers. -/
theorem Producer.Sampled.mono {g : Geometry} {m m' : Mem} {t : Producer} (hsampled : t.Sampled g m)
    (hle : m.claimSeq ≤ m'.claimSeq) : t.Sampled g m' := by
  unfold Sampled at hsampled ⊢
  split at hsampled
  · exact hsampled.trans hle
  · exact hsampled.trans hle
  · exact ⟨hsampled.1.trans hle, hsampled.2⟩
  · trivial

/-- The next operation of a call compares with a word that is not a ring behind, or it finds the bus
full. -/
theorem ProducerStep.sampled {g : Geometry} {s : State} {p : ℕ} {b : Bool} {m : Mem} {t : Producer}
    {events : List ProducerEvent} (hinv : CountsRegistered s)
    (hsampled : (s.producers p).Sampled g s.mem)
    (hstep : ProducerStep g s.mem (s.producers p) (.next b) m t events) :
    Full g s ∨ t.Sampled g m := by
  cases hstep with
  | loadSubs b claim hpc =>
    rw [Producer.Sampled, hpc] at hsampled
    exact .inr hsampled
  | loadWrite b claim n hpc =>
    rw [Producer.Sampled, hpc] at hsampled
    rcases Nat.lt_or_ge claim (s.mem.writeSeq + g.descCapacity) with hroom | hbehind
    · exact .inr ⟨hsampled, hroom⟩
    · exact .inl (full_iff.mpr ⟨_, .inl rfl, hbehind.trans hsampled⟩)
  | scanRead b claim n i minRead hpc hi hmax =>
    rw [Producer.Sampled, hpc] at hsampled
    obtain ⟨hclaim, hleast⟩ := hsampled
    rcases Nat.lt_or_ge claim (s.mem.subReadSeq i + g.descCapacity) with hroom | hbehind
    · exact .inr ⟨hclaim, by omega⟩
    · obtain ⟨h, hid⟩ := hinv.counted p n (by rw [Producer.counted?, hpc]) i hi hmax
      exact .inl (full_iff.mpr ⟨_, .inr ⟨h, i, hid, rfl⟩, hbehind.trans hclaim⟩)
  | retry b claim n i minRead hpc hi hblocking hfull =>
    rw [Producer.Sampled, hpc] at hsampled
    exact absurd hsampled.2 (Nat.not_lt.mpr hfull)
  | _ => exact .inr trivial

/-! ### Calls that are refused -/

/-- A `try_publish` call of thread `p` that begins in state `s` and returns `Ok(false)` from state
`before`. In between come steps of any threads, those of `p` being the next operations of the
call. -/
structure Refused (g : Geometry) (slab : ℕ → UInt8) (p : ℕ) (payload : Message) (s : State)
    (actions : List Action) (before : State) : Prop where
  own : ∀ act, .producer p act ∈ actions → ∃ b, act = .next b
  exec : ∃ events, (busSystem g slab).exec s (.producer p (.tryPublish payload) :: actions) =
    some (before, events)
  returns : ∃ after, step g before (.producer p (.next false)) =
    some (after, [.producer p (.tryPublishReturned (.ok false))])

/-- If the thread is at the compare-exchange of a `try_publish` call, then no other producer has
claimed the number that the call has loaded, or the bus is full. -/
def Unraced (g : Geometry) (p : ℕ) (s : State) : Prop :=
  ∀ tail, (s.producers p).pc = .casClaim tail → s.mem.claimSeq = tail ∨ Full g s

/-- Where a call is refused. -/
theorem ProducerStep.refused {g : Geometry} {m m' : Mem} {t t' : Producer} {b : Bool}
    {events : List ProducerEvent} (hstep : ProducerStep g m t (.next b) m' t' events)
    (hrefused : .tryPublishReturned (.ok false) ∈ events) :
    (∃ claim n i minRead, t.pc = .scan claim n i minRead ∧ minRead + g.descCapacity ≤ claim) ∨
      ∃ tail, t.pc = .casClaim tail ∧ (m.claimSeq ≠ tail ∨ b = true) := by
  cases hstep with
  | refuse b claim n i minRead hpc hi hblocking hfull => exact .inl ⟨_, _, _, _, hpc, hfull⟩
  | claimLost b claim hpc hlost => exact .inr ⟨_, hpc, hlost⟩
  | advanceStop b w hpc huncommitted =>
    rw [List.mem_singleton, Producer.success] at hrefused
    split at hrefused <;> cases hrefused
  | _ => simp at hrefused

/-- A step of the bus, other than the start of a call of the thread, keeps what it has sampled, or
it happens on a full bus. -/
theorem BusStep.sampled {g : Geometry} {s s' : State} {action : Action} {events : List Event}
    (hstep : BusStep g s action s' events) {p : ℕ} (hown : ∀ act, action = .producer p act →
      ∃ b, act = .next b) (hinv : CountsRegistered s)
    (hsampled : (s.producers p).Sampled g s.mem) :
    Full g s ∨ (s'.producers p).Sampled g s'.mem := by
  cases hstep with
  | @producer q act m t reported hthread =>
    by_cases hq : q = p
    · subst hq
      obtain ⟨b, rfl⟩ := hown act rfl
      simpa only [State.setProducer, update_self] using hthread.sampled hinv hsampled
    · simp only [State.setProducer, update_of_ne (Ne.symm hq)]
      exact .inr (hsampled.mono hthread.claimSeq_le)
  | subscriber hthread => exact .inr (hsampled.mono hthread.words.1.ge)
  | reader hthread => exact .inr (hsampled.mono hthread.words.1.ge)

/-- A call that is refused has met a full bus. Assumes: this is not because of a number that another
producer has claimed. -/
theorem Refused.passes_full {g : Geometry} {slab : ℕ → UInt8} {p : ℕ} {payload : Message}
    {s before : State} {actions : List Action}
    (hrefused : Refused g slab p payload s actions before)
    (hinv : CountsRegistered s) (hunraced : Unraced g p before) :
    (busSystem g slab).Passes (Full g) s (.producer p (.tryPublish payload) :: actions) := by
  obtain ⟨hown, ⟨events, hexec⟩, after, hreturns⟩ := hrefused
  obtain ⟨called, first, last, hbegin, hactions, -⟩ := TransitionSystem.exec_uncons hexec
  have hcalled : BusStep g s (.producer p (.tryPublish payload)) called first := step_cases hbegin
  refine .inr ⟨_, hbegin, TransitionSystem.passes_of_invariant
    (fun s ↦ CountsRegistered s ∧ (s.producers p).Sampled g s.mem) ?_ ?_ hactions ?_⟩
  · rintro action hmem s s' reported ⟨hinv, hsampled⟩ hstep
    have hbus := step_cases hstep
    exact (hbus.sampled (fun act hact ↦ hown act (hact ▸ hmem)) hinv hsampled).imp_right
      fun hsampled' ↦ ⟨hinv.step hbus, hsampled'⟩
  · -- the call has loaded the number that is claimed next
    refine ⟨hinv.step hcalled, ?_⟩
    cases hcalled with
    | producer hthread =>
      cases hthread with
      | tryPublishRejected _ hpc hsize => simp [State.setProducer, Producer.Sampled]
      | tryPublish _ hpc hne hsize => simp [State.setProducer, Producer.Sampled]
  · rintro ⟨-, hsampled⟩
    generalize hreported : [Event.producer p (.tryPublishReturned (.ok false))] = reported
      at hreturns
    cases step_cases hreturns with
    | @producer _ act m t returned hthread =>
      have hmem : Event.producer p (.tryPublishReturned (.ok false)) ∈ returned.map (.producer p) :=
        hreported ▸ List.mem_singleton_self _
      rw [List.mem_map_of_injective fun _ _ heq ↦ by cases heq; rfl] at hmem
      rcases hthread.refused hmem with ⟨claim, n, i, minRead, hpc, hfull⟩ | ⟨tail, hpc, hlost⟩
      · rw [Producer.Sampled, hpc] at hsampled
        exact absurd hsampled.2 (Nat.not_lt.mpr hfull)
      · rcases hunraced tail hpc with hsame | hfull
        · simp [hsame] at hlost
        · exact hfull

/-- In every run a call that returns `Ok(false)` has met a full bus between its start and its
return, if it does not return because of a number that another producer has claimed while the bus
has room. That is all the condition excludes: a thread in a state without it returns `Ok(false)`
next, and the bus is not full. -/
theorem refused_full {g : Geometry} {slab : ℕ → UInt8} {trace : List Event} {s : State}
    (hrun : Run (busSystem g slab) unguarded trace s) :
    (∀ {p : ℕ} {payload : Message} {actions : List Action} {before : State},
      Refused g slab p payload s actions before → Unraced g p before →
        (busSystem g slab).Passes (Full g) s (.producer p (.tryPublish payload) :: actions)) ∧
    ∀ p, ¬ Unraced g p s → ∃ after, step g s (.producer p (.next false)) =
      some (after, [.producer p (.tryPublishReturned (.ok false))]) ∧ ¬ Full g s ∧
        ¬ Full g after := by
  refine ⟨fun hrefused hunraced ↦ hrefused.passes_full (countsRegistered_run hrun) hunraced, ?_⟩
  intro p hraced
  simp only [Unraced, not_forall, not_or] at hraced
  obtain ⟨tail, hpc, hlost, hroom⟩ := hraced
  refine ⟨s.setProducer p s.mem (s.producers p).finish, ?_, hroom, hroom⟩
  simp [step, producerAct, producerStep, hpc, hlost]

/-- A call that finds the only slot of the ring claimed. -/
theorem refused_full_one : ∃ (trace : List Event) (s before : State) (actions : List Action),
    Run (busSystem tinyGeometry fun _ ↦ 0) unguarded trace s ∧
    Refused tinyGeometry (fun _ ↦ 0) 0 [1] s actions before ∧
    (busSystem tinyGeometry fun _ ↦ 0).Passes (Full tinyGeometry) s
      (.producer 0 (.tryPublish [1]) :: actions) := by
  let system := busSystem tinyGeometry fun _ ↦ 0
  let actions : List Action := List.replicate 2 (.producer 0 (.next false))
  let s : State := (State.init fun _ ↦ 0).setProducer 1 { Mem.init fun _ ↦ 0 with claimSeq := 1 }
    ⟨true, [2], .loadSubs 0⟩
  have hexec : system.exec system.init [.producer 1 (.publish [2])] = some (s, _) := rfl
  have hrun : Run system unguarded _ s := run_of_exec hexec
  have hown : ∀ act, .producer 0 act ∈ actions → ∃ b, act = .next b := by
    intro act hmem
    simp only [actions, List.mem_replicate, Action.producer.injEq] at hmem
    exact ⟨false, hmem.2.2⟩
  obtain ⟨before, events, hcall⟩ : ∃ before events,
      system.exec s (.producer 0 (.tryPublish [1]) :: actions) = some (before, events) :=
    ⟨_, _, rfl⟩
  obtain ⟨rfl, -⟩ := Prod.mk.inj (Option.some.inj hcall)
  refine ⟨_, s, _, actions, hrun, ⟨hown, ⟨_, hcall⟩, _, rfl⟩,
    (refused_full hrun).1 ⟨hown, ⟨_, hcall⟩, _, rfl⟩ ?_⟩
  intro tail hpc
  cases hpc

/-- A call whose exchange finds the number claimed by another producer, with half of the ring
free. -/
theorem race_refused :
    let g : Geometry := ⟨2, 4, rfl⟩
    let actions := .producer 1 (.publish [2]) :: List.replicate 3 (.producer 0 (.next false))
    (∃ before, Refused g (fun _ ↦ 0) 0 [1] (State.init fun _ ↦ 0) actions before) ∧
      ¬ (busSystem g fun _ ↦ 0).Passes (Full g) (State.init fun _ ↦ 0)
        (.producer 0 (.tryPublish [1]) :: actions) := by
  intro g actions
  have hown : ∀ act, .producer 0 act ∈ actions → ∃ b, act = .next b := by
    intro act hmem
    simp only [actions, List.mem_cons, List.mem_replicate, Action.producer.injEq] at hmem
    rcases hmem with ⟨hother, -⟩ | ⟨-, -, hnext⟩
    · cases hother
    · exact ⟨false, hnext⟩
  refine ⟨⟨_, hown, ⟨_, rfl⟩, _, rfl⟩, fun hfull ↦ ?_⟩
  -- nobody has registered, so only `write_seq` counts
  have hpasses : (busSystem g fun _ ↦ 0).Passes
      (fun s ↦ s.mem.writeSeq + g.descCapacity ≤ s.mem.claimSeq) (State.init fun _ ↦ 0)
      (.producer 0 (.tryPublish [1]) :: actions) := by
    refine hfull.imp (fun s ↦ ∀ h, (s.subscribers h).id? = none) ?_ ?_ fun _ ↦ rfl
    · intro action hmem s s' events hnone hstep
      cases step_cases hstep with
      | producer hthread => exact hnone
      | subscriber hthread => simp [actions] at hmem
      | reader hthread => simp [actions] at hmem
    · intro s hnone hnow
      obtain ⟨mark, rfl | ⟨h, id, hid, -⟩, hbehind⟩ := full_iff.mp hnow
      · exact hbehind
      · simp [hnone] at hid
  revert hpasses
  decide +kernel

end AarnnNsys.Bus
