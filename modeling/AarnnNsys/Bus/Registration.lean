import AarnnNsys.Bus.Commit
import AarnnNsys.Bus.Registry

/-!
# Subscribing within the bound

`subscribe` counts a call in `n_subs` before it checks the bound, and takes nothing back when it
rejects the call. From then on `n_subs` is more than the entries of `sub_read_seq`, which the scan
of every later capacity check takes it for (`reject_then_panic`), and after `2 ^ 32` calls the word
starts over and identifiers are handed out again.

As long as every subscribe call finds an entry left (`FindsEntry`), identifiers are below the bound
and handed out once, no call is rejected, and no producer call ever scans past the last entry
(`subscribe_bounded`).
-/

set_option autoImplicit false
set_option relaxedAutoImplicit false

namespace AarnnNsys.Bus

open Function Lib

/-- The identifier that a subscribe call hands out. -/
def Event.subscribedId? : Event → Option ℕ
  | .subscriber _ (.subscribed id _) => some id
  | _ => none

/-- The identifiers handed out in a run, in the order in which the calls returned. -/
def subscribedIds (trace : List Event) : List ℕ := trace.filterMap Event.subscribedId?

/-- A rejected subscribe call or a producer call that panics. -/
def Event.IsFailure : Event → Prop
  | .subscriber _ (.failed _) => True
  | .producer _ .panicked => True
  | _ => False

instance : DecidablePred Event.IsFailure := fun event ↦ by
  unfold Event.IsFailure
  split <;> infer_instance

/-- What holds in a run in which every subscribe call finds an entry left. -/
structure RegistrationInv (trace : List Event) (s : State) : Prop where
  ids : IdsInv s
  counted_le : ∀ p n, (s.producers p).counted? = some n → n ≤ maxSubscribers
  not_panicked : ∀ p claim, (s.producers p).pc ≠ .panicked claim
  ready_of_mem : ∀ id ∈ subscribedIds trace, ∃ h, s.subscribers h = .ready id
  nodup : (subscribedIds trace).Nodup
  no_failure : ∀ event ∈ trace, ¬ event.IsFailure

/-- The invariant holds in a fresh region. -/
theorem registrationInv_init (slab : ℕ → UInt8) : RegistrationInv [] (State.init slab) where
  ids := idsInv_init slab
  counted_le := fun _ _ hcounted ↦ nomatch hcounted
  not_panicked := fun _ _ hpc ↦ nomatch hpc
  ready_of_mem := fun _ hnone ↦ nomatch hnone
  nodup := List.nodup_nil
  no_failure := fun _ hnone ↦ nomatch hnone

theorem subscribedIds_append (trace events : List Event) :
    subscribedIds (trace ++ events) = subscribedIds trace ++ subscribedIds events :=
  List.filterMap_append

/-- Only subscribe calls hand out identifiers. -/
theorem subscribedIds_map_producer (p : ℕ) (events : List ProducerEvent) :
    subscribedIds (events.map (.producer p)) = [] := by
  simp [subscribedIds, Event.subscribedId?]

/-- A producer call that counts no more subscribers than there are entries does not panic. -/
theorem ProducerStep.not_panicked {g : Geometry} {m m' : Mem} {t t' : Producer} {act : ProducerAct}
    {events : List ProducerEvent} (hstep : ProducerStep g m t act m' t' events)
    (hcounted : ∀ n, t.counted? = some n → n ≤ maxSubscribers) :
    (∀ claim, t'.pc ≠ .panicked claim) ∧ .panicked ∉ events := by
  cases hstep with
  | scanPanic b claim n i minRead hpc hi hmax =>
    have hn : n ≤ maxSubscribers := hcounted n (by simp [Producer.counted?, hpc])
    omega
  | advanceStop b w hpc huncommitted =>
    refine ⟨by simp, ?_⟩
    cases hblocking : t.blocking <;> simp [Producer.success, hblocking]
  | _ => exact ⟨by simp, by simp⟩

namespace RegistrationInv

variable {g : Geometry} {trace : List Event} {s : State}

/-- A step of a producer thread keeps the invariant. -/
theorem producer_step (hinv : RegistrationInv trace s) {p : ℕ} {act : ProducerAct} {m : Mem}
    {t : Producer} {events : List ProducerEvent}
    (hstep : ProducerStep g s.mem (s.producers p) act m t events) :
    RegistrationInv (trace ++ events.map (.producer p)) (s.setProducer p m t) := by
  have hcounted := hstep.counted (· ≤ maxSubscribers) hinv.ids.nSubs_le (hinv.counted_le p)
  obtain ⟨hpanicked, hquiet⟩ := hstep.not_panicked (hinv.counted_le p)
  constructor
  · exact hinv.ids.congr hstep.registry.1 fun _ ↦ rfl
  · intro q n hn
    simp only [State.setProducer] at hn
    by_cases hq : q = p
    · rw [hq, update_self] at hn
      exact hcounted n hn
    · rw [update_of_ne hq] at hn
      exact hinv.counted_le q n hn
  · intro q claim
    simp only [State.setProducer]
    by_cases hq : q = p
    · rw [hq, update_self]
      exact hpanicked claim
    · rw [update_of_ne hq]
      exact hinv.not_panicked q claim
  · rw [subscribedIds_append, subscribedIds_map_producer, List.append_nil]
    exact hinv.ready_of_mem
  · rw [subscribedIds_append, subscribedIds_map_producer, List.append_nil]
    exact hinv.nodup
  · intro event hmem
    rcases List.mem_append.mp hmem with hold | hnew
    · exact hinv.no_failure event hold
    · obtain ⟨own, hown, rfl⟩ := List.mem_map.mp hnew
      cases own with
      | panicked => exact absurd hown hquiet
      | _ => exact not_false

/-- A step of a subscribe call that finds an entry left keeps the invariant. -/
theorem subscriber_step (hinv : RegistrationInv trace s) {h : ℕ} {act : SubscriberAct} {m : Mem}
    {pc : SubscriberPc} {events : List SubscriberEvent}
    (hfinds : FindsEntry s (.subscriber h act))
    (hstep : SubscriberStep s.mem (s.subscribers h) act m pc events) :
    RegistrationInv (trace ++ events.map (.subscriber h)) (s.setSubscriber h m pc) := by
  have hids := hinv.ids.subscriber_step hfinds hstep
  have hnot : ∀ id, s.subscribers h ≠ .ready id := by
    intro id hready
    cases hstep <;> simp_all
  have hkept : ∀ id ∈ subscribedIds trace, ∃ h', update s.subscribers h pc h' = .ready id := by
    intro id hmem
    obtain ⟨h', hready⟩ := hinv.ready_of_mem id hmem
    have hne : h' ≠ h := by
      rintro rfl
      exact hnot id hready
    exact ⟨h', by rw [update_of_ne hne, hready]⟩
  cases hstep with
  | reject hpc hmax => exact absurd hfinds (Nat.not_lt.mpr hmax)
  | register hpc hmax | loadStart id hpc =>
    refine ⟨hids, hinv.counted_le, hinv.not_panicked, ?_, ?_, ?_⟩
    · simpa [State.setSubscriber] using hkept
    · simpa using hinv.nodup
    · simpa using hinv.no_failure
  | storeStart id start hpc =>
    have hids' : subscribedIds (trace ++ [.subscribed id start].map (.subscriber h)) =
        subscribedIds trace ++ [id] := by
      rw [subscribedIds_append]
      rfl
    refine ⟨hids, hinv.counted_le, hinv.not_panicked, ?_, ?_, ?_⟩
    · intro id' hmem
      rw [hids'] at hmem
      rcases List.mem_append.mp hmem with hold | hnew
      · exact hkept id' hold
      · exact ⟨h, by rw [List.mem_singleton.mp hnew]; exact update_self _ _ _⟩
    · rw [hids']
      refine List.nodup_append.mpr ⟨hinv.nodup, List.pairwise_singleton _ id, ?_⟩
      -- the identifier is still the one of the call in flight
      intro taken hmem own hown heq
      rw [heq, List.mem_singleton.mp hown] at hmem
      obtain ⟨h', hready⟩ := hinv.ready_of_mem id hmem
      obtain rfl := hinv.ids.id_injective h' h id (by rw [hready]; rfl) (by rw [hpc]; rfl)
      exact hnot id hready
    · intro event hmem
      rcases List.mem_append.mp hmem with hold | hnew
      · exact hinv.no_failure event hold
      · rw [List.mem_singleton.mp hnew]
        exact not_false

/-- Every step in which no subscribe call finds all entries taken keeps the invariant. -/
theorem step (hinv : RegistrationInv trace s) {action : Action} {s' : State}
    {reported : List Event} (hfinds : FindsEntry s action)
    (hstep : BusStep g s action s' reported) : RegistrationInv (trace ++ reported) s' := by
  cases hstep with
  | producer hthread => exact hinv.producer_step hthread
  | subscriber hthread => exact hinv.subscriber_step hfinds hthread
  | @reader r act m t events hthread =>
    have hquiet : subscribedIds (events.map (.reader t.handle)) = [] := by
      simp [subscribedIds, Event.subscribedId?]
    refine ⟨hinv.ids.step hfinds (.reader hthread), hinv.counted_le, hinv.not_panicked, ?_, ?_, ?_⟩
    · rw [subscribedIds_append, hquiet, List.append_nil]
      exact hinv.ready_of_mem
    · rw [subscribedIds_append, hquiet, List.append_nil]
      exact hinv.nodup
    · intro event hmem
      rcases List.mem_append.mp hmem with hold | hnew
      · exact hinv.no_failure event hold
      · obtain ⟨own, -, rfl⟩ := List.mem_map.mp hnew
        exact not_false

end RegistrationInv

/-- The invariant holds in every run in which every subscribe call finds an entry left. -/
theorem registrationInv_run {g : Geometry} {slab : ℕ → UInt8} {guard : Guard State Action Event}
    (hguard : ∀ trace s action, guard trace s action → FindsEntry s action)
    {trace : List Event} {s : State} (hrun : Run (busSystem g slab) guard trace s) :
    RegistrationInv trace s :=
  hrun.invariant RegistrationInv (registrationInv_init slab) fun _ hinv hallowed hstep ↦
    hinv.step (hguard _ _ _ hallowed) (step_cases hstep)

/-- A producer call in flight has a next operation, unless it has panicked. -/
theorem producerStep_isSome {g : Geometry} {m : Mem} {t : Producer} (spurious : Bool)
    (hactive : t.pc ≠ .idle) (halive : ∀ claim, t.pc ≠ .panicked claim) :
    ∃ result, producerStep g spurious m t = some result := by
  rw [← Option.isSome_iff_exists]
  cases hpc : t.pc with
  | idle => exact absurd hpc hactive
  | panicked claim => exact absurd hpc (halive claim)
  | loadSubs | loadWrite | storeDesc | storeSeq | advanceLoad => simp [producerStep, hpc]
  | scan claim n i minRead =>
    simp only [producerStep, hpc]
    split_ifs <;> rfl
  | casClaim claim | advanceSlot w | advanceCas w =>
    simp only [producerStep, hpc]
    split_ifs <;> rfl
  | copy claim k =>
    simp only [producerStep, hpc]
    cases t.payload[k]? <;> rfl

/-- Registration within the bound. When every subscribe call finds an entry of `sub_read_seq` left,
the identifiers handed out are below the bound and all different, no subscribe call fails, and no
producer call panics or scans past the last entry, so every producer call in flight can go on. -/
theorem subscribe_bounded (g : Geometry) (slab : ℕ → UInt8) (trace : List Event) (s : State)
    (hrun : Run (busSystem g slab) (fun _ s action ↦ FindsEntry s action) trace s) :
    (∀ id ∈ subscribedIds trace, id < maxSubscribers) ∧ (subscribedIds trace).Nodup ∧
    (∀ h error, .subscriber h (.failed error) ∉ trace) ∧ (∀ p, .producer p .panicked ∉ trace) ∧
    (∀ p claim n i minRead, (s.producers p).pc = .scan claim n i minRead → n ≤ maxSubscribers) ∧
    ∀ p spurious, (s.producers p).pc ≠ .idle →
      ∃ result, producerStep g spurious s.mem (s.producers p) = some result := by
  have hinv := registrationInv_run (fun _ _ _ hfinds ↦ hfinds) hrun
  refine ⟨fun id hmem ↦ ?_, hinv.nodup, fun h error hmem ↦ hinv.no_failure _ hmem trivial,
    fun p hmem ↦ hinv.no_failure _ hmem trivial, fun p claim n i minRead hpc ↦ ?_,
    fun p spurious hactive ↦ producerStep_isSome spurious hactive (hinv.not_panicked p)⟩
  · obtain ⟨h, hready⟩ := hinv.ready_of_mem id hmem
    exact (hinv.ids.id_lt h id (by rw [hready]; rfl)).trans_le hinv.ids.nSubs_le
  · exact hinv.counted_le p n (by simp [Producer.counted?, hpc])

/-- Two subscribe calls that overlap, and a producer that scans both entries. -/
theorem subscribe_bounded_two : ∃ (trace : List Event) (s : State),
    subscribedIds trace = [1, 0] ∧ (subscribedIds trace).Nodup ∧
    (s.producers 0).pc = .scan 0 2 1 0 := by
  let actions : List Action :=
    [.subscriber 0 .subscribe, .subscriber 1 .subscribe] ++
      List.replicate 2 (.subscriber 1 .next) ++ List.replicate 2 (.subscriber 0 .next) ++
      .producer 0 (.publish [7]) :: List.replicate 3 (.producer 0 (.next false))
  have hexec : ((busSystem tinyGeometry fun _ ↦ 0).exec (State.init fun _ ↦ 0) actions).map
      (fun result ↦ (subscribedIds result.2, (result.1.producers 0).pc)) =
      some ([1, 0], .scan 0 2 1 0) := by decide
  have hpermitted : Permitted (busSystem tinyGeometry fun _ ↦ 0)
      (fun _ s action ↦ FindsEntry s action) [] (State.init fun _ ↦ 0) actions := by decide
  obtain ⟨⟨s, trace⟩, hfinal, hresult⟩ := Option.map_eq_some_iff.mp hexec
  obtain ⟨hids, hpc⟩ := Prod.mk.inj hresult
  exact ⟨trace, s, hids,
    (subscribe_bounded tinyGeometry _ trace s (run_of_permitted hpermitted hfinal)).2.1, hpc⟩

/-- One subscribe call too many: it is rejected, `n_subs` keeps counting it, and the next `publish`
panics at entry `64`. -/
theorem reject_then_panic : ∃ (trace : List Event) (s : State),
    Run (busSystem tinyGeometry fun _ ↦ 0) unguarded trace s ∧
    .subscriber 64 (.failed .noSubscriberSlots) ∈ trace ∧ s.mem.nSubs = 65 ∧
    .producer 0 .panicked ∈ trace ∧ (s.producers 0).pc = .panicked 0 := by
  let actions : List Action :=
    (List.range 65).map (.subscriber · .subscribe) ++
      .producer 0 (.publish [7]) :: List.replicate 67 (.producer 0 (.next false))
  have hexec : ((busSystem tinyGeometry fun _ ↦ 0).exec (State.init fun _ ↦ 0) actions).map
      (fun result ↦ (result.2, result.1.mem.nSubs, (result.1.producers 0).pc)) =
      some ([.subscriber 64 (.failed .noSubscriberSlots), .producer 0 (.called [7]),
        .producer 0 (.claimed 0 [7]), .producer 0 .panicked], 65, .panicked 0) := by
    decide +kernel
  obtain ⟨⟨s, trace⟩, hfinal, hresult⟩ := Option.map_eq_some_iff.mp hexec
  obtain ⟨htrace, hstate⟩ := Prod.mk.inj hresult
  obtain ⟨hnSubs, hpc⟩ := Prod.mk.inj hstate
  dsimp only at htrace
  refine ⟨trace, s, run_of_exec hfinal, ?_, hnSubs, ?_, hpc⟩ <;> simp [htrace]

end AarnnNsys.Bus
