import AarnnNsys.Bus.Inversion

/-!
# Subscribers, their identifiers and their cursors

A handle gets its `sub_id` from the `fetch_add` on `n_subs` and from then on owns the entry of
`sub_read_seq` with that index. `SubscriberPc.cursor?` is the cursor of a subscriber that has loaded
its start: the number it is about to store while its `subscribe` call runs, the stored one after.

`Disciplined` is how the bus is meant to be used: at most `MAX_SUBSCRIBERS` subscribe calls, and one
thread for each handle. `RegistryInv` is what follows for the identifiers: they are the numbers
below `n_subs`, each taken once, an entry that no finished call has stored to is still `0`, and a
`try_recv` in flight goes through a finished handle of its own. `IdsInv`, `OwnersInv` and
`HandlesInv` are its parts, each under the part of the discipline that it needs.
-/

set_option autoImplicit false
set_option relaxedAutoImplicit false

namespace AarnnNsys.Bus

open Function Lib

/-- The `sub_id` of a call that has registered. -/
def SubscriberPc.id? : SubscriberPc → Option ℕ
  | .loadStart id | .storeStart id _ | .ready id => some id
  | _ => none

/-- The `sub_id` and the cursor of a call that has loaded its start. -/
def SubscriberPc.cursor? (m : Mem) : SubscriberPc → Option (ℕ × ℕ)
  | .storeStart id start => some (id, start)
  | .ready id => some (id, m.subReadSeq id)
  | _ => none

/-- How the bus may be used: at most `MAX_SUBSCRIBERS` subscribe calls, and every handle received
through by one thread, the reader thread of the same number. -/
def Disciplined (s : State) : Action → Prop
  | .subscriber _ .subscribe => s.mem.nSubs < maxSubscribers
  | .reader r (.tryRecv h _) => r = h
  | _ => True

instance (s : State) : DecidablePred (Disciplined s) := fun action ↦ by
  unfold Disciplined
  split <;> infer_instance

/-- A producer step leaves the registry alone. -/
theorem ProducerStep.registry {g : Geometry} {m m' : Mem} {t t' : Producer} {act : ProducerAct}
    {events : List ProducerEvent} (hstep : ProducerStep g m t act m' t' events) :
    m'.nSubs = m.nSubs ∧ m'.subReadSeq = m.subReadSeq := by
  cases hstep <;> exact ⟨rfl, rfl⟩

/-- The number of subscribers that a capacity check has counted. -/
def Producer.counted? (t : Producer) : Option ℕ :=
  match t.pc with
  | .loadWrite _ n | .scan _ n _ _ => some n
  | _ => none

/-- A check counts the subscribers when it begins: what holds of `n_subs` holds of its count. -/
theorem ProducerStep.counted {g : Geometry} {m m' : Mem} {t t' : Producer} {act : ProducerAct}
    {events : List ProducerEvent} (hstep : ProducerStep g m t act m' t' events)
    (property : ℕ → Prop) (hnSubs : property m.nSubs)
    (hold : ∀ n, t.counted? = some n → property n) (n : ℕ) (hcounted : t'.counted? = some n) :
    property n := by
  cases hstep with
  | loadSubs b claim hpc =>
    obtain rfl : m.nSubs = n := Option.some.inj hcounted
    exact hnSubs
  | loadWrite b claim k hpc | scanRead b claim k i minRead hpc =>
    refine hold n ?_
    rw [Producer.counted?, hpc]
    exact hcounted
  | _ => cases hcounted

/-- The cursor of a handle has its `sub_id`. -/
theorem SubscriberPc.id?_of_cursor? {m : Mem} {pc : SubscriberPc} {id cursor : ℕ}
    (hcursor : pc.cursor? m = some (id, cursor)) : pc.id? = some id := by
  cases pc <;> simp_all [SubscriberPc.cursor?, SubscriberPc.id?]

/-- A cursor depends on the memory only through the entries of `sub_read_seq`. -/
theorem SubscriberPc.cursor?_congr {m m' : Mem} {pc : SubscriberPc}
    (hsame : ∀ id, pc = .ready id → m'.subReadSeq id = m.subReadSeq id) :
    pc.cursor? m' = pc.cursor? m := by
  cases pc with
  | ready id => simp [SubscriberPc.cursor?, hsame id rfl]
  | _ => rfl

/-- Identifiers below a bound, each taken by one handle. -/
structure TakenOnce (bound : ℕ) (ids : ℕ → Option ℕ) : Prop where
  lt : ∀ h id, ids h = some id → id < bound
  injective : ∀ h h' id, ids h = some id → ids h' = some id → h = h'

/-- A handle may keep its identifier, lose it, or take one that nobody has. -/
theorem TakenOnce.update {bound bound' : ℕ} {subscribers : ℕ → SubscriberPc}
    (htaken : TakenOnce bound fun h ↦ (subscribers h).id?) (hle : bound ≤ bound') {h : ℕ}
    {pc : SubscriberPc}
    (hown : ∀ id, pc.id? = some id → (subscribers h).id? = some id ∨ bound ≤ id ∧ id < bound') :
    TakenOnce bound' fun h' ↦ (Function.update subscribers h pc h').id? := by
  have hcases : ∀ h' id, (Function.update subscribers h pc h').id? = some id →
      (subscribers h').id? = some id ∨ h' = h ∧ bound ≤ id ∧ id < bound' := by
    intro h' id hid
    by_cases hh : h' = h
    · subst hh
      rw [update_self] at hid
      exact (hown id hid).imp_right fun hfresh ↦ ⟨rfl, hfresh⟩
    · rw [update_of_ne hh] at hid
      exact Or.inl hid
  constructor
  · intro h' id hid
    rcases hcases h' id hid with hold | ⟨-, -, hlt⟩
    · exact (htaken.lt h' id hold).trans_le hle
    · exact hlt
  · intro h' h'' id hid hid'
    rcases hcases h' id hid with hold | ⟨rfl, hfresh, -⟩
    · rcases hcases h'' id hid' with hold' | ⟨-, hfresh, -⟩
      · exact htaken.injective h' h'' id hold hold'
      · exact absurd (htaken.lt h' id hold) (Nat.not_lt.mpr hfresh)
    · rcases hcases h'' id hid' with hold' | ⟨rfl, -, -⟩
      · exact absurd (htaken.lt h'' id hold') (Nat.not_lt.mpr hfresh)
      · rfl

/-- A subscribe call that begins finds an entry of `sub_read_seq` left for it. -/
def FindsEntry (s : State) : Action → Prop
  | .subscriber _ .subscribe => s.mem.nSubs < maxSubscribers
  | _ => True

instance FindsEntry.decidable (s : State) : ∀ action : Action, Decidable (FindsEntry s action)
  | .subscriber _ .subscribe => inferInstanceAs (Decidable (_ < _))
  | .subscriber _ .next => isTrue trivial
  | .producer _ _ => isTrue trivial
  | .reader _ _ => isTrue trivial

/-- The identifiers of the calls that have registered are the numbers below `n_subs`, each taken
once, and each has an entry of `sub_read_seq`. -/
structure IdsInv (s : State) : Prop where
  nSubs_le : s.mem.nSubs ≤ maxSubscribers
  id_covers : ∀ id < s.mem.nSubs, ∃ h, (s.subscribers h).id? = some id
  id_lt : ∀ h id, (s.subscribers h).id? = some id → id < s.mem.nSubs
  id_injective : ∀ h h' id, (s.subscribers h).id? = some id → (s.subscribers h').id? = some id →
    h = h'

/-- The identifiers in a fresh region. -/
theorem idsInv_init (slab : ℕ → UInt8) : IdsInv (State.init slab) where
  nSubs_le := Nat.zero_le _
  id_covers := fun _ hlt ↦ absurd hlt (Nat.not_lt_zero _)
  id_lt := fun _ _ hid ↦ nomatch hid
  id_injective := fun _ _ _ hid ↦ nomatch hid

namespace IdsInv

variable {g : Geometry} {s : State}

/-- A handle in the place of which no identifier changes, and `n_subs` neither. -/
theorem congr {s' : State} (hinv : IdsInv s) (hnSubs : s'.mem.nSubs = s.mem.nSubs)
    (hid : ∀ h, (s'.subscribers h).id? = (s.subscribers h).id?) : IdsInv s' where
  nSubs_le := hnSubs ▸ hinv.nSubs_le
  id_covers := by simpa [hnSubs, hid] using hinv.id_covers
  id_lt := by simpa [hnSubs, hid] using hinv.id_lt
  id_injective := by simpa [hid] using hinv.id_injective

/-- The identifiers are taken once. -/
theorem taken (hinv : IdsInv s) : TakenOnce s.mem.nSubs fun h ↦ (s.subscribers h).id? :=
  ⟨hinv.id_lt, hinv.id_injective⟩

/-- A registration takes the next identifier. -/
theorem register (hinv : IdsInv s) {h : ℕ} (hpc : s.subscribers h = .unsubscribed)
    (hmax : s.mem.nSubs < maxSubscribers) :
    IdsInv (s.setSubscriber h { s.mem with nSubs := s.mem.nSubs + 1 }
      (.loadStart s.mem.nSubs)) := by
  obtain ⟨hlt, hinjective⟩ : TakenOnce (s.mem.nSubs + 1)
      fun h' ↦ (update s.subscribers h (.loadStart s.mem.nSubs) h').id? :=
    hinv.taken.update (Nat.le_succ _) fun id hid ↦ by
      cases hid
      exact Or.inr ⟨le_rfl, Nat.lt_succ_self _⟩
  refine ⟨hmax, ?_, hlt, hinjective⟩
  intro id hid
  simp only [State.setSubscriber] at hid ⊢
  rcases Nat.lt_succ_iff_lt_or_eq.mp hid with hold | rfl
  · obtain ⟨h', htaken⟩ := hinv.id_covers id hold
    have hne : h' ≠ h := by
      rintro rfl
      rw [hpc] at htaken
      cases htaken
    exact ⟨h', by rw [update_of_ne hne, htaken]⟩
  · exact ⟨h, by rw [update_self]; rfl⟩

/-- A step of a subscribe call keeps the identifiers. -/
theorem subscriber_step (hinv : IdsInv s) {h : ℕ} {act : SubscriberAct} {m : Mem}
    {pc : SubscriberPc} {events : List SubscriberEvent}
    (hfinds : FindsEntry s (.subscriber h act))
    (hstep : SubscriberStep s.mem (s.subscribers h) act m pc events) :
    IdsInv (s.setSubscriber h m pc) := by
  have hsame : ∀ pc', pc'.id? = (s.subscribers h).id? → ∀ h',
      (update s.subscribers h pc' h').id? = (s.subscribers h').id? := by
    intro pc' hpc' h'
    by_cases hh : h' = h
    · rw [hh, update_self, hpc']
    · rw [update_of_ne hh]
  cases hstep with
  | reject hpc hmax => exact absurd hfinds (Nat.not_lt.mpr hmax)
  | register hpc hmax => exact hinv.register hpc hmax
  | loadStart id hpc => exact hinv.congr rfl (hsame _ (by rw [hpc]; rfl))
  | storeStart id start hpc => exact hinv.congr rfl (hsame _ (by rw [hpc]; rfl))

/-- Every step of the bus keeps the identifiers, as long as no subscribe call finds all entries
taken. -/
theorem step (hinv : IdsInv s) {action : Action} {s' : State} {reported : List Event}
    (hfinds : FindsEntry s action) (hstep : BusStep g s action s' reported) : IdsInv s' := by
  cases hstep with
  | producer hthread => exact hinv.congr hthread.registry.1 fun _ ↦ rfl
  | subscriber hthread => exact hinv.subscriber_step hfinds hthread
  | reader hthread => exact hinv.congr (by cases hthread <;> rfl) fun _ ↦ rfl

end IdsInv

/-! ### Cursors and their owners -/

/-- A subscribe call that begins leaves the count of calls within its word. -/
def CountFits (s : State) : Action → Prop
  | .subscriber _ .subscribe => s.mem.nSubs + 1 < u32Size
  | _ => True

instance CountFits.decidable (s : State) : ∀ action : Action, Decidable (CountFits s action)
  | .subscriber _ .subscribe => inferInstanceAs (Decidable (_ < _))
  | .subscriber _ .next => isTrue trivial
  | .producer _ _ => isTrue trivial
  | .reader _ _ => isTrue trivial

/-- Who owns the entries of `sub_read_seq`, however the handles are shared: an identifier is taken
by one handle, an entry that no finished call has stored to is still `0`, and a `try_recv` in flight
goes through a finished handle. -/
structure OwnersInv (s : State) : Prop where
  taken : TakenOnce s.mem.nSubs fun h ↦ (s.subscribers h).id?
  unset : ∀ id, (∀ h, s.subscribers h ≠ .ready id) → s.mem.subReadSeq id = 0
  reader_ready : ∀ r, (s.readers r).pc ≠ .idle →
    s.subscribers (s.readers r).handle = .ready (s.readers r).id

/-- The invariant holds in a fresh region. -/
theorem ownersInv_init (slab : ℕ → UInt8) : OwnersInv (State.init slab) where
  taken := (idsInv_init slab).taken
  unset := fun _ _ ↦ rfl
  reader_ready := fun _ hactive ↦ absurd rfl hactive

namespace OwnersInv

variable {g : Geometry} {s : State}

/-- The entry of `sub_read_seq` never runs ahead of the cursor. -/
theorem subReadSeq_le (hinv : OwnersInv s) {h id cursor : ℕ}
    (hcursor : (s.subscribers h).cursor? s.mem = some (id, cursor)) :
    s.mem.subReadSeq id ≤ cursor := by
  have hid := SubscriberPc.id?_of_cursor? hcursor
  cases hpc : s.subscribers h with
  | ready other =>
    simp only [hpc, SubscriberPc.cursor?, Option.some.injEq, Prod.mk.injEq] at hcursor
    obtain ⟨rfl, rfl⟩ := hcursor
    exact le_rfl
  | storeStart other start =>
    have hunset := hinv.unset id fun h' hready ↦ by
      have heq := hinv.taken.injective h h' id hid (by simp [hready, SubscriberPc.id?])
      rw [← heq, hpc] at hready
      cases hready
    omega
  | _ => simp [hpc, SubscriberPc.cursor?] at hcursor

/-- Distinct handles that are ready have distinct identifiers. -/
theorem eq_of_ready (hinv : OwnersInv s) {h h' id : ℕ} (hfirst : s.subscribers h = .ready id)
    (hsecond : s.subscribers h' = .ready id) : h = h' :=
  hinv.taken.injective h h' id (by simp [hfirst, SubscriberPc.id?])
    (by simp [hsecond, SubscriberPc.id?])

/-- A step of a subscribe call keeps the entry of every handle that is ready. -/
theorem entry_kept (hinv : OwnersInv s) {h : ℕ} {act : SubscriberAct} {m : Mem}
    {pc : SubscriberPc} {events : List SubscriberEvent}
    (hstep : SubscriberStep s.mem (s.subscribers h) act m pc events) {h' id : ℕ}
    (hready : s.subscribers h' = .ready id) : m.subReadSeq id = s.mem.subReadSeq id := by
  cases hstep with
  | storeStart other start hpc =>
    refine update_of_ne ?_ _ _
    rintro rfl
    have heq := hinv.taken.injective h' h id (by simp [hready, SubscriberPc.id?])
      (by simp [hpc, SubscriberPc.id?])
    rw [heq, hpc] at hready
    cases hready
  | _ => rfl

/-- A step of a subscribe call keeps the owners. -/
theorem subscriber_step (hinv : OwnersInv s) {h : ℕ} {act : SubscriberAct} {m : Mem}
    {pc : SubscriberPc} {events : List SubscriberEvent} (hfits : CountFits s (.subscriber h act))
    (hstep : SubscriberStep s.mem (s.subscribers h) act m pc events) :
    OwnersInv (s.setSubscriber h m pc) := by
  -- a call in flight is not the ready handle that a reader goes through
  have hnot : ∀ id, s.subscribers h ≠ .ready id := by
    intro id hready
    cases hstep <;> simp_all
  constructor
  · cases hstep with
    | reject hpc hmax =>
      refine hinv.taken.update ?_ fun id hid ↦ nomatch hid
      simp only [State.setSubscriber]
      rw [Nat.mod_eq_of_lt hfits]
      exact Nat.le_succ _
    | register hpc hmax =>
      refine hinv.taken.update (Nat.le_succ _) fun id hid ↦ Or.inr ?_
      cases hid
      exact ⟨le_rfl, Nat.lt_succ_self _⟩
    | loadStart id hpc | storeStart id start hpc =>
      exact hinv.taken.update le_rfl fun id hid ↦ Or.inl (by rw [hpc]; exact hid)
  · -- no other handle than `h` changes, and only its last step stores to an entry
    intro id hunset
    have hold : ∀ h', s.subscribers h' ≠ .ready id := by
      intro h' hready
      have hne : h' ≠ h := by
        rintro rfl
        exact hnot id hready
      exact hunset h' (by simp only [State.setSubscriber, update_of_ne hne, hready])
    cases hstep with
    | storeStart own start hpc =>
      have hne : id ≠ own := by
        rintro rfl
        exact hunset h (by simp [State.setSubscriber])
      simpa only [State.setSubscriber, update_of_ne hne] using hinv.unset id hold
    | _ => exact hinv.unset id hold
  · intro r hactive
    have hready := hinv.reader_ready r hactive
    have hne : (s.readers r).handle ≠ h := by
      intro hh
      exact hnot _ (hh ▸ hready)
    simpa only [State.setSubscriber, update_of_ne hne] using hready

/-- A step of a reader thread keeps the owners. -/
theorem reader_step (hinv : OwnersInv s) {r : ℕ} {act : ReaderAct} {m : Mem} {t : Reader}
    {events : List ReaderEvent}
    (hstep : ReaderStep g s.subscribers s.mem (s.readers r) act m t events) :
    OwnersInv (s.setReader r m t) := by
  have hnSubs : m.nSubs = s.mem.nSubs := by cases hstep <;> rfl
  have hread : ∀ id, (∀ h, s.subscribers h ≠ .ready id) →
      m.subReadSeq id = s.mem.subReadSeq id := by
    intro id hnot
    cases hstep with
    | storeSeq seq out hpc =>
      refine update_of_ne ?_ _ _
      rintro rfl
      exact hnot _ (hinv.reader_ready r (by simp [hpc]))
    | _ => rfl
  have hready : t.pc ≠ .idle → s.subscribers t.handle = .ready t.id := by
    intro hactive
    cases hstep with
    | tryRecv h id outLen hpc hid => exact hid
    | empty seq hpc | tooLarge seq hpc | storeSeq seq out hpc => exact absurd rfl hactive
    | _ => exact hinv.reader_ready r (by simp [*])
  refine ⟨by simpa only [State.setReader, hnSubs] using hinv.taken, ?_, ?_⟩
  · intro id hnot
    simp only [State.setReader] at hnot ⊢
    rw [hread id hnot]
    exact hinv.unset id hnot
  · intro r' hactive
    simp only [State.setReader] at hactive ⊢
    by_cases hr : r' = r
    · subst hr
      rw [update_self] at hactive ⊢
      exact hready hactive
    · rw [update_of_ne hr] at hactive ⊢
      exact hinv.reader_ready r' hactive

/-- Every step of the bus in which the count of subscribe calls fits its word keeps the owners. -/
theorem step (hinv : OwnersInv s) {action : Action} {s' : State} {reported : List Event}
    (hfits : CountFits s action) (hstep : BusStep g s action s' reported) : OwnersInv s' := by
  cases hstep with
  | producer hthread =>
    obtain ⟨hnSubs, hread⟩ := hthread.registry
    refine ⟨by simpa only [State.setProducer, hnSubs] using hinv.taken, ?_, hinv.reader_ready⟩
    simpa only [State.setProducer, hread] using hinv.unset
  | subscriber hthread => exact hinv.subscriber_step hfits hthread
  | reader hthread => exact hinv.reader_step hthread

end OwnersInv

/-- The owners in every run in which the count of subscribe calls fits its word. -/
theorem ownersInv_run {g : Geometry} {slab : ℕ → UInt8} {guard : Guard State Action Event}
    (hfits : ∀ trace s action, guard trace s action → CountFits s action)
    {trace : List Event} {s : State} (hrun : Run (busSystem g slab) guard trace s) :
    OwnersInv s :=
  hrun.invariant (fun _ s ↦ OwnersInv s) (ownersInv_init slab) fun _ hinv hallowed hstep ↦
    hinv.step (hfits _ _ _ hallowed) (step_cases hstep)

/-! ### What no step takes back -/

section Kept

variable {g : Geometry} {s s' : State} {action : Action} {events : List Event}

/-- A finished handle stays finished. -/
theorem BusStep.ready_kept (hstep : BusStep g s action s' events) {h id : ℕ}
    (hready : s.subscribers h = .ready id) : s'.subscribers h = .ready id := by
  cases hstep with
  | @subscriber h' act m pc own hthread =>
    refine (update_of_ne ?_ _ _).trans hready
    rintro rfl
    cases hthread <;> simp_all
  | producer hthread => exact hready
  | reader hthread => exact hready

/-- The count of subscribe calls never goes back while it fits its word. -/
theorem BusStep.nSubs_le (hstep : BusStep g s action s' events) (hfits : CountFits s action) :
    s.mem.nSubs ≤ s'.mem.nSubs := by
  cases hstep with
  | producer hthread => exact hthread.registry.1.ge
  | subscriber hthread =>
    cases hthread with
    | reject hpc hmax =>
      simp only [State.setSubscriber]
      rw [Nat.mod_eq_of_lt hfits]
      exact Nat.le_succ _
    | register hpc hmax => exact Nat.le_succ _
    | _ => exact le_rfl
  | reader hthread => cases hthread <;> exact le_rfl

/-- A subscribe call keeps its identifier. -/
theorem BusStep.id_kept (hstep : BusStep g s action s' events) {h id : ℕ}
    (hid : (s.subscribers h).id? = some id) : (s'.subscribers h).id? = some id := by
  cases hstep with
  | @subscriber h' act m pc own hthread =>
    by_cases hh : h = h'
    · subst hh
      simp only [State.setSubscriber, update_self]
      cases hthread with
      | loadStart other hpc | storeStart other start hpc =>
        rw [hpc] at hid
        exact hid
      | reject hpc | register hpc =>
        rw [hpc] at hid
        cases hid
    · simpa only [State.setSubscriber, update_of_ne hh] using hid
  | producer hthread => exact hid
  | reader hthread => exact hid

end Kept

/-! ### One thread for each handle -/

/-- Every handle is received through by one thread, the reader thread of the same number. -/
def OwnThread : Action → Prop
  | .reader r (.tryRecv h _) => r = h
  | _ => True

instance OwnThread.decidable : ∀ action : Action, Decidable (OwnThread action)
  | .reader r (.tryRecv h _) => inferInstanceAs (Decidable (r = h))
  | .reader _ .next => isTrue trivial
  | .producer _ _ => isTrue trivial
  | .subscriber _ _ => isTrue trivial

/-- A step that leaves every handle to its own thread and the count of subscribe calls within its
word. -/
def KeepsHandles (s : State) (action : Action) : Prop := OwnThread action ∧ CountFits s action

/-- The owners of a run that leaves every handle to its own thread: a `try_recv` in flight goes
through the handle of its thread. -/
structure HandlesInv (s : State) : Prop where
  owners : OwnersInv s
  handle_eq : ∀ r, (s.readers r).pc ≠ .idle → (s.readers r).handle = r

namespace HandlesInv

variable {g : Geometry} {s : State}

/-- A call in flight goes through the finished handle of its thread. -/
theorem reader_ready (hinv : HandlesInv s) (r : ℕ) (hactive : (s.readers r).pc ≠ .idle) :
    (s.readers r).handle = r ∧ s.subscribers r = .ready (s.readers r).id := by
  have hready := hinv.owners.reader_ready r hactive
  rw [hinv.handle_eq r hactive] at hready
  exact ⟨hinv.handle_eq r hactive, hready⟩

/-- A step keeps every handle with its thread. -/
theorem step (hinv : HandlesInv s) {action : Action} {s' : State} {reported : List Event}
    (hkeeps : KeepsHandles s action) (hstep : BusStep g s action s' reported) : HandlesInv s' := by
  refine ⟨hinv.owners.step hkeeps.2 hstep, ?_⟩
  cases hstep with
  | producer hthread => exact hinv.handle_eq
  | subscriber hthread => exact hinv.handle_eq
  | @reader r act m t events hthread =>
    intro r' hactive
    simp only [State.setReader] at hactive ⊢
    by_cases hr : r' = r
    · subst hr
      rw [update_self] at hactive ⊢
      cases hthread with
      | tryRecv h id outLen hpc hid => exact (show r' = h from hkeeps.1).symm
      | empty seq hpc | tooLarge seq hpc | storeSeq seq out hpc => exact absurd rfl hactive
      | _ => exact hinv.handle_eq r' (by simp [*])
    · rw [update_of_ne hr] at hactive ⊢
      exact hinv.handle_eq r' hactive

end HandlesInv

/-- The owners in every run that leaves every handle to its own thread. -/
theorem handlesInv_run {g : Geometry} {slab : ℕ → UInt8} {guard : Guard State Action Event}
    (hkeeps : ∀ trace s action, guard trace s action → KeepsHandles s action)
    {trace : List Event} {s : State} (hrun : Run (busSystem g slab) guard trace s) :
    HandlesInv s :=
  hrun.invariant (fun _ s ↦ HandlesInv s)
    ⟨ownersInv_init slab, fun _ hactive ↦ absurd rfl hactive⟩ fun _ hinv hallowed hstep ↦
      hinv.step (hkeeps _ _ _ hallowed) (step_cases hstep)

/-! ### The discipline -/

/-- A use that keeps to the discipline leaves an entry for every subscribe call. -/
theorem Disciplined.findsEntry {s : State} {action : Action} (hdiscipline : Disciplined s action) :
    FindsEntry s action := by
  cases action with
  | subscriber h act => cases act <;> exact hdiscipline
  | _ => trivial

/-- A use that keeps to the discipline does not fill the count of subscribe calls. -/
theorem Disciplined.countFits {s : State} {action : Action} (hdiscipline : Disciplined s action) :
    CountFits s action := by
  cases action with
  | subscriber h act =>
    cases act with
    | subscribe =>
      simp only [Disciplined, maxSubscribers, CountFits, u32Size] at hdiscipline ⊢
      omega
    | next => trivial
  | _ => trivial

/-- A use that keeps to the discipline leaves every handle to its own thread. -/
theorem Disciplined.keepsHandles {s : State} {action : Action}
    (hdiscipline : Disciplined s action) : KeepsHandles s action := by
  refine ⟨?_, hdiscipline.countFits⟩
  cases action with
  | reader r act => cases act <;> exact hdiscipline
  | _ => trivial

/-- The invariant of the registry in a run that keeps to the discipline. -/
structure RegistryInv (s : State) : Prop where
  nSubs_le : s.mem.nSubs ≤ maxSubscribers
  id_covers : ∀ id < s.mem.nSubs, ∃ h, (s.subscribers h).id? = some id
  id_lt : ∀ h id, (s.subscribers h).id? = some id → id < s.mem.nSubs
  id_injective : ∀ h h' id, (s.subscribers h).id? = some id → (s.subscribers h').id? = some id →
    h = h'
  unset : ∀ id, (∀ h, s.subscribers h ≠ .ready id) → s.mem.subReadSeq id = 0
  reader_ready : ∀ r, (s.readers r).pc ≠ .idle → (s.readers r).handle = r ∧
    s.subscribers r = .ready (s.readers r).id

/-- The invariant holds in a fresh region. -/
theorem registryInv_init (slab : ℕ → UInt8) : RegistryInv (State.init slab) where
  nSubs_le := Nat.zero_le _
  id_covers := fun _ hlt ↦ absurd hlt (Nat.not_lt_zero _)
  id_lt := fun _ _ hid ↦ nomatch hid
  id_injective := fun _ _ _ hid ↦ nomatch hid
  unset := fun _ _ ↦ rfl
  reader_ready := fun _ hactive ↦ absurd rfl hactive

namespace RegistryInv

variable {g : Geometry} {s : State}

/-- The identifiers of the registry. -/
theorem ids (hinv : RegistryInv s) : IdsInv s :=
  ⟨hinv.nSubs_le, hinv.id_covers, hinv.id_lt, hinv.id_injective⟩

/-- Every handle of the registry is with its thread. -/
theorem handles (hinv : RegistryInv s) : HandlesInv s where
  owners := ⟨hinv.ids.taken, hinv.unset, fun r hactive ↦ by
    obtain ⟨hhandle, hready⟩ := hinv.reader_ready r hactive
    rw [hhandle, hready]⟩
  handle_eq := fun r hactive ↦ (hinv.reader_ready r hactive).1

/-- The entry of `sub_read_seq` never runs ahead of the cursor. -/
theorem subReadSeq_le (hinv : RegistryInv s) {h id cursor : ℕ}
    (hcursor : (s.subscribers h).cursor? s.mem = some (id, cursor)) :
    s.mem.subReadSeq id ≤ cursor :=
  hinv.handles.owners.subReadSeq_le hcursor

/-- Distinct handles that are ready have distinct identifiers. -/
theorem eq_of_ready (hinv : RegistryInv s) {h h' id : ℕ} (hfirst : s.subscribers h = .ready id)
    (hsecond : s.subscribers h' = .ready id) : h = h' :=
  hinv.handles.owners.eq_of_ready hfirst hsecond

/-- Every disciplined step of the bus keeps the registry. -/
theorem step (hinv : RegistryInv s) {action : Action} {s' : State} {reported : List Event}
    (hdiscipline : Disciplined s action) (hstep : BusStep g s action s' reported) :
    RegistryInv s' := by
  have hids := hinv.ids.step hdiscipline.findsEntry hstep
  have hhandles := hinv.handles.step hdiscipline.keepsHandles hstep
  exact ⟨hids.nSubs_le, hids.id_covers, hids.id_lt, hids.id_injective, hhandles.owners.unset,
    hhandles.reader_ready⟩

end RegistryInv

/-- The invariant of the registry holds in every disciplined run of the bus. -/
theorem registryInv_run {g : Geometry} {slab : ℕ → UInt8} {guard : Guard State Action Event}
    (hguard : ∀ trace s action, guard trace s action → Disciplined s action)
    {trace : List Event} {s : State} (hrun : Run (busSystem g slab) guard trace s) :
    RegistryInv s :=
  hrun.invariant (fun _ s ↦ RegistryInv s) (registryInv_init slab) fun _ hinv hallowed hstep ↦
    hinv.step (hguard _ _ _ hallowed) (step_cases hstep)

end AarnnNsys.Bus
