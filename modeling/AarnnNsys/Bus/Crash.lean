import AarnnNsys.Bus.Shared

/-!
# Threads that stop in the middle of a call

A process that dies leaves its call where it was. In a run this is a thread that takes no further
step, so the results are about every continuation in which it takes none.

A producer that has claimed a number and not committed it holds back everything behind it
(`dead_producer`): the number is never committed, `write_seq` and the cursors stop at it, no receive
call returns it or a later one, and at most the rest of one lap is committed past it. Nothing is
returned twice or out of order meanwhile: below every cursor all numbers are committed
(`NoGapInv`), in every run.

A subscriber that stops reading holds the producers back to one lap past its cursor
(`dead_subscriber`). One that stops inside `subscribe`, between its `fetch_add` and the store of its
start, leaves an entry that reads `0` for ever: on a bus that has gone once around its ring nothing
is published any more (`dead_subscription`).
-/

set_option autoImplicit false
set_option relaxedAutoImplicit false

namespace AarnnNsys.Bus

open Function Lib

/-! ### Nothing is skipped -/

/-- Every number below a mark is committed. -/
def CommittedBelow (g : Geometry) (m : Mem) (mark : ℕ) : Prop :=
  ∀ sequence < mark, m.Committed g sequence

/-- Every number below an entry of `sub_read_seq`, below a start that is about to be stored, or
below the number that a receive call is about, is committed. -/
structure NoGapInv (g : Geometry) (s : State) : Prop where
  entry : ∀ id, CommittedBelow g s.mem (s.mem.subReadSeq id)
  start : ∀ h id start, s.subscribers h = .storeStart id start → CommittedBelow g s.mem start
  seq : ∀ r seq, (s.readers r).pc.seq? = some seq → CommittedBelow g s.mem seq

/-- The invariant holds in a fresh region. -/
theorem noGapInv_init (g : Geometry) (slab : ℕ → UInt8) : NoGapInv g (State.init slab) where
  entry := fun _ _ hlt ↦ absurd hlt (Nat.not_lt_zero _)
  start := fun _ _ _ hpc ↦ nomatch hpc
  seq := fun _ _ hseq ↦ nomatch hseq

/-- What is committed stays so. -/
theorem CommittedBelow.mono {g : Geometry} {m m' : Mem} {mark : ℕ} (hgrows : m.Grows m')
    (hbelow : CommittedBelow g m mark) : CommittedBelow g m' mark := fun sequence hlt ↦
  hgrows.committed (hbelow sequence hlt)

/-- Every step keeps all numbers below every mark committed. -/
theorem NoGapInv.step {g : Geometry} {trace : List Event} {s s' : State} {action : Action}
    {events : List Event} (hinv : NoGapInv g s) (hcommit : CommitInv g trace s)
    (hreads : ReadsCommitted g s) (hstep : BusStep g s action s' events) : NoGapInv g s' := by
  have hgrows := hstep.grows hcommit
  -- it is enough that every mark was one before, or is at most `write_seq` or one read number on
  suffices hmarks : (∀ id, CommittedBelow g s.mem (s'.mem.subReadSeq id)) ∧
      (∀ h id start, s'.subscribers h = .storeStart id start → CommittedBelow g s.mem start) ∧
      ∀ r seq, (s'.readers r).pc.seq? = some seq → CommittedBelow g s.mem seq by
    exact ⟨fun id ↦ (hmarks.1 id).mono hgrows,
      fun h id start hpc ↦ (hmarks.2.1 h id start hpc).mono hgrows,
      fun r seq hseq ↦ (hmarks.2.2 r seq hseq).mono hgrows⟩
  cases hstep with
  | @producer p act m t reported hthread =>
    refine ⟨fun id ↦ ?_, hinv.start, hinv.seq⟩
    simpa only [State.setProducer, hthread.registry.2] using hinv.entry id
  | @subscriber h act m pc reported hthread =>
    refine ⟨fun id ↦ ?_, fun h' id start hpc ↦ ?_, hinv.seq⟩
    · cases hthread with
      | storeStart other start hpc =>
        simp only [State.setSubscriber, update_apply]
        split_ifs
        · exact hinv.start h other start hpc
        · exact hinv.entry id
      | _ => exact hinv.entry id
    · simp only [State.setSubscriber] at hpc
      by_cases hh : h' = h
      · rw [hh, update_self] at hpc
        cases hthread with
        | loadStart other hother =>
          cases hpc
          exact hcommit.write_committed
        | _ => cases hpc
      · rw [update_of_ne hh] at hpc
        exact hinv.start h' id start hpc
  | @reader r act m t reported hthread =>
    refine ⟨fun id ↦ ?_, hinv.start, fun r' seq hseq ↦ ?_⟩
    · cases hthread with
      | storeSeq seq out hpc =>
        simp only [State.setReader, update_apply]
        split_ifs
        · -- the cursor moves over the number that has been read
          intro sequence hlt
          rcases Nat.lt_succ_iff_lt_or_eq.mp hlt with hbelow | rfl
          · exact hinv.seq r seq (by rw [hpc]; rfl) sequence hbelow
          · exact hreads r sequence (by rw [hpc]; rfl)
        · exact hinv.entry id
      | _ => exact hinv.entry id
    · simp only [State.setReader] at hseq
      by_cases hr : r' = r
      · subst hr
        rw [update_self] at hseq
        obtain ⟨-, hloaded | ⟨-, -, hold⟩⟩ := hthread.seq_cases hseq
        · exact hloaded ▸ hinv.entry _
        · exact hinv.seq r' seq hold
      · rw [update_of_ne hr] at hseq
        exact hinv.seq r' seq hseq

/-- Nothing is skipped in any run. -/
theorem noGapInv_run {g : Geometry} {slab : ℕ → UInt8} {guard : Guard State Action Event}
    {trace : List Event} {s : State} (hrun : Run (busSystem g slab) guard trace s) :
    NoGapInv g s :=
  hrun.invariant (fun _ s ↦ NoGapInv g s) (noGapInv_init g slab) fun hprevious hinv _ hstep ↦
    hinv.step (commitInv_run hprevious) (readsCommitted_run hprevious) (step_cases hstep)

/-- No mark is past a number that is not committed. -/
theorem CommittedBelow.le {g : Geometry} {m : Mem} {mark sequence : ℕ}
    (hbelow : CommittedBelow g m mark) (huncommitted : ¬ m.Committed g sequence) :
    mark ≤ sequence := by
  by_contra hlt
  exact huncommitted (hbelow sequence (by omega))

/-- What has been returned is committed, and so is everything before it. -/
theorem receipts_committed {g : Geometry} {slab : ℕ → UInt8} {trace : List (Event ⊕ Receipt)}
    {s : State} (hrun : Run (receiptSystem g slab) unguarded trace s) :
    ∀ receipt, .inr receipt ∈ trace → CommittedBelow g s.mem (receipt.sequence + 1) := by
  refine hrun.invariant (fun trace s ↦ ∀ receipt, .inr receipt ∈ trace →
    CommittedBelow g s.mem (receipt.sequence + 1)) (by simp) ?_
  intro trace s action s' reported hprevious hbefore _ hnext receipt hmem
  obtain ⟨events, htaken, rfl⟩ := TransitionSystem.watch_step hnext
  have hplain := run_of_receipts hprevious (fun _ _ _ _ ↦ trivial : ∀ _ _ _, _ → True)
  refine CommittedBelow.mono ((step_cases htaken).grows (commitInv_run hplain)) ?_
  rcases List.mem_append.mp hmem with hold | hnew
  · exact hbefore receipt hold
  · -- a receipt of this step is for the number that the call has read
    have hreceipt : receipt ∈ receipts s action := by simpa using hnew
    cases action with
    | producer p act | subscriber h act => cases hreceipt
    | reader r act =>
      cases act with
      | tryRecv h outLen => cases hreceipt
      | next =>
        simp only [receipts, List.mem_map, Option.mem_toList] at hreceipt
        obtain ⟨seq, hreturning, rfl⟩ := hreceipt
        have hpc : (s.readers r).pc.seq? = some seq ∧ (s.readers r).pc.reading? = some seq := by
          cases hpc : (s.readers r).pc <;>
            simp_all [ReaderPc.returning?, ReaderPc.seq?, ReaderPc.reading?]
        intro sequence hlt
        rcases Nat.lt_succ_iff_lt_or_eq.mp hlt with hbelow | rfl
        · exact (noGapInv_run hplain).seq r seq hpc.1 sequence hbelow
        · exact readsCommitted_run hplain r sequence hpc.2

/-! ### A producer that stops -/

/-- What executes with its receipts watched executes on the bus. -/
theorem exec_receipts {g : Geometry} {slab : ℕ → UInt8} {actions : List Action} {s s' : State}
    {reported : List (Event ⊕ Receipt)}
    (hexec : (receiptSystem g slab).exec s actions = some (s', reported)) :
    ∃ events, (busSystem g slab).exec s actions = some (s', events) := by
  induction actions generalizing s reported with
  | nil =>
    simp only [TransitionSystem.exec, Option.some.injEq, Prod.mk.injEq] at hexec
    exact ⟨[], by rw [hexec.1]; rfl⟩
  | cons action rest ih =>
    obtain ⟨middle, first, last, hstep, hrest, -⟩ := TransitionSystem.exec_uncons hexec
    obtain ⟨events, htaken, -⟩ := TransitionSystem.watch_step hstep
    obtain ⟨later, hlater⟩ := ih hrest
    exact ⟨events ++ later, TransitionSystem.exec_cons htaken hlater⟩

/-- A producer that stops before its commit. Assumes: a run after which producer `p` owns `claim`,
and a continuation in which it takes no step. The number is never committed, `write_seq` and all
cursors stop at it, no message from it on is ever returned, and nothing a lap past it is committed
or admitted. -/
theorem dead_producer (g : Geometry) (slab : ℕ → UInt8) (trace : List (Event ⊕ Receipt)) (s : State)
    (hrun : Run (receiptSystem g slab) unguarded trace s) (p claim : ℕ)
    (howned : (s.producers p).owned = some claim) (actions : List Action)
    (hdead : ∀ act, .producer p act ∉ actions) (s' : State) (events : List (Event ⊕ Receipt))
    (hexec : (receiptSystem g slab).exec s actions = some (s', events)) :
    ¬ s'.mem.Committed g claim ∧ s'.mem.writeSeq ≤ claim ∧
    (∀ id, s'.mem.subReadSeq id ≤ claim) ∧
    (∀ receipt, .inr receipt ∈ trace ++ events → receipt.sequence < claim) ∧
    (∀ sequence, s'.mem.Committed g sequence → sequence < claim + g.descCapacity) ∧
    ∀ q other, (s'.producers q).admitted = some other → other < claim + g.descCapacity := by
  have hcontinued : Run (receiptSystem g slab) unguarded (trace ++ events) s' :=
    hrun.exec (permitted_unguarded _ _ _) hexec
  have hplain := run_of_receipts hcontinued (fun _ _ _ _ ↦ trivial : ∀ _ _ _, _ → True)
  have hcommit := commitInv_run hplain
  obtain ⟨_, hbus⟩ := exec_receipts hexec
  have hstill : (s'.producers p).owned = some claim := by
    rw [exec_producers_of_forall_ne hdead hbus]
    exact howned
  have huncommitted := hcommit.owned_uncommitted p claim hstill
  have hwrite : s'.mem.writeSeq ≤ claim := CommittedBelow.le hcommit.write_committed huncommitted
  refine ⟨huncommitted, hwrite, fun id ↦ ((noGapInv_run hplain).entry id).le huncommitted,
    fun receipt hmem ↦ (receipts_committed hcontinued receipt hmem).le huncommitted,
    fun sequence hcommitted ↦ ?_, fun q other hadmitted ↦ ?_⟩
  · have hwindow := hcommit.slot_window (g.idx sequence)
    rw [Mem.Committed] at hcommitted
    omega
  · have := (hcommit.bounded q).admitted_lt hadmitted
    omega

/-- Producer `0` stops in the copy of the first message; producer `1` claims the second number and
waits, and the subscriber finds nothing. -/
theorem dead_producer_copying : ∃ (events : List (Event ⊕ Receipt)) (s' : State),
    ¬ s'.mem.Committed tinyGeometry 0 ∧ (s'.producers 1).owned = some 1 ∧ s'.mem.writeSeq ≤ 0 ∧
    ∀ receipt, .inr receipt ∈ events → receipt.sequence < 0 := by
  let system := receiptSystem tinyGeometry fun _ ↦ 0
  let before : List Action := [subscribing, publishing [7] 5].flatten
  let after : List Action := .producer 1 (.publish [8]) ::
    List.replicate 9 (.producer 1 (.next false)) ++ receiving 0 1
  have hbefore : (system.exec system.init before).map
      (fun result ↦ (result.1.producers 0).owned) = some (some 0) := by decide +kernel
  have hafter : (system.exec system.init (before ++ after)).map
      (fun result ↦ (result.1.producers 1).owned) = some (some 1) := by decide +kernel
  obtain ⟨⟨s, trace⟩, hstopped, howned⟩ := Option.map_eq_some_iff.mp hbefore
  obtain ⟨⟨s', whole⟩, hwhole, hwaiting⟩ := Option.map_eq_some_iff.mp hafter
  obtain ⟨middle, first, last, hfirst, hlast, rfl⟩ := TransitionSystem.exec_split hwhole
  obtain ⟨rfl, rfl⟩ := Prod.mk.inj (Option.some.inj (hstopped.symm.trans hfirst))
  obtain ⟨huncommitted, hwrite, -, hreceipts, -, -⟩ := dead_producer tinyGeometry _ trace s
    (run_of_exec hstopped) 0 0 howned after (by simp [after, receiving]) s' last hlast
  exact ⟨trace ++ last, s', huncommitted, hwaiting, hwrite, hreceipts⟩

/-! ### A subscriber that stops -/

/-- The step is not one of handle `h` or of its reader thread. -/
def AwayFrom (h : ℕ) : Action → Prop
  | .subscriber h' _ => h' ≠ h
  | .reader r _ => r ≠ h
  | .producer _ _ => True

/-- A cursor moves only in a step of its handle or of the reader thread of that. -/
theorem cursor?_of_awayFrom {g : Geometry} {s s' : State} {action : Action} {events : List Event}
    (hhandles : HandlesInv s) {h : ℕ} (haway : AwayFrom h action)
    (hstep : BusStep g s action s' events) :
    (s'.subscribers h).cursor? s'.mem = (s.subscribers h).cursor? s.mem := by
  cases hstep with
  | @producer p act m t reported hthread =>
    exact SubscriberPc.cursor?_congr fun id _ ↦ congrFun hthread.registry.2 id
  | @subscriber other act m pc reported hthread =>
    have hne : h ≠ other := fun heq ↦ haway heq.symm
    simp only [State.setSubscriber, update_of_ne hne]
    exact SubscriberPc.cursor?_congr fun id hready ↦ hhandles.owners.entry_kept hthread hready
  | @reader r act m t reported hthread =>
    refine SubscriberPc.cursor?_congr fun id hready ↦ ?_
    cases hthread with
    | storeSeq seq out hpc =>
      refine update_of_ne (fun hid ↦ haway ?_) _ _
      have hown := (hhandles.reader_ready r (by simp [hpc])).2
      exact hhandles.owners.eq_of_ready (hid ▸ hown) hready
    | _ => rfl

/-- A subscriber that stops reading. Assumes: a run whose handles stay with their threads and whose
capacity checks count who joined, and a continuation of the same kind in which neither the handle
nor its reader thread takes a step. The cursor stays where it is; nothing a lap past it is committed
or admitted, and `write_seq` and all other cursors stop there. -/
theorem dead_subscriber (g : Geometry) (slab : ℕ → UInt8) (trace : List Event) (s : State)
    (hrun : Run (busSystem g slab)
      (fun _ s action ↦ KeepsHandles s action ∧ CountsJoined g s action) trace s)
    (h id cursor : ℕ) (hcursor : (s.subscribers h).cursor? s.mem = some (id, cursor))
    (actions : List Action) (hdead : ∀ action ∈ actions, AwayFrom h action)
    (hpermitted : Permitted (busSystem g slab)
      (fun _ s action ↦ KeepsHandles s action ∧ CountsJoined g s action) trace s actions)
    (s' : State) (events : List Event)
    (hexec : (busSystem g slab).exec s actions = some (s', events)) :
    (s'.subscribers h).cursor? s'.mem = some (id, cursor) ∧
    (∀ sequence, s'.mem.Committed g sequence → sequence < cursor + g.descCapacity) ∧
    (∀ p claim, (s'.producers p).admitted = some claim → claim < cursor + g.descCapacity) ∧
    s'.mem.writeSeq ≤ cursor + g.descCapacity ∧
    ∀ h' id' cursor', (s'.subscribers h').cursor? s'.mem = some (id', cursor') →
      cursor' ≤ cursor + g.descCapacity := by
  have hcontinued := hrun.exec hpermitted hexec
  have hkept : (s'.subscribers h).cursor? s'.mem = some (id, cursor) := by
    have hboth := Permitted.invariant
      (fun trace s ↦ Run (busSystem g slab)
        (fun _ s action ↦ KeepsHandles s action ∧ CountsJoined g s action) trace s ∧
        (s.subscribers h).cursor? s.mem = some (id, cursor))
      (fun hprevious hguard hstep ↦ by
        have hhandles := handlesInv_run (fun _ _ _ hallowed ↦ hallowed.1) hprevious.1
        refine ⟨hprevious.1.next hguard.1 hstep, ?_⟩
        rw [cursor?_of_awayFrom hhandles hguard.2 (step_cases hstep)]
        exact hprevious.2)
      ⟨hrun, hcursor⟩ (hpermitted.and_of_forall hdead) hexec
    exact hboth.2
  have hsafe := (cursorInv_run (fun _ _ _ hallowed ↦ hallowed.1) (fun _ _ _ hallowed ↦ hallowed.2)
    hcontinued).safe
  have hcommitted : ∀ sequence, s'.mem.Committed g sequence →
      sequence < cursor + g.descCapacity := by
    intro sequence hbelow
    have hwindow := hsafe.slot_le h id cursor hkept (g.idx sequence)
    rw [Mem.Committed] at hbelow
    omega
  have hfirst : ¬ s'.mem.Committed g (cursor + g.descCapacity) := fun hpast ↦
    lt_irrefl _ (hcommitted _ hpast)
  have hnoGap := noGapInv_run hcontinued
  refine ⟨hkept, hcommitted,
    fun p claim hadmitted ↦ (hsafe.respects h id cursor hkept p).admitted_lt hadmitted,
    CommittedBelow.le (commitInv_run hcontinued).write_committed hfirst,
    fun h' id' cursor' hother ↦ ?_⟩
  refine CommittedBelow.le ?_ hfirst
  cases hpc : s'.subscribers h' with
  | storeStart other start =>
    rw [hpc] at hother
    cases hother
    exact hnoGap.start h' id' cursor' hpc
  | ready other =>
    rw [hpc] at hother
    cases hother
    exact hnoGap.entry id'
  | _ =>
    rw [hpc] at hother
    cases hother

/-- A subscriber on a ring of one slot that does not read the first message: a second `publish`
waits. -/
theorem dead_subscriber_unread : ∃ s' : State, (s'.subscribers 0).cursor? s'.mem = some (0, 0) ∧
    (s'.producers 0).owned = some 1 ∧ s'.mem.writeSeq ≤ 0 + tinyGeometry.descCapacity := by
  let system := busSystem tinyGeometry fun _ ↦ 0
  let counted : Guard State Action Event :=
    fun _ s action ↦ (OwnThread action ∧ CountFits s action) ∧ CountsAll s action
  let before : List Action := [subscribing, publishing [7] 13].flatten
  let after : List Action := publishing [8] 9
  have hbefore : (system.exec system.init before).map
      (fun result ↦ (result.1.subscribers 0).cursor? result.1.mem) = some (some (0, 0)) := by
    decide +kernel
  have hafter : (system.exec system.init (before ++ after)).map
      (fun result ↦ (result.1.producers 0).owned) = some (some 1) := by decide +kernel
  have hpermitted : Permitted system counted [] system.init (before ++ after) := by decide +kernel
  obtain ⟨⟨s, trace⟩, hstopped, hcursor⟩ := Option.map_eq_some_iff.mp hbefore
  obtain ⟨⟨s', whole⟩, hwhole, hwaiting⟩ := Option.map_eq_some_iff.mp hafter
  obtain ⟨middle, first, last, hfirst, hlast, rfl⟩ := TransitionSystem.exec_split hwhole
  obtain ⟨rfl, rfl⟩ := Prod.mk.inj (Option.some.inj (hstopped.symm.trans hfirst))
  obtain ⟨hfirst, hcontinued⟩ := hpermitted.split hstopped
  have hcounted : Run system counted trace s := run_of_permitted hfirst hstopped
  have hjoined : ∀ {trace : List Event} {s : State} {action : Action}, Run system counted trace s →
      counted trace s action → KeepsHandles s action ∧ CountsJoined tinyGeometry s action :=
    fun hrun hallowed ↦ ⟨hallowed.1, hallowed.2.countsJoined
      (ownersInv_run (fun _ _ _ hkept ↦ hkept.1.2) hrun)⟩
  obtain ⟨hkept, -, -, hwrite, -⟩ := dead_subscriber tinyGeometry _ trace s
    (hcounted.strengthen fun hrun hallowed _ ↦ hjoined hrun hallowed) 0 0 0 hcursor after
    (by simp [after, publishing, AwayFrom]) (hcontinued.strengthen hjoined hcounted) s' last hlast
  exact ⟨s', hkept, hwaiting, hwrite⟩

/-! ### A subscription that stops -/

/-- A call that entry `id` of `sub_read_seq` holds back while it reads `0`: it has a claim of a
second lap, has counted the entry and finds it, or has found it, in its scan. -/
def Producer.Held (g : Geometry) (id : ℕ) (t : Producer) : Prop :=
  match t.pc with
  | .idle | .panicked _ => True
  | .loadSubs claim => g.descCapacity ≤ claim
  | .loadWrite claim n => g.descCapacity ≤ claim ∧ id < n
  | .scan claim n i minRead => g.descCapacity ≤ claim ∧ id < n ∧ (id < i → minRead = 0)
  | _ => False

/-- The event reports a commit or a call that has published its message. -/
def Event.publishes : Event → Bool
  | .producer _ (.committed _) => true
  | .producer _ (.publishReturned (.ok _)) => true
  | .producer _ (.tryPublishReturned (.ok published)) => published
  | _ => false

/-- A call that is held back stays so in its own step, which publishes nothing. Assumes: the entry
reads `0` and is counted in `n_subs`, and the first lap has been claimed. -/
theorem ProducerStep.held {g : Geometry} {m m' : Mem} {t t' : Producer} {act : ProducerAct}
    {events : List ProducerEvent} {id : ℕ} (hheld : t.Held g id) (hentry : m.subReadSeq id = 0)
    (hcounted : id < m.nSubs) (hlap : g.descCapacity ≤ m.claimSeq)
    (hstep : ProducerStep g m t act m' t' events) :
    t'.Held g id ∧ m'.writeSeq = m.writeSeq ∧
      ∀ p, ∀ event ∈ events, (Event.producer p event).publishes = false := by
  cases hstep with
  | publishRejected payload hpc hsize | tryPublishRejected payload hpc hsize =>
    exact ⟨trivial, rfl, by simp [Event.publishes]⟩
  | publish payload hpc hne hsize => exact ⟨hlap, rfl, by simp [Event.publishes]⟩
  | tryPublish payload hpc hne hsize => exact ⟨hlap, rfl, by simp [Event.publishes]⟩
  | loadSubs b claim hpc =>
    simp only [Producer.Held, hpc] at hheld
    exact ⟨⟨hheld, hcounted⟩, rfl, by simp⟩
  | loadWrite b claim n hpc =>
    simp only [Producer.Held, hpc] at hheld
    exact ⟨⟨hheld.1, hheld.2, fun hbefore ↦ absurd hbefore (Nat.not_lt_zero _)⟩, rfl, by simp⟩
  | scanRead b claim n i minRead hpc hi hmax =>
    simp only [Producer.Held, hpc] at hheld
    refine ⟨⟨hheld.1, hheld.2.1, fun hbefore ↦ ?_⟩, rfl, by simp⟩
    rcases Nat.lt_succ_iff_lt_or_eq.mp hbefore with hseen | rfl
    · rw [hheld.2.2 hseen, Nat.min_zero]
    · rw [hentry, Nat.zero_min]
  | scanPanic b claim n i minRead hpc hi hmax => exact ⟨trivial, rfl, by simp [Event.publishes]⟩
  | retry b claim n i minRead hpc hi hblocking hfull =>
    simp only [Producer.Held, hpc] at hheld
    exact ⟨hheld.1, rfl, by simp⟩
  | refuse b claim n i minRead hpc hi hblocking hfull =>
    exact ⟨trivial, rfl, by simp [Event.publishes]⟩
  | pass b claim n i minRead hpc hi hblocking hspace
  | accept b claim n i minRead hpc hi hblocking hspace =>
    -- the entry was in the scan, so the minimum is `0` and the claim a lap or more past it
    simp only [Producer.Held, hpc] at hheld
    have := hheld.2.2 (by omega)
    omega
  | _ => simp_all [Producer.Held]

/-- The bus with a subscription that has stopped: the handle keeps its `sub_id` without being
ready, and its entry holds all calls back. -/
structure StoppedInv (g : Geometry) (h id : ℕ) (s : State) : Prop where
  owners : OwnersInv s
  registered : (s.subscribers h).id? = some id
  unready : s.subscribers h ≠ .ready id
  held : ∀ p, (s.producers p).Held g id
  lap : g.descCapacity ≤ s.mem.claimSeq

/-- The entry of the subscription that has stopped reads `0`. -/
theorem StoppedInv.entry {g : Geometry} {h id : ℕ} {s : State} (hinv : StoppedInv g h id s) :
    s.mem.subReadSeq id = 0 := by
  refine hinv.owners.unset id fun h' hready ↦ hinv.unready ?_
  have hid : (s.subscribers h').id? = some id := by rw [hready]; rfl
  rw [hinv.owners.taken.injective h h' id hinv.registered hid, hready]

/-- A step away from the handle leaves the bus as it is: nothing is published and `write_seq` stays.
-/
theorem StoppedInv.step {g : Geometry} {h id : ℕ} {s s' : State} {action : Action}
    {events : List Event} (hinv : StoppedInv g h id s) (hfits : CountFits s action)
    (haway : ∀ act, action ≠ .subscriber h act) (hstep : BusStep g s action s' events) :
    StoppedInv g h id s' ∧ s'.mem.writeSeq = s.mem.writeSeq ∧
      ∀ event ∈ events, event.publishes = false := by
  have howners := hinv.owners.step hfits hstep
  cases hstep with
  | @producer p act m t reported hthread =>
    have hlt := hinv.owners.taken.lt h id hinv.registered
    obtain ⟨hheld, hwrite, hsilent⟩ := hthread.held (hinv.held p) hinv.entry hlt hinv.lap
    refine ⟨⟨howners, hinv.registered, hinv.unready, fun q ↦ ?_,
      hinv.lap.trans hthread.claimSeq_le⟩, hwrite, ?_⟩
    · simp only [State.setProducer]
      by_cases hqp : q = p
      · rw [hqp, update_self]
        exact hheld
      · rw [update_of_ne hqp]
        exact hinv.held q
    · simpa using hsilent p
  | @subscriber other act m pc reported hthread =>
    have hne : h ≠ other := by
      rintro rfl
      exact haway act rfl
    obtain ⟨hclaim, hwrite, -⟩ := hthread.words
    refine ⟨⟨howners, ?_, ?_, hinv.held, hclaim ▸ hinv.lap⟩, hwrite, by simp [Event.publishes]⟩
    · simpa only [State.setSubscriber, update_of_ne hne] using hinv.registered
    · simpa only [State.setSubscriber, update_of_ne hne] using hinv.unready
  | @reader r act m t reported hthread =>
    obtain ⟨hclaim, hwrite, -⟩ := hthread.words
    exact ⟨⟨howners, hinv.registered, hinv.unready, hinv.held, hclaim ▸ hinv.lap⟩, hwrite,
      by simp [Event.publishes]⟩

/-- A `subscribe` call that stops between its `fetch_add` and the store of its start, on a bus that
has claimed a whole lap and on which no producer call is in flight. In every continuation in which
the call takes no step, and the count of subscribe calls fits its word, nothing is committed, no
`publish` returns and no `try_publish` returns `true`, and `write_seq` stays where it is. -/
theorem dead_subscription (g : Geometry) (slab : ℕ → UInt8) (trace : List Event) (s : State)
    (hrun : Run (busSystem g slab) (fun _ s action ↦ CountFits s action) trace s) (h id : ℕ)
    (hregistered : (s.subscribers h).id? = some id) (hunready : s.subscribers h ≠ .ready id)
    (hlap : g.descCapacity ≤ s.mem.claimSeq) (hidle : ∀ p, (s.producers p).pc = .idle)
    (actions : List Action) (hdead : ∀ action ∈ actions, ∀ act, action ≠ .subscriber h act)
    (hpermitted : Permitted (busSystem g slab) (fun _ s action ↦ CountFits s action) trace s
      actions)
    (s' : State) (events : List Event)
    (hexec : (busSystem g slab).exec s actions = some (s', events)) :
    (∀ event ∈ events, event.publishes = false) ∧ s'.mem.writeSeq = s.mem.writeSeq := by
  have hstopped : StoppedInv g h id s := by
    refine ⟨ownersInv_run (fun _ _ _ hfits ↦ hfits) hrun, hregistered, hunready, fun p ↦ ?_, hlap⟩
    simp only [Producer.Held, hidle p]
  obtain ⟨-, hwrite, later, hlater, hsilent⟩ := Permitted.invariant
    (fun whole now ↦ StoppedInv g h id now ∧ now.mem.writeSeq = s.mem.writeSeq ∧
      ∃ later, whole = trace ++ later ∧ ∀ event ∈ later, event.publishes = false)
    (fun hprevious hguard hstep ↦ by
      obtain ⟨hinv, hwrite, later, rfl, hsilent⟩ := hprevious
      obtain ⟨hinv', hwrite', hsilent'⟩ := hinv.step hguard.1 hguard.2 (step_cases hstep)
      refine ⟨hinv', hwrite'.trans hwrite, _, List.append_assoc _ _ _, fun event hmem ↦ ?_⟩
      rcases List.mem_append.mp hmem with hold | hnew
      · exact hsilent event hold
      · exact hsilent' event hnew)
    ⟨hstopped, rfl, [], (List.append_nil _).symm, by simp⟩
    (hpermitted.and_of_forall hdead) hexec
  rw [List.append_cancel_left hlater]
  exact ⟨hsilent, hwrite⟩

/-- A `subscribe` call that stops before the store of its start, on a ring of one slot that one
message has gone through: a `publish` waits and a `try_publish` gives up. -/
theorem dead_subscription_second_lap : ∃ (events : List Event) (s' : State),
    (s'.producers 0).owned = some 1 ∧ (∀ event ∈ events, event.publishes = false) ∧
    s'.mem.writeSeq = 1 := by
  let system := busSystem tinyGeometry fun _ ↦ 0
  let before : List Action :=
    publishing [7] 12 ++ [.subscriber 0 .subscribe, .subscriber 0 .next]
  let after : List Action := publishing [8] 9 ++
    .producer 1 (.tryPublish [9]) :: List.replicate 4 (.producer 1 (.next false))
  have hbefore : (system.exec system.init before).map
      (fun result ↦ ((result.1.subscribers 0).id?, (result.1.producers 0).pc,
        result.1.mem.claimSeq, result.1.mem.writeSeq)) = some (some 0, .idle, 1, 1) := by
    decide +kernel
  have hafter : (system.exec system.init (before ++ after)).map
      (fun result ↦ (result.1.producers 0).owned) = some (some 1) := by decide +kernel
  have hunready : (system.exec system.init before).map
      (fun result ↦ decide (result.1.subscribers 0 = .ready 0)) = some false := by decide +kernel
  have hpermitted : Permitted system (fun _ s action ↦ CountFits s action) [] system.init
      (before ++ after) := by decide +kernel
  obtain ⟨⟨s, trace⟩, hstopped, hresult⟩ := Option.map_eq_some_iff.mp hbefore
  simp only [Prod.mk.injEq] at hresult
  obtain ⟨hid, hpc, hclaimed, hwritten⟩ := hresult
  obtain ⟨⟨s', whole⟩, hwhole, hwaiting⟩ := Option.map_eq_some_iff.mp hafter
  obtain ⟨middle, first, last, hfirst, hlast, rfl⟩ := TransitionSystem.exec_split hwhole
  obtain ⟨rfl, rfl⟩ := Prod.mk.inj (Option.some.inj (hstopped.symm.trans hfirst))
  obtain ⟨hallowed, hcontinued⟩ := hpermitted.split hstopped
  have hidle : ∀ p, (s.producers p).pc = .idle := by
    intro p
    by_cases hp : p = 0
    · exact hp ▸ hpc
    · rw [exec_producers_of_forall_ne (fun act ↦ by simp [before, publishing, hp]) hstopped]
      rfl
  have hsubscribing : s.subscribers 0 ≠ .ready 0 := by
    rw [hstopped] at hunready
    simpa using hunready
  obtain ⟨hsilent, hkept⟩ := dead_subscription tinyGeometry _ trace s
    (run_of_permitted hallowed hstopped) 0 0 hid hsubscribing hclaimed.ge hidle after
    (by simp [after, publishing]) hcontinued s' last hlast
  exact ⟨last, s', hwaiting, hsilent, hkept.trans hwritten⟩

end AarnnNsys.Bus
