import AarnnNsys.Bus.Delivery

/-!
# One subscriber shared by several threads

`try_recv` takes `&self` and a `BusHandle` is declared `Sync`, so several calls through one handle
may run at once. Each loads the cursor, copies the message and stores the cursor plus one, whatever
the cursor is by then: a call that stores late moves the cursor back and returns a message for the
second time, and the producers that trusted the cursor write over a slot that is read again
(`shared_duplicates`).

`StoresCurrent` says that a call which is about to store finds the cursor it loaded. Under it the
cursor of a shared subscriber never goes back, no sequence number is returned twice, and a message
that the subscriber has not passed stays in its slot while it is copied (`shared_exactly_once`). A
store that breaks the condition returns a number that has been returned before (`stale_returned`).
-/

set_option autoImplicit false
set_option relaxedAutoImplicit false

namespace AarnnNsys.Bus

open Function Lib

/-! ### What the calls return -/

/-- The sequence number of the message that a call returns in its next step. -/
def ReaderPc.returning? : ReaderPc → Option ℕ
  | .storeSeq seq _ => some seq
  | _ => none

/-- A call through a handle has returned the message with a sequence number. -/
structure Receipt where
  handle : ℕ
  sequence : ℕ
  deriving DecidableEq

/-- The receipt of the message that a step of a reader returns. -/
def receipts (s : State) : Action → List Receipt
  | .reader r .next => (s.readers r).pc.returning?.toList.map fun seq ↦ ⟨(s.readers r).handle, seq⟩
  | _ => []

/-- The bus, with the sequence numbers of the messages that its readers return. -/
def receiptSystem (g : Geometry) (slab : ℕ → UInt8) :
    TransitionSystem State Action (Event ⊕ Receipt) :=
  (busSystem g slab).watch receipts

/-- The sequence numbers that an event reports as returned through handle `h`. -/
def returnedNumber? (h : ℕ) : Event ⊕ Receipt → Option ℕ
  | .inr receipt => if receipt.handle = h then some receipt.sequence else none
  | .inl _ => none

/-- The sequence numbers returned by the calls through handle `h`, in order. -/
def returnedBy (h : ℕ) (trace : List (Event ⊕ Receipt)) : List ℕ :=
  trace.filterMap (returnedNumber? h)

/-- What a run has returned, and what its next step returns. -/
theorem returnedBy_watch (h : ℕ) (trace : List (Event ⊕ Receipt)) (events : List Event)
    (now : List Receipt) :
    returnedBy h (trace ++ (events.map .inl ++ now.map .inr)) =
      returnedBy h trace ++ (now.filter fun receipt ↦ receipt.handle = h).map Receipt.sequence := by
  have hevents : (events.map Sum.inl).filterMap (returnedNumber? h) = [] := by
    simp [List.filterMap_map, Function.comp_def, returnedNumber?]
  have hnow : (now.map Sum.inr).filterMap (returnedNumber? h) =
      (now.filter fun receipt ↦ receipt.handle = h).map Receipt.sequence := by
    rw [List.filterMap_map, ← List.filterMap_eq_map, ← List.filterMap_eq_filter,
      List.filterMap_filterMap]
    refine List.filterMap_congr fun receipt _ ↦ ?_
    by_cases hh : receipt.handle = h <;> simp [returnedNumber?, hh, Option.guard]
  rw [returnedBy, List.filterMap_append, List.filterMap_append, hevents, hnow]
  rfl

/-! ### Calls that store the cursor they loaded -/

/-- The step in which a call stores the cursor: the cursor is still the one that the call loaded. -/
def StoresCurrent (s : State) : Action → Prop
  | .reader r .next =>
    ∀ seq ∈ (s.readers r).pc.returning?, s.mem.subReadSeq (s.readers r).id = seq
  | _ => True

instance StoresCurrent.decidable (s : State) : ∀ action : Action, Decidable (StoresCurrent s action)
  | .reader r .next => inferInstanceAs (Decidable
      (∀ seq ∈ (s.readers r).pc.returning?, s.mem.subReadSeq (s.readers r).id = seq))
  | .reader _ (.tryRecv _ _) => isTrue trivial
  | .producer _ _ => isTrue trivial
  | .subscriber _ _ => isTrue trivial

/-- The steps under which a subscriber can be shared. -/
def SharesSafely (g : Geometry) (s : State) (action : Action) : Prop :=
  CountFits s action ∧ CountsJoined g s action ∧ StoresCurrent s action

/-- A step of a reader that stores a current cursor moves no cursor back. -/
theorem ReaderStep.forward {g : Geometry} {s : State} {r : ℕ} {act : ReaderAct} {m : Mem}
    {t : Reader} {events : List ReaderEvent} (hstores : StoresCurrent s (.reader r act))
    (hstep : ReaderStep g s.subscribers s.mem (s.readers r) act m t events) (id : ℕ) :
    s.mem.subReadSeq id ≤ m.subReadSeq id := by
  cases hstep with
  | storeSeq seq out hpc =>
    have hseq : s.mem.subReadSeq (s.readers r).id = seq := hstores seq (by rw [hpc]; rfl)
    simp only [update_apply]
    split_ifs with hid
    · rw [hid, hseq]
      exact Nat.le_succ _
    · exact le_rfl
  | _ => exact le_rfl

/-- A step that stores no stale cursor moves the cursor of no subscriber back. -/
theorem BusStep.forward {g : Geometry} {s s' : State} {action : Action} {events : List Event}
    (howners : OwnersInv s) (hstores : StoresCurrent s action)
    (hstep : BusStep g s action s' events) {h id : ℕ} (hready : s.subscribers h = .ready id) :
    s.mem.subReadSeq id ≤ s'.mem.subReadSeq id := by
  cases hstep with
  | producer hthread => exact (congrFun hthread.registry.2 id).ge
  | subscriber hthread => exact (howners.entry_kept hthread hready).ge
  | reader hthread => exact hthread.forward hstores id

/-- The invariant of the cursors in a run that shares subscribers: calls in flight may lag behind
the cursor, but are never ahead of it. -/
structure SharedInv (g : Geometry) (s : State) : Prop where
  safe : CursorSafe g s
  seq_le : ∀ r seq, (s.readers r).pc.seq? = some seq → seq ≤ s.mem.subReadSeq (s.readers r).id

/-- The invariant holds in a fresh region. -/
theorem sharedInv_init (g : Geometry) (slab : ℕ → UInt8) : SharedInv g (State.init slab) where
  safe := (cursorInv_init g slab).safe
  seq_le := fun _ _ hseq ↦ nomatch hseq

/-- Every step that shares subscribers safely keeps the invariant. -/
theorem SharedInv.step {g : Geometry} {trace : List Event} {s s' : State} {action : Action}
    {events : List Event} (hinv : SharedInv g s) (hcommit : CommitInv g trace s)
    (howners : OwnersInv s) (hshares : SharesSafely g s action)
    (hstep : BusStep g s action s' events) : SharedInv g s' := by
  obtain ⟨-, hcounts, hstores⟩ := hshares
  -- a call in flight goes through a handle that is ready, whose cursor does not go back
  have hkept : ∀ r seq, (s.readers r).pc.seq? = some seq →
      seq ≤ s'.mem.subReadSeq (s.readers r).id := by
    intro r seq hseq
    have hready := howners.reader_ready r (ReaderPc.ne_idle_of_seq? hseq)
    exact (hinv.seq_le r seq hseq).trans (hstep.forward howners hstores hready)
  cases hstep with
  | producer hthread =>
    exact ⟨hinv.safe.producer_step hcommit howners hcounts hthread, hkept⟩
  | subscriber hthread => exact ⟨hinv.safe.subscriber_step hcommit howners hthread, hkept⟩
  | @reader r act m t reported hthread =>
    refine ⟨hinv.safe.reader_step (hthread.forward hstores) hthread, fun r' seq hseq ↦ ?_⟩
    simp only [State.setReader] at hseq ⊢
    by_cases hr : r' = r
    · subst hr
      rw [update_self] at hseq ⊢
      obtain ⟨hsame, hloaded | ⟨hid, -, hold⟩⟩ := hthread.seq_cases hseq
      · rw [hsame, hloaded]
      · rw [hid]
        exact hkept r' seq hold
    · rw [update_of_ne hr] at hseq ⊢
      exact hkept r' seq hseq

/-- The invariant holds in every run that shares subscribers safely. -/
theorem sharedInv_run {g : Geometry} {slab : ℕ → UInt8} {guard : Guard State Action Event}
    (hshares : ∀ trace s action, guard trace s action → SharesSafely g s action)
    {trace : List Event} {s : State} (hrun : Run (busSystem g slab) guard trace s) :
    SharedInv g s :=
  hrun.invariant (fun _ s ↦ SharedInv g s) (sharedInv_init g slab)
    fun hprevious hinv hallowed hstep ↦
      hinv.step (commitInv_run hprevious)
        (ownersInv_run (fun _ _ _ hkept ↦ (hshares _ _ _ hkept).1) hprevious)
        (hshares _ _ _ hallowed) (step_cases hstep)

/-! ### Exactly once -/

/-- What the calls through every handle have returned: the numbers up to its cursor, in order, from
a start that no call in flight has loaded less than. -/
structure ReturnedInv (trace : List (Event ⊕ Receipt)) (s : State) : Prop where
  unready : ∀ h, (∀ id, s.subscribers h ≠ .ready id) → returnedBy h trace = []
  returned_eq : ∀ h id, s.subscribers h = .ready id → ∃ start ≤ s.mem.subReadSeq id,
    returnedBy h trace = List.range' start (s.mem.subReadSeq id - start) ∧
      ∀ r seq, (s.readers r).handle = h → (s.readers r).pc.seq? = some seq → start ≤ seq

/-- The invariant holds in a fresh region. -/
theorem returnedInv_init (slab : ℕ → UInt8) : ReturnedInv [] (State.init slab) where
  unready := fun _ _ ↦ rfl
  returned_eq := fun _ _ hready ↦ nomatch hready

namespace ReturnedInv

variable {g : Geometry} {trace : List (Event ⊕ Receipt)} {s : State}

/-- A step of a subscribe call hands out a handle through which nothing has been returned. -/
theorem subscriber_step (hinv : ReturnedInv trace s) (howners : OwnersInv s) {h : ℕ}
    {act : SubscriberAct} {m : Mem} {pc : SubscriberPc} {events : List SubscriberEvent}
    (hstep : SubscriberStep s.mem (s.subscribers h) act m pc events) :
    ReturnedInv trace (s.setSubscriber h m pc) := by
  have hnot : ∀ id, s.subscribers h ≠ .ready id := by
    intro id hready
    cases hstep <;> simp_all
  constructor
  · intro h' hunready
    by_cases hh : h' = h
    · exact hinv.unready h' (hh ▸ hnot)
    · simp only [State.setSubscriber, update_of_ne hh] at hunready
      exact hinv.unready h' hunready
  · intro h' id hready
    simp only [State.setSubscriber] at hready ⊢
    by_cases hh : h' = h
    · subst hh
      refine ⟨m.subReadSeq id, le_rfl, ?_, ?_⟩
      · rw [hinv.unready h' hnot, Nat.sub_self, List.range'_zero]
      · rintro r seq rfl hseq
        exact absurd (howners.reader_ready r (ReaderPc.ne_idle_of_seq? hseq)) (hnot _)
    · rw [update_of_ne hh] at hready
      rw [howners.entry_kept hstep hready]
      exact hinv.returned_eq h' id hready

/-- A call that begins loads a cursor that is not less than the start of its handle. -/
theorem start_le (howners : OwnersInv s) {r : ℕ} {act : ReaderAct} {m : Mem} {t : Reader}
    {events : List ReaderEvent}
    (hstep : ReaderStep g s.subscribers s.mem (s.readers r) act m t events) {h id start : ℕ}
    (hready : s.subscribers h = .ready id) (hle : start ≤ s.mem.subReadSeq id)
    (hold : ∀ r seq, (s.readers r).handle = h → (s.readers r).pc.seq? = some seq → start ≤ seq)
    (r' seq : ℕ) (hhandle : (update s.readers r t r').handle = h)
    (hseq : (update s.readers r t r').pc.seq? = some seq) : start ≤ seq := by
  by_cases hr : r' = r
  · subst hr
    have hown := (howners.reader_step hstep).reader_ready r'
    simp only [State.setReader, update_self] at hown
    rw [update_self] at hhandle hseq
    obtain ⟨-, hloaded | ⟨-, hsame, hbefore⟩⟩ := hstep.seq_cases hseq
    · have hid := hown (ReaderPc.ne_idle_of_seq? hseq)
      rw [hhandle, hready] at hid
      cases hid
      rwa [hloaded] at hle
    · exact hold r' seq (hsame ▸ hhandle) hbefore
  · rw [update_of_ne hr] at hhandle hseq
    exact hold r' seq hhandle hseq

/-- A step of a reader that stores a current cursor returns the number at this cursor. -/
theorem reader_step (hinv : ReturnedInv trace s) (howners : OwnersInv s) {r : ℕ} {act : ReaderAct}
    {m : Mem} {t : Reader} {events : List ReaderEvent}
    (hstores : StoresCurrent s (.reader r act))
    (hstep : ReaderStep g s.subscribers s.mem (s.readers r) act m t events) :
    ReturnedInv (trace ++ ((events.map (Event.reader t.handle)).map .inl ++
      (receipts s (.reader r act)).map .inr)) (s.setReader r m t) := by
  have hmove : (m.subReadSeq = s.mem.subReadSeq ∧ receipts s (.reader r act) = []) ∨
      (s.subscribers (s.readers r).handle = .ready (s.readers r).id ∧
        m.subReadSeq = update s.mem.subReadSeq (s.readers r).id
          (s.mem.subReadSeq (s.readers r).id + 1) ∧
        receipts s (.reader r act) =
          [⟨(s.readers r).handle, s.mem.subReadSeq (s.readers r).id⟩]) := by
    cases hstep with
    | storeSeq seq out hpc =>
      have hseq : s.mem.subReadSeq (s.readers r).id = seq := hstores seq (by rw [hpc]; rfl)
      refine Or.inr ⟨howners.reader_ready r (by simp [hpc]), by rw [hseq], ?_⟩
      simp [receipts, hpc, ReaderPc.returning?, hseq]
    | tryRecv h id outLen hpc hready => exact Or.inl ⟨rfl, rfl⟩
    | loadSeq seq hpc | empty seq hpc | loadLen seq hpc | tooLarge seq hpc
    | copyByte seq len out hpc | copyDone seq len out hpc =>
      exact Or.inl ⟨rfl, by simp [receipts, hpc, ReaderPc.returning?]⟩
  constructor
  · intro h hunready
    rw [returnedBy_watch, hinv.unready h hunready]
    rcases hmove with ⟨-, hnone⟩ | ⟨hready, -, hone⟩
    · rw [hnone]
      rfl
    · have hne : (s.readers r).handle ≠ h := by
        rintro rfl
        exact hunready _ hready
      simp [hone, hne]
  · intro h id hready
    replace hready : s.subscribers h = .ready id := hready
    obtain ⟨start, hle, hreturned, hloaded⟩ := hinv.returned_eq h id hready
    have hafter := start_le howners hstep hready hle hloaded
    rw [returnedBy_watch, hreturned]
    simp only [State.setReader]
    rcases hmove with ⟨hsame, hnone⟩ | ⟨hown, hread, hone⟩
    · rw [hsame, hnone]
      exact ⟨start, hle, by simp, hafter⟩
    · rw [hread, hone]
      by_cases hh : (s.readers r).handle = h
      · rw [hh, hready] at hown
        cases hown
        rw [update_self]
        refine ⟨start, by omega, ?_, hafter⟩
        rw [Nat.succ_sub hle, List.range'_1_concat, Nat.add_sub_cancel' hle]
        simp [hh]
      · have hne : id ≠ (s.readers r).id := by
          rintro rfl
          exact hh (howners.eq_of_ready hown hready)
        rw [update_of_ne hne]
        exact ⟨start, hle, by simp [hh], hafter⟩

/-- Every step that stores no stale cursor keeps what has been returned in order. -/
theorem step (hinv : ReturnedInv trace s) (howners : OwnersInv s) {action : Action} {s' : State}
    {events : List Event} (hstores : StoresCurrent s action)
    (hstep : BusStep g s action s' events) :
    ReturnedInv (trace ++ (events.map .inl ++ (receipts s action).map .inr)) s' := by
  have hsilent : ∀ h, receipts s action = [] →
      returnedBy h (trace ++ (events.map .inl ++ (receipts s action).map .inr)) =
        returnedBy h trace := by
    intro h hnone
    rw [returnedBy_watch, hnone]
    exact List.append_nil _
  cases hstep with
  | @producer p act m t own hthread =>
    have hread := hthread.registry.2
    refine ⟨fun h hunready ↦ ?_, fun h id hready ↦ ?_⟩
    · rw [hsilent h rfl]
      exact hinv.unready h hunready
    · rw [hsilent h rfl]
      simpa only [State.setProducer, hread] using hinv.returned_eq h id hready
  | subscriber hthread =>
    have hkept := hinv.subscriber_step howners hthread
    refine ⟨fun h hunready ↦ ?_, fun h id hready ↦ ?_⟩
    · rw [hsilent h rfl]
      exact hkept.unready h hunready
    · rw [hsilent h rfl]
      exact hkept.returned_eq h id hready
  | reader hthread => exact hinv.reader_step howners hstores hthread

end ReturnedInv

section Run

variable {g : Geometry} {slab : ℕ → UInt8} {guard : Guard State Action (Event ⊕ Receipt)}
  {trace : List (Event ⊕ Receipt)} {s : State}

/-- A run with its receipts is a run of the bus. -/
theorem run_of_receipts {allowed : State → Action → Prop}
    (hrun : Run (receiptSystem g slab) guard trace s)
    (hallowed : ∀ trace s action, guard trace s action → allowed s action) :
    Run (busSystem g slab) (fun _ s action ↦ allowed s action) (trace.filterMap Sum.getLeft?) s :=
  hrun.unwatch hallowed

/-- What has been returned in a run that shares subscribers safely. -/
theorem returnedInv_run (hrun : Run (receiptSystem g slab) guard trace s)
    (hshares : ∀ trace s action, guard trace s action → SharesSafely g s action) :
    ReturnedInv trace s := by
  refine hrun.invariant ReturnedInv (returnedInv_init slab) ?_
  intro trace s action s' reported hprevious hinv hallowed hstep
  obtain ⟨events, htaken, rfl⟩ := TransitionSystem.watch_step hstep
  have howners := ownersInv_run (fun _ _ _ hkept ↦ hkept.1) (run_of_receipts hprevious hshares)
  exact hinv.step howners (hshares _ _ _ hallowed).2.2 (step_cases htaken)

/-- A call that is about to store a cursor which is not the one it loaded returns a number that has
been returned before. -/
theorem stale_returned (hrun : Run (receiptSystem g slab) guard trace s)
    (hshares : ∀ trace s action, guard trace s action → SharesSafely g s action) {r seq : ℕ}
    (hreturning : (s.readers r).pc.returning? = some seq)
    (hstale : s.mem.subReadSeq (s.readers r).id ≠ seq) :
    seq ∈ returnedBy (s.readers r).handle trace := by
  have hbus := run_of_receipts hrun hshares
  have hseq : (s.readers r).pc.seq? = some seq := by
    cases hpc : (s.readers r).pc <;> simp_all [ReaderPc.returning?, ReaderPc.seq?]
  have hready := (ownersInv_run (fun _ _ _ hkept ↦ hkept.1) hbus).reader_ready r
    (ReaderPc.ne_idle_of_seq? hseq)
  have hle := (sharedInv_run (fun _ _ _ hkept ↦ hkept) hbus).seq_le r seq hseq
  obtain ⟨start, hstart, hreturned, hloaded⟩ :=
    (returnedInv_run hrun hshares).returned_eq _ _ hready
  have hfirst := hloaded r seq rfl hseq
  rw [hreturned, List.mem_range'_1]
  omega

end Run

/-- One subscriber shared by several threads. In every run in which a call that stores the cursor
finds the one it loaded, in which capacity checks count who joined and in which the count of
subscribe calls fits its word: no step moves the cursor of a subscriber back, no sequence number is
returned twice through one handle, and the slot of a message that a call copies and its subscriber
has not passed keeps its stamp and its payload, with no call admitted to write to it. -/
theorem shared_exactly_once (g : Geometry) (slab : ℕ → UInt8) (trace : List (Event ⊕ Receipt))
    (s : State)
    (hrun : Run (receiptSystem g slab) (fun _ s action ↦ SharesSafely g s action) trace s) :
    (∀ action s' events, SharesSafely g s action → step g s action = some (s', events) →
      ∀ h id, s.subscribers h = .ready id → s.mem.subReadSeq id ≤ s'.mem.subReadSeq id) ∧
    (∀ h, (returnedBy h trace).Nodup) ∧
    ∀ r seq, (s.readers r).pc.reading? = some seq → s.mem.subReadSeq (s.readers r).id ≤ seq →
      s.mem.slotSeq (g.idx seq) = seq + 1 ∧
      (∀ p claim, (s.producers p).admitted = some claim → g.idx claim ≠ g.idx seq) ∧
      ∃ claim, (claims (trace.filterMap Sum.getLeft?))[seq]? = some claim ∧
        s.mem.Stores g (g.idx seq) claim.payload := by
  have hbus := run_of_receipts hrun fun _ _ _ hkept ↦ hkept
  have howners := ownersInv_run (fun _ _ _ hkept ↦ hkept.1) hbus
  have hinv := sharedInv_run (fun _ _ _ hkept ↦ hkept) hbus
  have hreturned := returnedInv_run hrun fun _ _ _ hkept ↦ hkept
  refine ⟨fun action s' events hshares hstep h id hready ↦ ?_, fun h ↦ ?_,
    fun r seq hreading hle ↦ ?_⟩
  · exact (step_cases hstep).forward howners hshares.2.2 hready
  · by_cases hready : ∃ id, s.subscribers h = .ready id
    · obtain ⟨id, hid⟩ := hready
      obtain ⟨start, -, hrange, -⟩ := hreturned.returned_eq h id hid
      rw [hrange]
      exact List.nodup_range'
    · rw [hreturned.unready h fun id hid ↦ hready ⟨id, hid⟩]
      exact List.nodup_nil
  · have hactive := ReaderPc.ne_idle_of_seq? (ReaderPc.seq?_of_reading? hreading)
    have hready := howners.reader_ready r hactive
    have hcursor : (s.subscribers (s.readers r).handle).cursor? s.mem =
        some ((s.readers r).id, s.mem.subReadSeq (s.readers r).id) := by
      rw [hready]
      rfl
    obtain ⟨hstamp, hfree, claim, hclaim, -, hstored⟩ := committed_stored (commitInv_run hbus)
      (payloadInv_run hbus) hinv.safe hcursor hle (readsCommitted_run hbus r seq hreading)
    exact ⟨hstamp, hfree, claim, hclaim, hstored⟩

/-- The steps of a run in which nobody joins during a capacity check and no call stores a stale
cursor. -/
def SharesApart (s : State) (action : Action) : Prop :=
  CountFits s action ∧ CountsAll s action ∧ StoresCurrent s action

instance (s : State) : DecidablePred (SharesApart s) := fun action ↦
  inferInstanceAs (Decidable (CountFits s action ∧ CountsAll s action ∧ StoresCurrent s action))

/-- The steps of a subscribe call. -/
def subscribing : List Action := .subscriber 0 .subscribe :: List.replicate 2 (.subscriber 0 .next)

/-- The first steps of a `publish` call. -/
def publishing (payload : Message) (count : ℕ) : List Action :=
  .producer 0 (.publish payload) :: List.replicate count (.producer 0 (.next false))

/-- The first steps of a `try_recv` call of a thread through the handle they share. -/
def receiving (r count : ℕ) : List Action :=
  .reader r (.tryRecv 0 1) :: List.replicate count (.reader r .next)

/-- Two calls through one handle that copy the second message at once, on a ring of one slot. -/
theorem shared_exactly_once_two : ∃ (trace : List (Event ⊕ Receipt)) (s : State),
    (s.readers 0).pc = .copy 1 1 [] ∧ (s.readers 1).pc = .copy 1 1 [] ∧
    returnedBy 0 trace = [0] ∧ (returnedBy 0 trace).Nodup ∧ s.mem.slotSeq 0 = 2 := by
  let system := receiptSystem tinyGeometry fun _ ↦ 0
  let apart : Guard State Action (Event ⊕ Receipt) := fun _ s action ↦ SharesApart s action
  let actions : List Action :=
    [subscribing, publishing [7] 13, receiving 0 5, publishing [8] 13, receiving 0 2,
      receiving 1 2].flatten
  have hexec : (system.exec system.init actions).map
      (fun result ↦ ((result.1.readers 0).pc, (result.1.readers 1).pc, (result.1.readers 1).id,
        returnedBy 0 result.2, result.1.mem.subReadSeq 0)) =
      some (.copy 1 1 [], .copy 1 1 [], 0, [0], 1) := by decide +kernel
  have hpermitted : Permitted system apart [] system.init actions := by decide +kernel
  obtain ⟨⟨s, trace⟩, hfinal, hresult⟩ := Option.map_eq_some_iff.mp hexec
  simp only [Prod.mk.injEq] at hresult
  obtain ⟨hfirst, hsecond, hid, hreturned, hread⟩ := hresult
  have hapart : Run system apart trace s :=
    run_of_permitted hpermitted hfinal
  have hsafe : Run (receiptSystem tinyGeometry fun _ ↦ 0)
      (fun _ s action ↦ SharesSafely tinyGeometry s action) trace s := by
    refine hapart.strengthen fun hprevious hallowed _ ↦ ⟨hallowed.1, ?_, hallowed.2.2⟩
    have hbus : Run (busSystem tinyGeometry fun _ ↦ 0)
        (fun _ s action ↦ SharesApart s action) _ _ :=
      run_of_receipts hprevious fun _ _ _ hkept ↦ hkept
    exact hallowed.2.1.countsJoined (ownersInv_run (fun _ _ _ hkept ↦ hkept.1) hbus)
  obtain ⟨-, hnodup, hcopied⟩ := shared_exactly_once tinyGeometry _ trace s hsafe
  refine ⟨trace, s, hfirst, hsecond, hreturned, hnodup 0, ?_⟩
  exact (hcopied 1 1 (by rw [hsecond]; rfl) (by rw [hid, hread])).1

/-- A shared subscriber can go back. Reader thread `1` copies message `0` and is about to store its
cursor; thread `0` receives the messages `0` and `1` through the same handle, and a producer is
admitted to write `2`. The store of thread `1` moves the cursor from `2` back to `1` and returns
message `0` again; thread `0` then copies message `1` while the producer writes over it. -/
theorem shared_duplicates : ∃ (trace : List (Event ⊕ Receipt)) (s s' : State)
    (events : List Event), Run (receiptSystem tinyGeometry fun _ ↦ 0)
      (fun _ s action ↦ CountFits s action ∧ CountsAll s action) trace s ∧
    s.subscribers 0 = .ready 0 ∧ step tinyGeometry s (.reader 1 .next) = some (s', events) ∧
    s'.mem.subReadSeq 0 < s.mem.subReadSeq 0 ∧
    ∃ (later : List (Event ⊕ Receipt)) (final : State), Run (receiptSystem tinyGeometry fun _ ↦ 0)
      (fun _ s action ↦ CountFits s action ∧ CountsAll s action) later final ∧
    ¬ (returnedBy 0 later).Nodup ∧ (final.readers 0).pc = .copy 1 1 [] ∧
    final.mem.subReadSeq (final.readers 0).id = 1 ∧ (final.producers 0).admitted = some 2 ∧
    tinyGeometry.idx 2 = tinyGeometry.idx 1 := by
  let system := receiptSystem tinyGeometry fun _ ↦ 0
  let counted : Guard State Action (Event ⊕ Receipt) :=
    fun _ s action ↦ CountFits s action ∧ CountsAll s action
  let actions : List Action :=
    [subscribing, publishing [7] 13, receiving 1 4, receiving 0 5, publishing [8] 13,
      receiving 0 5, publishing [9] 4].flatten
  let rest : List Action := .reader 1 .next :: receiving 0 2
  have hexec : (system.exec system.init actions).map
      (fun result ↦ (result.1.subscribers 0, result.1.mem.subReadSeq 0,
        (step tinyGeometry result.1 (.reader 1 .next)).map fun next ↦ next.1.mem.subReadSeq 0)) =
      some (.ready 0, 2, some 1) := by decide +kernel
  have hlater : (system.exec system.init (actions ++ rest)).map
      (fun result ↦ (returnedBy 0 result.2, (result.1.readers 0).pc,
        result.1.mem.subReadSeq (result.1.readers 0).id, (result.1.producers 0).admitted)) =
      some ([0, 1, 0], .copy 1 1 [], 1, some 2) := by decide +kernel
  have hpermitted : Permitted system counted [] system.init (actions ++ rest) := by decide +kernel
  have hpermitted' : Permitted system counted [] system.init actions := by decide +kernel
  obtain ⟨⟨s, trace⟩, hfinal, hresult⟩ := Option.map_eq_some_iff.mp hexec
  simp only [Prod.mk.injEq] at hresult
  obtain ⟨hready, hread, hnext⟩ := hresult
  obtain ⟨⟨s', events⟩, hstep, hback⟩ := Option.map_eq_some_iff.mp hnext
  obtain ⟨⟨final, later⟩, hend, hresult⟩ := Option.map_eq_some_iff.mp hlater
  simp only [Prod.mk.injEq] at hresult
  obtain ⟨hreturned, hpc, hcursor, hadmitted⟩ := hresult
  have hrun : Run system counted trace s :=
    run_of_permitted hpermitted' hfinal
  have hrun' : Run system counted later final :=
    run_of_permitted hpermitted hend
  refine ⟨trace, s, s', events, hrun, hready, hstep, ?_, later, final, hrun', ?_, hpc, hcursor,
    hadmitted, rfl⟩
  · rw [hread]
    exact Nat.lt_of_le_of_lt hback.le (Nat.lt_succ_self 1)
  · rw [hreturned]
    decide

end AarnnNsys.Bus
