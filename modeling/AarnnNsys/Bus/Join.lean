import AarnnNsys.Bus.Advance
import AarnnNsys.Bus.Registry

/-!
# Producers and the cursors of subscribers

No call may be admitted to a claim a lap or more past the cursor of a subscriber. A capacity check
scans the cursors of the subscribers it counted when it loaded `n_subs`; for a subscriber that
registered later it relies on the `write_seq` it loads afterwards. That is sound as long as this
`write_seq` has not moved past the cursor of such a subscriber while the claim is a lap or more
ahead: `CountsJoined` says so of the one step that loads `write_seq`.

Under `CountsJoined` every call keeps within a lap of every cursor (`Producer.Respects`) and so does
every stamp (`CursorInv`). `cursorInv_run` proves it for the runs whose handles stay with their
threads. A check that no
subscriber joins between its two loads counts everybody (`CountsAll`), and when all subscriptions
are complete before the first call every check does (`SubscribedFirst`, `firstInv_run`).
-/

set_option autoImplicit false
set_option relaxedAutoImplicit false

namespace AarnnNsys.Bus

open Function Lib

/-- The step in which a capacity check loads `write_seq`: a subscriber that registered after the
check loaded `n_subs`, and has loaded its start, is less than a lap behind the claim, unless
`write_seq` alone already holds the claim back. -/
def CountsJoined (g : Geometry) (s : State) : Action → Prop
  | .producer p (.next _) =>
    ∀ claim n, (s.producers p).pc = .loadWrite claim n → claim < s.mem.writeSeq + g.descCapacity →
      ∀ h id cursor, (s.subscribers h).cursor? s.mem = some (id, cursor) → n ≤ id →
        claim < cursor + g.descCapacity
  | _ => True

/-- A call keeps within a lap of a cursor: once admitted its claim does, and during the scan it does
as soon as the cursor has been looked at or will not be. -/
def Producer.Respects (g : Geometry) (t : Producer) (id cursor : ℕ) : Prop :=
  match t.pc with
  | .scan claim n i minRead =>
    id < i ∨ n ≤ id → claim < minRead + g.descCapacity → claim < cursor + g.descCapacity
  | .casClaim claim | .copy claim _ | .storeDesc claim | .storeSeq claim =>
    claim < cursor + g.descCapacity
  | _ => True

section Respects

variable {g : Geometry} {t : Producer} {id cursor : ℕ}

/-- A call that keeps within a lap of a cursor still does when the cursor moves on. -/
theorem Producer.Respects.mono {cursor' : ℕ} (hrespects : t.Respects g id cursor)
    (hle : cursor ≤ cursor') : t.Respects g id cursor' := by
  unfold Producer.Respects at hrespects ⊢
  cases hpc : t.pc <;> simp only [hpc] at hrespects ⊢ <;> omega

/-- Every call keeps within a lap of a cursor that starts at `write_seq`. -/
theorem Producer.Bounded.respects {m : Mem} (hbounded : t.Bounded g m) :
    t.Respects g id m.writeSeq := by
  unfold Producer.Bounded at hbounded
  unfold Producer.Respects
  cases hpc : t.pc <;> simp only [hpc] at hbounded ⊢ <;> omega

/-- An admitted call keeps within a lap of a cursor. -/
theorem Producer.Respects.admitted_lt (hrespects : t.Respects g id cursor) {claim : ℕ}
    (hadmitted : t.admitted = some claim) : claim < cursor + g.descCapacity := by
  unfold Producer.admitted at hadmitted
  unfold Producer.Respects at hrespects
  split at hadmitted <;> simp_all

/-- A call keeps within a lap of a cursor in its own step. Assumes: the entry it may scan is at most
the cursor, and the step counts a subscriber that joined during the check. -/
theorem ProducerStep.respects {m m' : Mem} {t' : Producer} {act : ProducerAct}
    {events : List ProducerEvent} (hrespects : t.Respects g id cursor)
    (hread : m.subReadSeq id ≤ cursor)
    (hcounts : ∀ claim n, t.pc = .loadWrite claim n → claim < m.writeSeq + g.descCapacity → n ≤ id →
      claim < cursor + g.descCapacity)
    (hstep : ProducerStep g m t act m' t' events) : t'.Respects g id cursor := by
  cases hstep with
  | loadWrite b claim n hpc =>
    intro hseen hspace
    rcases hseen with hbefore | hlater
    · exact absurd hbefore (Nat.not_lt_zero _)
    · exact hcounts claim n hpc hspace hlater
  | scanRead b claim n i minRead hpc hi hmax =>
    simp only [Producer.Respects, hpc] at hrespects
    intro hseen hspace
    by_cases hid : id = i
    · -- the cursor scanned in this step
      subst hid
      omega
    · exact hrespects (by omega) (by omega)
  | pass b claim n i minRead hpc hi hblocking hspace
  | accept b claim n i minRead hpc hi hblocking hspace =>
    simp only [Producer.Respects, hpc] at hrespects
    exact hrespects (by omega) hspace
  | claim b claim hpc | copyByte b claim k byte hpc | copyDone b claim k hpc
  | storeDesc b claim hpc =>
    simp only [Producer.Respects, hpc] at hrespects
    exact hrespects
  | _ => trivial

end Respects

/-- The sequence number that a `try_recv` in flight is reading, once it has found it committed. -/
def ReaderPc.reading? : ReaderPc → Option ℕ
  | .loadLen seq | .copy seq _ _ | .storeSeq seq _ => some seq
  | _ => none

/-- The cursor value that a `try_recv` in flight has loaded. -/
def ReaderPc.seq? : ReaderPc → Option ℕ
  | .loadSeq seq | .loadLen seq | .copy seq _ _ | .storeSeq seq _ => some seq
  | .idle => none

/-- Calls and stamps keep within a lap of every cursor. -/
structure CursorSafe (g : Geometry) (s : State) : Prop where
  respects : ∀ h id cursor, (s.subscribers h).cursor? s.mem = some (id, cursor) →
    ∀ p, (s.producers p).Respects g id cursor
  slot_le : ∀ h id cursor, (s.subscribers h).cursor? s.mem = some (id, cursor) →
    ∀ i, s.mem.slotSeq i ≤ cursor + g.descCapacity

namespace CursorSafe

variable {g : Geometry} {trace : List Event} {s : State}

/-- A producer step that counts who joined keeps every cursor safe. -/
theorem producer_step (hsafe : CursorSafe g s) (hcommit : CommitInv g trace s)
    (howners : OwnersInv s) {p : ℕ} {act : ProducerAct} {m : Mem} {t : Producer}
    {events : List ProducerEvent} (hcounts : CountsJoined g s (.producer p act))
    (hstep : ProducerStep g s.mem (s.producers p) act m t events) :
    CursorSafe g (s.setProducer p m t) := by
  obtain ⟨-, hread⟩ := hstep.registry
  have hring := hstep.ringStep (hcommit.bounded p)
  have hcursor : ∀ h, (s.subscribers h).cursor? m = (s.subscribers h).cursor? s.mem := fun h ↦
    SubscriberPc.cursor?_congr fun id _ ↦ congrFun hread id
  constructor
  · intro h id cursor hid q
    simp only [State.setProducer, hcursor] at hid ⊢
    by_cases hqp : q = p
    · subst hqp
      rw [update_self]
      refine hstep.respects (hsafe.respects h id cursor hid q) (howners.subReadSeq_le hid) ?_
      intro claim n hpc hspace hlater
      cases hact : act with
      | next b =>
        subst hact
        exact hcounts claim n hpc hspace h id cursor hid hlater
      | publish payload | tryPublish payload =>
        subst hact
        cases hstep <;> simp_all
    · rw [update_of_ne hqp]
      exact hsafe.respects h id cursor hid q
  · intro h id cursor hid i
    simp only [State.setProducer, hcursor] at hid ⊢
    have hold := hsafe.slot_le h id cursor hid i
    cases hring with
    | quiet _ _ hslot | claim _ _ hslot | advance _ _ hslot => rwa [hslot]
    | commit claim _ _ hslot hadmitted =>
      rw [hslot, update_apply]
      split_ifs with hi
      · exact (hsafe.respects h id cursor hid p).admitted_lt hadmitted
      · exact hold

/-- A step of a subscribe call adds only a cursor at `write_seq`. -/
theorem subscriber_step (hsafe : CursorSafe g s) (hcommit : CommitInv g trace s)
    (howners : OwnersInv s) {h : ℕ} {act : SubscriberAct} {m : Mem} {pc : SubscriberPc}
    {events : List SubscriberEvent}
    (hstep : SubscriberStep s.mem (s.subscribers h) act m pc events) :
    CursorSafe g (s.setSubscriber h m pc) := by
  obtain ⟨-, -, hslot⟩ := hstep.words
  -- the cursors of the state after the step
  have hcases : ∀ h' id cursor, (update s.subscribers h pc h').cursor? m = some (id, cursor) →
      cursor = s.mem.writeSeq ∨ (s.subscribers h').cursor? s.mem = some (id, cursor) := by
    intro h' id cursor hid
    by_cases hh : h' = h
    · subst hh
      rw [update_self] at hid
      cases hstep with
      | loadStart other hpc =>
        simp only [SubscriberPc.cursor?, Option.some.injEq, Prod.mk.injEq] at hid
        exact Or.inl hid.2.symm
      | storeStart other start hpc =>
        simp only [SubscriberPc.cursor?, Option.some.injEq, Prod.mk.injEq] at hid
        obtain ⟨rfl, hstart⟩ := hid
        rw [update_self] at hstart
        rw [hpc, ← hstart]
        exact Or.inr rfl
      | _ => simp [SubscriberPc.cursor?] at hid
    · rw [update_of_ne hh,
        SubscriberPc.cursor?_congr (fun other hready ↦ howners.entry_kept hstep hready)] at hid
      exact Or.inr hid
  constructor
  · intro h' id cursor hid p
    rcases hcases h' id cursor hid with rfl | hold
    · exact (hcommit.bounded p).respects
    · exact hsafe.respects h' id cursor hold p
  · intro h' id cursor hid i
    simp only [State.setSubscriber, hslot]
    rcases hcases h' id cursor hid with rfl | hold
    · exact hcommit.slot_window i
    · exact hsafe.slot_le h' id cursor hold i

/-- A step of a reader that moves no entry back keeps every cursor safe. -/
theorem reader_step (hsafe : CursorSafe g s) {r : ℕ} {act : ReaderAct} {m : Mem} {t : Reader}
    {events : List ReaderEvent} (hforward : ∀ id, s.mem.subReadSeq id ≤ m.subReadSeq id)
    (hstep : ReaderStep g s.subscribers s.mem (s.readers r) act m t events) :
    CursorSafe g (s.setReader r m t) := by
  obtain ⟨-, -, hslot⟩ := hstep.words
  have hcases : ∀ h id cursor, (s.subscribers h).cursor? m = some (id, cursor) →
      ∃ earlier ≤ cursor, (s.subscribers h).cursor? s.mem = some (id, earlier) := by
    intro h id cursor hid
    cases hpc : s.subscribers h with
    | ready other =>
      simp only [hpc, SubscriberPc.cursor?, Option.some.injEq, Prod.mk.injEq] at hid
      obtain ⟨rfl, rfl⟩ := hid
      exact ⟨_, hforward other, rfl⟩
    | storeStart other start =>
      simp only [hpc, SubscriberPc.cursor?, Option.some.injEq, Prod.mk.injEq] at hid
      obtain ⟨rfl, rfl⟩ := hid
      exact ⟨_, le_rfl, rfl⟩
    | _ => simp [hpc, SubscriberPc.cursor?] at hid
  constructor
  · intro h id cursor hid p
    obtain ⟨earlier, hbefore, hold⟩ := hcases h id cursor hid
    exact (hsafe.respects h id earlier hold p).mono hbefore
  · intro h id cursor hid i
    obtain ⟨earlier, hbefore, hold⟩ := hcases h id cursor hid
    have := hsafe.slot_le h id earlier hold i
    simp only [State.setReader, hslot]
    omega

/-- The stamp of a number that a cursor has not passed is not past that number. -/
theorem stamp_le (hsafe : CursorSafe g s) (hcommit : CommitInv g trace s)
    {h id cursor sequence : ℕ} (hcursor : (s.subscribers h).cursor? s.mem = some (id, cursor))
    (hle : cursor ≤ sequence) : s.mem.slotSeq (g.idx sequence) ≤ sequence + 1 := by
  by_cases hcommitted : s.mem.Committed g sequence
  · have hslot := hsafe.slot_le h id cursor hcursor (g.idx sequence)
    exact (hcommit.stamp_eq hcommitted (by omega)).le
  · simp only [Mem.Committed, not_lt] at hcommitted
    omega

/-- No call is admitted to write over a number that a cursor has not passed. -/
theorem admitted_le (hsafe : CursorSafe g s) {h id cursor sequence : ℕ}
    (hcursor : (s.subscribers h).cursor? s.mem = some (id, cursor)) (hle : cursor ≤ sequence)
    {p claim : ℕ} (hadmitted : (s.producers p).admitted = some claim)
    (hslot : g.idx claim = g.idx sequence) : claim ≤ sequence := by
  by_contra hgt
  simp only [Geometry.idx_eq_mod] at hslot
  have hlap := add_le_of_mod_eq hslot.symm (by omega)
  have hlt := (hsafe.respects h id cursor hcursor p).admitted_lt hadmitted
  omega

end CursorSafe

/-- Producers, stamps and readers agree with every cursor. -/
structure CursorInv (g : Geometry) (s : State) : Prop where
  respects : ∀ h id cursor, (s.subscribers h).cursor? s.mem = some (id, cursor) →
    ∀ p, (s.producers p).Respects g id cursor
  slot_le : ∀ h id cursor, (s.subscribers h).cursor? s.mem = some (id, cursor) →
    ∀ i, s.mem.slotSeq i ≤ cursor + g.descCapacity
  reader_seq : ∀ r seq, (s.readers r).pc.seq? = some seq →
    s.mem.subReadSeq (s.readers r).id = seq
  reading : ∀ r seq, (s.readers r).pc.reading? = some seq → s.mem.Committed g seq

/-- The invariant holds in a fresh region. -/
theorem cursorInv_init (g : Geometry) (slab : ℕ → UInt8) : CursorInv g (State.init slab) where
  respects := fun _ _ _ hcursor ↦ nomatch hcursor
  slot_le := fun _ _ _ hcursor ↦ nomatch hcursor
  reader_seq := fun _ _ hseq ↦ nomatch hseq
  reading := fun _ _ hseq ↦ nomatch hseq

/-- A call that has loaded a cursor value is in flight. -/
theorem ReaderPc.ne_idle_of_seq? {pc : ReaderPc} {seq : ℕ} (hseq : pc.seq? = some seq) :
    pc ≠ .idle := by
  rintro rfl
  cases hseq

/-- A call that reads a number has loaded it as its cursor. -/
theorem ReaderPc.seq?_of_reading? {pc : ReaderPc} {seq : ℕ} (hseq : pc.reading? = some seq) :
    pc.seq? = some seq := by
  cases pc <;> simp_all [ReaderPc.seq?, ReaderPc.reading?]

/-- The cursor value of a call after a step is the one it had, or the one that a call which begins
has just loaded. -/
theorem ReaderStep.seq_cases {g : Geometry} {handles : ℕ → SubscriberPc} {m m' : Mem}
    {t t' : Reader} {act : ReaderAct} {events : List ReaderEvent}
    (hstep : ReaderStep g handles m t act m' t' events) {seq : ℕ} (hseq : t'.pc.seq? = some seq) :
    m'.subReadSeq = m.subReadSeq ∧
      (m.subReadSeq t'.id = seq ∨ t'.id = t.id ∧ t'.handle = t.handle ∧ t.pc.seq? = some seq) := by
  cases hstep with
  | tryRecv h id outLen hpc hready => exact ⟨rfl, Or.inl (Option.some.inj hseq)⟩
  | loadSeq other hpc | loadLen other hpc | copyByte other len out hpc
  | copyDone other len out hpc =>
    exact ⟨rfl, Or.inr ⟨rfl, rfl, by rw [hpc]; exact hseq⟩⟩
  | empty other hpc | tooLarge other hpc | storeSeq other out hpc => cases hseq

/-- A call reads a number only once it has found it committed. -/
theorem ReaderStep.committed {g : Geometry} {handles : ℕ → SubscriberPc} {m m' : Mem}
    {t t' : Reader} {act : ReaderAct} {events : List ReaderEvent}
    (hstep : ReaderStep g handles m t act m' t' events)
    (hold : ∀ seq, t.pc.reading? = some seq → m.Committed g seq) {seq : ℕ}
    (hseq : t'.pc.reading? = some seq) : m'.Committed g seq := by
  rw [Mem.Committed, hstep.words.2.2, ← Mem.Committed]
  cases hstep with
  | loadSeq other hpc hcommitted =>
    cases hseq
    rw [Mem.Committed]
    omega
  | tryRecv h id outLen hpc hready => cases hseq
  | loadLen other hpc | copyByte other len out hpc | copyDone other len out hpc =>
    exact hold seq (by rw [hpc]; exact hseq)
  | empty other hpc | tooLarge other hpc | storeSeq other out hpc => cases hseq

/-- A call reads a number only while it is committed. -/
def ReadsCommitted (g : Geometry) (s : State) : Prop :=
  ∀ r seq, (s.readers r).pc.reading? = some seq → s.mem.Committed g seq

/-- Every step keeps what is read committed. -/
theorem ReadsCommitted.step {g : Geometry} {trace : List Event} {s s' : State} {action : Action}
    {events : List Event} (hreads : ReadsCommitted g s) (hcommit : CommitInv g trace s)
    (hstep : BusStep g s action s' events) : ReadsCommitted g s' := by
  cases hstep with
  | producer hthread =>
    intro r seq hseq
    have hring := hthread.ringStep (hcommit.bounded _)
    exact (hring.grows hcommit).committed (hreads r seq hseq)
  | subscriber hthread =>
    obtain ⟨-, -, hwords⟩ := hthread.words
    simpa [ReadsCommitted, State.setSubscriber, Mem.Committed, hwords] using hreads
  | @reader r act m t reported hthread =>
    obtain ⟨-, -, hwords⟩ := hthread.words
    intro r' seq hseq
    simp only [State.setReader] at hseq ⊢
    by_cases hr : r' = r
    · subst hr
      rw [update_self] at hseq
      exact hthread.committed (hreads r') hseq
    · rw [update_of_ne hr] at hseq
      simpa only [Mem.Committed, hwords] using hreads r' seq hseq

/-- What is read is committed in every run. -/
theorem readsCommitted_run {g : Geometry} {slab : ℕ → UInt8} {guard : Guard State Action Event}
    {trace : List Event} {s : State} (hrun : Run (busSystem g slab) guard trace s) :
    ReadsCommitted g s :=
  hrun.invariant (fun _ s ↦ ReadsCommitted g s) (fun _ _ hseq ↦ by cases hseq)
    fun hprevious hreads _ hstep ↦ hreads.step (commitInv_run hprevious) (step_cases hstep)

namespace CursorInv

variable {g : Geometry} {trace : List Event} {s : State}

/-- Every cursor is safe. -/
theorem safe (hinv : CursorInv g s) : CursorSafe g s := ⟨hinv.respects, hinv.slot_le⟩

/-- A producer step keeps every cursor safe. -/
theorem producer_step (hinv : CursorInv g s) (hcommit : CommitInv g trace s)
    (hhandles : HandlesInv s) {p : ℕ} {act : ProducerAct} {m : Mem} {t : Producer}
    {events : List ProducerEvent} (hcounts : CountsJoined g s (.producer p act))
    (hstep : ProducerStep g s.mem (s.producers p) act m t events) :
    CursorInv g (s.setProducer p m t) := by
  obtain ⟨-, hread⟩ := hstep.registry
  obtain ⟨hrespects, hslot⟩ := hinv.safe.producer_step hcommit hhandles.owners hcounts hstep
  refine ⟨hrespects, hslot, ?_, ReadsCommitted.step hinv.reading hcommit (.producer hstep)⟩
  simpa [State.setProducer, hread] using hinv.reader_seq

/-- A step of a subscribe call adds only a cursor at `write_seq`. -/
theorem subscriber_step (hinv : CursorInv g s) (hcommit : CommitInv g trace s)
    (hhandles : HandlesInv s) {h : ℕ} {act : SubscriberAct} {m : Mem} {pc : SubscriberPc}
    {events : List SubscriberEvent}
    (hstep : SubscriberStep s.mem (s.subscribers h) act m pc events) :
    CursorInv g (s.setSubscriber h m pc) := by
  obtain ⟨hrespects, hslot⟩ := hinv.safe.subscriber_step hcommit hhandles.owners hstep
  refine ⟨hrespects, hslot, fun r seq hseq ↦ ?_,
    ReadsCommitted.step hinv.reading hcommit (.subscriber hstep)⟩
  have hready := hhandles.owners.reader_ready r (ReaderPc.ne_idle_of_seq? hseq)
  simp only [State.setSubscriber]
  rw [hhandles.owners.entry_kept hstep hready]
  exact hinv.reader_seq r seq hseq

/-- A step of a reader only moves the cursor of its own handle, by one. -/
theorem reader_step (hinv : CursorInv g s) (hcommit : CommitInv g trace s)
    (hhandles : HandlesInv s) {r : ℕ} {act : ReaderAct} {m : Mem} {t : Reader}
    {events : List ReaderEvent}
    (hstep : ReaderStep g s.subscribers s.mem (s.readers r) act m t events) :
    CursorInv g (s.setReader r m t) := by
  have hforward : ∀ id, s.mem.subReadSeq id ≤ m.subReadSeq id := by
    intro id
    cases hstep with
    | storeSeq seq out hpc =>
      have hseq := hinv.reader_seq r seq (by rw [hpc]; rfl)
      simp only [update_apply]
      split_ifs with hid
      · rw [hid, hseq]
        omega
      · exact le_rfl
    | _ => exact le_rfl
  have hother : ∀ r' ≠ r, (s.readers r').pc ≠ .idle →
      m.subReadSeq (s.readers r').id = s.mem.subReadSeq (s.readers r').id := by
    intro r' hne hactive
    cases hstep with
    | storeSeq seq out hpc =>
      refine update_of_ne (fun hid ↦ hne ?_) _ _
      have hready := (hhandles.reader_ready r' hactive).2
      rw [hid] at hready
      exact hhandles.owners.eq_of_ready hready (hhandles.reader_ready r (by simp [hpc])).2
    | _ => rfl
  obtain ⟨hrespects, hslot⟩ := hinv.safe.reader_step hforward hstep
  refine ⟨hrespects, hslot, fun r' seq hseq ↦ ?_,
    ReadsCommitted.step hinv.reading hcommit (.reader hstep)⟩
  simp only [State.setReader] at hseq ⊢
  by_cases hr : r' = r
  · subst hr
    rw [update_self] at hseq ⊢
    obtain ⟨hsame, hloaded | ⟨hid, -, hold⟩⟩ := hstep.seq_cases hseq
    · rw [hsame, hloaded]
    · rw [hsame, hid]
      exact hinv.reader_seq r' seq hold
  · rw [update_of_ne hr] at hseq ⊢
    rw [hother r' hr (ReaderPc.ne_idle_of_seq? hseq)]
    exact hinv.reader_seq r' seq hseq

/-- Every step that counts who joined keeps every cursor safe. -/
theorem step (hinv : CursorInv g s) (hcommit : CommitInv g trace s) (hhandles : HandlesInv s)
    {action : Action} {s' : State} {reported : List Event} (hcounts : CountsJoined g s action)
    (hstep : BusStep g s action s' reported) :
    CursorInv g s' := by
  cases hstep with
  | producer hthread => exact hinv.producer_step hcommit hhandles hcounts hthread
  | subscriber hthread => exact hinv.subscriber_step hcommit hhandles hthread
  | reader hthread => exact hinv.reader_step hcommit hhandles hthread

end CursorInv

/-- Every cursor stays safe in a run whose handles stay with their threads and whose capacity checks
count who joined. -/
theorem cursorInv_run {g : Geometry} {slab : ℕ → UInt8} {guard : Guard State Action Event}
    (hkeeps : ∀ trace s action, guard trace s action → KeepsHandles s action)
    (hcounts : ∀ trace s action, guard trace s action → CountsJoined g s action)
    {trace : List Event} {s : State} (hrun : Run (busSystem g slab) guard trace s) :
    CursorInv g s :=
  hrun.invariant (fun _ s ↦ CursorInv g s) (cursorInv_init g slab)
    fun hprevious hinv hallowed hstep ↦
      hinv.step (commitInv_run hprevious) (handlesInv_run hkeeps hprevious)
        (hcounts _ _ _ hallowed) (step_cases hstep)

/-! ### Subscriptions that are complete before the first call -/

/-- The step in which a capacity check loads `write_seq`: it has counted every subscribe call made
so far. -/
def CountsAll (s : State) : Action → Prop
  | .producer p (.next _) =>
    match (s.producers p).pc with
    | .loadWrite _ n => n = s.mem.nSubs
    | _ => True
  | _ => True

instance (s : State) : DecidablePred (CountsAll s) := fun action ↦ by
  unfold CountsAll
  split
  · split <;> infer_instance
  · infer_instance

/-- A check that has counted everybody has counted who joined. -/
theorem CountsAll.countsJoined {g : Geometry} {s : State} {action : Action}
    (hall : CountsAll s action) (howners : OwnersInv s) : CountsJoined g s action := by
  unfold CountsAll at hall
  unfold CountsJoined
  split
  · rename_i p b
    intro claim n hpc hspace h id cursor hcursor hlater
    simp only [hpc] at hall
    have hlt := howners.taken.lt h id (SubscriberPc.id?_of_cursor? hcursor)
    omega
  · trivial

/-- Every capacity check under way has counted all subscribe calls made so far. -/
def AllCounted (s : State) : Prop :=
  ∀ p n, (s.producers p).counted? = some n → n = s.mem.nSubs

/-- Where every check under way has counted everybody, so has the one that loads `write_seq`. -/
theorem AllCounted.countsAll {s : State} (hall : AllCounted s) (action : Action) :
    CountsAll s action := by
  unfold CountsAll
  split
  · rename_i p b
    split
    · rename_i claim n hpc
      exact hall p n (by rw [Producer.counted?, hpc])
    · trivial
  · trivial

/-- A producer that counts everybody when its check begins. -/
theorem AllCounted.producer_step {g : Geometry} {s : State} (hall : AllCounted s) {p : ℕ}
    {act : ProducerAct} {m : Mem} {t : Producer} {events : List ProducerEvent}
    (hstep : ProducerStep g s.mem (s.producers p) act m t events) :
    AllCounted (s.setProducer p m t) := by
  intro q n hcounted
  simp only [State.setProducer, hstep.registry.1] at hcounted ⊢
  by_cases hqp : q = p
  · subst hqp
    rw [update_self] at hcounted
    exact hstep.counted (· = s.mem.nSubs) rfl (hall q) n hcounted
  · rw [update_of_ne hqp] at hcounted
    exact hall q n hcounted

/-- A subscribe call begins while no capacity check is under way; between complete calls none is. -/
def JoinsBetween (s : State) : Action → Prop
  | .subscriber _ .subscribe => ∀ p, (s.producers p).counted? = none
  | _ => True

/-- In a run whose subscribe calls begin between capacity checks, the checks count everybody. -/
theorem allCounted_run {g : Geometry} {slab : ℕ → UInt8} {guard : Guard State Action Event}
    (hbetween : ∀ trace s action, guard trace s action → JoinsBetween s action)
    {trace : List Event} {s : State} (hrun : Run (busSystem g slab) guard trace s) :
    AllCounted s := by
  refine hrun.invariant (fun _ s ↦ AllCounted s) ?_ ?_
  · intro p n hcounted
    cases hcounted
  · intro trace s action s' events _ hall hallowed hstep
    cases step_cases hstep with
    | producer hthread => exact hall.producer_step hthread
    | subscriber hthread =>
      intro p n hcounted
      have hfree := hbetween _ _ _ hallowed
      cases hthread with
      | reject | register => cases (hfree p).symm.trans hcounted
      | loadStart | storeStart => exact hall p n hcounted
    | reader hthread =>
      intro p n hcounted
      have hsame := hall p n hcounted
      cases hthread <;> exact hsame

/-- No subscribe call takes a step once a `publish` or `try_publish` call has begun. -/
def SubscribedFirst (trace : List Event) : Action → Prop
  | .subscriber _ _ => ¬ Begun trace
  | _ => True

instance (trace : List Event) : DecidablePred (SubscribedFirst trace) := fun action ↦ by
  unfold SubscribedFirst
  split <;> infer_instance

/-- What holds when no subscribe call takes a step after the first call: before it the bus is empty,
and no subscriber starts later than `0`. -/
structure FirstInv (trace : List Event) (s : State) : Prop where
  begun : ∀ p, (s.producers p).pc ≠ .idle → Begun trace
  fresh : ¬ Begun trace → s.mem.writeSeq = 0
  counted : ∀ p n, (s.producers p).counted? = some n → n = s.mem.nSubs
  storing : ∀ h id start, s.subscribers h = .storeStart id start → start = 0
  started : ∀ h start, Started h start trace → start = 0

/-- The invariant holds in a fresh region. -/
theorem firstInv_init (slab : ℕ → UInt8) : FirstInv [] (State.init slab) where
  begun := fun _ hactive ↦ absurd rfl hactive
  fresh := fun _ ↦ rfl
  counted := fun _ _ hcounted ↦ nomatch hcounted
  storing := fun _ _ _ hpc ↦ nomatch hpc
  started := fun _ _ hstarted ↦ nomatch hstarted

/-- A call that has begun has begun. -/
theorem Begun.append {trace : List Event} (hbegun : Begun trace) (events : List Event) :
    Begun (trace ++ events) := by
  obtain ⟨event, hmem, hcall⟩ := hbegun
  exact ⟨event, List.mem_append_left _ hmem, hcall⟩

/-- A producer step is the step of a call that has begun, or begins one. -/
theorem ProducerStep.begun {g : Geometry} {m m' : Mem} {t t' : Producer} {act : ProducerAct}
    {events : List ProducerEvent} (hstep : ProducerStep g m t act m' t' events)
    {trace : List Event} (hactive : t.pc ≠ .idle → Begun trace) (p : ℕ) :
    Begun (trace ++ events.map (.producer p)) := by
  cases hstep with
  | publish payload | tryPublish payload | publishRejected payload | tryPublishRejected payload =>
    exact ⟨.producer p (.called payload), by simp, rfl⟩
  | _ => exact (hactive (by simp [*])).append _

/-- Producers and readers start no subscriber. -/
theorem started_append_iff {trace events : List Event} {h start : ℕ}
    (hevents : ∀ id, Event.subscriber h (.subscribed id start) ∉ events) :
    Started h start (trace ++ events) ↔ Started h start trace := by
  simp [Started, hevents]

/-- Every step keeps the invariant of subscriptions that come first. -/
theorem FirstInv.step {g : Geometry} {trace : List Event} {s s' : State} {action : Action}
    {reported : List Event} (hinv : FirstInv trace s) (hfirst : SubscribedFirst trace action)
    (hstep : BusStep g s action s' reported) : FirstInv (trace ++ reported) s' := by
  cases hstep with
  | @producer p act m t events hthread =>
    have hbegun := hthread.begun (hinv.begun p) p
    refine ⟨fun _ _ ↦ hbegun, fun hnot ↦ absurd hbegun hnot,
      AllCounted.producer_step hinv.counted hthread, hinv.storing, ?_⟩
    intro h start hstarted
    exact hinv.started h start ((started_append_iff (by simp)).mp hstarted)
  | @subscriber h act m pc events hthread =>
    have hidle : ∀ p, (s.producers p).pc = .idle := by
      intro p
      by_contra hactive
      exact hfirst (hinv.begun p hactive)
    have hstart := hinv.fresh hfirst
    have hwrite : m.writeSeq = 0 := hthread.words.2.1.trans hstart
    refine ⟨fun p hactive ↦ absurd (hidle p) hactive, fun _ ↦ hwrite, ?_, ?_, ?_⟩
    · intro p n hcounted
      simp [State.setSubscriber, Producer.counted?, hidle p] at hcounted
    · intro h' id start hpc
      simp only [State.setSubscriber] at hpc
      by_cases hh : h' = h
      · rw [hh, update_self] at hpc
        cases hthread <;> simp_all
      · rw [update_of_ne hh] at hpc
        exact hinv.storing h' id start hpc
    · rintro h' start ⟨id, hmem⟩
      rcases List.mem_append.mp hmem with hold | hnew
      · exact hinv.started h' start ⟨id, hold⟩
      · cases hthread with
        | storeStart other begin hpc =>
          simp only [List.map_cons, List.map_nil, List.mem_singleton, Event.subscriber.injEq,
            SubscriberEvent.subscribed.injEq] at hnew
          rw [hnew.2.2]
          exact hinv.storing h other begin hpc
        | _ => simp at hnew
  | @reader r act m t events hthread =>
    have hnSubs : m.nSubs = s.mem.nSubs := by cases hthread <;> rfl
    obtain ⟨-, hwrite, -⟩ := hthread.words
    refine ⟨fun p hactive ↦ (hinv.begun p hactive).append _, fun hnot ↦ ?_, ?_, hinv.storing, ?_⟩
    · exact hwrite.trans (hinv.fresh fun hbegun ↦ hnot (hbegun.append _))
    · simpa [State.setReader, hnSubs] using hinv.counted
    · intro h start hstarted
      exact hinv.started h start ((started_append_iff (by simp)).mp hstarted)

/-- The invariant of subscriptions that come first holds in every run in which they do. -/
theorem firstInv_run {g : Geometry} {slab : ℕ → UInt8} {guard : Guard State Action Event}
    (hfirst : ∀ trace s action, guard trace s action → SubscribedFirst trace action)
    {trace : List Event} {s : State} (hrun : Run (busSystem g slab) guard trace s) :
    FirstInv trace s :=
  hrun.invariant FirstInv (firstInv_init slab) fun _ hinv hallowed hstep ↦
    hinv.step (hfirst _ _ _ hallowed) (step_cases hstep)

/-- The steps of a run whose subscriptions are complete before the first call. -/
def SubscribesFirst (trace : List Event) (s : State) (action : Action) : Prop :=
  Disciplined s action ∧ SubscribedFirst trace action

instance (trace : List Event) (s : State) : DecidablePred (SubscribesFirst trace s) :=
  fun _ ↦ inferInstanceAs (Decidable (_ ∧ _))

/-- In a run whose subscriptions come first every capacity check counts who joined. -/
theorem countsJoined_of_subscribesFirst {g : Geometry} {slab : ℕ → UInt8} {trace : List Event}
    {s : State} (hrun : Run (busSystem g slab) SubscribesFirst trace s) :
    Run (busSystem g slab) (fun _ s action ↦ Disciplined s action ∧ CountsJoined g s action)
      trace s := by
  refine hrun.strengthen fun {trace s action _ _} hprevious hallowed _ ↦ ⟨hallowed.1, ?_⟩
  have hregistry := registryInv_run (fun _ _ _ hkept ↦ hkept.1) hprevious
  have hfirst := firstInv_run (fun _ _ _ hkept ↦ hkept.2) hprevious
  exact (AllCounted.countsAll hfirst.counted action).countsJoined hregistry.handles.owners

end AarnnNsys.Bus
