import AarnnNsys.Bus.Shared
import AarnnNsys.Bus.Touch

/-!
# What the accesses of a run were about

Every plain access is about one sequence number: a publisher writes to the slot of its claim, a
receive call reads from the slot at its cursor. `Touch.About` says what stays true of such an access
for the rest of the run: the number of a write is committed, or its thread is still admitted to it;
the number of a read is committed, and the cursor of its thread's handle has reached it.

All of this is for the runs in which every handle stays with its thread and no subscriber registers
between the two loads of a capacity check (`CountsApart`). `KeptInv` collects what is known of them,
and `ScanInv` says what a capacity check has learned about the cursors.
-/

set_option autoImplicit false
set_option relaxedAutoImplicit false

namespace AarnnNsys.Bus

open Function Lib

/-! ### What a plain access is about -/

/-- A cell is the descriptor or a payload byte of the slot of a sequence number. -/
def Cell.InSlot (g : Geometry) (sequence : ℕ) (cell : Cell) : Prop :=
  cell = .desc (g.idx sequence) ∨
    ∃ k < g.slotBytes, cell = .payload (g.payloadOffset (g.idx sequence) k)

/-- Slots have no cell in common. -/
theorem Cell.InSlot.idx_eq {g : Geometry} {first second : ℕ} {cell : Cell}
    (hfirst : cell.InSlot g first) (hsecond : cell.InSlot g second) :
    g.idx first = g.idx second := by
  rcases hfirst with rfl | ⟨k, hk, rfl⟩
  · rcases hsecond with heq | ⟨l, hl, heq⟩
    · exact Cell.desc.inj heq
    · cases heq
  · rcases hsecond with heq | ⟨l, hl, heq⟩
    · cases heq
    · exact (cell_offset_injective hk hl (Cell.payload.inj heq)).1

/-- What a plain access that has been made is about: it is to the slot of its number; a write is
about a number that is committed or that its thread is still admitted to; a read is about a
committed number that the cursor of its thread's handle has reached. -/
structure Touch.About (g : Geometry) (s : State) (touch : Touch) : Prop where
  inSlot : ∀ cell, touch.access.cell? = some cell → cell.InSlot g touch.sequence
  written : touch.access.IsWrite → s.mem.Committed g touch.sequence ∨
    ∃ p, touch.thread = .producer p ∧ (s.producers p).admitted = some touch.sequence
  read : touch.access.IsRead →
    s.mem.Committed g touch.sequence ∧ ∃ r id, touch.thread = .reader r ∧
      s.subscribers r = .ready id ∧ touch.sequence ≤ s.mem.subReadSeq id

/-- What is known of every run that keeps handles with their threads and counts who joined. -/
structure KeptInv (g : Geometry) (trace : List Event) (s : State) : Prop where
  commit : CommitInv g trace s
  payload : PayloadInv g trace s
  handles : HandlesInv s
  cursor : CursorInv g s
  bounds : BoundsInv g s

/-- The steps that leave every handle to its own thread, and in which nobody registers between the
two loads of a capacity check. -/
def CountsApart (s : State) (action : Action) : Prop := KeepsHandles s action ∧ CountsAll s action

/-- Such a run keeps the invariants of the bus. -/
theorem keptInv_run {g : Geometry} {slab : ℕ → UInt8} {trace : List Event} {s : State}
    (hrun : Run (busSystem g slab) (fun _ ↦ CountsApart) trace s) : KeptInv g trace s := by
  have hcounts : Run (busSystem g slab)
      (fun _ s action ↦ KeepsHandles s action ∧ CountsJoined g s action) trace s := by
    refine hrun.strengthen fun hprevious hallowed _ ↦ ⟨hallowed.1, ?_⟩
    exact hallowed.2.countsJoined (handlesInv_run (fun _ _ _ hkept ↦ hkept.1) hprevious).owners
  exact ⟨commitInv_run hrun, payloadInv_run hrun,
    handlesInv_run (fun _ _ _ hallowed ↦ hallowed.1) hrun,
    cursorInv_run (fun _ _ _ hallowed ↦ hallowed.1) (fun _ _ _ hallowed ↦ hallowed.2) hcounts,
    boundsInv_run hrun⟩

namespace KeptInv

variable {g : Geometry} {trace : List Event} {s : State}

/-- A receive call has a finished handle, and the number it is about is where its cursor stands. -/
theorem reader_cursor (hkept : KeptInv g trace s) {r seq : ℕ}
    (hseq : (s.readers r).pc.seq? = some seq) :
    s.subscribers r = .ready (s.readers r).id ∧ s.mem.subReadSeq (s.readers r).id = seq :=
  ⟨(hkept.handles.reader_ready r (ReaderPc.ne_idle_of_seq? hseq)).2,
    hkept.cursor.reader_seq r seq hseq⟩

/-- A step of a reader moves no cursor back. -/
theorem forward (hkept : KeptInv g trace s) {r : ℕ} {act : ReaderAct} {m : Mem} {t : Reader}
    {events : List ReaderEvent}
    (hstep : ReaderStep g s.subscribers s.mem (s.readers r) act m t events) (id : ℕ) :
    s.mem.subReadSeq id ≤ m.subReadSeq id := by
  refine hstep.forward ?_ id
  cases act with
  | tryRecv h outLen => trivial
  | next =>
    intro seq hreturning
    refine hkept.cursor.reader_seq r seq ?_
    cases hpc : (s.readers r).pc <;> simp_all [ReaderPc.returning?, ReaderPc.seq?]

end KeptInv

/-- The cursors after a step of a subscribe call: one that starts at `write_seq`, or an old one. -/
theorem SubscriberStep.cursor_cases {s : State} (howners : OwnersInv s) {h : ℕ}
    {act : SubscriberAct} {m : Mem} {pc : SubscriberPc} {events : List SubscriberEvent}
    (hstep : SubscriberStep s.mem (s.subscribers h) act m pc events) {h' id cursor : ℕ}
    (hcursor : (update s.subscribers h pc h').cursor? m = some (id, cursor)) :
    cursor = s.mem.writeSeq ∨ (s.subscribers h').cursor? s.mem = some (id, cursor) := by
  by_cases hh : h' = h
  · subst hh
    rw [update_self] at hcursor
    cases hstep with
    | loadStart other hpc =>
      simp only [SubscriberPc.cursor?, Option.some.injEq, Prod.mk.injEq] at hcursor
      exact .inl hcursor.2.symm
    | storeStart other start hpc =>
      simp only [SubscriberPc.cursor?, Option.some.injEq, Prod.mk.injEq] at hcursor
      obtain ⟨rfl, rfl⟩ := hcursor
      rw [update_self, hpc]
      exact .inr rfl
    | _ => simp [SubscriberPc.cursor?] at hcursor
  · rw [update_of_ne hh,
      SubscriberPc.cursor?_congr (fun other hready ↦ howners.entry_kept hstep hready)] at hcursor
    exact .inr hcursor

/-- A step of a subscribe call moves no entry back. -/
theorem SubscriberStep.entry_le {s : State} (howners : OwnersInv s) {h : ℕ}
    {act : SubscriberAct} {m : Mem} {pc : SubscriberPc} {events : List SubscriberEvent}
    (hstep : SubscriberStep s.mem (s.subscribers h) act m pc events) (id : ℕ) :
    s.mem.subReadSeq id ≤ m.subReadSeq id := by
  cases hstep with
  | storeStart other start hpc =>
    simp only [update_apply]
    split_ifs with hid
    · subst hid
      exact howners.subReadSeq_le (h := h) (by rw [hpc]; rfl)
    · exact le_rfl
  | _ => exact le_rfl

/-- The cursors after a step of a reader are not behind those before. -/
theorem KeptInv.reader_cursor_cases {g : Geometry} {trace : List Event} {s : State}
    (hkept : KeptInv g trace s) {r : ℕ} {act : ReaderAct} {m : Mem} {t : Reader}
    {events : List ReaderEvent}
    (hstep : ReaderStep g s.subscribers s.mem (s.readers r) act m t events) {h id cursor : ℕ}
    (hcursor : (s.subscribers h).cursor? m = some (id, cursor)) :
    ∃ earlier ≤ cursor, (s.subscribers h).cursor? s.mem = some (id, earlier) := by
  cases hpc : s.subscribers h with
  | ready other =>
    simp only [hpc, SubscriberPc.cursor?, Option.some.injEq, Prod.mk.injEq] at hcursor
    obtain ⟨rfl, rfl⟩ := hcursor
    exact ⟨_, hkept.forward hstep other, rfl⟩
  | storeStart other start =>
    simp only [hpc, SubscriberPc.cursor?, Option.some.injEq, Prod.mk.injEq] at hcursor
    obtain ⟨rfl, rfl⟩ := hcursor
    exact ⟨_, le_rfl, rfl⟩
  | _ => simp [hpc, SubscriberPc.cursor?] at hcursor

/-! ### What a capacity check has learned -/

/-- What a capacity check has learned about cursors: its minimum is at most every entry that it has
scanned, and at most the cursor of every subscriber that it has not counted. -/
def ScanInv (s : State) : Prop :=
  ∀ p claim n i minRead, (s.producers p).pc = .scan claim n i minRead →
    (∀ id < i, minRead ≤ s.mem.subReadSeq id) ∧
      ∀ h id cursor, (s.subscribers h).cursor? s.mem = some (id, cursor) → n ≤ id →
        minRead ≤ cursor

/-- Every step that counts all who registered keeps what the checks have learned. -/
theorem ScanInv.step {g : Geometry} {trace : List Event} {s s' : State} {action : Action}
    {events : List Event} (hscan : ScanInv s) (hkept : KeptInv g trace s)
    (hcounts : CountsAll s action) (hstep : BusStep g s action s' events) : ScanInv s' := by
  intro q claim n i minRead hpc
  cases hstep with
  | @producer p act m t reported hthread =>
    obtain ⟨-, hread⟩ := hthread.registry
    have hcursor : ∀ h, (s.subscribers h).cursor? m = (s.subscribers h).cursor? s.mem := fun h ↦
      SubscriberPc.cursor?_congr fun id _ ↦ congrFun hread id
    simp only [State.setProducer, hread, hcursor] at hpc ⊢
    by_cases hqp : q = p
    · subst hqp
      rw [update_self] at hpc
      cases hthread with
      | loadWrite b other k hown =>
        simp only [Producer.goto_pc, ProducerPc.scan.injEq] at hpc
        obtain ⟨rfl, rfl, rfl, rfl⟩ := hpc
        refine ⟨fun _ hlt ↦ absurd hlt (Nat.not_lt_zero _), fun h id cursor hid hlater ↦ ?_⟩
        simp only [CountsAll, hown] at hcounts
        have hlt := hkept.handles.owners.taken.lt h id (SubscriberPc.id?_of_cursor? hid)
        omega
      | scanRead b other k j least hown hlt hmax =>
        simp only [Producer.goto_pc, ProducerPc.scan.injEq] at hpc
        obtain ⟨rfl, rfl, rfl, rfl⟩ := hpc
        obtain ⟨hscanned, huncounted⟩ := hscan q _ _ _ _ hown
        refine ⟨fun id hid ↦ ?_, fun h id cursor hid hlater ↦ ?_⟩
        · rcases Nat.lt_succ_iff_lt_or_eq.mp hid with hbefore | rfl
          · exact (min_le_right _ _).trans (hscanned id hbefore)
          · exact min_le_left _ _
        · exact (min_le_right _ _).trans (huncounted h id cursor hid hlater)
      | _ => cases hpc
    · rw [update_of_ne hqp] at hpc
      exact hscan q claim n i minRead hpc
  | @subscriber h act m pc reported hthread =>
    obtain ⟨hscanned, huncounted⟩ := hscan q claim n i minRead hpc
    have howners := hkept.handles.owners
    refine ⟨fun id hid ↦ (hscanned id hid).trans (hthread.entry_le howners id), ?_⟩
    intro h' id cursor hid hlater
    rcases hthread.cursor_cases howners hid with rfl | hold
    · have hbounded := hkept.commit.bounded q
      simp only [Producer.Bounded, show (s.producers q).pc = _ from hpc] at hbounded
      exact hbounded
    · exact huncounted h' id cursor hold hlater
  | @reader r act m t reported hthread =>
    obtain ⟨hscanned, huncounted⟩ := hscan q claim n i minRead hpc
    refine ⟨fun id hid ↦ (hscanned id hid).trans (hkept.forward hthread id), ?_⟩
    intro h id cursor hid hlater
    obtain ⟨earlier, hle, hold⟩ := hkept.reader_cursor_cases hthread hid
    exact (huncounted h id earlier hold hlater).trans hle

/-- What the capacity checks of a run have learned. -/
theorem scanInv_run {g : Geometry} {slab : ℕ → UInt8} {trace : List Event} {s : State}
    (hrun : Run (busSystem g slab) (fun _ ↦ CountsApart) trace s) : ScanInv s :=
  hrun.invariant (fun _ s ↦ ScanInv s) (fun _ _ _ _ _ hpc ↦ by cases hpc)
    fun hprevious hscan hallowed hstep ↦
      hscan.step (keptInv_run hprevious) hallowed.2 (step_cases hstep)

/-! ### What the accesses so far were about -/

namespace Touch.About

variable {g : Geometry} {s s' : State} {touch : Touch}

/-- What an access was about stays true: nothing committed is taken back, a call stays admitted
until it commits, and no handle or cursor goes back. -/
theorem kept (habout : touch.About g s)
    (hcommitted : ∀ sequence, s.mem.Committed g sequence → s'.mem.Committed g sequence)
    (hadmitted : ∀ p claim, (s.producers p).admitted = some claim →
      (s'.producers p).admitted = some claim ∨ s'.mem.Committed g claim)
    (hready : ∀ h id, s.subscribers h = .ready id → s'.subscribers h = .ready id)
    (hforward : ∀ h id, s.subscribers h = .ready id →
      s.mem.subReadSeq id ≤ s'.mem.subReadSeq id) : touch.About g s' := by
  refine ⟨habout.inSlot, fun hwrite ↦ ?_, fun hisRead ↦ ?_⟩
  · rcases habout.written hwrite with hdone | ⟨p, hthread, hown⟩
    · exact .inl (hcommitted _ hdone)
    · rcases hadmitted p _ hown with hstill | hdone
      · exact .inr ⟨p, hthread, hstill⟩
      · exact .inl hdone
  · obtain ⟨hdone, r, id, hthread, hhandle, hle⟩ := habout.read hisRead
    exact ⟨hcommitted _ hdone, r, id, hthread, hready r id hhandle,
      hle.trans (hforward r id hhandle)⟩

/-- An atomic access is about nothing. -/
theorem of_atomic (hatomic : touch.access.cell? = none) : touch.About g s := by
  have hplain : ∀ cell, touch.access.cell? ≠ some cell := by simp [hatomic]
  refine ⟨fun cell hcell ↦ absurd hcell (hplain cell), ?_, ?_⟩ <;>
  · rintro ⟨cell, hcell⟩
    exact absurd (by rw [hcell]; rfl) (hplain cell)

/-- A write to the slot of the claim that the writing call is admitted to. -/
theorem of_write {p claim : ℕ} {cell : Cell} (hslot : cell.InSlot g claim)
    (hadmitted : (s.producers p).admitted = some claim) :
    Touch.About g s ⟨.producer p, .write cell, claim⟩ := by
  refine ⟨fun other hcell ↦ ?_, fun _ ↦ .inr ⟨p, rfl, hadmitted⟩, ?_⟩
  · rwa [← Option.some.inj hcell]
  · rintro ⟨other, hcell⟩
    cases hcell

/-- A read of the slot that the cursor of the reading handle stands at. -/
theorem of_read {r id seq : ℕ} {cell : Cell} (hslot : cell.InSlot g seq)
    (hcommitted : s.mem.Committed g seq) (hready : s.subscribers r = .ready id)
    (hcursor : s.mem.subReadSeq id = seq) :
    Touch.About g s ⟨.reader r, .read cell, seq⟩ := by
  refine ⟨fun other hcell ↦ ?_, ?_, fun _ ↦ ?_⟩
  · rwa [← Option.some.inj hcell]
  · rintro ⟨other, hother⟩
    cases hother
  · exact ⟨hcommitted, r, id, rfl, hready, hcursor.ge⟩

end Touch.About

/-- The plain access of a producer step is a write to the slot of the claim it is admitted to. -/
theorem producerAccesses_cases {g : Geometry} {m : Mem} {t : Producer} (hsized : t.Sized g)
    {act : ProducerAct} {access : Access Location Cell × ℕ}
    (hmem : access ∈ producerAccesses g act m t) :
    access.1.cell? = none ∨ ∃ cell, access = (.write cell, access.2) ∧
      cell.InSlot g access.2 ∧ t.admitted = some access.2 := by
  cases act with
  | publish payload | tryPublish payload =>
    simp only [producerAccesses, List.mem_ite_nil_left, List.mem_singleton] at hmem
    rw [hmem.2]
    exact .inl rfl
  | next b =>
    simp only [producerAccesses, Producer.accesses] at hmem
    cases hpc : t.pc <;> simp only [hpc, List.mem_ite_nil_right, List.mem_singleton,
      List.not_mem_nil] at hmem
    case copy claim k =>
      rw [hmem.2]
      have hk : k < g.slotBytes := hmem.1.trans_le (hsized (by simp [hpc]))
      exact .inr ⟨_, rfl, .inr ⟨k, hk, rfl⟩, by rw [Producer.admitted, hpc]⟩
    case storeDesc claim =>
      rw [hmem]
      exact .inr ⟨_, rfl, .inl rfl, by rw [Producer.admitted, hpc]⟩
    case scan claim n i minRead =>
      rw [hmem.2]
      exact .inl rfl
    case casClaim claim =>
      split_ifs at hmem <;> rw [List.mem_singleton.mp hmem] <;> exact .inl rfl
    case advanceCas w =>
      split_ifs at hmem <;> rw [List.mem_singleton.mp hmem] <;> exact .inl rfl
    all_goals
      rw [hmem]
      exact .inl rfl

/-- The plain access of a receive call is a read of the slot of the number it is reading. -/
theorem readerAccesses_cases {g : Geometry} {act : ReaderAct} {handles : ℕ → SubscriberPc}
    {t : Reader} (hlen : ∀ seq len out, t.pc = .copy seq len out → len ≤ g.slotBytes)
    {access : Access Location Cell × ℕ} (hmem : access ∈ readerAccesses g act handles t) :
    access.1.cell? = none ∨ ∃ cell, access = (.read cell, access.2) ∧
      cell.InSlot g access.2 ∧ t.pc.reading? = some access.2 := by
  cases act with
  | tryRecv h outLen =>
    simp only [readerAccesses] at hmem
    cases hpc : handles h <;> simp only [hpc, List.mem_singleton, List.not_mem_nil] at hmem
    rw [hmem]
    exact .inl rfl
  | next =>
    simp only [readerAccesses, Reader.accesses] at hmem
    cases hpc : t.pc <;> simp only [hpc, List.mem_ite_nil_right, List.mem_singleton,
      List.not_mem_nil] at hmem
    case loadLen seq =>
      rw [hmem]
      exact .inr ⟨_, rfl, .inl rfl, rfl⟩
    case copy seq len out =>
      rw [hmem.2]
      exact .inr ⟨_, rfl, .inr ⟨out.length, hmem.1.trans_le (hlen seq len out hpc), rfl⟩, rfl⟩
    case loadSeq seq | storeSeq seq out =>
      rw [hmem]
      exact .inl rfl

/-- The accesses of a step are about what they should be. -/
theorem about_touches {g : Geometry} {trace : List Event} {s : State} {action : Action}
    (hkept : KeptInv g trace s) {touch : Touch} (hmem : touch ∈ touches g s action) :
    touch.About g s := by
  cases action with
  | producer p act =>
    obtain ⟨access, haccess, rfl⟩ := List.mem_map.mp hmem
    rcases producerAccesses_cases (hkept.payload.sized p) haccess with
      hatomic | ⟨cell, heq, hslot, hadmitted⟩
    · exact .of_atomic hatomic
    · rw [heq]
      exact .of_write hslot hadmitted
  | subscriber h act =>
    obtain ⟨access, haccess, rfl⟩ := List.mem_map.mp hmem
    refine .of_atomic ?_
    unfold subscriberAccesses at haccess
    split at haccess <;> simp_all [Access.cell?, Touch.by]
  | reader r act =>
    obtain ⟨access, haccess, rfl⟩ := List.mem_map.mp hmem
    rcases readerAccesses_cases
      (fun seq len out hpc ↦ (hkept.bounds.len_le r seq len out hpc).2.2) haccess with
      hatomic | ⟨cell, heq, hslot, hreading⟩
    · exact .of_atomic hatomic
    · rw [heq]
      obtain ⟨hready, hcursor⟩ := hkept.reader_cursor (ReaderPc.seq?_of_reading? hreading)
      exact .of_read hslot (hkept.cursor.reading r _ hreading) hready hcursor

/-- Every step keeps what the accesses so far were about. -/
theorem Touch.About.step {g : Geometry} {trace : List Event} {s s' : State} {action : Action}
    {events : List Event} {touch : Touch} (habout : touch.About g s) (hkept : KeptInv g trace s)
    (hstep : BusStep g s action s' events) : touch.About g s' := by
  cases hstep with
  | @producer p act m t reported hthread =>
    obtain ⟨-, hread⟩ := hthread.registry
    have hgrows := (hthread.ringStep (hkept.commit.bounded p)).grows hkept.commit
    refine habout.kept (fun _ ↦ hgrows.committed) (fun q claim hadmitted ↦ ?_) (fun _ _ ↦ id)
      fun _ id _ ↦ (congrFun hread id).ge
    by_cases hqp : q = p
    · subst hqp
      simp only [State.setProducer, update_self]
      refine (hthread.admitted_kept hadmitted).imp_right fun hcommit ↦ ?_
      simp [Mem.Committed, hcommit.2]
    · simp only [State.setProducer, update_of_ne hqp]
      exact .inl hadmitted
  | @subscriber h act m pc reported hthread =>
    have hnot : ∀ id, s.subscribers h ≠ .ready id := by
      intro id hready
      cases hthread <;> simp_all
    refine habout.kept (fun sequence ↦ ?_) (fun _ _ ↦ .inl) (fun h' id hready ↦ ?_)
      fun _ id _ ↦ hthread.entry_le hkept.handles.owners id
    · simp only [Mem.Committed, State.setSubscriber, hthread.words.2.2, imp_self]
    · have hne : h' ≠ h := by
        rintro rfl
        exact hnot id hready
      simp only [State.setSubscriber, update_of_ne hne, hready]
  | @reader r act m t reported hthread =>
    refine habout.kept (fun sequence ↦ ?_) (fun _ _ ↦ .inl) (fun _ _ ↦ id)
      fun _ id _ ↦ hkept.forward hthread id
    simp only [Mem.Committed, State.setReader, hthread.words.2.2, imp_self]

end AarnnNsys.Bus
