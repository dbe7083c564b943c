import AarnnNsys.Lib.Fairness
import AarnnNsys.Bus.Shared
import AarnnNsys.Bus.Registration
import Mathlib.Data.List.Infix

/-!
# Every message is delivered

A `publish` call reserves its number before it knows of space, so that the calls are admitted in the
order of their numbers. In a `Behaviour` of the bus that treats its threads fairly (`Fair`) nobody
waits for ever: a producer call in flight takes steps, a subscribe call in flight does, and the
thread of a subscriber with an unread message calls `try_recv`, with room for a whole slot.

The argument is by induction on the sequence number. Once all numbers below `c` are committed,
`write_seq` gets to `c` (`writeSeq_passes`), every cursor does (`reads`), and no more subscribers
join, so that from some instant on nothing is behind `c` (`Clear`). From then on the call that owns
`c` fails at most the check it has under way, and commits (`commits_owned`). `eventually_delivered`
is the result.
-/

set_option autoImplicit false
set_option relaxedAutoImplicit false

namespace AarnnNsys.Bus

open Function Lib

/-! ### Fair behaviours -/

/-- A producer call that can go on. -/
def Producer.Working (t : Producer) : Prop := t.pc ≠ .idle ∧ ∀ claim, t.pc ≠ .panicked claim

/-- A subscribe call in flight. -/
def SubscriberPc.Working : SubscriberPc → Prop
  | .loadStart _ | .storeStart _ _ => True
  | _ => False

/-- The subscriber of handle `h` has an unread message. -/
def State.HasUnread (g : Geometry) (s : State) (h : ℕ) : Prop :=
  ∃ id, s.subscribers h = .ready id ∧ s.mem.Committed g (s.mem.subReadSeq id)

/-- Every thread with something to do takes a step. -/
structure Fair {g : Geometry} {slab : ℕ → UInt8} (b : Behaviour (busSystem g slab)) : Prop where
  producers : ∀ p, b.WeaklyFair (fun s ↦ (s.producers p).Working)
    fun action ↦ ∃ act, action = .producer p act
  subscribers : ∀ h, b.WeaklyFair (fun s ↦ (s.subscribers h).Working)
    fun action ↦ ∃ act, action = .subscriber h act
  readers : ∀ h, b.WeaklyFair (fun s ↦ s.HasUnread g h) fun action ↦ ∃ act, action = .reader h act

/-- A receive call has room for a whole slot. -/
def Roomy (g : Geometry) : Action → Prop
  | .reader _ (.tryRecv _ outLen) => g.slotBytes ≤ outLen
  | _ => True

instance Roomy.decidable (g : Geometry) : ∀ action : Action, Decidable (Roomy g action)
  | .reader _ (.tryRecv _ outLen) => inferInstanceAs (Decidable (g.slotBytes ≤ outLen))
  | .reader _ .next => isTrue trivial
  | .producer _ _ => isTrue trivial
  | .subscriber _ _ => isTrue trivial

/-- The steps of a bus that serves its subscribers, with room in every receive call. -/
def Serves (g : Geometry) (s : State) (action : Action) : Prop :=
  JoinsSafely g s action ∧ Roomy g action

/-- What is known of the runs of such a bus. -/
structure ServesInv (g : Geometry) (trace : List Event) (s : State) : Prop where
  commit : CommitInv g trace s
  payload : PayloadInv g trace s
  handles : HandlesInv s
  cursor : CursorInv g s
  registration : RegistrationInv trace s
  advance : AdvanceInv g s
  counted : ∀ p n, (s.producers p).counted? = some n → n ≤ s.mem.nSubs
  roomy : ∀ r, (s.readers r).pc ≠ .idle → g.slotBytes ≤ (s.readers r).outLen

/-- A capacity check has counted no more subscribers than there are now. -/
theorem counted_run {g : Geometry} {slab : ℕ → UInt8} {guard : Guard State Action Event}
    (hfits : ∀ trace s action, guard trace s action → CountFits s action) {trace : List Event}
    {s : State} (hrun : Run (busSystem g slab) guard trace s) :
    ∀ p n, (s.producers p).counted? = some n → n ≤ s.mem.nSubs := by
  refine hrun.invariant (fun _ s ↦ ∀ p n, (s.producers p).counted? = some n → n ≤ s.mem.nSubs)
    (fun _ _ hcounted ↦ by cases hcounted) ?_
  intro trace s action s' events _ hinv hallowed hstep p n hcounted
  have hbus : BusStep g s action s' events := step_cases hstep
  have hgrown := hbus.nSubs_le (hfits _ _ _ hallowed)
  by_cases hown : ∃ act, action = .producer p act
  · obtain ⟨act, rfl⟩ := hown
    cases hbus with
    | producer hthread =>
      simp only [State.setProducer, update_self] at hcounted hgrown ⊢
      exact hthread.counted (· ≤ _) hgrown (fun n hn ↦ (hinv p n hn).trans hgrown) n hcounted
  · rw [hbus.producers_eq hown] at hcounted
    exact (hinv p n hcounted).trans hgrown

/-- A receive call in flight has room for a whole slot. -/
theorem roomy_run {g : Geometry} {slab : ℕ → UInt8} {guard : Guard State Action Event}
    (hroomy : ∀ trace s action, guard trace s action → Roomy g action) {trace : List Event}
    {s : State} (hrun : Run (busSystem g slab) guard trace s) :
    ∀ r, (s.readers r).pc ≠ .idle → g.slotBytes ≤ (s.readers r).outLen := by
  refine hrun.invariant
    (fun _ s ↦ ∀ r, (s.readers r).pc ≠ .idle → g.slotBytes ≤ (s.readers r).outLen)
    (fun _ hactive ↦ absurd rfl hactive) ?_
  intro trace s action s' events _ hinv hallowed hstep r hactive
  have hbus : BusStep g s action s' events := step_cases hstep
  by_cases hown : ∃ act, action = .reader r act
  · obtain ⟨act, rfl⟩ := hown
    cases hbus with
    | reader hthread =>
      simp only [State.setReader, update_self] at hactive ⊢
      cases hthread with
      | tryRecv h id outLen hpc hready => exact hroomy _ _ _ hallowed
      | empty seq hpc | tooLarge seq hpc | storeSeq seq out hpc => exact absurd rfl hactive
      | _ => exact hinv r (by simp [*])
  · rw [hbus.readers_eq hown] at hactive ⊢
    exact hinv r hactive

/-- What is known of a run of a bus that serves its subscribers. -/
theorem servesInv_run {g : Geometry} {slab : ℕ → UInt8} {trace : List Event} {s : State}
    (hrun : Run (busSystem g slab) (fun _ ↦ Serves g) trace s) : ServesInv g trace s where
  commit := commitInv_run hrun
  payload := payloadInv_run hrun
  handles := handlesInv_run (fun _ _ _ hallowed ↦ hallowed.1.1.keepsHandles) hrun
  cursor := cursorInv_run (fun _ _ _ hallowed ↦ hallowed.1.1.keepsHandles)
    (fun _ _ _ hallowed ↦ hallowed.1.2.2) hrun
  registration := registrationInv_run (fun _ _ _ hallowed ↦ hallowed.1.1.findsEntry) hrun
  advance := advanceInv_run hrun
  counted := counted_run (fun _ _ _ hallowed ↦ hallowed.1.1.countFits) hrun
  roomy := roomy_run (fun _ _ _ hallowed ↦ hallowed.2) hrun

/-- A call that goes through its own handle stores a current cursor. -/
theorem CursorInv.storesCurrent {g : Geometry} {s : State} (hinv : CursorInv g s)
    (action : Action) : StoresCurrent s action := by
  unfold StoresCurrent
  split
  · rename_i r
    intro seq hreturning
    refine hinv.reader_seq r seq ?_
    cases hpc : (s.readers r).pc <;>
      simp_all [ReaderPc.returning?, ReaderPc.seq?]
  · trivial

section Stable

variable {g : Geometry} {slab : ℕ → UInt8} {b : Behaviour (busSystem g slab)}

/-- What is committed stays so. -/
theorem committed_stable (hallowed : b.Allowed fun _ ↦ Serves g) {n m sequence : ℕ}
    (hcommitted : (b.state n).mem.Committed g sequence) (hle : n ≤ m) :
    (b.state m).mem.Committed g sequence :=
  Behaviour.stable hallowed (fun s ↦ s.mem.Committed g sequence)
    (fun hrun _ hstep hnow ↦ ((step_cases hstep).grows (commitInv_run hrun)).committed hnow)
    hcommitted hle

/-- A mark that `write_seq` has passed stays passed. -/
theorem writeSeq_stable (hallowed : b.Allowed fun _ ↦ Serves g) {n m c : ℕ}
    (hpassed : c ≤ (b.state n).mem.writeSeq) (hle : n ≤ m) : c ≤ (b.state m).mem.writeSeq :=
  Behaviour.stable hallowed (fun s ↦ c ≤ s.mem.writeSeq)
    (fun hrun _ hstep hnow ↦ hnow.trans (writeSeq_mono hrun hstep)) hpassed hle

/-- A handle stays finished, and a mark that its cursor has passed stays passed. -/
theorem cursor_stable (hallowed : b.Allowed fun _ ↦ Serves g) {n m h id c : ℕ}
    (hready : (b.state n).subscribers h = .ready id) (hpassed : c ≤ (b.state n).mem.subReadSeq id)
    (hle : n ≤ m) : (b.state m).subscribers h = .ready id ∧ c ≤ (b.state m).mem.subReadSeq id :=
  Behaviour.stable hallowed
    (fun s ↦ s.subscribers h = .ready id ∧ c ≤ s.mem.subReadSeq id)
    (fun hrun _ hstep hnow ↦ by
      have hinv := servesInv_run hrun
      exact ⟨(step_cases hstep).ready_kept hnow.1, hnow.2.trans ((step_cases hstep).forward
        hinv.handles.owners (hinv.cursor.storesCurrent _) hnow.1)⟩)
    ⟨hready, hpassed⟩ hle

end Stable

/-! ### The write sequence -/

/-- The steps that a call bound to advance has left until it does. -/
def Producer.advanceRank (t : Producer) : ℕ :=
  match t.pc with
  | .advanceLoad => 3
  | .advanceSlot _ => 2
  | _ => 1

/-- A call bound to advance over a committed `write_seq` gets closer with every step of its own. -/
theorem ProducerStep.advances_closer {g : Geometry} {m m' : Mem} {t t' : Producer}
    {act : ProducerAct} {events : List ProducerEvent} (hstep : ProducerStep g m t act m' t' events)
    (hbound : t.AdvancingTo m.writeSeq)
    (hstamp : m.slotSeq (g.idx m.writeSeq) = m.writeSeq + 1) :
    m.writeSeq < m'.writeSeq ∨ m' = m ∧ t'.AdvancingTo m.writeSeq ∧
      t'.advanceRank < t.advanceRank := by
  cases hstep with
  | advanceLoad b hpc =>
    exact Or.inr ⟨rfl, Or.inr (Or.inl rfl), by simp [Producer.advanceRank, hpc]⟩
  | advanceSlot b w hpc hcommitted =>
    obtain rfl : w = m.writeSeq := by simpa [Producer.AdvancingTo, hpc] using hbound
    exact Or.inr ⟨rfl, Or.inr (Or.inr rfl), by simp [Producer.advanceRank, hpc]⟩
  | advanceStop b w hpc huncommitted =>
    obtain rfl : w = m.writeSeq := by simpa [Producer.AdvancingTo, hpc] using hbound
    exact absurd hstamp huncommitted
  | advanceCas b w hpc heq =>
    subst heq
    exact Or.inl (Nat.lt_succ_self _)
  | advanceLost b w hpc hne =>
    obtain rfl : w = m.writeSeq := by simpa [Producer.AdvancingTo, hpc] using hbound
    exact absurd rfl hne
  | _ => simp [Producer.AdvancingTo, *] at hbound

section Live

variable {g : Geometry} {slab : ℕ → UInt8} {b : Behaviour (busSystem g slab)}

/-- A committed `write_seq` is passed. -/
theorem writeSeq_passes (hallowed : b.Allowed fun _ ↦ Serves g) (hfair : Fair b) {n : ℕ}
    (hcommitted : (b.state n).mem.Committed g (b.state n).mem.writeSeq) :
    ∃ m ≥ n, (b.state n).mem.writeSeq < (b.state m).mem.writeSeq := by
  obtain ⟨p, hbound⟩ := (servesInv_run (Behaviour.run hallowed n)).advance hcommitted
  generalize hw : (b.state n).mem.writeSeq = w at hcommitted hbound ⊢
  refine Behaviour.eventually_of_rank hallowed (hfair.producers p) (fun _ ↦ True)
    (fun s ↦ s.mem.writeSeq = w ∧ s.mem.Committed g w ∧ (s.producers p).AdvancingTo w)
    (fun s ↦ w < s.mem.writeSeq) (fun s ↦ (s.producers p).advanceRank) ?_ ?_ (fun _ _ ↦ trivial)
    ⟨hw, hcommitted, hbound⟩
  · rintro s ⟨-, -, hpc | hpc | hpc⟩ <;> exact ⟨by simp [hpc], fun claim ↦ by simp [hpc]⟩
  · rintro trace s action s' events hrun - hstep - ⟨rfl, hcommitted, hbound⟩
    have hcommit := commitInv_run hrun
    have hgrows := (step_cases hstep).grows hcommit
    rcases hgrows.writeSeq_le.lt_or_eq with hlt | heq
    · exact Or.inl hlt
    have hkept : s'.mem.writeSeq = s.mem.writeSeq ∧ s'.mem.Committed g s.mem.writeSeq :=
      ⟨heq.symm, hgrows.committed hcommitted⟩
    cases step_cases hstep with
    | @producer q act m t own hthread =>
      by_cases hq : q = p
      · subst hq
        rcases hthread.advances_closer hbound (hcommit.stamp_at_write hcommitted) with
          hlt | ⟨-, hbound', hrank⟩
        · exact Or.inl hlt
        · simp only [State.setProducer, update_self]
          exact Or.inr ⟨⟨hkept.1, hkept.2, hbound'⟩, Or.inl hrank⟩
      · have hsame : (s.setProducer q m t).producers p = s.producers p :=
          update_of_ne (Ne.symm hq) _ _
        exact Or.inr ⟨⟨hkept.1, hkept.2, by rwa [hsame]⟩, Or.inr ⟨by rw [hsame], by simp [hq]⟩⟩
    | subscriber hthread =>
      exact Or.inr ⟨⟨hkept.1, hkept.2, hbound⟩, Or.inr ⟨rfl, by simp⟩⟩
    | reader hthread =>
      exact Or.inr ⟨⟨hkept.1, hkept.2, hbound⟩, Or.inr ⟨rfl, by simp⟩⟩

/-- `write_seq` gets to a number that everything is committed below. -/
theorem writeSeq_reaches (hallowed : b.Allowed fun _ ↦ Serves g) (hfair : Fair b) {n c : ℕ}
    (hbelow : ∀ sequence < c, (b.state n).mem.Committed g sequence) :
    ∃ m ≥ n, c ≤ (b.state m).mem.writeSeq := by
  suffices hsteps : ∀ k ≤ c, ∃ m ≥ n, k ≤ (b.state m).mem.writeSeq from hsteps c le_rfl
  intro k hk
  induction k with
  | zero => exact ⟨n, le_rfl, Nat.zero_le _⟩
  | succ k ih =>
    obtain ⟨m, hm, hle⟩ := ih (by omega)
    rcases hle.lt_or_eq with hlt | heq
    · exact ⟨m, hm, hlt⟩
    · have hcommitted := committed_stable hallowed (hbelow k (by omega)) hm
      rw [heq] at hcommitted
      obtain ⟨m', hm', hlt⟩ := writeSeq_passes hallowed hfair hcommitted
      exact ⟨m', hm.trans hm', by omega⟩

end Live

/-! ### The cursors -/

/-- The steps that the thread of a subscriber with an unread message has left until it has received
it. -/
def Reader.recvRank (g : Geometry) (t : Reader) : ℕ :=
  match t.pc with
  | .idle => g.slotBytes + 6
  | .loadSeq _ => g.slotBytes + 5
  | .loadLen _ => g.slotBytes + 4
  | .copy _ len out => len - out.length + 2
  | .storeSeq _ _ => 1

/-- Handle `h` has an unread message with number `k`. -/
structure State.Unread (g : Geometry) (s : State) (h id k : ℕ) : Prop where
  ready : s.subscribers h = .ready id
  cursor_eq : s.mem.subReadSeq id = k
  committed : s.mem.Committed g k

/-- The thread of a subscriber with an unread message gets closer to it with every step. -/
theorem ReaderStep.reads {g : Geometry} {trace : List Event} {s : State} {h id k : ℕ}
    {act : ReaderAct} {m : Mem} {t : Reader} {events : List ReaderEvent}
    (hinv : ServesInv g trace s) (hunread : s.Unread g h id k)
    (hserves : Serves g s (.reader h act))
    (hstep : ReaderStep g s.subscribers s.mem (s.readers h) act m t events) :
    k < m.subReadSeq id ∨ m = s.mem ∧ t.recvRank g < (s.readers h).recvRank g := by
  obtain ⟨hready, hcursor, hcommitted⟩ := hunread
  have hentry : (s.subscribers h).cursor? s.mem = some (id, k) := by
    rw [hready, ← hcursor]
    rfl
  -- a call in flight goes through this handle and has loaded this cursor
  have hcall : ∀ seq, (s.readers h).pc.seq? = some seq → (s.readers h).id = id ∧ seq = k := by
    intro seq hseq
    have hown := (hinv.handles.reader_ready h (ReaderPc.ne_idle_of_seq? hseq)).2
    rw [hready] at hown
    obtain rfl : id = (s.readers h).id := by simpa using hown
    exact ⟨rfl, (hinv.cursor.reader_seq h seq hseq).symm.trans hcursor⟩
  obtain ⟨hstamp, -, claim, -, hsize, -, hlen⟩ :=
    committed_stored hinv.commit hinv.payload hinv.cursor.safe hentry le_rfl hcommitted
  cases hstep with
  | tryRecv h' id' outLen hpc hready' =>
    exact Or.inr ⟨rfl, by simp [Reader.recvRank, hpc]⟩
  | loadSeq seq hpc hfound => exact Or.inr ⟨rfl, by simp [Reader.recvRank, hpc]⟩
  | empty seq hpc hother =>
    obtain ⟨-, rfl⟩ := hcall seq (by rw [hpc]; rfl)
    exact absurd hstamp hother
  | loadLen seq hpc hle =>
    obtain ⟨-, rfl⟩ := hcall seq (by rw [hpc]; rfl)
    refine Or.inr ⟨rfl, ?_⟩
    have := Nat.mod_le claim.payload.length u32Size
    simp only [Reader.recvRank, Reader.goto_pc, hpc, List.length_nil, hlen]
    omega
  | tooLarge seq hpc hlt =>
    obtain ⟨-, rfl⟩ := hcall seq (by rw [hpc]; rfl)
    have hroom := hinv.roomy h (by rw [hpc]; simp)
    have := Nat.mod_le claim.payload.length u32Size
    omega
  | copyByte seq len out hpc hlt =>
    refine Or.inr ⟨rfl, ?_⟩
    simp only [Reader.recvRank, Reader.goto_pc, hpc, List.length_append, List.length_singleton]
    omega
  | copyDone seq len out hpc hle =>
    refine Or.inr ⟨rfl, ?_⟩
    simp only [Reader.recvRank, Reader.goto_pc, hpc]
    omega
  | storeSeq seq out hpc =>
    obtain ⟨hown, rfl⟩ := hcall seq (by rw [hpc]; rfl)
    refine Or.inl ?_
    simp only [hown, update_self]
    exact Nat.lt_succ_self _

section Live

variable {g : Geometry} {slab : ℕ → UInt8} {b : Behaviour (busSystem g slab)}

/-- An unread message is received. -/
theorem reads (hallowed : b.Allowed fun _ ↦ Serves g) (hfair : Fair b) {n h id k : ℕ}
    (hunread : (b.state n).Unread g h id k) : ∃ m ≥ n, k < (b.state m).mem.subReadSeq id := by
  refine Behaviour.eventually_of_rank hallowed (hfair.readers h) (fun _ ↦ True)
    (fun s ↦ s.Unread g h id k) (fun s ↦ k < s.mem.subReadSeq id)
    (fun s ↦ (s.readers h).recvRank g) ?_ ?_ (fun _ _ ↦ trivial) hunread
  · rintro s ⟨hready, hcursor, hcommitted⟩
    exact ⟨id, hready, by rwa [hcursor]⟩
  · intro trace s action s' events hrun hserves hstep _ hunread
    have hinv := servesInv_run hrun
    have hbus : BusStep g s action s' events := step_cases hstep
    have hforward := hbus.forward hinv.handles.owners (hinv.cursor.storesCurrent _) hunread.ready
    rcases (hunread.cursor_eq.symm.trans_le hforward).lt_or_eq with hlt | heq
    · exact Or.inl hlt
    have hkept : s'.Unread g h id k := ⟨hbus.ready_kept hunread.ready, heq.symm,
      (hbus.grows hinv.commit).committed hunread.committed⟩
    by_cases hown : ∃ act, action = .reader h act
    · obtain ⟨act, rfl⟩ := hown
      cases hbus with
      | reader hthread =>
        rcases hthread.reads hinv hunread hserves with hlt | ⟨-, hrank⟩
        · exact Or.inl hlt
        · refine Or.inr ⟨hkept, Or.inl ?_⟩
          simpa only [State.setReader, update_self] using hrank
    · exact Or.inr ⟨hkept, Or.inr ⟨by rw [hbus.readers_eq hown], hown⟩⟩

/-- The cursor of a subscriber gets to a number that everything is committed below. -/
theorem cursor_reaches (hallowed : b.Allowed fun _ ↦ Serves g) (hfair : Fair b) {n h id c : ℕ}
    (hready : (b.state n).subscribers h = .ready id)
    (hbelow : ∀ sequence < c, (b.state n).mem.Committed g sequence) :
    ∃ m ≥ n, c ≤ (b.state m).mem.subReadSeq id := by
  suffices hsteps : ∀ k ≤ c, ∃ m ≥ n, k ≤ (b.state m).mem.subReadSeq id from hsteps c le_rfl
  intro k hk
  induction k with
  | zero => exact ⟨n, le_rfl, Nat.zero_le _⟩
  | succ k ih =>
    obtain ⟨m, hm, hle⟩ := ih (by omega)
    rcases hle.lt_or_eq with hlt | heq
    · exact ⟨m, hm, hlt⟩
    · have hready' := (cursor_stable hallowed hready (Nat.zero_le _) hm).1
      have hcommitted := committed_stable hallowed (hbelow k (by omega)) hm
      obtain ⟨m', hm', hlt⟩ := reads hallowed hfair ⟨hready', heq.symm, hcommitted⟩
      exact ⟨m', hm.trans hm', hlt⟩

/-- The operations that a subscribe call has left. -/
def SubscriberPc.subscribeRank : SubscriberPc → ℕ
  | .loadStart _ => 2
  | .storeStart _ _ => 1
  | _ => 0

/-- A registered subscribe call returns its subscriber. -/
theorem subscribes (hallowed : b.Allowed fun _ ↦ Serves g) (hfair : Fair b) {n h id : ℕ}
    (hid : ((b.state n).subscribers h).id? = some id) :
    ∃ m ≥ n, (b.state m).subscribers h = .ready id := by
  by_cases hready : (b.state n).subscribers h = .ready id
  · exact ⟨n, le_rfl, hready⟩
  have hin : ∀ pc : SubscriberPc, pc.id? = some id → pc ≠ .ready id → pc.Working := by
    intro pc hpc hne
    cases pc <;> simp_all [SubscriberPc.id?, SubscriberPc.Working]
  refine Behaviour.eventually_of_rank hallowed (hfair.subscribers h) (fun _ ↦ True)
    (fun s ↦ (s.subscribers h).id? = some id ∧ s.subscribers h ≠ .ready id)
    (fun s ↦ s.subscribers h = .ready id) (fun s ↦ (s.subscribers h).subscribeRank)
    (fun s hwork ↦ hin _ hwork.1 hwork.2) ?_ (fun _ _ ↦ trivial) ⟨hid, hready⟩
  rintro trace s action s' events hrun hserves hstep - ⟨hid, hunready⟩
  have hbus : BusStep g s action s' events := step_cases hstep
  by_cases hdone : s'.subscribers h = .ready id
  · exact Or.inl hdone
  refine Or.inr ⟨⟨hbus.id_kept hid, hdone⟩, ?_⟩
  by_cases hown : ∃ act, action = .subscriber h act
  · obtain ⟨act, rfl⟩ := hown
    refine Or.inl ?_
    cases hbus with
    | subscriber hthread =>
      simp only [State.setSubscriber, update_self] at hdone ⊢
      cases hthread with
      | loadStart other hpc =>
        rw [hpc]
        exact Nat.lt_succ_self _
      | storeStart other start hpc =>
        rw [hpc]
        exact Nat.lt_succ_self _
      | reject hpc | register hpc =>
        rw [hpc] at hid
        cases hid
  · exact Or.inr ⟨by rw [hbus.subscribers_eq hown], hown⟩

/-! ### The producers -/

/-- Nothing is behind number `c`: `write_seq` has got to it, and so have all entries that a capacity
check may scan. -/
structure Clear (c : ℕ) (s : State) : Prop where
  write : c ≤ s.mem.writeSeq
  entry : ∀ id < s.mem.nSubs, c ≤ s.mem.subReadSeq id

/-- Once everything below a number is committed, nothing is behind it from some instant on. -/
theorem clear_of_committed (hallowed : b.Allowed fun _ ↦ Serves g) (hfair : Fair b) {n c : ℕ}
    (hbelow : ∀ sequence < c, (b.state n).mem.Committed g sequence) :
    ∃ k ≥ n, ∀ m ≥ k, Clear c (b.state m) := by
  have hinv := fun m ↦ servesInv_run (Behaviour.run hallowed m)
  obtain ⟨first, hfirst, hwrite⟩ := writeSeq_reaches hallowed hfair hbelow
  -- the number of subscribers is bounded, so that nobody joins any more after some instant
  have hmono : Monotone fun m ↦ (b.state m).mem.nSubs := by
    refine monotone_nat_of_le_succ fun m ↦ ?_
    exact Behaviour.stable hallowed (fun s ↦ (b.state m).mem.nSubs ≤ s.mem.nSubs)
      (fun _ hserves hstep hnow ↦ hnow.trans
        ((step_cases hstep).nSubs_le hserves.1.1.countFits)) le_rfl (Nat.le_succ m)
  obtain ⟨last, hlast, hconstant⟩ :=
    exists_forall_ge_eq hmono (fun m ↦ (hinv m).registration.ids.nSubs_le) first
  obtain ⟨k, hk, hentries⟩ := exists_forall_ge (fun id m ↦
    c ≤ (b.state m).mem.subReadSeq id) last (b.state last).mem.nSubs fun id hid ↦ by
      obtain ⟨h, htaken⟩ := (hinv last).registration.ids.id_covers id hid
      obtain ⟨joined, hjoined, hready⟩ := subscribes hallowed hfair htaken
      obtain ⟨there, hthere, hreached⟩ := cursor_reaches hallowed hfair hready
        fun sequence hlt ↦ committed_stable hallowed (hbelow sequence hlt) (by omega)
      have hready' := (cursor_stable hallowed hready (Nat.zero_le _) hthere).1
      exact ⟨there, by omega, fun m hm ↦ (cursor_stable hallowed hready' hreached hm).2⟩
  refine ⟨k, by omega, fun m hm ↦ ⟨writeSeq_stable hallowed hwrite (by omega), fun id hid ↦ ?_⟩⟩
  exact hentries m hm id (by rwa [hconstant m (by omega)] at hid)

end Live

/-- The steps that a call which owns number `c` has left until its commit store, once nothing is
behind `c`: it fails at most the check it has under way. -/
def Producer.commitRank (c : ℕ) (t : Producer) : ℕ :=
  match t.pc with
  | .storeSeq _ => 1
  | .storeDesc _ => 2
  | .copy _ k => 3 + (t.payload.length - k)
  | .scan _ n i minRead =>
    if c ≤ minRead then t.payload.length + 4 + (n - i)
    else t.payload.length + 7 + maxSubscribers + (n - i)
  | .loadWrite _ n => t.payload.length + 5 + n
  | _ => t.payload.length + 6 + maxSubscribers

/-- A call that owns number `c` gets closer to its commit store with every step, once nothing is
behind `c`. Assumes: what it has counted is registered. -/
theorem ProducerStep.commits {g : Geometry} {s : State} {c : ℕ} {m : Mem} {t t' : Producer}
    {act : ProducerAct} {events : List ProducerEvent}
    (hstep : ProducerStep g s.mem t act m t' events) (howned : t.owned = some c)
    (hclear : Clear c s) (hcounted : ∀ n, t.counted? = some n → n ≤ s.mem.nSubs)
    (hmax : s.mem.nSubs ≤ maxSubscribers) :
    m.Committed g c ∨ t'.owned = some c ∧ t'.commitRank c < t.commitRank c := by
  have hcap := g.descCapacity_pos
  have hown : ∀ {claim}, t.owned = some claim → claim = c := fun hclaim ↦
    Option.some.inj (hclaim.symm.trans howned)
  cases hstep with
  | loadSubs b claim hpc =>
    refine Or.inr ⟨by simpa [Producer.owned, hpc] using howned, ?_⟩
    simp only [Producer.commitRank, Producer.goto_pc, Producer.goto_payload, hpc]
    omega
  | loadWrite b claim n hpc =>
    refine Or.inr ⟨by simpa [Producer.owned, hpc] using howned, ?_⟩
    simp only [Producer.commitRank, Producer.goto_pc, Producer.goto_payload, hpc,
      if_pos hclear.write]
    omega
  | scanRead b claim n i minRead hpc hi hmaxi =>
    refine Or.inr ⟨by simpa [Producer.owned, hpc] using howned, ?_⟩
    have hn := hcounted n (by simp [Producer.counted?, hpc])
    have hentry := hclear.entry i (by omega)
    simp only [Producer.commitRank, Producer.goto_pc, Producer.goto_payload, hpc]
    split_ifs <;> omega
  | scanPanic b claim n i minRead hpc hi hmaxi =>
    have hn := hcounted n (by simp [Producer.counted?, hpc])
    omega
  | pass b claim n i minRead hpc hi hblocking hspace =>
    refine Or.inr ⟨by simpa [Producer.owned, hpc, hblocking] using howned, ?_⟩
    simp only [Producer.commitRank, Producer.goto_pc, Producer.goto_payload, hpc]
    split_ifs <;> omega
  | retry b claim n i minRead hpc hi hblocking hfull =>
    -- a check that fails has looked at an entry before everything got to `c`
    obtain rfl : claim = c := hown (by simp [Producer.owned, hpc, hblocking])
    refine Or.inr ⟨by simpa [Producer.owned, hpc] using howned, ?_⟩
    simp only [Producer.commitRank, Producer.goto_pc, Producer.goto_payload, hpc]
    rw [if_neg (by omega)]
    omega
  | copyByte b claim k byte hpc hbyte =>
    refine Or.inr ⟨by simpa [Producer.owned, hpc] using howned, ?_⟩
    have hk := (List.getElem?_eq_some_iff.mp hbyte).1
    simp only [Producer.commitRank, Producer.goto_pc, Producer.goto_payload, hpc]
    omega
  | copyDone b claim k hpc hk =>
    refine Or.inr ⟨by simpa [Producer.owned, hpc] using howned, ?_⟩
    simp only [Producer.commitRank, Producer.goto_pc, hpc]
    omega
  | storeDesc b claim hpc =>
    refine Or.inr ⟨by simpa [Producer.owned, hpc] using howned, ?_⟩
    simp only [Producer.commitRank, Producer.goto_pc, hpc]
    omega
  | storeSeq b claim hpc =>
    obtain rfl : claim = c := hown (by simp [Producer.owned, hpc])
    refine Or.inl ?_
    simp only [Mem.Committed, update_self]
    exact Nat.lt_succ_self _
  | _ => simp [Producer.owned, *] at howned

section Live

variable {g : Geometry} {slab : ℕ → UInt8} {b : Behaviour (busSystem g slab)}

/-- Once nothing is behind a number, the call that owns it commits it. -/
theorem commits_owned (hallowed : b.Allowed fun _ ↦ Serves g) (hfair : Fair b) {n p c : ℕ}
    (hclear : ∀ m ≥ n, Clear c (b.state m)) (howned : ((b.state n).producers p).owned = some c) :
    ∃ m ≥ n, (b.state m).mem.Committed g c := by
  -- a call that has panicked owns its number for ever, but in these runs none does
  have hinv := fun m ↦ servesInv_run (Behaviour.run hallowed m)
  refine Behaviour.eventually_of_rank hallowed (hfair.producers p)
    (fun s ↦ Clear c s ∧ ∀ p claim, (s.producers p).pc ≠ .panicked claim)
    (fun s ↦ (s.producers p).owned = some c ∧ ∀ claim, (s.producers p).pc ≠ .panicked claim)
    (fun s ↦ s.mem.Committed g c) (fun s ↦ (s.producers p).commitRank c)
    (fun s hwork ↦ ⟨Producer.ne_idle_of_owned hwork.1, hwork.2⟩) ?_
    (fun m hm ↦ ⟨hclear m hm, (hinv m).registration.not_panicked⟩)
    ⟨howned, (hinv n).registration.not_panicked p⟩
  rintro trace s action s' events hrun hserves hstep ⟨hclear, -⟩ ⟨howned, halive⟩
  have hbus : BusStep g s action s' events := step_cases hstep
  have hinv := servesInv_run hrun
  have halive' := (hinv.registration.step hserves.1.1.findsEntry hbus).not_panicked p
  by_cases hown : ∃ act, action = .producer p act
  · obtain ⟨act, rfl⟩ := hown
    cases hbus with
    | producer hthread =>
      rcases hthread.commits howned hclear (hinv.counted p) hinv.registration.ids.nSubs_le with
        hcommitted | ⟨howned', hrank⟩
      · exact Or.inl hcommitted
      · simp only [State.setProducer, update_self] at halive' ⊢
        exact Or.inr ⟨⟨howned', halive'⟩, Or.inl hrank⟩
  · rw [hbus.producers_eq hown]
    exact Or.inr ⟨⟨howned, halive⟩, Or.inr ⟨rfl, hown⟩⟩

/-- Every number claimed is committed. -/
theorem commits_claimed (hallowed : b.Allowed fun _ ↦ Serves g) (hfair : Fair b) {n c : ℕ}
    (hclaimed : c < (b.state n).mem.claimSeq) : ∃ m ≥ n, (b.state m).mem.Committed g c := by
  induction c using Nat.strong_induction_on with
  | _ c ih =>
    -- all numbers below, which are claimed too
    obtain ⟨first, hfirst, hbelow⟩ := exists_forall_ge
      (fun sequence m ↦ (b.state m).mem.Committed g sequence) n c fun sequence hlt ↦ by
        obtain ⟨m, hm, hcommitted⟩ := ih sequence hlt (by omega)
        exact ⟨m, hm, fun m' hm' ↦ committed_stable hallowed hcommitted hm'⟩
    obtain ⟨k, hk, hclear⟩ := clear_of_committed hallowed hfair (hbelow first le_rfl)
    have hclaimed' : c < (b.state k).mem.claimSeq := Behaviour.stable hallowed
      (fun s ↦ c < s.mem.claimSeq)
      (fun _ _ hstep hnow ↦ hnow.trans_le ((step_cases hstep).claimSeq_le)) hclaimed (by omega)
    rcases (servesInv_run (Behaviour.run hallowed k)).commit.claimed_cases c hclaimed' with
      hcommitted | ⟨p, howned⟩
    · exact ⟨k, by omega, hcommitted⟩
    · obtain ⟨m, hm, hcommitted⟩ := commits_owned hallowed hfair hclear howned
      exact ⟨m, by omega, hcommitted⟩

/-- From some instant on everything that was claimed at another one is committed. -/
theorem commits_below (hallowed : b.Allowed fun _ ↦ Serves g) (hfair : Fair b) (n : ℕ) :
    ∃ first ≥ n, ∀ m ≥ first, ∀ sequence < (b.state n).mem.claimSeq,
      (b.state m).mem.Committed g sequence := by
  refine exists_forall_ge (fun sequence m ↦ (b.state m).mem.Committed g sequence) n _
    fun sequence hlt ↦ ?_
  obtain ⟨m, hm, hcommitted⟩ := commits_claimed hallowed hfair hlt
  exact ⟨m, hm, fun m' hm' ↦ committed_stable hallowed hcommitted hm'⟩

/-- What is known of a subscriber that has joined. -/
theorem served (hallowed : b.Allowed fun _ ↦ Serves g) {n h start : ℕ}
    (hstarted : Started h start (b.trace n)) :
    ∃ id, Served g (b.trace n) (b.state n) h start id :=
  served_of_run (fun _ _ _ hserves ↦ hserves.1.1.keepsHandles) (fun _ _ _ hserves ↦ hserves.1.2.2)
    (fun _ _ _ hserves ↦ hserves.1.2.1) (Behaviour.run hallowed n) hstarted

/-- A subscriber that has joined has joined for good. -/
theorem started_stable {n m h start : ℕ} (hstarted : Started h start (b.trace n)) (hle : n ≤ m) :
    Started h start (b.trace m) := by
  obtain ⟨id, hmem⟩ := hstarted
  exact ⟨id, (Behaviour.trace_prefix hle).subset hmem⟩

/-- A subscriber receives all that is claimed from its start on. -/
theorem receives (hallowed : b.Allowed fun _ ↦ Serves g) (hfair : Fair b) {n h start : ℕ}
    (hstarted : Started h start (b.trace n)) : ∃ m ≥ n,
      ((claims (b.trace n)).drop start).map Claim.payload <+: received h (b.trace m) := by
  obtain ⟨first, hfirst, hbelow⟩ := commits_below hallowed hfair n
  obtain ⟨id, hbefore⟩ := served hallowed (started_stable hstarted hfirst)
  obtain ⟨m, hm, hreached⟩ := cursor_reaches hallowed hfair hbefore.ready (hbelow first le_rfl)
  have hready := (cursor_stable hallowed hbefore.ready (Nat.zero_le _) hm).1
  obtain ⟨id', hafter⟩ := served hallowed (started_stable hstarted (hfirst.trans hm))
  obtain rfl : id = id' := by simpa [hready] using hafter.ready
  refine ⟨m, hfirst.trans hm, ?_⟩
  -- the log then begins with the log of now, and the cursor is past its end
  obtain ⟨later, hlater⟩ := Behaviour.trace_prefix (b := b) (hfirst.trans hm)
  have hlength := (commitInv_run (Behaviour.run hallowed n)).length_claims
  have hlog : claims (b.trace n) <+: (claims (b.trace m)).take ((b.state m).mem.subReadSeq id) := by
    rw [← hlater, claims_append]
    exact List.prefix_take_iff.mpr ⟨List.prefix_append _ _, by omega⟩
  rw [hafter.received_eq]
  exact (hlog.drop start).map Claim.payload

end Live

/-- A claim stands in the log at its sequence number. -/
theorem CommitInv.getElem?_claims {g : Geometry} {trace : List Event} {s : State}
    (hcommit : CommitInv g trace s) {claim : Claim} (hclaim : claim ∈ claims trace) :
    (claims trace)[claim.sequence]? = some claim := by
  obtain ⟨i, hlog⟩ := List.getElem?_of_mem hclaim
  have hat : ((claims trace).map Claim.sequence)[i]? = some claim.sequence := by
    rw [List.getElem?_map, hlog]
    rfl
  rw [hcommit.claims_sequence] at hat
  obtain ⟨hlt, hget⟩ := List.getElem?_eq_some_iff.mp hat
  rwa [← hget, List.getElem_range]

/-- Every message is delivered. Assumes: a behaviour of the bus that treats its threads fairly, with
at most `MAX_SUBSCRIBERS` subscribe calls, one thread for each subscriber that receives into a whole
slot, messages that fit the length word, and capacity checks that count who joined. Every message
claimed is committed, and every subscriber that starts at its number or before receives it, in its
place. -/
theorem eventually_delivered (g : Geometry) (slab : ℕ → UInt8) (b : Behaviour (busSystem g slab))
    (hallowed : b.Allowed fun _ ↦ Serves g) (hfair : Fair b) (n : ℕ) (claim : Claim)
    (hclaim : claim ∈ claims (b.trace n)) :
    (∃ m ≥ n, claim.sequence ∈ commits (b.trace m)) ∧
    ∀ h start, Started h start (b.trace n) → start ≤ claim.sequence →
      ∃ m ≥ n, (received h (b.trace m))[claim.sequence - start]? = some claim.payload := by
  have hcommit := commitInv_run (Behaviour.run hallowed n)
  have hlog := hcommit.getElem?_claims hclaim
  refine ⟨?_, fun h start hstarted hle ↦ ?_⟩
  · have hclaimed : claim.sequence < (b.state n).mem.claimSeq := by
      rw [← hcommit.length_claims]
      exact (List.getElem?_eq_some_iff.mp hlog).1
    obtain ⟨m, hm, hcommitted⟩ := commits_claimed hallowed hfair hclaimed
    exact ⟨m, hm, ((commitInv_run (Behaviour.run hallowed m)).committed_iff _).mp hcommitted⟩
  · obtain ⟨m, hm, rest, hreceived⟩ := receives hallowed hfair hstarted
    refine ⟨m, hm, ?_⟩
    have hplace : (((claims (b.trace n)).drop start).map Claim.payload)[claim.sequence - start]? =
        some claim.payload := by
      rw [List.getElem?_map, List.getElem?_drop, Nat.add_sub_cancel' hle, hlog]
      rfl
    rw [← hreceived, List.getElem?_append_left (List.getElem?_eq_some_iff.mp hplace).1, hplace]

/-- A fair behaviour with a subscriber, one message and its reception: at instant `4` the call has
just claimed its number. -/
theorem exists_fair_one : ∃ b : Behaviour (busSystem tinyGeometry fun _ ↦ 0),
    (b.Allowed fun _ ↦ Serves tinyGeometry) ∧ Fair b ∧ claims (b.trace 4) = [⟨0, 0, [7]⟩] ∧
    received 0 (b.trace 4) = [] ∧ Started 0 0 (b.trace 4) ∧
    ∀ m ≥ 4, (b.state m).mem.claimSeq = 1 := by
  let system := busSystem tinyGeometry fun _ ↦ 0
  let counted : Guard State Action Event := fun _ s action ↦
    (Disciplined s action ∧ NarrowCall tinyGeometry action ∧ CountsAll s action) ∧
      Roomy tinyGeometry action
  let actions : List Action := [subscribing, publishing [7] 13, receiving 0 5].flatten
  have hlast : (system.exec system.init actions).map (fun result ↦
      ((result.1.producers 0).pc, result.1.subscribers 0, result.1.mem.subReadSeq 0,
        result.1.mem.slotSeq 0, result.1.mem.claimSeq)) = some (.idle, .ready 0, 1, 1, 1) := by
    decide +kernel
  have hpermitted : Permitted system counted [] system.init actions := by decide +kernel
  obtain ⟨⟨final, reported⟩, hexec, hresult⟩ := Option.map_eq_some_iff.mp hlast
  simp only [Prod.mk.injEq] at hresult
  obtain ⟨hpc, hready, hcursor, hslot, hclaimed⟩ := hresult
  have hproducers : ∀ p, (final.producers p).pc = .idle := by
    intro p
    by_cases hp : p = 0
    · exact hp ▸ hpc
    · rw [exec_producers_of_forall_ne
        (fun act ↦ by simp [actions, subscribing, publishing, receiving, hp]) hexec]
      rfl
  have hsubscribers : ∀ h, h = 0 ∨ final.subscribers h = .unsubscribed := by
    intro h
    by_cases hh : h = 0
    · exact Or.inl hh
    · rw [exec_subscribers_of_forall_ne
        (fun act ↦ by simp [actions, subscribing, publishing, receiving, hh]) hexec]
      exact Or.inr rfl
  have hfair : Fair (Behaviour.ofExec hexec) := by
    refine ⟨fun p ↦ ?_, fun h ↦ ?_, fun h ↦ ?_⟩ <;> apply Behaviour.weaklyFair_ofExec
    · exact fun hworking ↦ hworking.1 (hproducers p)
    · rcases hsubscribers h with rfl | hnone
      · rw [hready]
        exact not_false
      · rw [hnone]
        exact not_false
    · rintro ⟨id, hid, hcommitted⟩
      rcases hsubscribers h with rfl | hnone
      · rw [hready] at hid
        cases hid
        have hlt : final.mem.subReadSeq 0 < final.mem.slotSeq 0 := by
          rw [hcursor] at hcommitted ⊢
          exact hcommitted
        omega
      · rw [hnone] at hid
        cases hid
  have hallowed : (Behaviour.ofExec hexec).Allowed fun _ ↦ Serves tinyGeometry := by
    refine Behaviour.allowed_ofExec hexec (hpermitted.strengthen (fun hrun hcounted ↦ ?_) .start)
    obtain ⟨⟨hdisciplined, hnarrow, hall⟩, hroomy⟩ := hcounted
    exact ⟨⟨hdisciplined, hnarrow, hall.countsJoined
      (ownersInv_run (fun _ _ _ hallowed ↦ hallowed.1.1.countFits) hrun)⟩, hroomy⟩
  have hearly : claims (Behaviour.stage system actions 4).2 = [⟨0, 0, [7]⟩] ∧
      received 0 (Behaviour.stage system actions 4).2 = [] ∧
      .subscriber 0 (.subscribed 0 0) ∈ (Behaviour.stage system actions 4).2 := by decide +kernel
  rw [← Behaviour.trace_ofExec hexec] at hearly
  obtain ⟨hclaims, hnone, hstarted⟩ := hearly
  refine ⟨Behaviour.ofExec hexec, hallowed, hfair, hclaims, hnone, ⟨0, hstarted⟩, fun m hm ↦ ?_⟩
  -- the counter is at its last value at instant 4 already
  have hkept : ∀ {n m : ℕ}, n ≤ m →
      ((Behaviour.ofExec hexec).state n).mem.claimSeq ≤
        ((Behaviour.ofExec hexec).state m).mem.claimSeq := fun {n m} hle ↦
    Behaviour.stable hallowed
      (fun s ↦ ((Behaviour.ofExec hexec).state n).mem.claimSeq ≤ s.mem.claimSeq)
      (fun _ _ hstep hnow ↦ hnow.trans (step_cases hstep).claimSeq_le) le_rfl hle
  have hfirst := (commitInv_run (Behaviour.run hallowed 4)).length_claims
  rw [hclaims] at hfirst
  refine le_antisymm ?_ (hfirst.trans_le (hkept hm))
  refine (hkept (Nat.le_add_right m actions.length)).trans_eq ?_
  rw [← hclaimed]
  exact congrArg (fun stage ↦ stage.1.mem.claimSeq)
    (Behaviour.stage_of_length_le hexec (Nat.le_add_left _ _))

/-- A subscriber, one message and its reception: just after the call has claimed its number, the
reception is still to come. -/
theorem eventually_delivered_one : ∃ b : Behaviour (busSystem tinyGeometry fun _ ↦ 0), Fair b ∧
    claims (b.trace 4) = [⟨0, 0, [7]⟩] ∧ received 0 (b.trace 4) = [] ∧
    ∃ m ≥ 4, (received 0 (b.trace m))[0]? = some [7] := by
  obtain ⟨b, hallowed, hfair, hclaims, hnone, hstarted, -⟩ := exists_fair_one
  refine ⟨b, hfair, hclaims, hnone, ?_⟩
  exact (eventually_delivered tinyGeometry _ b hallowed hfair 4 ⟨0, 0, [7]⟩ (by simp [hclaims])).2
    0 0 hstarted le_rfl

end AarnnNsys.Bus
