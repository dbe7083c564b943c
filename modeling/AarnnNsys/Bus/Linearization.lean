import AarnnNsys.Bus.Crash
import AarnnNsys.Bus.Blocking
import AarnnNsys.Bus.Exact
import AarnnNsys.Bus.Touch
import AarnnNsys.Lib.TicketLog

/-!
# The bus as a ticket log

What the bus is for when its calls overlap. Seen through `observe`, every run of the bus is a run of
the abstract log of `AarnnNsys.Lib.TicketLog`, in which each call happens at single instants:
`publish` takes its ticket as soon as it is called and `try_publish` when its compare-exchange
succeeds, the commit store fills it, and a `try_recv` reads in the step that decides its result. The
log that a run stands for is `ticketLogOf`.

`linearized` proves it for the runs in which each handle stays with its thread and every capacity
check counts who joined. There every answer of every call is the one that the log gives at that
instant, whatever the other calls are doing.
-/

set_option autoImplicit false
set_option relaxedAutoImplicit false

namespace AarnnNsys.Bus

open Function Lib

/-! ### What is seen of a run -/

/-- The answer of a producer call. -/
def ProducerEvent.answer? : ProducerEvent → Option WriteAnswer
  | .publishReturned (.ok ()) | .tryPublishReturned (.ok true) => some .written
  | .tryPublishReturned (.ok false) => some .refused
  | .publishReturned (.error _) | .tryPublishReturned (.error _) => some .rejected
  | _ => none

/-- What a `try_recv` call has found. -/
def ReaderEvent.answer : ReaderEvent → ReadAnswer Message
  | .returned (.ok none) => .nothing
  | .returned (.ok (some message)) => .entry message
  | .returned (.error _) => .tooLarge

/-- An event of the bus, as one of the log. -/
def observe : Event → Option (TicketLog.Event Message)
  | .producer p (.called payload) => some (.called p payload)
  | .producer p (.claimed sequence _) => some (.taken p sequence)
  | .producer p (.committed sequence) => some (.filled p sequence)
  | .producer p event => event.answer?.map (.answered p)
  | .subscriber h (.subscribed _ start) => some (.joined h start)
  | .subscriber _ (.failed _) => none
  | .reader h event => some (.read h event.answer)

/-! ### The log of a run -/

/-- Where a producer is in its call, for the log. -/
def Producer.writer (t : Producer) : Writer Message :=
  match t.pc with
  | .idle => .idle
  | .loadSubs claim | .loadWrite claim _ | .scan claim _ _ _ | .panicked claim =>
    bif t.blocking then .holding claim else .asking t.payload
  | .casClaim _ => .asking t.payload
  | .copy claim _ | .storeDesc claim | .storeSeq claim => .holding claim
  | .advanceLoad | .advanceSlot _ | .advanceCas _ => .done

/-- The cursor of a subscribe call that has returned. -/
def SubscriberPc.position? (m : Mem) : SubscriberPc → Option ℕ
  | .ready id => some (m.subReadSeq id)
  | _ => none

/-- The position of a subscriber is its cursor. -/
theorem SubscriberPc.cursor?_of_position? {m : Mem} {pc : SubscriberPc} {cursor : ℕ}
    (hposition : pc.position? m = some cursor) : ∃ id, pc.cursor? m = some (id, cursor) := by
  cases pc with
  | ready id => exact ⟨id, by simpa [SubscriberPc.cursor?, position?] using hposition⟩
  | _ => cases hposition

/-- The length of the buffer of a `try_recv` call in flight. -/
def Reader.room? (t : Reader) : Option ℕ := if t.pc = .idle then none else some t.outLen

/-- A claim, as an entry of the log. -/
def Claim.entry (claim : Claim) : ℕ × Message := (claim.producer, claim.payload)

/-- The log that a run stands for. -/
def ticketLogOf (trace : List Event) (s : State) : TicketLog Message where
  entries := (claims trace).map Claim.entry
  filled := commits trace
  writers := fun p ↦ (s.producers p).writer
  cursors := fun h ↦ (s.subscribers h).position? s.mem
  rooms := fun r ↦ (s.readers r).room?

/-- The log of a bus: its size check, and the length of a message. -/
def logSystem (g : Geometry) :
    TransitionSystem (TicketLog Message) (TicketLog.Action Message) (TicketLog.Event Message) :=
  ticketSystem (fun payload ↦ decide (FitsSlot g payload)) List.length

/-- The promise of the capacity of a bus. -/
def lapBounded (g : Geometry) :
    Guard (TicketLog Message) (TicketLog.Action Message) (TicketLog.Event Message) :=
  fun _ a action ↦ a.Bounded g.descCapacity action

section Views

variable {g : Geometry} {trace events : List Event} {s s' : State}

/-- A step that the log does by some of its own. -/
def Mirrored (g : Geometry) (trace : List Event) (s : State) (events : List Event) (s' : State) :
    Prop :=
  ∃ actions, Permitted (logSystem g) (lapBounded g) (trace.filterMap observe)
      (ticketLogOf trace s) actions ∧
    (logSystem g).exec (ticketLogOf trace s) actions =
      some (ticketLogOf (trace ++ events) s', events.filterMap observe)

/-- A step that the log does not see. -/
theorem mirrored_silent (hview : ticketLogOf (trace ++ events) s' = ticketLogOf trace s)
    (hsilent : events.filterMap observe = []) : Mirrored g trace s events s' :=
  ⟨[], trivial, by rw [hview, hsilent]; rfl⟩

/-- A step that is one of the log. -/
theorem mirrored_single (action : TicketLog.Action Message)
    (hallowed : (ticketLogOf trace s).Bounded g.descCapacity action)
    (hstep : (logSystem g).step (ticketLogOf trace s) action =
      some (ticketLogOf (trace ++ events) s', events.filterMap observe)) :
    Mirrored g trace s events s' :=
  ⟨[action], .cons hallowed fun _ _ ↦ trivial, by simp [TransitionSystem.exec, hstep]⟩

/-- A step that answers a reader without moving its cursor. -/
theorem mirrored_read {r cursor room : ℕ} {event : ReaderEvent}
    (hat : (ticketLogOf trace s).cursors r = some cursor)
    (hasked : (ticketLogOf trace s).rooms r = some room)
    (hfound : (ticketLogOf trace s).found List.length cursor room = event.answer)
    (hnone : ∀ entry, event.answer ≠ .entry entry)
    (hview : ticketLogOf (trace ++ [.reader r event]) s' = (ticketLogOf trace s).setRoom r none) :
    Mirrored g trace s [.reader r event] s' := by
  refine mirrored_single (.read r) trivial ?_
  rw [hview]
  exact TicketLog.step_read_of_found hat hasked hfound hnone

/-- The log after a step of a producer. -/
theorem ticketLogOf_producer (trace : List Event) {p : ℕ} {act : ProducerAct} {m : Mem}
    {t : Producer} {reported : List ProducerEvent}
    (hstep : ProducerStep g s.mem (s.producers p) act m t reported)
    (new : List Claim) (done : List ℕ) (hnew : claims (reported.map (.producer p)) = new)
    (hdone : commits (reported.map (.producer p)) = done) :
    ticketLogOf (trace ++ reported.map (.producer p)) (s.setProducer p m t) =
      ((ticketLogOf trace s).setWriter p t.writer).record (new.map Claim.entry) done := by
  have hwriters : (fun q ↦ (update s.producers p t q).writer) =
      update (fun q ↦ (s.producers q).writer) p t.writer := by
    funext q
    by_cases hq : q = p
    · subst hq
      simp
    · simp [update_of_ne hq]
  have hcursors : (fun h ↦ (s.subscribers h).position? m) =
      fun h ↦ (s.subscribers h).position? s.mem := by
    funext h
    unfold SubscriberPc.position?
    rw [hstep.registry.2]
  simp only [ticketLogOf, TicketLog.setWriter, TicketLog.record, State.setProducer, claims_append,
    commits_append, List.map_append, hwriters, hcursors, hnew, hdone]

end Views

/-! ### Producers -/

/-- The result of a call that has published its message, as the log sees it. -/
theorem Producer.success_seen (t : Producer) (p : ℕ) :
    claims ([t.success].map (.producer p)) = [] ∧ commits ([t.success].map (.producer p)) = [] ∧
      observe (.producer p t.success) = some (.answered p .written) := by
  unfold Producer.success
  split_ifs <;> exact ⟨rfl, rfl, rfl⟩

/-- A step of a producer, seen by the log. -/
theorem ProducerStep.mirrored {g : Geometry} {trace : List Event} {s : State}
    (hcommit : CommitInv g trace s) (hcursor : CursorInv g s)
    (hfits : ∀ p, (s.producers p).pc ≠ .idle → FitsSlot g (s.producers p).payload) {p : ℕ}
    {act : ProducerAct} {m : Mem} {t : Producer} {reported : List ProducerEvent}
    (hstep : ProducerStep g s.mem (s.producers p) act m t reported) :
    Mirrored g trace s (reported.map (.producer p)) (s.setProducer p m t) := by
  have hview := ticketLogOf_producer trace hstep
  have hlength : (ticketLogOf trace s).entries.length = s.mem.claimSeq := by
    rw [ticketLogOf, List.length_map, hcommit.length_claims]
  have hwriter : (ticketLogOf trace s).writers p = (s.producers p).writer := rfl
  have hfit := hfits p
  cases hstep with
  | publishRejected payload hpc hsize | tryPublishRejected payload hpc hsize =>
    have hnot : ¬ FitsSlot g payload := fun hfit ↦ hsize.elim hfit.1 hfit.2.not_gt
    refine ⟨[.call p payload, .reject p], permitted_of_forall (by simp [lapBounded,
      TicketLog.Bounded]) _ _, ?_⟩
    rw [hview [] [] rfl rfl]
    simp [logSystem, ticketSystem, TransitionSystem.exec, TicketLog.step, hwriter,
      Producer.writer, hpc, hnot, observe, ProducerEvent.answer?]
  | publish payload hpc hne hsize =>
    have hfit : FitsSlot g payload := ⟨hne, hsize⟩
    refine ⟨[.call p payload, .take p], permitted_of_forall (by simp [lapBounded,
      TicketLog.Bounded]) _ _, ?_⟩
    rw [hview [⟨s.mem.claimSeq, p, payload⟩] [] rfl rfl]
    simp [logSystem, ticketSystem, TransitionSystem.exec, TicketLog.step, hwriter, hlength,
      Producer.writer, hpc, hfit, observe, Claim.entry]
  | tryPublish payload hpc hne hsize =>
    refine mirrored_single (.call p payload) trivial ?_
    rw [hview [] [] rfl rfl]
    simp [logSystem, ticketSystem, TicketLog.step, hwriter, Producer.writer, hpc, observe]
  | refuse b claim n i minRead hpc hi hblocking hfull =>
    refine mirrored_single (.refuse p) trivial ?_
    rw [hview [] [] rfl rfl]
    simp [logSystem, ticketSystem, TicketLog.step, hwriter, Producer.writer, hpc, observe,
      hblocking, hfit (by simp [hpc]), ProducerEvent.answer?]
  | claimLost b claim hpc hlost =>
    refine mirrored_single (.refuse p) trivial ?_
    rw [hview [] [] rfl rfl]
    simp [logSystem, ticketSystem, TicketLog.step, hwriter, Producer.writer, hpc, observe,
      hfit (by simp [hpc]), ProducerEvent.answer?]
  | claim b claim hpc heq =>
    refine mirrored_single (.take p) trivial ?_
    rw [hview [⟨claim, p, (s.producers p).payload⟩] [] rfl rfl]
    simp [logSystem, ticketSystem, TicketLog.step, hwriter, Producer.writer, hpc, observe,
      hfit (by simp [hpc]), hlength, heq, Claim.entry]
  | storeSeq b claim hpc =>
    refine mirrored_single (.fill p) ?_ ?_
    · intro ticket hholding h cursor hposition
      simp only [hwriter, Producer.writer, hpc, Writer.holding.injEq] at hholding
      subst hholding
      obtain ⟨id, hid⟩ := SubscriberPc.cursor?_of_position? hposition
      exact (hcursor.respects h id cursor hid p).admitted_lt (by simp [Producer.admitted, hpc])
    · rw [hview [] [claim] rfl rfl]
      simp [logSystem, ticketSystem, TicketLog.step, hwriter, Producer.writer, hpc, observe]
  | advanceStop b w hpc huncommitted =>
    obtain ⟨hclaims, hcommits, hanswer⟩ := (s.producers p).success_seen p
    refine mirrored_single (.answer p) trivial ?_
    rw [hview [] [] hclaims hcommits]
    simp [logSystem, ticketSystem, TicketLog.step, hwriter, Producer.writer, hpc, hanswer]
  | _ =>
    refine mirrored_silent ?_ rfl
    rw [hview [] [] rfl rfl]
    simp [Producer.writer, TicketLog.setWriter, ticketLogOf, *]

/-! ### Subscribers and readers -/

section Cursors

variable {g : Geometry} {trace : List Event} {s : State}

/-- The log after a step of a subscribe call. -/
theorem ticketLogOf_subscriber (trace : List Event) (howners : OwnersInv s) {h : ℕ}
    {act : SubscriberAct} {m : Mem} {pc : SubscriberPc} {reported : List SubscriberEvent}
    (hstep : SubscriberStep s.mem (s.subscribers h) act m pc reported) :
    ticketLogOf (trace ++ reported.map (.subscriber h)) (s.setSubscriber h m pc) =
      { ticketLogOf trace s with
        cursors := update (ticketLogOf trace s).cursors h (pc.position? m) } := by
  have hcursors : (fun h' ↦ (update s.subscribers h pc h').position? m) =
      update (fun h' ↦ (s.subscribers h').position? s.mem) h (pc.position? m) := by
    funext h'
    by_cases hh : h' = h
    · subst hh
      simp
    · rw [update_of_ne hh, update_of_ne hh]
      cases hpc : s.subscribers h' with
      | ready id => simp [SubscriberPc.position?, howners.entry_kept hstep hpc]
      | _ => rfl
  simp [ticketLogOf, State.setSubscriber, hcursors]

/-- A step of a subscribe call, seen by the log. -/
theorem SubscriberStep.mirrored (hcommit : CommitInv g trace s) (howners : OwnersInv s)
    (hnogap : NoGapInv g s) {h : ℕ} {act : SubscriberAct} {m : Mem} {pc : SubscriberPc}
    {reported : List SubscriberEvent}
    (hstep : SubscriberStep s.mem (s.subscribers h) act m pc reported) :
    Mirrored g trace s (reported.map (.subscriber h)) (s.setSubscriber h m pc) := by
  have hview := ticketLogOf_subscriber trace howners hstep
  have hposition : (ticketLogOf trace s).cursors h = (s.subscribers h).position? s.mem := rfl
  cases hstep with
  | storeStart id start hpc =>
    refine mirrored_single (.join h start) ⟨by rw [hposition, hpc]; rfl, ?_⟩ ?_
    · exact fun ticket hlt ↦
        (hcommit.committed_iff ticket).mp (hnogap.start h id start hpc ticket hlt)
    · rw [hview]
      simp [logSystem, ticketSystem, TicketLog.step, TicketLog.setCursor, SubscriberPc.position?,
        observe]
  | _ =>
    refine mirrored_silent ?_ rfl
    rw [hview]
    simp [ticketLogOf, SubscriberPc.position?, *]

/-- The log after a step of a reader. -/
theorem ticketLogOf_reader (trace : List Event) (hhandles : HandlesInv s) {r : ℕ} {act : ReaderAct}
    {m : Mem} {t : Reader} {reported : List ReaderEvent}
    (hstep : ReaderStep g s.subscribers s.mem (s.readers r) act m t reported) :
    ticketLogOf (trace ++ reported.map (.reader t.handle)) (s.setReader r m t) =
      { ticketLogOf trace s with
        cursors := update (ticketLogOf trace s).cursors r ((s.subscribers r).position? m)
        rooms := update (ticketLogOf trace s).rooms r t.room? } := by
  have hrooms : (fun r' ↦ (update s.readers r t r').room?) =
      update (fun r' ↦ (s.readers r').room?) r t.room? := by
    funext r'
    by_cases hr : r' = r
    · subst hr
      simp
    · simp [update_of_ne hr]
  have hcursors : (fun h ↦ (s.subscribers h).position? m) =
      update (fun h ↦ (s.subscribers h).position? s.mem) r ((s.subscribers r).position? m) := by
    funext h
    by_cases hh : h = r
    · subst hh
      simp
    · rw [update_of_ne hh]
      cases hpc : s.subscribers h with
      | ready id =>
        cases hstep with
        | storeSeq seq out hactive =>
          have hready := (hhandles.reader_ready r (by simp [hactive])).2
          have hne : id ≠ (s.readers r).id := by
            rintro rfl
            exact hh (hhandles.owners.eq_of_ready hpc hready)
          simp [SubscriberPc.position?, update_of_ne hne]
        | _ => rfl
      | _ => rfl
  simp [ticketLogOf, State.setReader, hcursors, hrooms]

/-- A message that a receive call is about to return fits its buffer. -/
def Reader.ReturnsFit (t : Reader) : Prop :=
  ∀ seq out, t.pc = .storeSeq seq out → out.length ≤ t.outLen

/-- No receive call of a run returns more than its buffer holds. -/
theorem returnsFit_run {slab : ℕ → UInt8} {guard : Guard State Action Event}
    (hrun : Run (busSystem g slab) guard trace s) (r : ℕ) : (s.readers r).ReturnsFit := by
  refine hrun.invariant (fun _ s ↦ ∀ r, (s.readers r).ReturnsFit) (fun _ _ _ hpc ↦ nomatch hpc) ?_ r
  intro trace s action s' events hprevious hfit _ hstep r
  have hbus : BusStep g s action s' events := step_cases hstep
  by_cases hown : ∃ act, action = .reader r act
  · obtain ⟨act, rfl⟩ := hown
    cases hbus with
    | reader hthread =>
      simp only [State.setReader, update_self]
      intro seq out hpc
      cases hthread with
      | copyDone other len copied hcopy hle =>
        cases hpc
        obtain ⟨hlen, hout, -⟩ := (boundsInv_run hprevious).len_le r _ _ _ hcopy
        exact hlen.trans hout
      | _ => cases hpc
  · rw [hbus.readers_eq hown]
    exact hfit r

/-- A receive call that does not find the stamp of its number finds the number uncommitted. -/
theorem uncommitted_of_stamp (hcommit : CommitInv g trace s) (hhandles : HandlesInv s)
    (hcursor : CursorInv g s) {r seq : ℕ} (hpc : (s.readers r).pc = .loadSeq seq)
    (hother : s.mem.slotSeq (g.idx seq) ≠ seq + 1) : ¬ s.mem.Committed g seq := by
  intro hcommitted
  have hready := (hhandles.reader_ready r (by simp [hpc])).2
  have hread := hcursor.reader_seq r seq (by rw [hpc]; rfl)
  refine hother (hcommit.stamp_eq hcommitted (hcursor.slot_le r (s.readers r).id seq ?_ _))
  rw [hready, ← hread]
  rfl

/-- A step of a reader, seen by the log. -/
theorem ReaderStep.mirrored (hcommit : CommitInv g trace s) (hpayload : PayloadInv g trace s)
    (hhandles : HandlesInv s) (hcursor : CursorInv g s) (hdelivery : DeliveryInv g trace s) {r : ℕ}
    {act : ReaderAct} {m : Mem} {t : Reader} {reported : List ReaderEvent}
    (hfit : (s.readers r).ReturnsFit) (hkeeps : OwnThread (.reader r act))
    (hstep : ReaderStep g s.subscribers s.mem (s.readers r) act m t reported) :
    Mirrored g trace s (reported.map (.reader t.handle)) (s.setReader r m t) := by
  have hview := ticketLogOf_reader trace hhandles hstep
  have hposition : (ticketLogOf trace s).cursors r = (s.subscribers r).position? s.mem := rfl
  have hroom : (ticketLogOf trace s).rooms r = (s.readers r).room? := rfl
  -- unless it moves the cursor, a step only changes what the reader asks for
  have hsame : (s.subscribers r).position? m = (s.subscribers r).position? s.mem →
      ticketLogOf (trace ++ reported.map (.reader t.handle)) (s.setReader r m t) =
        (ticketLogOf trace s).setRoom r t.room? := by
    intro hread
    rw [hview, hread, ← hposition, update_eq_self]
    rfl
  -- a call in flight reads at the cursor of its handle, with the room of its buffer
  have hactive : ∀ seq, (s.readers r).pc.seq? = some seq → (s.readers r).handle = r ∧
      (ticketLogOf trace s).cursors r = some seq ∧
        (ticketLogOf trace s).rooms r = some (s.readers r).outLen := by
    intro seq hseq
    have hne := ReaderPc.ne_idle_of_seq? hseq
    obtain ⟨hhandle, hready⟩ := hhandles.reader_ready r hne
    refine ⟨hhandle, ?_, if_neg hne⟩
    rw [hposition, hready, SubscriberPc.position?, hcursor.reader_seq r seq hseq]
  have hfilled : ∀ seq, s.mem.Committed g seq → seq ∈ (ticketLogOf trace s).filled :=
    fun seq hcommitted ↦ (hcommit.committed_iff seq).mp hcommitted
  have hentry : ∀ (seq : ℕ) (claim : Claim), (claims trace)[seq]? = some claim →
      (ticketLogOf trace s).entries[seq]? = some (claim.producer, claim.payload) := by
    intro seq claim hclaim
    simp [ticketLogOf, Claim.entry, hclaim]
  have hfollows := hdelivery.follows r
  cases hstep with
  | tryRecv h id outLen hpc hready =>
    obtain rfl : r = h := hkeeps
    refine mirrored_single (.ask r outLen) trivial ?_
    rw [hsame rfl]
    simp [logSystem, ticketSystem, TicketLog.step, hposition, hroom, hready,
      SubscriberPc.position?, Reader.room?, hpc]
  | empty seq hpc hother =>
    obtain ⟨hhandle, hat, hasked⟩ := hactive seq (by rw [hpc]; rfl)
    have hnot : seq ∉ (ticketLogOf trace s).filled := fun hmem ↦
      uncommitted_of_stamp hcommit hhandles hcursor hpc hother
        ((hcommit.committed_iff seq).mpr hmem)
    rw [show (s.readers r).finish.handle = r from hhandle] at hsame ⊢
    exact mirrored_read hat hasked (TicketLog.found_of_not_mem hnot) (by simp [ReaderEvent.answer])
      (hsame rfl)
  | tooLarge seq hpc hlt =>
    obtain ⟨hhandle, hat, hasked⟩ := hactive seq (by rw [hpc]; rfl)
    have hreading : (s.readers r).pc.reading? = some seq := by
      rw [hpc]
      rfl
    obtain ⟨claim, hclaim, -, -, hlength⟩ :=
      reading_stored hcommit hpayload hhandles hcursor hreading
    have hnarrow := hdelivery.narrow_claims claim (List.mem_of_getElem? hclaim)
    rw [hlength, Nat.mod_eq_of_lt hnarrow] at hlt
    have hcommitted := hcursor.reading r seq (by rw [hpc]; rfl)
    rw [show (s.readers r).finish.handle = r from hhandle] at hsame ⊢
    exact mirrored_read hat hasked (TicketLog.found_tooLarge (hfilled seq hcommitted)
      (hentry seq claim hclaim) hlt) (by simp [ReaderEvent.answer]) (hsame rfl)
  | storeSeq seq out hpc =>
    obtain ⟨hhandle, hat, hasked⟩ := hactive seq (by rw [hpc]; rfl)
    have hready := (hhandles.reader_ready r (by simp [hpc])).2
    simp only [Reader.Follows, hpc] at hfollows
    obtain ⟨claim, hclaim, rfl⟩ := hfollows
    have hcommitted := hcursor.reading r seq (by rw [hpc]; rfl)
    have hfound := TicketLog.found_entry (hfilled seq hcommitted) (hentry seq claim hclaim)
      (hfit seq _ hpc)
    have hmoved : (s.subscribers r).position?
        { s.mem with subReadSeq := update s.mem.subReadSeq (s.readers r).id (seq + 1) } =
        some (seq + 1) := by
      simp [hready, SubscriberPc.position?]
    rw [show (s.readers r).finish.handle = r from hhandle] at hview ⊢
    refine mirrored_single (.read r) trivial ?_
    rw [hview, hmoved]
    exact TicketLog.step_read_entry hat hasked hfound
  | _ =>
    refine mirrored_silent ?_ rfl
    rw [hsame rfl]
    simp [TicketLog.setRoom, ticketLogOf, Reader.room?, Reader.goto, *]

end Cursors

/-! ### Runs -/

/-- The bus refines the ticket log. In every run in which each handle stays with its thread, every
call has a length that fits the length word and every capacity check counts who joined, what is seen
of the calls is what the log does, one instant for each of their effects: the tickets taken and
filled, and every answer to a writer or a reader. The run ends in the log that it stands for. -/
theorem linearized (g : Geometry) (slab : ℕ → UInt8) (trace : List Event) (s : State)
    (hrun : Run (busSystem g slab) (fun _ s action ↦ JoinsSafely g s action) trace s) :
    Run (logSystem g) (lapBounded g) (trace.filterMap observe) (ticketLogOf trace s) := by
  refine hrun.simulate ticketLogOf observe rfl ?_
  intro trace s action s' events hprevious hallowed hstep
  have hkeeps : ∀ (_ : List Event) s action, JoinsSafely g s action → KeepsHandles s action :=
    fun _ _ _ hallowed ↦ hallowed.1.keepsHandles
  have hcounts : ∀ (_ : List Event) s action, JoinsSafely g s action → CountsJoined g s action :=
    fun _ _ _ hallowed ↦ hallowed.2.2
  have hcommit := commitInv_run hprevious
  have hhandles := handlesInv_run hkeeps hprevious
  have hcursor := cursorInv_run hkeeps hcounts hprevious
  cases step_cases hstep with
  | producer hthread =>
    exact hthread.mirrored hcommit hcursor (payloadsHave_run hprevious).active
  | subscriber hthread =>
    exact hthread.mirrored hcommit hhandles.owners (noGapInv_run hprevious)
  | reader hthread =>
    exact hthread.mirrored hcommit (payloadInv_run hprevious) hhandles hcursor
      (deliveryInv_run hkeeps hcounts (fun _ _ _ hallowed ↦ hallowed.2.1) hprevious)
      (returnsFit_run hprevious _) (hkeeps trace _ _ hallowed).1

/-- Two producers whose calls overlap: the second has published and returned when the subscriber
still finds nothing, because the first one holds the ticket at its cursor. -/
theorem linearized_overlap : ∃ (trace : List Event) (s : State),
    trace.filterMap observe = [.joined 0 0, .called 0 [7], .taken 0 0, .called 1 [8], .taken 1 1,
      .filled 1 1, .answered 1 .written, .read 0 .nothing, .filled 0 0, .answered 0 .written,
      .read 0 (.entry [7]), .read 0 (.entry [8])] ∧
    Run (logSystem ⟨2, 1, rfl⟩) (lapBounded ⟨2, 1, rfl⟩) (trace.filterMap observe)
      (ticketLogOf trace s) := by
  let g : Geometry := ⟨2, 1, rfl⟩
  let actions : List Action :=
    [subscribing, [.producer 0 (.publish [7]), .producer 1 (.publish [8])],
      List.replicate 10 (.producer 1 (.next false)), receiving 0 1,
      List.replicate 16 (.producer 0 (.next false)), receiving 0 5, receiving 0 5].flatten
  have hexec : ((busSystem g fun _ ↦ 0).exec (State.init fun _ ↦ 0) actions).map
      (fun result ↦ result.2.filterMap observe) = some [.joined 0 0, .called 0 [7], .taken 0 0,
        .called 1 [8], .taken 1 1, .filled 1 1, .answered 1 .written, .read 0 .nothing,
        .filled 0 0, .answered 0 .written, .read 0 (.entry [7]), .read 0 (.entry [8])] := by
    decide +kernel
  have hpermitted : Permitted (busSystem g fun _ ↦ 0) SubscribesFirst [] (State.init fun _ ↦ 0)
      actions := by decide +kernel
  obtain ⟨⟨s, trace⟩, hfinal, hseen⟩ := Option.map_eq_some_iff.mp hexec
  have hrun : Run (busSystem g fun _ ↦ 0) SubscribesFirst trace s :=
    run_of_permitted hpermitted hfinal
  exact ⟨trace, s, hseen,
    linearized g _ trace s (joinsSafely_of_subscribesFirst (by decide) hrun)⟩

/-! ### What an empty answer says -/

/-- A `try_recv` answers that there is nothing only in a state in which the number at its cursor is
not committed. -/
theorem uncommitted_of_empty {g : Geometry} {s s' : State} {action : Action} {events : List Event}
    (hhandles : HandlesInv s) (hcursor : CursorInv g s) {trace : List Event}
    (hcommit : CommitInv g trace s) (hstep : BusStep g s action s' events) {r : ℕ}
    (hempty : .reader r (.returned (.ok none)) ∈ events) :
    ∃ id, s.subscribers r = .ready id ∧ ¬ s.mem.Committed g (s.mem.subReadSeq id) := by
  cases hstep with
  | producer hthread => simp at hempty
  | subscriber hthread => simp at hempty
  | @reader r' act m t reported hthread =>
    cases hthread with
    | empty seq hpc hother =>
      obtain ⟨hhandle, hready⟩ := hhandles.reader_ready r' (by simp [hpc])
      have hread := hcursor.reader_seq r' seq (by rw [hpc]; rfl)
      obtain rfl : r = r' := by simpa [hhandle] using hempty
      refine ⟨_, hready, ?_⟩
      rw [hread]
      exact uncommitted_of_stamp hcommit hhandles hcursor hpc hother
    | _ => simp at hempty

/-- An empty answer is the truth. In every run in which each handle stays with its thread, every
call has a length that fits the length word and every capacity check counts who joined: when a
`try_recv` of a subscriber answers that there is nothing, the subscriber has received everything
from its start up to a number that no call has claimed yet, or that a call in flight still holds. So
it has received everything when no producer call is in flight. -/
theorem drained (g : Geometry) (slab : ℕ → UInt8) (trace : List Event) (s : State)
    (hrun : Run (busSystem g slab) (fun _ s action ↦ JoinsSafely g s action) trace s)
    (action : Action) (s' : State) (events : List Event)
    (hstep : step g s action = some (s', events)) (r start : ℕ)
    (hempty : .reader r (.returned (.ok none)) ∈ events) (hstarted : Started r start trace) :
    ∃ cursor, received r trace = messages (claims trace) start cursor ∧
      (cursor = s.mem.claimSeq ∨ ∃ p, (s.producers p).owned = some cursor) ∧
      ((∀ p, (s.producers p).pc = .idle) →
        received r trace = ((claims trace).drop start).map Claim.payload) := by
  have hkeeps : ∀ (_ : List Event) s action, JoinsSafely g s action → KeepsHandles s action :=
    fun _ _ _ hallowed ↦ hallowed.1.keepsHandles
  have hcursor := cursorInv_run hkeeps (fun _ _ _ hallowed ↦ hallowed.2.2) hrun
  have hcommit := commitInv_run hrun
  obtain ⟨id, hready, huncommitted⟩ := uncommitted_of_empty (handlesInv_run hkeeps hrun) hcursor
    hcommit (step_cases hstep) hempty
  obtain ⟨id', hserved⟩ := served_of_run hkeeps (fun _ _ _ hallowed ↦ hallowed.2.2)
    (fun _ _ _ hallowed ↦ hallowed.2.1) hrun hstarted
  obtain rfl : id = id' := by simpa [hready] using hserved.ready
  have hwaits : s.mem.subReadSeq id = s.mem.claimSeq ∨
      ∃ p, (s.producers p).owned = some (s.mem.subReadSeq id) := by
    rcases hserved.read_le.eq_or_lt with heq | hlt
    · exact .inl heq
    · exact .inr ((hcommit.claimed_cases _ hlt).resolve_left huncommitted)
  refine ⟨s.mem.subReadSeq id, hserved.received_eq, hwaits, fun hrest ↦ ?_⟩
  rcases hwaits with heq | ⟨p, howned⟩
  · rw [hserved.received_eq, heq, messages, ← hcommit.length_claims, List.take_length]
  · exact absurd (hrest p) (Producer.ne_idle_of_owned howned)

/-- A subscriber that has received one message, and then finds nothing on a bus at rest. -/
theorem drained_one : ∃ (trace : List Event) (s : State), (∀ p, (s.producers p).pc = .idle) ∧
    received 0 trace = [[7]] ∧ received 0 trace = ((claims trace).drop 0).map Claim.payload := by
  let system := busSystem tinyGeometry fun _ ↦ 0
  let before : List Action :=
    [subscribing, publishing [7] 13, receiving 0 5, [.reader 0 (.tryRecv 0 1)]].flatten
  have hbefore : (system.exec system.init before).map (fun result ↦ ((result.1.producers 0).pc,
      received 0 result.2, decide (.subscriber 0 (.subscribed 0 0) ∈ result.2))) =
      some (.idle, [[7]], true) := by decide +kernel
  have hafter : (system.exec system.init before).bind (fun result ↦
      (system.step result.1 (.reader 0 .next)).map Prod.snd) =
      some [.reader 0 (.returned (.ok none))] := by decide +kernel
  have hpermitted : Permitted system SubscribesFirst [] system.init before := by decide +kernel
  obtain ⟨⟨s, trace⟩, hstopped, hresult⟩ := Option.map_eq_some_iff.mp hbefore
  simp only [Prod.mk.injEq, decide_eq_true_eq] at hresult
  obtain ⟨hpc, hreceived, hstarted⟩ := hresult
  rw [hstopped] at hafter
  obtain ⟨⟨s', events⟩, hstep, rfl⟩ := Option.map_eq_some_iff.mp hafter
  have hidle : ∀ p, (s.producers p).pc = .idle := by
    intro p
    by_cases hp : p = 0
    · exact hp ▸ hpc
    · rw [exec_producers_of_forall_ne (fun act ↦ by simp [before, subscribing, publishing,
        receiving, hp]) hstopped]
      rfl
  obtain ⟨cursor, -, -, hall⟩ := drained tinyGeometry _ trace s
    (joinsSafely_of_subscribesFirst (by decide) (run_of_permitted hpermitted hstopped))
    (.reader 0 .next) s' _ hstep 0 0 List.mem_cons_self ⟨0, hstarted⟩
  exact ⟨trace, s, hidle, hreceived, hall hidle⟩

end AarnnNsys.Bus
