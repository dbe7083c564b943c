import AarnnNsys.Bus.Join
import AarnnNsys.Bus.Payload

/-!
# What subscribers receive

A `try_recv` that has found its slot committed reads the payload of the claim at its cursor, and
reads it whole (`reading_stored`): the stamp is exact, no call is admitted to write over it before
the cursor has passed, and the bytes are those of the claim. `DeliveryInv` carries this through the
byte-by-byte copy and says what every handle has received: the claims between the read sequence it
started from and its cursor, in order.

`join_safe` is the promise of the bus to a subscriber that joins at any moment (`Served`), for the
runs whose capacity checks count who joined. `join_unsafe` is a run that breaks the promise: a
publisher loads `n_subs` before a subscriber registers and `write_seq` after it has moved past that
subscriber's start. `exact_delivery` is the promise in full when all subscriptions are complete
before the first call.
-/

set_option autoImplicit false
set_option relaxedAutoImplicit false

namespace AarnnNsys.Bus

open Function Lib

/-! ### Stretches of the log -/

/-- The payloads of the claims with sequence numbers from `start` up to `read`. -/
def messages (log : List Claim) (start read : ℕ) : List Message :=
  ((log.take read).drop start).map Claim.payload

section Messages

variable {log : List Claim} {start read : ℕ}

@[simp] theorem messages_self (log : List Claim) (start : ℕ) : messages log start start = [] := by
  simp [messages]

/-- Later claims do not change a stretch of the log. -/
theorem messages_append (hle : read ≤ log.length) (later : List Claim) :
    messages (log ++ later) start read = messages log start read := by
  rw [messages, List.take_append_of_le_length hle, messages]

/-- A stretch of the log grows by the next message. -/
theorem messages_succ (hle : start ≤ read) {claim : Claim} (hclaim : log[read]? = some claim) :
    messages log start (read + 1) = messages log start read ++ [claim.payload] := by
  obtain ⟨hlt, hget⟩ := List.getElem?_eq_some_iff.mp hclaim
  have htake : log.take (read + 1) = log.take read ++ [claim] := by
    rw [List.take_succ_eq_append_getElem hlt, hget]
  have hdrop : (log.take read ++ [claim]).drop start = (log.take read).drop start ++ [claim] :=
    List.drop_append_of_le_length (by rw [List.length_take]; omega)
  rw [messages, htake, hdrop, List.map_append]
  rfl

end Messages

/-- A prefix of a message with the next byte is a prefix. -/
theorem prefix_concat {out message : Message} {byte : UInt8} (hcopied : out <+: message)
    (hbyte : message[out.length]? = some byte) : out ++ [byte] <+: message := by
  obtain ⟨rest, rfl⟩ := hcopied
  rw [List.getElem?_append_right le_rfl, Nat.sub_self] at hbyte
  cases rest with
  | nil => cases hbyte
  | cons first rest =>
    rw [List.getElem?_cons_zero, Option.some.injEq] at hbyte
    exact ⟨rest, by simp [hbyte]⟩

/-! ### A receive call -/

/-- The payload of a call fits its slot only if its length fits the `u32` length word. -/
def NarrowCall (g : Geometry) : Action → Prop
  | .producer _ (.publish payload) | .producer _ (.tryPublish payload) =>
    payload.length ≤ g.slotBytes → payload.length < u32Size
  | _ => True

instance (g : Geometry) : DecidablePred (NarrowCall g) := fun action ↦ by
  unfold NarrowCall
  split <;> infer_instance

/-- A narrow call has a narrow payload. -/
theorem NarrowCall.callHas {g : Geometry} {action : Action} (hnarrow : NarrowCall g action) :
    CallHas g (·.length < u32Size) action := by
  unfold CallHas
  split
  · exact fun _ ↦ hnarrow
  · exact fun _ ↦ hnarrow
  · trivial

/-- Where a slot is narrow every call is. -/
theorem narrowCall_of_slotBytes {g : Geometry} (hslot : g.slotBytes < u32Size) (action : Action) :
    NarrowCall g action := by
  unfold NarrowCall
  split
  · exact fun hsize ↦ hsize.trans_lt hslot
  · exact fun hsize ↦ hsize.trans_lt hslot
  · trivial

/-- What a receive call has copied so far, against the log of claims. -/
def Reader.Follows (log : List Claim) (t : Reader) : Prop :=
  match t.pc with
  | .copy seq len out =>
    ∃ claim, log[seq]? = some claim ∧ len = claim.payload.length ∧ out <+: claim.payload
  | .storeSeq seq out => ∃ claim, log[seq]? = some claim ∧ out = claim.payload
  | _ => True

/-- What a call has copied stays right when the log grows. -/
theorem Reader.Follows.append {trace : List Event} {t : Reader}
    (hfollows : t.Follows (claims trace)) (events : List Event) :
    t.Follows (claims (trace ++ events)) := by
  unfold Reader.Follows at hfollows ⊢
  split at hfollows
  · obtain ⟨claim, hclaim, hrest⟩ := hfollows
    exact ⟨claim, PayloadInv.getElem?_claims_append hclaim, hrest⟩
  · obtain ⟨claim, hclaim, hrest⟩ := hfollows
    exact ⟨claim, PayloadInv.getElem?_claims_append hclaim, hrest⟩
  · trivial

/-- The slot of a committed number that a cursor has not passed is stamped with this number, no call
is admitted to write to it, and it holds the payload of the claim. -/
theorem committed_stored {g : Geometry} {trace : List Event} {s : State}
    (hcommit : CommitInv g trace s) (hpayload : PayloadInv g trace s) (hsafe : CursorSafe g s)
    {h id cursor seq : ℕ} (hcursor : (s.subscribers h).cursor? s.mem = some (id, cursor))
    (hle : cursor ≤ seq) (hcommitted : s.mem.Committed g seq) :
    s.mem.slotSeq (g.idx seq) = seq + 1 ∧
      (∀ p claim, (s.producers p).admitted = some claim → g.idx claim ≠ g.idx seq) ∧
      ∃ claim, (claims trace)[seq]? = some claim ∧ claim.payload.length ≤ g.slotBytes ∧
        s.mem.Stores g (g.idx seq) claim.payload := by
  have hslot := hsafe.slot_le h id cursor hcursor (g.idx seq)
  have hstamp := hcommit.stamp_eq hcommitted (by omega)
  have hfree : ∀ p claim, (s.producers p).admitted = some claim → g.idx claim ≠ g.idx seq := by
    intro p claim hadmitted hsame
    -- the claim of a call admitted to this slot would be committed already
    have hbefore := hsafe.admitted_le hcursor hle hadmitted hsame
    have huncommitted := hcommit.owned_uncommitted p claim (Producer.owned_of_admitted hadmitted)
    rw [Mem.Committed, hsame] at huncommitted
    omega
  exact ⟨hstamp, hfree, hpayload.stored seq hstamp hfree⟩

/-- The slot that a receive call reads holds the payload of the claim at its cursor. -/
theorem reading_stored {g : Geometry} {trace : List Event} {s : State}
    (hcommit : CommitInv g trace s) (hpayload : PayloadInv g trace s) (hhandles : HandlesInv s)
    (hcursor : CursorInv g s) {r seq : ℕ} (hreading : (s.readers r).pc.reading? = some seq) :
    ∃ claim, (claims trace)[seq]? = some claim ∧ claim.payload.length ≤ g.slotBytes ∧
      s.mem.Stores g (g.idx seq) claim.payload := by
  have hseq := ReaderPc.seq?_of_reading? hreading
  have hread := hcursor.reader_seq r seq hseq
  have hready := (hhandles.reader_ready r (ReaderPc.ne_idle_of_seq? hseq)).2
  have hid : (s.subscribers r).cursor? s.mem = some ((s.readers r).id, seq) := by
    rw [hready, ← hread]
    rfl
  exact (committed_stored hcommit hpayload hcursor.safe hid le_rfl
    (hcursor.reading r seq hreading)).2.2

/-! ### The invariant -/

/-- What has been received through the handles of a run. -/
structure DeliveryInv (g : Geometry) (trace : List Event) (s : State) : Prop where
  narrow : ∀ p, (s.producers p).pc ≠ .idle → (s.producers p).payload.length < u32Size
  narrow_claims : ∀ claim ∈ claims trace, claim.payload.length < u32Size
  follows : ∀ r, (s.readers r).Follows (claims trace)
  cursor_le : ∀ h id cursor, (s.subscribers h).cursor? s.mem = some (id, cursor) →
    cursor ≤ s.mem.claimSeq
  unready : ∀ h, (∀ id, s.subscribers h ≠ .ready id) →
    received h trace = [] ∧ ∀ start, ¬ Started h start trace
  ready : ∀ h id, s.subscribers h = .ready id → ∃ start, Started h start trace
  received_eq : ∀ h start id, Started h start trace → s.subscribers h = .ready id →
    start ≤ s.mem.subReadSeq id ∧
      received h trace = messages (claims trace) start (s.mem.subReadSeq id)

/-- The invariant holds in a fresh region. -/
theorem deliveryInv_init (g : Geometry) (slab : ℕ → UInt8) :
    DeliveryInv g [] (State.init slab) where
  narrow := fun _ hactive ↦ absurd rfl hactive
  narrow_claims := fun _ hmem ↦ nomatch hmem
  follows := fun _ ↦ trivial
  cursor_le := fun _ _ _ hcursor ↦ nomatch hcursor
  unready := fun _ _ ↦ ⟨rfl, fun _ hstarted ↦ nomatch hstarted⟩
  ready := fun _ _ hready ↦ nomatch hready
  received_eq := fun _ _ _ hstarted ↦ nomatch hstarted

/-- The number of claims is `claim_seq`. -/
theorem CommitInv.length_claims {g : Geometry} {trace : List Event} {s : State}
    (hcommit : CommitInv g trace s) : (claims trace).length = s.mem.claimSeq := by
  rw [← List.length_map, hcommit.claims_sequence, List.length_range]

/-- `write_seq` never passes `claim_seq`. -/
theorem CommitInv.writeSeq_le {g : Geometry} {trace : List Event} {s : State}
    (hcommit : CommitInv g trace s) : s.mem.writeSeq ≤ s.mem.claimSeq := by
  by_contra hlt
  have hcommitted := hcommit.write_committed s.mem.claimSeq (by omega)
  exact absurd hcommitted (not_lt.mpr (hcommit.slot_claimed _))

namespace DeliveryInv

variable {g : Geometry} {trace : List Event} {s : State}

/-- A producer step only makes the log longer. -/
theorem producer_step (hinv : DeliveryInv g trace s) (hcommit : CommitInv g trace s) {p : ℕ}
    {act : ProducerAct} {m : Mem} {t : Producer} {events : List ProducerEvent}
    (hcall : NarrowCall g (.producer p act))
    (hstep : ProducerStep g s.mem (s.producers p) act m t events) :
    DeliveryInv g (trace ++ events.map (.producer p)) (s.setProducer p m t) := by
  obtain ⟨-, hread⟩ := hstep.registry
  have hgrow := hstep.claimSeq_le
  have hcursor : ∀ h, (s.subscribers h).cursor? m = (s.subscribers h).cursor? s.mem := fun h ↦
    SubscriberPc.cursor?_congr fun id _ ↦ congrFun hread id
  have hstarted : ∀ h start, Started h start (trace ++ events.map (.producer p)) ↔
      Started h start trace := fun h start ↦ started_append_iff (by simp)
  obtain ⟨hnarrow, hclaims⟩ :=
    PayloadsHave.producer_step ⟨hinv.narrow, hinv.narrow_claims⟩ hcommit hcall.callHas hstep
  refine ⟨hnarrow, hclaims, ?_, ?_, ?_, ?_, ?_⟩
  · exact fun r ↦ (hinv.follows r).append _
  · intro h id cursor hid
    simp only [State.setProducer, hcursor] at hid ⊢
    exact (hinv.cursor_le h id cursor hid).trans hgrow
  · intro h hnot
    obtain ⟨hreceived, hnone⟩ := hinv.unready h hnot
    exact ⟨by simp [hreceived], fun start ↦ by rw [hstarted]; exact hnone start⟩
  · intro h id hready
    obtain ⟨start, hstart⟩ := hinv.ready h id hready
    exact ⟨start, (hstarted h start).mpr hstart⟩
  · intro h start id hstart hready
    simp only [State.setProducer] at hready ⊢
    rw [hstarted] at hstart
    obtain ⟨hle, hreceived⟩ := hinv.received_eq h start id hstart hready
    have hbelow := hinv.cursor_le h id (s.mem.subReadSeq id) (by rw [hready]; rfl)
    rw [hread, received_append, received_map_producer, List.append_nil, hreceived, claims_append,
      messages_append (by rwa [hcommit.length_claims])]
    exact ⟨hle, rfl⟩

/-- A step of a subscribe call adds a handle that has received nothing yet. -/
theorem subscriber_step (hinv : DeliveryInv g trace s) (hcommit : CommitInv g trace s)
    (hhandles : HandlesInv s) {h : ℕ} {act : SubscriberAct} {m : Mem} {pc : SubscriberPc}
    {events : List SubscriberEvent}
    (hstep : SubscriberStep s.mem (s.subscribers h) act m pc events) :
    DeliveryInv g (trace ++ events.map (.subscriber h)) (s.setSubscriber h m pc) := by
  have hclaims : claims (trace ++ events.map (.subscriber h)) = claims trace := by simp
  have hreceived : ∀ h', received h' (trace ++ events.map (.subscriber h)) = received h' trace := by
    simp
  obtain ⟨hclaim, -, -⟩ := hstep.words
  have hunready : ∀ id, s.subscribers h ≠ .ready id := by
    intro id hready
    cases hstep <;> simp_all
  obtain ⟨hnothing, hnostart⟩ := hinv.unready h hunready
  have hstarted : ∀ h' ≠ h, ∀ start, Started h' start (trace ++ events.map (.subscriber h)) ↔
      Started h' start trace := by
    intro h' hne start
    exact started_append_iff (by simp [Ne.symm hne])
  have hkept : ∀ h' id, s.subscribers h' = .ready id → m.subReadSeq id = s.mem.subReadSeq id :=
    fun _ _ hready ↦ hhandles.owners.entry_kept hstep hready
  constructor
  · exact hinv.narrow
  · rw [hclaims]
    exact hinv.narrow_claims
  · rw [hclaims]
    exact hinv.follows
  · intro h' id cursor hid
    simp only [State.setSubscriber, hclaim] at hid ⊢
    by_cases hh : h' = h
    · subst hh
      rw [update_self] at hid
      cases hstep with
      | loadStart other hpc =>
        simp only [SubscriberPc.cursor?, Option.some.injEq, Prod.mk.injEq] at hid
        rw [← hid.2]
        exact hcommit.writeSeq_le
      | storeStart other start hpc =>
        refine hinv.cursor_le h' other cursor ?_
        simp only [SubscriberPc.cursor?, Option.some.injEq, Prod.mk.injEq, update_self] at hid
        rw [hpc, ← hid.2]
        rfl
      | _ => simp [SubscriberPc.cursor?] at hid
    · rw [update_of_ne hh, SubscriberPc.cursor?_congr (hkept h')] at hid
      exact hinv.cursor_le h' id cursor hid
  · intro h' hnot
    simp only [State.setSubscriber] at hnot
    rw [hreceived]
    by_cases hh : h' = h
    · subst hh
      rw [update_self] at hnot
      refine ⟨hnothing, fun start hstart ↦ ?_⟩
      obtain ⟨id, hmem⟩ := hstart
      rcases List.mem_append.mp hmem with hold | hnew
      · exact hnostart start ⟨id, hold⟩
      · cases hstep <;> simp_all
    · rw [update_of_ne hh] at hnot
      obtain ⟨hempty, hnone⟩ := hinv.unready h' hnot
      exact ⟨hempty, fun start ↦ by rw [hstarted h' hh]; exact hnone start⟩
  · intro h' id hready
    simp only [State.setSubscriber] at hready
    by_cases hh : h' = h
    · subst hh
      rw [update_self] at hready
      cases hstep with
      | storeStart other start hpc => exact ⟨start, other, by simp⟩
      | _ => cases hready
    · rw [update_of_ne hh] at hready
      obtain ⟨start, hstart⟩ := hinv.ready h' id hready
      exact ⟨start, (hstarted h' hh start).mpr hstart⟩
  · intro h' start id hstart hready
    simp only [State.setSubscriber] at hready ⊢
    rw [hreceived, hclaims]
    by_cases hh : h' = h
    · subst hh
      rw [update_self] at hready
      cases hstep with
      | storeStart other begin hpc =>
        obtain rfl : other = id := by simpa using hready
        obtain ⟨id', hmem⟩ := hstart
        rcases List.mem_append.mp hmem with hold | hnew
        · exact absurd ⟨id', hold⟩ (hnostart start)
        · have hbegin : start = begin := by simp_all
          simp [hnothing, hbegin]
      | _ => cases hready
    · rw [update_of_ne hh] at hready
      rw [hkept h' id hready]
      exact hinv.received_eq h' start id ((hstarted h' hh start).mp hstart) hready

/-- A step of a reader copies the message at its cursor, byte by byte. -/
theorem follows_step (hinv : DeliveryInv g trace s) (hcommit : CommitInv g trace s)
    (hpayload : PayloadInv g trace s) (hhandles : HandlesInv s) (hcursor : CursorInv g s) {r : ℕ}
    {act : ReaderAct} {m : Mem} {t : Reader} {events : List ReaderEvent}
    (hstep : ReaderStep g s.subscribers s.mem (s.readers r) act m t events) :
    t.Follows (claims trace) := by
  have hbefore := hinv.follows r
  have hstored : ∀ seq, (s.readers r).pc.reading? = some seq →
      ∃ claim, (claims trace)[seq]? = some claim ∧ claim.payload.length ≤ g.slotBytes ∧
        s.mem.Stores g (g.idx seq) claim.payload :=
    fun seq hreading ↦ reading_stored hcommit hpayload hhandles hcursor hreading
  cases hstep with
  | loadLen seq hpc hle =>
    obtain ⟨claim, hlog, -, -, hlength⟩ := hstored seq (by rw [hpc]; rfl)
    refine ⟨claim, hlog, ?_, List.nil_prefix⟩
    rw [hlength, Nat.mod_eq_of_lt]
    exact hinv.narrow_claims claim (List.mem_of_getElem? hlog)
  | copyByte seq len out hpc hlt =>
    simp only [Reader.Follows, hpc] at hbefore
    obtain ⟨claim, hlog, hlen, hcopied⟩ := hbefore
    obtain ⟨other, hother, -, hholds, -⟩ := hstored seq (by rw [hpc]; rfl)
    obtain rfl : claim = other := by simpa [hlog] using hother
    exact ⟨claim, hlog, hlen, prefix_concat hcopied (hholds out.length (by omega))⟩
  | copyDone seq len out hpc hle =>
    simp only [Reader.Follows, hpc] at hbefore
    obtain ⟨claim, hlog, hlen, hcopied⟩ := hbefore
    exact ⟨claim, hlog, hcopied.eq_of_length_le (by omega)⟩
  | _ => trivial

/-- A step of a reader moves no cursor and returns nothing, or it returns the message at the cursor
of its handle and moves this cursor to the next. -/
theorem returns_step (hinv : DeliveryInv g trace s) (hhandles : HandlesInv s)
    (hcursor : CursorInv g s) {r : ℕ} {act : ReaderAct} {m : Mem} {t : Reader}
    {events : List ReaderEvent}
    (hstep : ReaderStep g s.subscribers s.mem (s.readers r) act m t events) :
    (m.subReadSeq = s.mem.subReadSeq ∧
        ∀ h, received h (events.map (.reader t.handle)) = []) ∨
      ∃ claim, s.subscribers r = .ready t.id ∧ (claims trace)[s.mem.subReadSeq t.id]? = some claim ∧
        m.subReadSeq = update s.mem.subReadSeq t.id (s.mem.subReadSeq t.id + 1) ∧
        ∀ h, received h (events.map (.reader t.handle)) =
          if r = h then [claim.payload] else [] := by
  cases hstep with
  | storeSeq seq out hpc =>
    have hseq := hcursor.reader_seq r seq (by rw [hpc]; rfl)
    obtain ⟨hhandle, hready⟩ := hhandles.reader_ready r (by simp [hpc])
    have hbefore := hinv.follows r
    simp only [Reader.Follows, hpc] at hbefore
    obtain ⟨claim, hlog, rfl⟩ := hbefore
    subst hseq
    refine Or.inr ⟨claim, hready, hlog, rfl, fun h ↦ ?_⟩
    simp only [Reader.finish_handle, hhandle]
    by_cases hh : r = h <;> simp [received, Event.received?, hh]
  | _ => exact Or.inl ⟨rfl, fun h ↦ by simp [received, Event.received?]⟩

/-- A step of a reader returns a message whole or not at all. -/
theorem reader_step (hinv : DeliveryInv g trace s) (hcommit : CommitInv g trace s)
    (hpayload : PayloadInv g trace s) (hhandles : HandlesInv s) (hcursor : CursorInv g s) {r : ℕ}
    {act : ReaderAct} {m : Mem} {t : Reader} {events : List ReaderEvent}
    (hstep : ReaderStep g s.subscribers s.mem (s.readers r) act m t events) :
    DeliveryInv g (trace ++ events.map (.reader t.handle)) (s.setReader r m t) := by
  have hclaims : claims (trace ++ events.map (.reader t.handle)) = claims trace := by simp
  have hstarted : ∀ h start, Started h start (trace ++ events.map (.reader t.handle)) ↔
      Started h start trace := fun h start ↦ started_append_iff (by simp)
  obtain ⟨hclaim, -, -⟩ := hstep.words
  have hfollows := hinv.follows_step hcommit hpayload hhandles hcursor hstep
  have hmove := hinv.returns_step hhandles hcursor hstep
  constructor
  · exact hinv.narrow
  · rw [hclaims]
    exact hinv.narrow_claims
  · intro r'
    rw [hclaims]
    simp only [State.setReader]
    by_cases hr : r' = r
    · subst hr
      rw [update_self]
      exact hfollows
    · rw [update_of_ne hr]
      exact hinv.follows r'
  · intro h id cursor hid
    simp only [State.setReader, hclaim] at hid ⊢
    rcases hmove with ⟨hsame, -⟩ | ⟨claim, hready, hlog, hread, -⟩
    · rw [SubscriberPc.cursor?_congr (fun id _ ↦ congrFun hsame id)] at hid
      exact hinv.cursor_le h id cursor hid
    · have hlt := (List.getElem?_eq_some_iff.mp hlog).1
      rw [hcommit.length_claims] at hlt
      cases hpc : s.subscribers h with
      | ready other =>
        simp only [hpc, SubscriberPc.cursor?, Option.some.injEq, Prod.mk.injEq] at hid
        rw [← hid.2, hread, update_apply]
        split_ifs with hother
        · omega
        · exact hinv.cursor_le h other _ (by rw [hpc]; rfl)
      | storeStart other start =>
        exact hinv.cursor_le h id cursor (by rw [hpc] at hid ⊢; exact hid)
      | _ => simp [hpc, SubscriberPc.cursor?] at hid
  · intro h hnot
    obtain ⟨hempty, hnone⟩ := hinv.unready h hnot
    refine ⟨?_, fun start ↦ by rw [hstarted]; exact hnone start⟩
    rcases hmove with ⟨-, hsilent⟩ | ⟨claim, hready, hlog, hread, hevent⟩
    · simp [hempty, hsilent]
    · have hne : r ≠ h := by
        rintro rfl
        exact hnot t.id hready
      simp [hempty, hevent, hne]
  · intro h id hready
    obtain ⟨start, hstart⟩ := hinv.ready h id hready
    exact ⟨start, (hstarted h start).mpr hstart⟩
  · intro h start id hstart hready
    simp only [State.setReader] at hready ⊢
    rw [hstarted] at hstart
    obtain ⟨hle, hreceived⟩ := hinv.received_eq h start id hstart hready
    rcases hmove with ⟨hsame, hsilent⟩ | ⟨claim, hown, hlog, hread, hevent⟩
    · rw [hsame, received_append, hsilent, List.append_nil, hclaims]
      exact ⟨hle, hreceived⟩
    · rw [received_append, hevent, hclaims, hread]
      by_cases hh : r = h
      · subst hh
        obtain rfl : t.id = id := by simpa [hown] using hready
        rw [if_pos rfl, update_self, hreceived, messages_succ hle hlog]
        exact ⟨by omega, rfl⟩
      · have hne : id ≠ t.id := by
          rintro rfl
          exact hh (hhandles.owners.eq_of_ready hown hready)
        rw [if_neg hh, update_of_ne hne, List.append_nil]
        exact ⟨hle, hreceived⟩

end DeliveryInv

/-- What every handle has received, in the runs whose handles stay with their threads, whose
capacity checks count who joined and whose calls have lengths that fit the length word. -/
theorem deliveryInv_run {g : Geometry} {slab : ℕ → UInt8} {guard : Guard State Action Event}
    (hkeeps : ∀ trace s action, guard trace s action → KeepsHandles s action)
    (hcounts : ∀ trace s action, guard trace s action → CountsJoined g s action)
    (hnarrow : ∀ trace s action, guard trace s action → NarrowCall g action)
    {trace : List Event} {s : State} (hrun : Run (busSystem g slab) guard trace s) :
    DeliveryInv g trace s := by
  refine hrun.invariant (DeliveryInv g) (deliveryInv_init g slab) ?_
  intro trace s action s' events hprevious hinv hallowed hstep
  have hcommit := commitInv_run hprevious
  have hhandles := handlesInv_run hkeeps hprevious
  cases step_cases hstep with
  | producer hthread => exact hinv.producer_step hcommit (hnarrow _ _ _ hallowed) hthread
  | subscriber hthread => exact hinv.subscriber_step hcommit hhandles hthread
  | reader hthread =>
    exact hinv.reader_step hcommit (payloadInv_run hprevious) hhandles
      (cursorInv_run hkeeps hcounts hprevious) hthread

/-! ### The promise to a subscriber -/

/-- The promise of the bus to the subscriber of handle `h`, with read sequence `start` and
identifier `id`: it has received the messages from `start` up to its cursor, whole and in order; no
call is admitted to write over a number its cursor has not passed, and no such number's slot holds a
later stamp. -/
structure Served (g : Geometry) (trace : List Event) (s : State) (h start id : ℕ) : Prop where
  ready : s.subscribers h = .ready id
  start_le : start ≤ s.mem.subReadSeq id
  read_le : s.mem.subReadSeq id ≤ s.mem.claimSeq
  received_eq : received h trace = messages (claims trace) start (s.mem.subReadSeq id)
  admitted_le : ∀ sequence, s.mem.subReadSeq id ≤ sequence → ∀ p claim,
    (s.producers p).admitted = some claim → g.idx claim = g.idx sequence → claim ≤ sequence
  stamp_le : ∀ sequence, s.mem.subReadSeq id ≤ sequence →
    s.mem.slotSeq (g.idx sequence) ≤ sequence + 1

/-- A run that keeps every cursor safe serves every subscriber. -/
theorem served_of_run {g : Geometry} {slab : ℕ → UInt8} {guard : Guard State Action Event}
    (hkeeps : ∀ trace s action, guard trace s action → KeepsHandles s action)
    (hcounts : ∀ trace s action, guard trace s action → CountsJoined g s action)
    (hnarrow : ∀ trace s action, guard trace s action → NarrowCall g action)
    {trace : List Event} {s : State} (hrun : Run (busSystem g slab) guard trace s) {h start : ℕ}
    (hstarted : Started h start trace) : ∃ id, Served g trace s h start id := by
  have hcommit := commitInv_run hrun
  have hcursor := cursorInv_run hkeeps hcounts hrun
  have hdelivery := deliveryInv_run hkeeps hcounts hnarrow hrun
  obtain ⟨id, hready⟩ : ∃ id, s.subscribers h = .ready id := by
    by_contra hnot
    push Not at hnot
    exact (hdelivery.unready h hnot).2 start hstarted
  have hid : (s.subscribers h).cursor? s.mem = some (id, s.mem.subReadSeq id) := by
    rw [hready]
    rfl
  obtain ⟨hle, hreceived⟩ := hdelivery.received_eq h start id hstarted hready
  exact ⟨id, hready, hle, hdelivery.cursor_le h id _ hid, hreceived,
    fun _ hread _ _ hadmitted hslot ↦ hcursor.safe.admitted_le hid hread hadmitted hslot,
    fun _ hread ↦ hcursor.safe.stamp_le hcommit hid hread⟩

/-- The steps under which joining a live bus is safe. -/
def JoinsSafely (g : Geometry) (s : State) (action : Action) : Prop :=
  Disciplined s action ∧ NarrowCall g action ∧ CountsJoined g s action

/-- A simpler condition that is enough: nobody joins between the two loads of a capacity check. -/
def JoinsApart (g : Geometry) (s : State) (action : Action) : Prop :=
  Disciplined s action ∧ NarrowCall g action ∧ CountsAll s action

instance (g : Geometry) (s : State) : DecidablePred (JoinsApart g s) := fun action ↦
  inferInstanceAs (Decidable (Disciplined s action ∧ NarrowCall g action ∧ CountsAll s action))

theorem JoinsApart.joinsSafely {g : Geometry} {s : State} {action : Action}
    (hapart : JoinsApart g s action) (hregistry : RegistryInv s) : JoinsSafely g s action :=
  ⟨hapart.1, hapart.2.1, hapart.2.2.countsJoined hregistry.handles.owners⟩

/-- Joining a live bus. In every disciplined run whose calls have lengths that fit the length word
and whose capacity checks count who joined, every subscriber, whenever it subscribed, is served from
the read sequence it started from. -/
theorem join_safe (g : Geometry) (slab : ℕ → UInt8) (trace : List Event) (s : State)
    (hrun : Run (busSystem g slab) (fun _ s action ↦ JoinsSafely g s action) trace s)
    (h start : ℕ) (hstarted : Started h start trace) :
    (claims trace).map Claim.sequence = List.range s.mem.claimSeq ∧
      ∃ id, Served g trace s h start id :=
  ⟨(commitInv_run hrun).claims_sequence,
    served_of_run (fun _ _ _ hallowed ↦ hallowed.1.keepsHandles) (fun _ _ _ hallowed ↦ hallowed.2.2)
      (fun _ _ _ hallowed ↦ hallowed.2.1) hrun hstarted⟩

/-- A subscriber that joins between two messages on a ring of one slot, and receives the second. -/
theorem join_safe_second : ∃ (trace : List Event) (s : State), Started 0 1 trace ∧
    received 0 trace = [[8]] ∧ ∃ id, Served tinyGeometry trace s 0 1 id := by
  let apart : Guard State Action Event := fun _ s action ↦ JoinsApart tinyGeometry s action
  let actions : List Action :=
    [.producer 0 (.publish [7]) :: List.replicate 12 (.producer 0 (.next false)),
      .subscriber 0 .subscribe :: List.replicate 2 (.subscriber 0 .next),
      .producer 0 (.publish [8]) :: List.replicate 8 (.producer 0 (.next false)),
      .reader 0 (.tryRecv 0 1) :: List.replicate 5 (.reader 0 .next)].flatten
  have hexec : ((busSystem tinyGeometry fun _ ↦ 0).exec (State.init fun _ ↦ 0) actions).map
      (fun result ↦ (received 0 result.2, decide (.subscriber 0 (.subscribed 0 1) ∈ result.2))) =
      some ([[8]], true) := by decide
  have hpermitted : Permitted (busSystem tinyGeometry fun _ ↦ 0) apart [] (State.init fun _ ↦ 0)
      actions := by decide
  obtain ⟨⟨s, trace⟩, hfinal, hresult⟩ := Option.map_eq_some_iff.mp hexec
  obtain ⟨hreceived, hevents⟩ := Prod.mk.inj hresult
  have hstarted : Started 0 1 trace := ⟨0, of_decide_eq_true hevents⟩
  have hapart : Run (busSystem tinyGeometry fun _ ↦ 0) apart trace s :=
    run_of_permitted hpermitted hfinal
  have hsafe : Run (busSystem tinyGeometry fun _ ↦ 0)
      (fun _ s action ↦ JoinsSafely tinyGeometry s action) trace s :=
    hapart.strengthen fun hprevious hallowed _ ↦
      hallowed.joinsSafely (registryInv_run (fun _ _ _ hkept ↦ hkept.1) hprevious)
  exact ⟨trace, s, hstarted, hreceived, (join_safe _ _ trace s hsafe 0 1 hstarted).2⟩

/-- The promise can be broken. Thread `1` claims `0` and thread `0` claims `1` and loads
`n_subs = 0`; a subscriber joins with start `0`; thread `1` publishes `0`, which moves `write_seq`
to `1`; thread `0` loads this `write_seq`, is admitted and writes `1` over the unread `0`. -/
theorem join_unsafe : ∃ (trace : List Event) (s : State),
    Run (busSystem tinyGeometry fun _ ↦ 0)
      (fun _ s action ↦ Disciplined s action ∧ NarrowCall tinyGeometry action) trace s ∧
    Started 0 0 trace ∧ s.subscribers 0 = .ready 0 ∧ received 0 trace = [] ∧
    s.mem.subReadSeq 0 + 1 < s.mem.slotSeq (tinyGeometry.idx (s.mem.subReadSeq 0)) ∧
    ∀ id, ¬ Served tinyGeometry trace s 0 0 id := by
  let actions : List Action :=
    .producer 1 (.publish [7]) :: .producer 0 (.publish [8]) :: .producer 0 (.next false) ::
      .subscriber 0 .subscribe :: List.replicate 2 (.subscriber 0 .next) ++
      List.replicate 11 (.producer 1 (.next false)) ++ List.replicate 6 (.producer 0 (.next false))
  have hexec : ((busSystem tinyGeometry fun _ ↦ 0).exec (State.init fun _ ↦ 0) actions).map
      (fun result ↦ (decide (.subscriber 0 (.subscribed 0 0) ∈ result.2),
        result.1.subscribers 0, received 0 result.2, result.1.mem.subReadSeq 0,
        result.1.mem.slotSeq 0)) = some (true, .ready 0, [], 0, 2) := by decide
  have hpermitted : Permitted (busSystem tinyGeometry fun _ ↦ 0)
      (fun _ s action ↦ Disciplined s action ∧ NarrowCall tinyGeometry action) []
      (State.init fun _ ↦ 0) actions := by decide
  obtain ⟨⟨s, trace⟩, hfinal, hresult⟩ := Option.map_eq_some_iff.mp hexec
  simp only [Prod.mk.injEq] at hresult
  obtain ⟨hevents, hready, hreceived, hread, hslot⟩ := hresult
  have hstarted : Started 0 0 trace := ⟨0, of_decide_eq_true hevents⟩
  have hpast : s.mem.subReadSeq 0 + 1 < s.mem.slotSeq (tinyGeometry.idx (s.mem.subReadSeq 0)) := by
    rw [hread]
    exact hslot.ge
  refine ⟨trace, s, run_of_permitted hpermitted hfinal, hstarted, hready, hreceived,
    hpast, fun id hserved ↦ ?_⟩
  obtain rfl : 0 = id := by simpa [hready] using hserved.ready
  exact absurd (hserved.stamp_le _ le_rfl) (not_le.mpr hpast)

end AarnnNsys.Bus
