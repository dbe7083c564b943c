import AarnnNsys.Bus.Shared
import AarnnNsys.Bus.Sequential
import Mathlib.Data.List.TakeDrop

/-!
# The width of the length word

A payload may be as long as a slot, and the constructors bound a slot by the region only, while
`desc.len` has 32 bits and `try_recv` trusts it. `received_shortened` says what a subscriber gets
for every message that is accepted: the first `length % 2 ^ 32` bytes of it, which is the message if
and only if it is shorter than `2 ^ 32` bytes. It holds of the calls in flight, whatever they are
interleaved with, and of a call that is left alone with a message at its cursor.

`wide_payload_lost` is a message of `2 ^ 32` bytes, which arrives as one of no bytes.
-/

set_option autoImplicit false
set_option relaxedAutoImplicit false

namespace AarnnNsys.Bus

open Function Lib

/-- What the length word leaves of a payload. -/
def shortened (payload : Message) : Message := payload.take (payload.length % u32Size)

/-- A payload is whole exactly when its length fits the word. -/
theorem shortened_eq_iff (payload : Message) :
    shortened payload = payload ↔ payload.length < u32Size := by
  rw [shortened, List.take_eq_self_iff]
  have hword : payload.length % u32Size < u32Size := Nat.mod_lt _ (by decide)
  constructor
  · exact fun hle ↦ hle.trans_lt hword
  · exact fun hlt ↦ (Nat.mod_eq_of_lt hlt).ge

/-! ### Length words -/

/-- No length word exceeds a slot. -/
def Mem.LengthsFit (g : Geometry) (m : Mem) : Prop := ∀ i, m.descLen i ≤ g.slotBytes

/-- A call stores the length of a payload that fits its slot. -/
theorem ProducerStep.lengthsFit {g : Geometry} {m m' : Mem} {t t' : Producer} {act : ProducerAct}
    {events : List ProducerEvent} (hsized : t.Sized g) (hfit : m.LengthsFit g)
    (hstep : ProducerStep g m t act m' t' events) : m'.LengthsFit g := by
  cases hstep with
  | storeDesc b claim hpc =>
    intro i
    simp only [update_apply]
    split_ifs
    · exact (Nat.mod_le _ _).trans (hsized (by simp [hpc]))
    · exact hfit i
  | _ => exact hfit

/-- No length word exceeds a slot in any run. -/
theorem lengthsFit_run {g : Geometry} {slab : ℕ → UInt8} {guard : Guard State Action Event}
    {trace : List Event} {s : State} (hrun : Run (busSystem g slab) guard trace s) :
    s.mem.LengthsFit g := by
  refine hrun.invariant (fun _ s ↦ s.mem.LengthsFit g) (fun _ ↦ Nat.zero_le _) ?_
  intro trace s action s' events hprevious hfit _ hstep
  cases step_cases hstep with
  | producer hthread => exact hthread.lengthsFit ((payloadInv_run hprevious).sized _) hfit
  | subscriber hthread => cases hthread <;> exact hfit
  | reader hthread => cases hthread <;> exact hfit

/-! ### Calls in flight -/

/-- What a receive call has copied so far, against the log of claims, while its subscriber has not
passed the message. -/
def Reader.Shortens (log : List Claim) (m : Mem) (t : Reader) : Prop :=
  match t.pc with
  | .copy seq len out => m.subReadSeq t.id ≤ seq → ∃ claim, log[seq]? = some claim ∧
      len = claim.payload.length % u32Size ∧ out.length ≤ len ∧ out <+: claim.payload
  | .storeSeq seq out => m.subReadSeq t.id ≤ seq → ∃ claim, log[seq]? = some claim ∧
      out = shortened claim.payload
  | _ => True

/-- What a call has copied stays right when the log grows and the cursor moves on. -/
theorem Reader.Shortens.mono {trace : List Event} {m m' : Mem} {t : Reader}
    (hshortens : t.Shortens (claims trace) m) (events : List Event)
    (hforward : t.pc ≠ .idle → m.subReadSeq t.id ≤ m'.subReadSeq t.id) :
    t.Shortens (claims (trace ++ events)) m' := by
  unfold Reader.Shortens at hshortens ⊢
  split at hshortens
  all_goals rename_i hpc
  · intro hle
    obtain ⟨claim, hclaim, hrest⟩ := hshortens ((hforward (by simp [hpc])).trans hle)
    exact ⟨claim, PayloadInv.getElem?_claims_append hclaim, hrest⟩
  · intro hle
    obtain ⟨claim, hclaim, hrest⟩ := hshortens ((hforward (by simp [hpc])).trans hle)
    exact ⟨claim, PayloadInv.getElem?_claims_append hclaim, hrest⟩
  · trivial

/-- A step of a reader copies the payload of the claim it reads, up to the length word. Assumes:
the slot of a message that its subscriber has not passed holds the payload of the claim. -/
theorem ReaderStep.shortens {g : Geometry} {log : List Claim} {handles : ℕ → SubscriberPc}
    {m m' : Mem} {t t' : Reader} {act : ReaderAct} {events : List ReaderEvent}
    (hbefore : t.Shortens log m)
    (hstored : ∀ seq, t.pc.reading? = some seq → m.subReadSeq t.id ≤ seq →
      ∃ claim, log[seq]? = some claim ∧ m.Stores g (g.idx seq) claim.payload)
    (hstep : ReaderStep g handles m t act m' t' events) : t'.Shortens log m' := by
  cases hstep with
  | loadLen seq hpc hle =>
    intro hcursor
    obtain ⟨claim, hlog, -, hlength⟩ := hstored seq (by rw [hpc]; rfl) hcursor
    exact ⟨claim, hlog, hlength, Nat.zero_le _, List.nil_prefix⟩
  | copyByte seq len out hpc hlt =>
    simp only [Reader.Shortens, hpc] at hbefore
    intro hcursor
    obtain ⟨claim, hlog, hlen, hout, hcopied⟩ := hbefore hcursor
    obtain ⟨other, hother, hholds, -⟩ := hstored seq (by rw [hpc]; rfl) hcursor
    obtain rfl : claim = other := by simpa [hlog] using hother
    have hpayload : out.length < claim.payload.length :=
      hlt.trans_le (hlen ▸ Nat.mod_le _ _)
    refine ⟨claim, hlog, hlen, ?_, prefix_concat hcopied (hholds _ hpayload)⟩
    simpa using Nat.succ_le_of_lt hlt
  | copyDone seq len out hpc hle =>
    simp only [Reader.Shortens, hpc] at hbefore
    intro hcursor
    obtain ⟨claim, hlog, hlen, hout, hcopied⟩ := hbefore hcursor
    refine ⟨claim, hlog, ?_⟩
    rw [shortened, ← hlen, ← hout.antisymm hle]
    exact List.prefix_iff_eq_take.mp hcopied
  | _ => trivial

section Run

variable {g : Geometry} {slab : ℕ → UInt8} {guard : Guard State Action Event}
  {trace : List Event} {s : State}

/-- The slot that a call reads holds the payload of the claim, as long as its subscriber has not
passed it. -/
theorem unpassed_stored (hrun : Run (busSystem g slab) guard trace s)
    (hshares : ∀ trace s action, guard trace s action → SharesSafely g s action) {h id seq : ℕ}
    (hready : s.subscribers h = .ready id) (hle : s.mem.subReadSeq id ≤ seq)
    (hcommitted : s.mem.Committed g seq) :
    s.mem.slotSeq (g.idx seq) = seq + 1 ∧ ∃ claim, (claims trace)[seq]? = some claim ∧
      s.mem.Stores g (g.idx seq) claim.payload := by
  have hcursor : (s.subscribers h).cursor? s.mem = some (id, s.mem.subReadSeq id) := by
    rw [hready]
    rfl
  obtain ⟨hstamp, -, claim, hclaim, -, hstores⟩ := committed_stored (commitInv_run hrun)
    (payloadInv_run hrun) (sharedInv_run hshares hrun).safe hcursor hle hcommitted
  exact ⟨hstamp, claim, hclaim, hstores⟩

/-- What the calls in flight have copied in a run that shares subscribers safely. -/
theorem shortens_run (hrun : Run (busSystem g slab) guard trace s)
    (hshares : ∀ trace s action, guard trace s action → SharesSafely g s action) (r : ℕ) :
    (s.readers r).Shortens (claims trace) s.mem := by
  revert r
  refine hrun.invariant (fun trace s ↦ ∀ r, (s.readers r).Shortens (claims trace) s.mem)
    (fun _ ↦ trivial) ?_
  intro trace s action s' events hprevious hinv hallowed hstep r
  have howners := ownersInv_run (fun _ _ _ hkept ↦ (hshares _ _ _ hkept).1) hprevious
  have hbus := step_cases hstep
  -- a call that the step is not about: its cursor does not go back
  have hother : (s.readers r).Shortens (claims (trace ++ events)) s'.mem :=
    (hinv r).mono events fun hactive ↦
      hbus.forward howners (hshares _ _ _ hallowed).2.2 (howners.reader_ready r hactive)
  cases hbus with
  | producer hthread => exact hother
  | subscriber hthread => exact hother
  | @reader r' act m t reported hthread =>
    by_cases hr : r = r'
    · subst hr
      simp only [State.setReader, update_self, claims_append, claims_map_reader, List.append_nil]
      refine hthread.shortens (hinv r) fun seq hreading hle ↦ ?_
      have hready := howners.reader_ready r
        (ReaderPc.ne_idle_of_seq? (ReaderPc.seq?_of_reading? hreading))
      exact (unpassed_stored hprevious hshares hready hle
        (readsCommitted_run hprevious r seq hreading)).2
    · simpa only [State.setReader, update_of_ne hr] using hother

end Run

/-! ### What is received -/

/-- A `try_recv` through handle `h` that is left alone returns a result. -/
def Mem.Receives (g : Geometry) (m : Mem) (h id outLen : ℕ)
    (result : Except BusError (Option Message)) : Prop :=
  ∃ final, Settles (readerCall g) (m, beginTryRecv m h id outLen) final [.returned result]

/-- What a call with a large enough buffer receives from a slot that holds a message. -/
theorem Mem.Stores.receives {g : Geometry} {m : Mem} {h id outLen : ℕ} {payload : Message}
    (hstores : m.Stores g (g.idx (m.subReadSeq id)) payload)
    (hstamp : m.slotSeq (g.idx (m.subReadSeq id)) = m.subReadSeq id + 1)
    (hlength : m.descLen (g.idx (m.subReadSeq id)) ≤ outLen) :
    m.Receives g h id outLen (.ok (some (shortened payload))) := by
  obtain ⟨hholds, hword⟩ := hstores
  have hle : payload.length % u32Size ≤ payload.length := Nat.mod_le _ _
  have hprefix : m.Holds g (g.idx (m.subReadSeq id)) (shortened payload)
      (shortened payload).length := by
    intro k hk
    rw [shortened, List.length_take_of_le hle] at hk
    rw [shortened, List.getElem?_take_of_lt hk]
    exact hholds k (hk.trans_le hle)
  have hbytes := hprefix.bytes_eq
  rw [shortened, List.length_take_of_le hle, ← hword] at hbytes
  rw [shortened, ← hword, ← hbytes]
  exact ⟨_, recv_settles hstamp hlength⟩

/-- What a call receives is the message exactly when the length of the message fits the word. -/
theorem Mem.Receives.whole_iff {g : Geometry} {m : Mem} {h id outLen : ℕ} {payload : Message}
    (hreceives : m.Receives g h id outLen (.ok (some (shortened payload)))) :
    m.Receives g h id outLen (.ok (some payload)) ↔ payload.length < u32Size := by
  rw [← shortened_eq_iff]
  constructor
  · rintro ⟨final, hsettles⟩
    obtain ⟨other, hother⟩ := hreceives
    simpa using (hother.unique hsettles).2
  · intro heq
    rwa [heq] at hreceives

/-- What a subscriber receives of an accepted message. In every run in which capacity checks count
who joined, no call stores a stale cursor and the count of subscribe calls fits its word: a
subscriber with a committed message at its cursor and a buffer of `slot_bytes` bytes that calls
`try_recv` undisturbed receives this message if and only if it is shorter than `2 ^ 32` bytes, and
the first `length % 2 ^ 32` bytes of it in any case. A call in flight with such a buffer, whatever
it is interleaved with, returns nothing when no message is committed at the number it has loaded or
its subscriber has passed that number, and otherwise the message at the cursor, shortened in the
same way. It never returns an error. -/
theorem received_shortened (g : Geometry) (slab : ℕ → UInt8) (trace : List Event) (s : State)
    (hrun : Run (busSystem g slab) (fun _ s action ↦ SharesSafely g s action) trace s) :
    (∀ h id, s.subscribers h = .ready id → s.mem.Committed g (s.mem.subReadSeq id) →
      ∃ claim, (claims trace)[s.mem.subReadSeq id]? = some claim ∧
        1 ≤ claim.payload.length ∧ claim.payload.length ≤ g.slotBytes ∧
        ∀ outLen, g.slotBytes ≤ outLen →
          s.mem.Receives g h id outLen (.ok (some (shortened claim.payload))) ∧
          (s.mem.Receives g h id outLen (.ok (some claim.payload)) ↔
            claim.payload.length < u32Size)) ∧
    ∀ r s' events h result, SharesSafely g s (.reader r .next) →
      step g s (.reader r .next) = some (s', events) → g.slotBytes ≤ (s.readers r).outLen →
      Event.reader h (.returned result) ∈ events →
        (result = .ok none ∧ ∃ seq, (s.readers r).pc = .loadSeq seq ∧
          (¬ s.mem.Committed g seq ∨ seq < s.mem.subReadSeq (s.readers r).id)) ∨
        ∃ claim, (claims trace)[s.mem.subReadSeq (s.readers r).id]? = some claim ∧
          result = .ok (some (shortened claim.payload)) ∧
          (result = .ok (some claim.payload) ↔ claim.payload.length < u32Size) := by
  have howners := ownersInv_run (fun _ _ _ hkept ↦ hkept.1) hrun
  have hshares : ∀ trace s action, (fun _ s action ↦ SharesSafely g s action :
      Guard State Action Event) trace s action → SharesSafely g s action := fun _ _ _ hkept ↦ hkept
  constructor
  · intro h id hready hcommitted
    obtain ⟨hstamp, claim, hclaim, hstores⟩ := unpassed_stored hrun hshares hready le_rfl hcommitted
    obtain ⟨hne, hsize⟩ := (payloadsHave_run hrun).claimed claim (List.mem_of_getElem? hclaim)
    refine ⟨claim, hclaim, List.length_pos_iff.mpr hne, hsize, fun outLen hlen ↦ ?_⟩
    have hreceives := hstores.receives (h := h) hstamp ((lengthsFit_run hrun _).trans hlen)
    exact ⟨hreceives, hreceives.whole_iff⟩
  · intro r s' events h result hallowed hstep hlen hmem
    have hshortens := shortens_run hrun hshares r
    cases step_cases hstep with
    | reader hthread =>
      cases hthread with
      | empty seq hpc hother =>
        obtain ⟨rfl, rfl⟩ : h = _ ∧ result = .ok none := by simpa using hmem
        refine Or.inl ⟨rfl, seq, hpc, ?_⟩
        by_contra hboth
        push Not at hboth
        have hready := howners.reader_ready r (by simp [hpc])
        exact hother (unpassed_stored hrun hshares hready hboth.2 hboth.1).1
      | tooLarge seq hpc hlt =>
        exact absurd ((lengthsFit_run hrun _).trans hlen) (not_le.mpr hlt)
      | storeSeq seq out hpc =>
        obtain ⟨rfl, rfl⟩ : h = _ ∧ result = .ok (some out) := by simpa using hmem
        have hcurrent : s.mem.subReadSeq (s.readers r).id = seq :=
          hallowed.2.2 seq (by rw [hpc]; rfl)
        simp only [Reader.Shortens, hpc] at hshortens
        obtain ⟨claim, hclaim, rfl⟩ := hshortens hcurrent.le
        refine Or.inr ⟨claim, hcurrent ▸ hclaim, rfl, ?_⟩
        rw [← shortened_eq_iff]
        simp
      | loadSeq | loadLen | copyByte | copyDone => simp at hmem

/-- A subscriber of a ring of one slot with the message `[7]` at its cursor, and a reader thread
that is about to return it. -/
theorem received_shortened_one : ∃ s : State,
    s.subscribers 0 = .ready 0 ∧ s.mem.subReadSeq 0 = 0 ∧ (s.readers 0).pc = .storeSeq 0 [7] ∧
    (∀ outLen, 1 ≤ outLen → s.mem.Receives tinyGeometry 0 0 outLen (.ok (some [7]))) ∧
    ∀ s' events, step tinyGeometry s (.reader 0 .next) = some (s', events) →
      ∀ h result, Event.reader h (.returned result) ∈ events → result = .ok (some [7]) := by
  let system := busSystem tinyGeometry fun _ ↦ 0
  let apart : Guard State Action Event := fun _ s action ↦ SharesApart s action
  let actions : List Action := [subscribing, publishing [7] 13, receiving 0 4].flatten
  have hexec : (system.exec system.init actions).map
      (fun result ↦ (result.1.subscribers 0, result.1.readers 0, result.1.mem.subReadSeq 0,
        result.1.mem.slotSeq 0, claims result.2)) =
      some (.ready 0, ⟨0, 0, 1, .storeSeq 0 [7]⟩, 0, 1, [⟨0, 0, [7]⟩]) := by decide +kernel
  have hpermitted : Permitted system apart [] system.init actions := by decide +kernel
  obtain ⟨⟨s, trace⟩, hfinal, hresult⟩ := Option.map_eq_some_iff.mp hexec
  simp only [Prod.mk.injEq] at hresult
  obtain ⟨hready, hreader, hread, hslot, hclaims⟩ := hresult
  have hapart : Run system apart trace s := run_of_permitted hpermitted hfinal
  have hsafe : Run (busSystem tinyGeometry fun _ ↦ 0)
      (fun _ s action ↦ SharesSafely tinyGeometry s action) trace s := by
    refine hapart.strengthen fun hprevious hallowed _ ↦ ⟨hallowed.1, ?_, hallowed.2.2⟩
    exact hallowed.2.1.countsJoined (ownersInv_run (fun _ _ _ hkept ↦ hkept.1) hprevious)
  obtain ⟨halone, hflight⟩ := received_shortened tinyGeometry _ trace s hsafe
  refine ⟨s, hready, hread, by rw [hreader], fun outLen hlen ↦ ?_,
    fun s' events hstep h result hmem ↦ ?_⟩
  · obtain ⟨claim, hclaim, -, -, hall⟩ := halone 0 0 hready (by
      simp [Mem.Committed, hread, tinyGeometry, hslot])
    rw [hread, hclaims] at hclaim
    obtain rfl : claim = ⟨0, 0, [7]⟩ := by simpa using hclaim.symm
    exact (hall outLen hlen).2.mpr (by decide)
  · have hallowed : SharesSafely tinyGeometry s (.reader 0 .next) :=
      ⟨trivial, trivial, by simp [StoresCurrent, hreader, ReaderPc.returning?, hread]⟩
    rcases hflight 0 s' events h result hallowed hstep (by rw [hreader]; decide) hmem with
      ⟨-, seq, hpc, -⟩ | ⟨claim, hclaim, -, hwhole⟩
    · rw [hreader] at hpc
      cases hpc
    · rw [hreader, hread, hclaims] at hclaim
      obtain rfl : claim = ⟨0, 0, [7]⟩ := by simpa using hclaim.symm
      exact hwhole.mpr (by decide)

/-! ### A message that fills the word -/

/-- A ring of one slot of `2 ^ 32` bytes. -/
def hugeGeometry : Geometry := ⟨1, u32Size, isPow2_one⟩

/-- The steps of a run in which every call is made alone. -/
def MadeAlone (s : State) (action : Action) : Prop :=
  CountFits s action ∧ JoinsBetween s action ∧ StoresCurrent s action

/-- Calls that are made alone share subscribers safely. -/
theorem run_of_madeAlone {g : Geometry} {slab : ℕ → UInt8} {trace : List Event} {s : State}
    (hrun : Run (busSystem g slab) (fun _ s action ↦ MadeAlone s action) trace s) :
    Run (busSystem g slab) (fun _ s action ↦ SharesSafely g s action) trace s := by
  refine hrun.strengthen fun {_ s action _ _} hprevious hallowed _ ↦
    ⟨hallowed.1, ?_, hallowed.2.2⟩
  have hcounted : AllCounted s := allCounted_run (fun _ _ _ hkept ↦ hkept.2.1) hprevious
  exact (hcounted.countsAll action).countsJoined
    (ownersInv_run (fun _ _ _ hkept ↦ hkept.1) hprevious)

section Alone

variable {g : Geometry} {slab : ℕ → UInt8} {guard : Guard State Action Event} {trace : List Event}
  {s : State} {m m' : Mem}

/-- A producer call that is left alone continues a run of the bus. -/
theorem run_producer_leads {p : ℕ} {t t' : Producer} {events : List ProducerEvent}
    (hguard : ∀ trace s, guard trace s (.producer p (.next false)))
    (hrun : Run (busSystem g slab) guard trace (s.setProducer p m t))
    (hleads : Leads (producerCall g) (m, t) (m', t') events) :
    Run (busSystem g slab) guard (trace ++ events.map (.producer p)) (s.setProducer p m' t') := by
  refine Run.leads (fun state ↦ s.setProducer p state.1 state.2) (.producer p)
    (fun trace _ ↦ hguard trace _) ?_ hleads hrun
  intro state next events hstep
  simp only [producerCall, Option.map_eq_some_iff, Prod.mk.injEq, Prod.exists] at hstep
  obtain ⟨m, t, reported, htaken, rfl, rfl⟩ := hstep
  simp [busSystem, step, producerAct, State.setProducer, htaken]

/-- A subscribe call that is left alone continues a run of the bus. -/
theorem run_subscriber_leads {h : ℕ} {pc pc' : SubscriberPc} {events : List SubscriberEvent}
    (hguard : ∀ trace s, guard trace s (.subscriber h .next))
    (hrun : Run (busSystem g slab) guard trace (s.setSubscriber h m pc))
    (hleads : Leads subscriberCall (m, pc) (m', pc') events) :
    Run (busSystem g slab) guard (trace ++ events.map (.subscriber h))
      (s.setSubscriber h m' pc') := by
  refine Run.leads (fun state ↦ s.setSubscriber h state.1 state.2) (.subscriber h)
    (fun trace _ ↦ hguard trace _) ?_ hleads hrun
  intro state next events hstep
  simp only [subscriberCall, Option.map_eq_some_iff, Prod.mk.injEq, Prod.exists] at hstep
  obtain ⟨m, pc, reported, htaken, rfl, rfl⟩ := hstep
  simp [busSystem, step, subscriberAct, State.setSubscriber, htaken]

/-- A `subscribe` that is made alone. -/
theorem run_subscribe_alone {h : ℕ}
    (hrun : Run (busSystem g slab) (fun _ s action ↦ MadeAlone s action) trace s)
    (hfree : s.subscribers h = .unsubscribed) (hnone : ∀ p, (s.producers p).counted? = none)
    (hmax : s.mem.nSubs < maxSubscribers) :
    Run (busSystem g slab) (fun _ s action ↦ MadeAlone s action)
      (trace ++ [.subscriber h (.subscribed s.mem.nSubs s.mem.writeSeq)])
      (s.setSubscriber h
        { s.mem with
          nSubs := s.mem.nSubs + 1
          subReadSeq := update s.mem.subReadSeq s.mem.nSubs s.mem.writeSeq }
        (.ready s.mem.nSubs)) := by
  have hallowed : MadeAlone s (.subscriber h .subscribe) := by
    refine ⟨?_, hnone, trivial⟩
    simp only [CountFits, maxSubscribers, u32Size] at hmax ⊢
    omega
  have hbegin : step g s (.subscriber h .subscribe) = some (s.setSubscriber h
      { s.mem with nSubs := s.mem.nSubs + 1 } (.loadStart s.mem.nSubs), []) := by
    simp [step, subscriberAct, hfree, beginSubscribe_of_lt hmax]
  have hbegun := hrun.next hallowed hbegin
  rw [List.append_nil] at hbegun
  exact run_subscriber_leads (fun _ _ ↦ ⟨trivial, trivial, trivial⟩) hbegun
    (subscribe_settles { s.mem with nSubs := s.mem.nSubs + 1 } s.mem.nSubs).1

/-- A `publish` with space that is made alone on a bus whose claims are all committed. -/
theorem run_publish_alone {p : ℕ} {payload : Message}
    (hrun : Run (busSystem g slab) (fun _ s action ↦ MadeAlone s action) trace s)
    (hidle : (s.producers p).pc = .idle) (hne : payload ≠ [])
    (hsize : payload.length ≤ g.slotBytes) (hmax : s.mem.nSubs ≤ maxSubscribers)
    (hspace : s.mem.HasSpace g s.mem.claimSeq) (hwrite : s.mem.writeSeq = s.mem.claimSeq)
    (hstamps : ∀ i, s.mem.slotSeq i ≤ s.mem.claimSeq) :
    ∃ m', Run (busSystem g slab) (fun _ s action ↦ MadeAlone s action)
        (trace ++ [.called payload, .claimed s.mem.claimSeq payload, .committed s.mem.claimSeq,
          .publishReturned (.ok ())].map (.producer p))
        (s.setProducer p m' ⟨true, payload, .idle⟩) ∧
      { s.mem with claimSeq := s.mem.claimSeq + 1 }.Published g s.mem.claimSeq payload m' := by
  let t : Producer := ⟨true, payload, .idle⟩
  have haccepted : ¬ (payload.isEmpty || decide (g.slotBytes < payload.length)) = true := by
    simp [hne, hsize]
  have hbegin : step g s (.producer p (.publish payload)) =
      some (s.setProducer p { s.mem with claimSeq := s.mem.claimSeq + 1 }
        (t.goto (.loadSubs s.mem.claimSeq)),
        [.producer p (.called payload), .producer p (.claimed s.mem.claimSeq payload)]) := by
    simp only [step, producerAct, if_pos hidle, beginPublish, if_neg haccepted]
    rfl
  have hallowed : MadeAlone s (.producer p (.publish payload)) := ⟨trivial, trivial, trivial⟩
  have hbegun := hrun.next hallowed hbegin
  have hadmitted := publish_admitted (m := { s.mem with claimSeq := s.mem.claimSeq + 1 }) t rfl
    hmax hspace
  obtain ⟨m', hcommits, hpublished⟩ :=
    commit_settles { s.mem with claimSeq := s.mem.claimSeq + 1 } t hsize hwrite hstamps
  have hdone := run_producer_leads (fun _ _ ↦ ⟨trivial, trivial, trivial⟩) hbegun
    (hadmitted.trans hcommits.1)
  rw [List.append_assoc] at hdone
  exact ⟨m', hdone, hpublished⟩

end Alone

/-- A subscriber joins and a payload of `2 ^ 32` bytes is published. The call succeeds, and what the
subscriber receives has no bytes. -/
theorem received_of_wide {payload : Message} (hlength : payload.length = u32Size) :
    ∃ (trace : List Event) (s : State),
      Run (busSystem hugeGeometry fun _ ↦ 0) (fun _ s action ↦ SharesSafely hugeGeometry s action)
        trace s ∧
      s.subscribers 0 = .ready 0 ∧ s.mem.subReadSeq 0 = 0 ∧
      claims trace = [⟨0, 0, payload⟩] ∧ .producer 0 (.publishReturned (.ok ())) ∈ trace ∧
      s.mem.Receives hugeGeometry 0 0 u32Size (.ok (some [])) := by
  have hstart : Run (busSystem hugeGeometry fun _ ↦ 0) (fun _ s action ↦ MadeAlone s action) []
      (State.init fun _ ↦ 0) := .start
  have hjoined := run_subscribe_alone (h := 0) hstart rfl (fun _ ↦ rfl) (by decide)
  have hne : payload ≠ [] := List.ne_nil_of_length_pos (by rw [hlength]; decide)
  obtain ⟨m, hdone, hpublished⟩ := run_publish_alone (p := 0) hjoined rfl hne hlength.le
    (by decide) ⟨Nat.one_pos, fun _ _ ↦ Nat.succ_pos _⟩ rfl fun _ ↦ le_rfl
  have hcursor : m.subReadSeq 0 = 0 := by
    rw [hpublished.subReadSeq_eq]
    rfl
  have hstores : m.Stores hugeGeometry (hugeGeometry.idx (m.subReadSeq 0)) payload := by
    rw [hcursor]
    exact hpublished.stores
  have hstamp : m.slotSeq (hugeGeometry.idx (m.subReadSeq 0)) = m.subReadSeq 0 + 1 := by
    rw [hcursor, hpublished.slotSeq_eq]
    exact update_self _ _ _
  have hword : m.descLen (hugeGeometry.idx (m.subReadSeq 0)) ≤ u32Size := by
    rw [hstores.2]
    exact (Nat.mod_lt _ (by decide)).le
  refine ⟨_, _, run_of_madeAlone hdone, rfl, hcursor, rfl, by simp, ?_⟩
  have hreceives : m.Receives hugeGeometry 0 0 u32Size (.ok (some (shortened payload))) :=
    hstores.receives hstamp hword
  have hempty : shortened payload = [] := by
    rw [shortened, hlength, Nat.mod_self, List.take_zero]
  rwa [hempty] at hreceives

/-- A message of `2 ^ 32` bytes is accepted and received as a message of no bytes. -/
theorem wide_payload_lost : ∃ (trace : List Event) (s : State),
    Run (busSystem hugeGeometry fun _ ↦ 0) (fun _ s action ↦ SharesSafely hugeGeometry s action)
      trace s ∧
    s.subscribers 0 = .ready 0 ∧ s.mem.subReadSeq 0 = 0 ∧
    claims trace = [⟨0, 0, List.replicate u32Size 7⟩] ∧
    .producer 0 (.publishReturned (.ok ())) ∈ trace ∧
    s.mem.Receives hugeGeometry 0 0 u32Size (.ok (some [])) :=
  received_of_wide List.length_replicate

end AarnnNsys.Bus
