import AarnnNsys.Bus.Commit

/-!
# What the slots hold

The second part of the invariant of the ring: the bytes. A call writes to no slot but the one of the
claim it is admitted to (`ProducerStep.untouched`), and what it has written there so far is a prefix
of its payload (`Producer.Writing`). No two calls are admitted to one slot, so a slot whose stamp is
`sequence + 1` and that no call is admitted to holds the payload of the call that claimed
`sequence`, byte for byte and with its length (`PayloadInv.stored`). `payloadInv_run` proves this of
every run, whatever the subscribers do.

The length word is 32 bits wide: it is the length of the payload modulo `2 ^ 32`.
-/

set_option autoImplicit false
set_option relaxedAutoImplicit false

namespace AarnnNsys.Bus

open Function Lib

/-! ### One slot -/

/-- Slot `i` is unchanged between two states of the region: its stamp, its length word and its
bytes. -/
structure Mem.SameSlot (g : Geometry) (m m' : Mem) (i : ℕ) : Prop where
  slotSeq_eq : m'.slotSeq i = m.slotSeq i
  descLen_eq : m'.descLen i = m.descLen i
  payload_eq : ∀ k < g.slotBytes,
    m'.payload (g.payloadOffset i k) = m.payload (g.payloadOffset i k)

/-- Slot `i` holds a whole message: its bytes and its length. -/
def Mem.Stores (g : Geometry) (m : Mem) (i : ℕ) (message : Message) : Prop :=
  m.Holds g i message message.length ∧ m.descLen i = message.length % u32Size

section SameSlot

variable {g : Geometry} {m m' : Mem} {i : ℕ}

/-- An unchanged slot holds the same bytes. -/
theorem Mem.SameSlot.holds (hsame : m.SameSlot g m' i) {message : Message} {length : ℕ}
    (hlength : length ≤ g.slotBytes) (hholds : m.Holds g i message length) :
    m'.Holds g i message length := by
  intro k hk
  rw [hsame.payload_eq k (by omega)]
  exact hholds k hk

/-- An unchanged slot holds the same message. -/
theorem Mem.SameSlot.stores (hsame : m.SameSlot g m' i) {message : Message}
    (hlength : message.length ≤ g.slotBytes) (hstores : m.Stores g i message) :
    m'.Stores g i message :=
  ⟨hsame.holds hlength hstores.1, hsame.descLen_eq.trans hstores.2⟩

/-- Only a prefix of a message can be held. -/
theorem Mem.Holds.le_length {message : Message} {length : ℕ}
    (hholds : m.Holds g i message length) : length ≤ message.length := by
  by_contra hlt
  have hlast := hholds message.length (by omega)
  simp at hlast

end SameSlot

/-- What a call has written to the slot of the claim it is admitted to. -/
def Producer.Writing (g : Geometry) (m : Mem) (t : Producer) : Prop :=
  match t.pc with
  | .copy claim k => m.Holds g (g.idx claim) t.payload k
  | .storeDesc claim => m.Holds g (g.idx claim) t.payload t.payload.length
  | .storeSeq claim => m.Stores g (g.idx claim) t.payload
  | _ => True

/-- A call in flight has a payload that fits its slot. -/
def Producer.Sized (g : Geometry) (t : Producer) : Prop :=
  t.pc ≠ .idle → t.payload.length ≤ g.slotBytes

/-! ### What a producer step writes -/

section ProducerStep

variable {g : Geometry} {m m' : Mem} {t t' : Producer} {act : ProducerAct}
  {events : List ProducerEvent}

/-- The size check of a call. -/
theorem ProducerStep.sized (hsized : t.Sized g) (hstep : ProducerStep g m t act m' t' events) :
    t'.Sized g := by
  cases hstep with
  | publish payload hpc hne hsize => exact fun _ ↦ hsize
  | tryPublish payload hpc hne hsize => exact fun _ ↦ hsize
  | publishRejected payload hpc hsize => exact fun hactive ↦ absurd rfl hactive
  | tryPublishRejected payload hpc hsize => exact fun hactive ↦ absurd rfl hactive
  | _ => exact fun _ ↦ hsized (by simp [*])

/-- A call keeps its payload. -/
theorem ProducerStep.payload_eq (hstep : ProducerStep g m t act m' t' events)
    (hactive : t.pc ≠ .idle) : t'.payload = t.payload := by
  cases hstep with
  | publish payload hpc | tryPublish payload hpc | publishRejected payload hpc
  | tryPublishRejected payload hpc => exact absurd hpc hactive
  | _ => rfl

/-- A call stays admitted to its claim until its commit store. -/
theorem ProducerStep.admitted_kept (hstep : ProducerStep g m t act m' t' events) {claim : ℕ}
    (hadmitted : t.admitted = some claim) :
    t'.admitted = some claim ∨ t.pc = .storeSeq claim ∧
      m' = { m with slotSeq := update m.slotSeq (g.idx claim) (claim + 1) } := by
  cases hstep with
  | storeSeq b other hpc =>
    simp only [Producer.admitted, hpc, Option.some.injEq] at hadmitted
    subst hadmitted
    exact Or.inr ⟨hpc, rfl⟩
  | copyByte b other k byte hpc hbyte | copyDone b other k hpc hk | storeDesc b other hpc =>
    simp only [Producer.admitted, hpc] at hadmitted
    exact Or.inl hadmitted
  | _ => simp [Producer.admitted, *] at hadmitted

/-- A call writes to no slot but that of the claim it is admitted to. -/
theorem ProducerStep.untouched (hsized : t.Sized g) (hstep : ProducerStep g m t act m' t' events)
    {i : ℕ} (hother : ∀ claim, t.admitted = some claim → g.idx claim ≠ i) : m.SameSlot g m' i := by
  cases hstep with
  | copyByte b claim k byte hpc hbyte =>
    have hne := hother claim (by simp [Producer.admitted, hpc])
    have hk : k < g.slotBytes :=
      (List.getElem?_eq_some_iff.mp hbyte).1.trans_le (hsized (by simp [hpc]))
    refine ⟨rfl, rfl, fun l hl ↦ update_of_ne ?_ _ _⟩
    intro heq
    exact hne (cell_offset_injective hl hk heq).1.symm
  | storeDesc b claim hpc =>
    have hne := hother claim (by simp [Producer.admitted, hpc])
    exact ⟨rfl, update_of_ne hne.symm _ _, fun _ _ ↦ rfl⟩
  | storeSeq b claim hpc =>
    have hne := hother claim (by simp [Producer.admitted, hpc])
    exact ⟨update_of_ne hne.symm _ _, rfl, fun _ _ ↦ rfl⟩
  | _ => exact ⟨rfl, rfl, fun _ _ ↦ rfl⟩

/-- A call writes its payload byte by byte, then the length. -/
theorem ProducerStep.writing (hsized : t.Sized g) (hwriting : t.Writing g m)
    (hstep : ProducerStep g m t act m' t' events) : t'.Writing g m' := by
  cases hstep with
  | pass b claim n i minRead hpc => exact fun _ hk ↦ absurd hk (Nat.not_lt_zero _)
  | claim b claim hpc heq => exact fun _ hk ↦ absurd hk (Nat.not_lt_zero _)
  | copyByte b claim k byte hpc hbyte =>
    simp only [Producer.Writing, hpc] at hwriting
    have hk : k < g.slotBytes :=
      (List.getElem?_eq_some_iff.mp hbyte).1.trans_le (hsized (by simp [hpc]))
    intro l hl
    by_cases heq : l = k
    · subst heq
      simpa using hbyte
    · have hne : g.payloadOffset (g.idx claim) l ≠ g.payloadOffset (g.idx claim) k := by
        intro hoffset
        exact heq (cell_offset_injective (by omega) hk hoffset).2
      have hold := hwriting l (by omega)
      simpa only [Producer.goto_payload, update_of_ne hne] using hold
  | copyDone b claim k hpc hk =>
    simp only [Producer.Writing, hpc] at hwriting
    exact fun l hl ↦ hwriting l (hl.trans_le hk)
  | storeDesc b claim hpc =>
    simp only [Producer.Writing, hpc] at hwriting
    exact ⟨hwriting, update_self _ _ _⟩
  | _ => trivial

end ProducerStep

/-- What a call has written survives a step that leaves its slot alone. -/
theorem Producer.Writing.of_sameSlot {g : Geometry} {m m' : Mem} {t : Producer}
    (hsized : t.Sized g) (hwriting : t.Writing g m)
    (hsame : ∀ claim, t.admitted = some claim → m.SameSlot g m' (g.idx claim)) :
    t.Writing g m' := by
  unfold Producer.Writing at hwriting ⊢
  unfold Producer.Sized at hsized
  unfold Producer.admitted at hsame
  split at hwriting <;> rename_i hpc <;> simp only [hpc] at hsame hsized ⊢
  · exact (hsame _ rfl).holds (hwriting.le_length.trans (hsized (by simp))) hwriting
  · exact (hsame _ rfl).holds (hsized (by simp)) hwriting
  · exact (hsame _ rfl).stores (hsized (by simp)) hwriting

/-! ### The invariant -/

/-- The invariant of payloads in a run of the bus. -/
structure PayloadInv (g : Geometry) (trace : List Event) (s : State) : Prop where
  sized : ∀ p, (s.producers p).Sized g
  claimed : ∀ p claim, (s.producers p).owned = some claim →
    (claims trace)[claim]? = some ⟨claim, p, (s.producers p).payload⟩
  writing : ∀ p, (s.producers p).Writing g s.mem
  stored : ∀ sequence, s.mem.slotSeq (g.idx sequence) = sequence + 1 →
    (∀ p claim, (s.producers p).admitted = some claim → g.idx claim ≠ g.idx sequence) →
      ∃ claim, (claims trace)[sequence]? = some claim ∧ claim.payload.length ≤ g.slotBytes ∧
        s.mem.Stores g (g.idx sequence) claim.payload

/-- The invariant holds in a fresh region. -/
theorem payloadInv_init (g : Geometry) (slab : ℕ → UInt8) :
    PayloadInv g [] (State.init slab) where
  sized := fun _ hactive ↦ absurd rfl hactive
  claimed := fun _ _ howned ↦ nomatch howned
  writing := fun _ ↦ trivial
  stored := fun _ hstamp ↦ nomatch hstamp

/-- An owned claim belongs to a call in flight. -/
theorem Producer.ne_idle_of_owned {t : Producer} {claim : ℕ} (howned : t.owned = some claim) :
    t.pc ≠ .idle := by
  intro hpc
  simp [Producer.owned, hpc] at howned

namespace PayloadInv

variable {g : Geometry} {trace : List Event} {s : State}

/-- The claims made so far stay where they are in the history. -/
theorem getElem?_claims_append {claim : Claim} {sequence : ℕ} {events : List Event}
    (hclaim : (claims trace)[sequence]? = some claim) :
    (claims (trace ++ events))[sequence]? = some claim := by
  rw [claims_append, List.getElem?_append_left (List.getElem?_eq_some_iff.mp hclaim).1]
  exact hclaim

/-- A step of another kind of thread leaves the slots alone. -/
theorem of_slots (hinv : PayloadInv g trace s) {s' : State} {events : List Event}
    (hproducers : s'.producers = s.producers) (hslot : s'.mem.slotSeq = s.mem.slotSeq)
    (hlen : s'.mem.descLen = s.mem.descLen) (hpayload : s'.mem.payload = s.mem.payload) :
    PayloadInv g (trace ++ events) s' := by
  have hsame : ∀ i, s.mem.SameSlot g s'.mem i := fun i ↦
    ⟨congrFun hslot i, congrFun hlen i, fun k _ ↦ congrFun hpayload _⟩
  constructor
  · simpa [hproducers] using hinv.sized
  · intro p claim howned
    rw [hproducers] at howned ⊢
    exact getElem?_claims_append (hinv.claimed p claim howned)
  · intro p
    rw [hproducers]
    exact (hinv.writing p).of_sameSlot (hinv.sized p) fun _ _ ↦ hsame _
  · intro sequence hstamp hfree
    rw [hslot] at hstamp
    rw [hproducers] at hfree
    obtain ⟨claim, hclaim, hlength, hstores⟩ := hinv.stored sequence hstamp hfree
    exact ⟨claim, getElem?_claims_append hclaim, hlength, (hsame _).stores hlength hstores⟩

/-- The claims of the history after a producer step, with the payload of the call that owns each. -/
theorem claimed_step (hinv : PayloadInv g trace s) (hcommit : CommitInv g trace s) {p : ℕ}
    {act : ProducerAct} {m : Mem} {t : Producer} {events : List ProducerEvent}
    (hstep : ProducerStep g s.mem (s.producers p) act m t events) (q claim : ℕ)
    (howned : (update s.producers p t q).owned = some claim) :
    (claims (trace ++ events.map (.producer p)))[claim]? =
      some ⟨claim, q, (update s.producers p t q).payload⟩ := by
  by_cases hqp : q = p
  · subst hqp
    rw [update_self] at howned ⊢
    have hkept : t.owned = (s.producers q).owned →
        (claims (trace ++ events.map (.producer q)))[claim]? = some ⟨claim, q, t.payload⟩ := by
      intro hsame
      rw [hsame] at howned
      rw [hstep.payload_eq (Producer.ne_idle_of_owned howned)]
      exact getElem?_claims_append (hinv.claimed q claim howned)
    cases hstep.ringStep (hcommit.bounded q) with
    | quiet hclaim hwrite hslot hsame => exact hkept hsame
    | advance hclaim hwrite hslot hcommitted hsame => exact hkept hsame
    | commit other hclaim hwrite hslot hadmitted hfree =>
      rw [hfree] at howned
      cases howned
    | claim hclaim hwrite hslot hfree hnew hclaims =>
      rw [hnew, Option.some.injEq] at howned
      have hlength : (claims trace).length = s.mem.claimSeq := by
        rw [← List.length_map, hcommit.claims_sequence, List.length_range]
      rw [claims_append, hclaims, ← howned, List.getElem?_append_right hlength.le, hlength]
      simp
  · rw [update_of_ne hqp] at howned ⊢
    exact getElem?_claims_append (hinv.claimed q claim howned)

/-- Every step of a producer thread keeps the invariant. -/
theorem producer_step (hinv : PayloadInv g trace s) (hcommit : CommitInv g trace s) {p : ℕ}
    {act : ProducerAct} {m : Mem} {t : Producer} {events : List ProducerEvent}
    (hstep : ProducerStep g s.mem (s.producers p) act m t events) :
    PayloadInv g (trace ++ events.map (.producer p)) (s.setProducer p m t) := by
  constructor
  · intro q
    simp only [State.setProducer]
    by_cases hqp : q = p
    · subst hqp
      rw [update_self]
      exact hstep.sized (hinv.sized q)
    · rw [update_of_ne hqp]
      exact hinv.sized q
  · exact hinv.claimed_step hcommit hstep
  · intro q
    simp only [State.setProducer]
    by_cases hqp : q = p
    · subst hqp
      rw [update_self]
      exact hstep.writing (hinv.sized q) (hinv.writing q)
    · rw [update_of_ne hqp]
      refine (hinv.writing q).of_sameSlot (hinv.sized q) fun claim hadmitted ↦ ?_
      refine hstep.untouched (hinv.sized p) fun other hother hslot ↦ ?_
      exact hqp (hcommit.slot_exclusive hother hadmitted hslot).symm
  · intro sequence hstamp hfree
    simp only [State.setProducer] at hstamp hfree ⊢
    -- the step is about this slot only when the thread commits to it
    by_cases hown : ∃ claim, (s.producers p).admitted = some claim ∧ g.idx claim = g.idx sequence
    · obtain ⟨claim, hadmitted, hslot⟩ := hown
      rcases hstep.admitted_kept hadmitted with hkept | ⟨hpc, rfl⟩
      · exact absurd hslot (hfree p claim (by rwa [update_self]))
      · have heq : claim = sequence := by
          simp only [hslot, update_self] at hstamp
          omega
        subst heq
        have hwriting := hinv.writing p
        simp only [Producer.Writing, hpc] at hwriting
        exact ⟨_, getElem?_claims_append
          (hinv.claimed p claim (Producer.owned_of_admitted hadmitted)),
          hinv.sized p (by simp [hpc]), hwriting⟩
    · push Not at hown
      have hsame := hstep.untouched (hinv.sized p) hown
      rw [hsame.slotSeq_eq] at hstamp
      obtain ⟨claim, hclaim, hlength, hstores⟩ := hinv.stored sequence hstamp (by
        intro q claim hadmitted
        by_cases hqp : q = p
        · subst hqp
          exact hown claim hadmitted
        · exact hfree q claim (by rwa [update_of_ne hqp]))
      exact ⟨claim, getElem?_claims_append hclaim, hlength, hsame.stores hlength hstores⟩

/-- Every step of the bus keeps the invariant. -/
theorem step (hinv : PayloadInv g trace s) (hcommit : CommitInv g trace s) {action : Action}
    {s' : State} {reported : List Event} (hstep : BusStep g s action s' reported) :
    PayloadInv g (trace ++ reported) s' := by
  cases hstep with
  | producer hthread => exact hinv.producer_step hcommit hthread
  | subscriber hthread => cases hthread <;> exact hinv.of_slots rfl rfl rfl rfl
  | reader hthread => cases hthread <;> exact hinv.of_slots rfl rfl rfl rfl

end PayloadInv

/-- The invariant of payloads holds in every run of the bus. -/
theorem payloadInv_run {g : Geometry} {slab : ℕ → UInt8} {guard : Guard State Action Event}
    {trace : List Event} {s : State} (hrun : Run (busSystem g slab) guard trace s) :
    PayloadInv g trace s :=
  hrun.invariant (PayloadInv g) (payloadInv_init g slab) fun hprevious hinv _ hstep ↦
    hinv.step (commitInv_run hprevious) (step_cases hstep)

/-! ### What the size check lets through -/

/-- The payload of a call that passes the size check has a property. -/
def CallHas (g : Geometry) (property : Message → Prop) : Action → Prop
  | .producer _ (.publish payload) | .producer _ (.tryPublish payload) =>
    payload ≠ [] → payload.length ≤ g.slotBytes → property payload
  | _ => True

/-- The payloads of the calls in flight and of all claims have a property. -/
structure PayloadsHave (property : Message → Prop) (trace : List Event) (s : State) : Prop where
  active : ∀ p, (s.producers p).pc ≠ .idle → property (s.producers p).payload
  claimed : ∀ claim ∈ claims trace, property claim.payload

/-- A step of a producer keeps what the size check lets through. -/
theorem PayloadsHave.producer_step {g : Geometry} {property : Message → Prop} {trace : List Event}
    {s : State} (hhave : PayloadsHave property trace s) (hcommit : CommitInv g trace s) {p : ℕ}
    {act : ProducerAct} {m : Mem} {t : Producer} {events : List ProducerEvent}
    (hcall : CallHas g property (.producer p act))
    (hstep : ProducerStep g s.mem (s.producers p) act m t events) :
    PayloadsHave property (trace ++ events.map (.producer p)) (s.setProducer p m t) := by
  have hthread : t.pc ≠ .idle → property t.payload := by
    have hbefore := hhave.active p
    cases hstep with
    | publish payload hpc hne hsize | tryPublish payload hpc hne hsize =>
      exact fun _ ↦ hcall hne hsize
    | publishRejected payload | tryPublishRejected payload => exact fun hactive ↦ absurd rfl hactive
    | _ => exact fun _ ↦ hbefore (by simp [*])
  constructor
  · intro q
    simp only [State.setProducer]
    by_cases hqp : q = p
    · subst hqp
      rw [update_self]
      exact hthread
    · rw [update_of_ne hqp]
      exact hhave.active q
  · intro claim hmem
    rw [claims_append, List.mem_append] at hmem
    rcases hmem with hold | hnew
    · exact hhave.claimed claim hold
    · cases hstep.ringStep (hcommit.bounded p) with
      | claim _ _ _ _ howned hclaims =>
        rw [hclaims, List.mem_singleton] at hnew
        rw [hnew]
        exact hthread (Producer.ne_idle_of_owned howned)
      | quiet _ _ _ _ hclaims | commit _ _ _ _ _ _ hclaims | advance _ _ _ _ _ hclaims =>
        rw [hclaims] at hnew
        cases hnew

/-- No payload in a run of the bus is empty or longer than a slot. -/
theorem payloadsHave_run {g : Geometry} {slab : ℕ → UInt8} {guard : Guard State Action Event}
    {trace : List Event} {s : State} (hrun : Run (busSystem g slab) guard trace s) :
    PayloadsHave (fun payload ↦ payload ≠ [] ∧ payload.length ≤ g.slotBytes) trace s := by
  refine hrun.invariant (PayloadsHave _) ⟨fun _ hactive ↦ absurd rfl hactive,
    fun _ hmem ↦ nomatch hmem⟩ ?_
  intro trace s action s' events hprevious hhave _ hstep
  cases step_cases hstep with
  | @producer p act m t own hthread =>
    refine hhave.producer_step (commitInv_run hprevious) ?_ hthread
    cases act with
    | publish payload | tryPublish payload => exact fun hne hsize ↦ ⟨hne, hsize⟩
    | next b => trivial
  | subscriber hthread => exact ⟨hhave.active, by simpa using hhave.claimed⟩
  | reader hthread => exact ⟨hhave.active, by simpa using hhave.claimed⟩

end AarnnNsys.Bus
