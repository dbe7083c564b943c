import AarnnNsys.Bus.Payload

/-!
# Calls that run alone

What a call does on a bus that nothing else touches until it returns. `Mem.HasSpace` is the outcome
of the capacity check then: the claim is less than a lap ahead of `write_seq` and of every cursor
(`check_leads`). With space a `publish` is admitted (`publish_admitted`), without it the call never
returns (`publish_diverges`); past its admission a call writes its payload, commits it and advances
`write_seq` over it (`commit_settles`). `recv_settles`, `recv_empty` and `recv_tooLarge` are the
three ways of a `try_recv`.
-/

set_option autoImplicit false
set_option relaxedAutoImplicit false

namespace AarnnNsys.Bus

open Function Lib

/-- A `publish` or `try_publish` call that runs alone, its compare-exchange not failing
spuriously. -/
def producerCall (g : Geometry) : Call (Mem × Producer) ProducerEvent := fun state ↦
  (producerStep g false state.1 state.2).map fun outcome ↦ ((outcome.1, outcome.2.1), outcome.2.2)

/-- A `subscribe` call that runs alone. -/
def subscriberCall : Call (Mem × SubscriberPc) SubscriberEvent := fun state ↦
  (subscriberStep state.1 state.2).map fun outcome ↦ ((outcome.1, outcome.2.1), outcome.2.2)

/-- A `try_recv` call that runs alone. -/
def readerCall (g : Geometry) : Call (Mem × Reader) ReaderEvent := fun state ↦
  (readerStep g state.1 state.2).map fun outcome ↦ ((outcome.1, outcome.2.1), outcome.2.2)

/-- What the capacity check decides on a bus at rest: the claim is less than a lap ahead of
`write_seq` and of every registered cursor. -/
def Mem.HasSpace (g : Geometry) (m : Mem) (claim : ℕ) : Prop :=
  claim < m.writeSeq + g.descCapacity ∧ ∀ i < m.nSubs, claim < m.subReadSeq i + g.descCapacity

/-! ### The capacity check -/

section Check

variable {g : Geometry} {m : Mem}

/-- One cursor of the scan. -/
theorem producerCall_scan (t : Producer) {claim n i minRead : ℕ} (hi : i < n)
    (hmax : i < maxSubscribers) :
    producerCall g (m, t.goto (.scan claim n i minRead)) =
      some ((m, t.goto (.scan claim n (i + 1) (min (m.subReadSeq i) minRead))), []) := by
  have hmin : (if m.subReadSeq i < minRead then m.subReadSeq i else minRead) =
      min (m.subReadSeq i) minRead := by
    split_ifs <;> omega
  simp only [producerCall, producerStep, Producer.goto_pc, if_pos hi, if_pos hmax, hmin]
  rfl

/-- The scan of the cursors from `i` on ends with a minimum that leaves space for exactly the claims
that every one of them leaves space for. -/
theorem scan_leads (t : Producer) (claim : ℕ) {n : ℕ} (hn : n ≤ maxSubscribers) (remaining : ℕ) :
    ∀ i minRead, i + remaining = n → ∃ least,
      Leads (producerCall g) (m, t.goto (.scan claim n i minRead))
        (m, t.goto (.scan claim n n least)) [] ∧
      (claim < least + g.descCapacity ↔ claim < minRead + g.descCapacity ∧
        ∀ j, i ≤ j → j < n → claim < m.subReadSeq j + g.descCapacity) := by
  induction remaining with
  | zero =>
    rintro i minRead rfl
    refine ⟨minRead, .refl _, ?_⟩
    constructor
    · exact fun hlt ↦ ⟨hlt, fun j hle hj ↦ by omega⟩
    · exact fun hboth ↦ hboth.1
  | succ remaining ih =>
    intro i minRead hsum
    obtain ⟨least, hleads, hleast⟩ := ih (i + 1) (min (m.subReadSeq i) minRead) (by omega)
    refine ⟨least, .silent (producerCall_scan t (by omega) (by omega)) hleads, ?_⟩
    rw [hleast]
    constructor
    · rintro ⟨hmin, hrest⟩
      refine ⟨by omega, fun j hle hj ↦ ?_⟩
      rcases Nat.eq_or_lt_of_le hle with rfl | hlt
      · omega
      · exact hrest j hlt hj
    · rintro ⟨hspace, hall⟩
      have hfirst := hall i le_rfl (by omega)
      exact ⟨by omega, fun j hle hj ↦ hall j (by omega) hj⟩

/-- The capacity check of a call that runs alone. -/
theorem check_leads (t : Producer) (claim : ℕ) (hn : m.nSubs ≤ maxSubscribers) :
    ∃ least, Leads (producerCall g) (m, t.goto (.loadSubs claim))
        (m, t.goto (.scan claim m.nSubs m.nSubs least)) [] ∧
      (claim < least + g.descCapacity ↔ m.HasSpace g claim) := by
  obtain ⟨least, hleads, hleast⟩ := scan_leads t claim hn m.nSubs 0 m.writeSeq (Nat.zero_add _)
  refine ⟨least, .silent rfl (.silent rfl hleads), hleast.trans ?_⟩
  simp [Mem.HasSpace]

/-- A `publish` with space is admitted. -/
theorem publish_admitted (t : Producer) (hblocking : t.blocking = true) {claim : ℕ}
    (hn : m.nSubs ≤ maxSubscribers) (hspace : m.HasSpace g claim) :
    Leads (producerCall g) (m, t.goto (.loadSubs claim)) (m, t.goto (.copy claim 0)) [] := by
  obtain ⟨least, hleads, hleast⟩ := check_leads t claim hn
  refine hleads.trans (.single ?_)
  simp [producerCall, producerStep, hblocking, hleast.mpr hspace]
  rfl

/-- A `publish` with space is admitted from anywhere in its scan: when the check it is in fails, the
next one does not. -/
theorem scan_admitted (t : Producer) (hblocking : t.blocking = true) {claim n : ℕ}
    (hmax : m.nSubs ≤ maxSubscribers) (hn : n ≤ maxSubscribers) (hspace : m.HasSpace g claim)
    (i minRead : ℕ) :
    Leads (producerCall g) (m, t.goto (.scan claim n i minRead)) (m, t.goto (.copy claim 0))
      [] := by
  -- the end of the scan admits the call, or starts the check again
  have hend : ∀ j least, n ≤ j → Leads (producerCall g) (m, t.goto (.scan claim n j least))
      (m, t.goto (.copy claim 0)) [] := by
    intro j least hj
    by_cases hfits : claim < least + g.descCapacity
    · refine .single ?_
      simp only [producerCall, producerStep, Producer.goto_pc, Producer.goto_blocking,
        if_neg (not_lt.mpr hj), hblocking, if_true, if_pos hfits]
      rfl
    · refine .silent ?_ (publish_admitted t hblocking hmax hspace)
      simp only [producerCall, producerStep, Producer.goto_pc, Producer.goto_blocking,
        if_neg (not_lt.mpr hj), hblocking, if_true, if_neg hfits]
      rfl
  rcases Nat.le_total n i with hge | hle
  · exact hend i minRead hge
  · obtain ⟨least, hleads, -⟩ := scan_leads t claim hn (n - i) i minRead (by omega)
    exact hleads.trans (hend n least le_rfl)

/-- The capacity check of a `publish` is bound to fail: what is left of the scan finds no space. -/
def Producer.BoundToFail (g : Geometry) (m : Mem) (claim : ℕ) (t : Producer) : Prop :=
  match t.pc with
  | .loadSubs c => c = claim
  | .loadWrite c n => c = claim ∧ n = m.nSubs
  | .scan c n i minRead => c = claim ∧ n = m.nSubs ∧ ¬ (claim < minRead + g.descCapacity ∧
      ∀ j, i ≤ j → j < n → claim < m.subReadSeq j + g.descCapacity)
  | _ => False

/-- A `publish` without space never returns. -/
theorem publish_diverges (t : Producer) (hblocking : t.blocking = true) {claim : ℕ}
    (hn : m.nSubs ≤ maxSubscribers) (hspace : ¬ m.HasSpace g claim) :
    Diverges (producerCall g) (m, t.goto (.loadSubs claim)) := by
  refine diverges_of_invariant
    (fun state ↦ ∃ pc, state = (m, t.goto pc) ∧ (t.goto pc).BoundToFail g m claim) ?_
    ⟨.loadSubs claim, rfl, rfl⟩
  rintro _ ⟨pc, rfl, hfail⟩
  cases pc with
  | loadSubs c => exact ⟨_, _, rfl, .loadWrite c m.nSubs, rfl, hfail, rfl⟩
  | loadWrite c n =>
    obtain ⟨rfl, rfl⟩ := hfail
    refine ⟨_, _, rfl, .scan c m.nSubs 0 m.writeSeq, rfl, rfl, rfl, fun hboth ↦ ?_⟩
    exact hspace ⟨hboth.1, fun i hi ↦ hboth.2 i (Nat.zero_le i) hi⟩
  | scan c n i minRead =>
    obtain ⟨rfl, rfl, hfull⟩ := hfail
    by_cases hi : i < m.nSubs
    · refine ⟨_, _, producerCall_scan t hi (by omega), _, rfl, rfl, rfl, fun hboth ↦ ?_⟩
      refine hfull ⟨by omega, fun j hle hj ↦ ?_⟩
      rcases Nat.eq_or_lt_of_le hle with rfl | hlt
      · omega
      · exact hboth.2 j hlt hj
    · have hfull' : ¬ c < minRead + g.descCapacity := fun hlt ↦
        hfull ⟨hlt, fun j hle hj ↦ absurd hj (by omega)⟩
      refine ⟨(m, t.goto (.loadSubs c)), [], ?_, .loadSubs c, rfl, rfl⟩
      simp only [producerCall, producerStep, Producer.goto_pc, Producer.goto_blocking, if_neg hi,
        if_neg hfull', hblocking, if_true]
      rfl
  | _ => exact hfail.elim

/-- A `try_publish` without space refuses, and nothing changes. -/
theorem tryPublish_refused (t : Producer) (hblocking : t.blocking = false) {claim : ℕ}
    (hn : m.nSubs ≤ maxSubscribers) (hspace : ¬ m.HasSpace g claim) :
    Settles (producerCall g) (m, t.goto (.loadSubs claim)) (m, t.finish)
      [.tryPublishReturned (.ok false)] := by
  obtain ⟨least, hleads, hleast⟩ := check_leads t claim hn
  have hfull : least + g.descCapacity ≤ claim := by
    by_contra hlt
    exact hspace (hleast.mp (by omega))
  refine hleads.settles ⟨.single ?_, rfl⟩
  simp only [producerCall, producerStep, Producer.goto_pc, Producer.goto_blocking, lt_irrefl,
    if_false, hblocking, Bool.false_eq_true, if_pos hfull]
  rfl

/-- A `try_publish` with space reserves the next sequence number. -/
theorem tryPublish_admitted (t : Producer) (hblocking : t.blocking = false)
    (hn : m.nSubs ≤ maxSubscribers) (hspace : m.HasSpace g m.claimSeq) :
    Leads (producerCall g) (m, t.goto (.loadSubs m.claimSeq))
      ({ m with claimSeq := m.claimSeq + 1 }, t.goto (.copy m.claimSeq 0))
      [.claimed m.claimSeq t.payload] := by
  obtain ⟨least, hleads, hleast⟩ := check_leads t m.claimSeq hn
  have hfits : ¬ least + g.descCapacity ≤ m.claimSeq := by
    have := hleast.mpr hspace
    omega
  have haccept : producerCall g (m, t.goto (.scan m.claimSeq m.nSubs m.nSubs least)) =
      some ((m, t.goto (.casClaim m.claimSeq)), []) := by
    simp only [producerCall, producerStep, Producer.goto_pc, Producer.goto_blocking, lt_irrefl,
      if_false, hblocking, Bool.false_eq_true, if_neg hfits]
    rfl
  refine hleads.trans (.silent haccept (.single ?_))
  simp only [producerCall, producerStep, Producer.goto_pc, and_self, if_true]
  rfl

end Check

/-! ### The advance loop -/

section Advance

variable {g : Geometry} {m : Mem}

/-- One pass of the loop over a `write_seq` whose slot holds the next number. -/
theorem advance_pass (t : Producer) (hstamp : m.slotSeq (g.idx m.writeSeq) = m.writeSeq + 1) :
    Leads (producerCall g) (m, t.goto .advanceLoad)
      ({ m with writeSeq := m.writeSeq + 1 }, t.goto .advanceLoad) [] := by
  have hlook : producerCall g (m, t.goto (.advanceSlot m.writeSeq)) =
      some ((m, t.goto (.advanceCas m.writeSeq)), []) := by
    simp only [producerCall, producerStep, Producer.goto_pc, if_pos hstamp]
    rfl
  have hadvance : producerCall g (m, t.goto (.advanceCas m.writeSeq)) =
      some (({ m with writeSeq := m.writeSeq + 1 }, t.goto .advanceLoad), []) := by
    simp only [producerCall, producerStep, Producer.goto_pc, if_true]
    rfl
  exact .silent rfl (.silent hlook (.single hadvance))

/-- The loop stops at a `write_seq` whose slot holds another number. -/
theorem advance_stop (t : Producer) (hother : m.slotSeq (g.idx m.writeSeq) ≠ m.writeSeq + 1) :
    Leads (producerCall g) (m, t.goto .advanceLoad) (m, t.finish) [t.success] := by
  have hlook : producerCall g (m, t.goto (.advanceSlot m.writeSeq)) =
      some ((m, t.finish), [t.success]) := by
    simp only [producerCall, producerStep, Producer.goto_pc, if_neg hother]
    rfl
  exact .silent rfl (.single hlook)

/-- The loop moves `write_seq` as far as the slots let it, and the call returns. -/
theorem advance_leads (t : Producer) {n : ℕ} : ∀ {m : Mem},
    EndsAfter (· + 1) g.idx m.slotSeq m.writeSeq n →
      Leads (producerCall g) (m, t.goto .advanceLoad)
        ({ m with writeSeq := m.writeSeq + n }, t.finish) [t.success] := by
  induction n with
  | zero => exact fun hends ↦ advance_stop t (endsAfter_zero_iff.mp hends)
  | succ n ih =>
    intro m hends
    obtain ⟨hstamp, hrest⟩ := endsAfter_succ_iff.mp hends
    have hlater := ih (m := { m with writeSeq := m.writeSeq + 1 }) hrest
    have hpasses := (advance_pass t hstamp).trans hlater
    rwa [Nat.add_right_comm, Nat.add_assoc] at hpasses

end Advance

/-! ### Writing and committing -/

/-- The region after a message has been written to the slot of a claim, committed and passed by
`write_seq`: nothing but that slot and `write_seq` has changed. -/
structure Mem.Published (g : Geometry) (m : Mem) (claim : ℕ) (message : Message) (m' : Mem) :
    Prop where
  claimSeq_eq : m'.claimSeq = m.claimSeq
  writeSeq_eq : m'.writeSeq = claim + 1
  nSubs_eq : m'.nSubs = m.nSubs
  subReadSeq_eq : m'.subReadSeq = m.subReadSeq
  slotSeq_eq : m'.slotSeq = update m.slotSeq (g.idx claim) (claim + 1)
  stores : m'.Stores g (g.idx claim) message
  other : ∀ i ≠ g.idx claim, m.SameSlot g m' i

section Commit

variable {g : Geometry}

/-- The copy loop of a call that runs alone. It changes no word, and no byte of another slot. -/
theorem copy_leads {t : Producer} (hsize : t.payload.length ≤ g.slotBytes) (claim : ℕ)
    (remaining : ℕ) : ∀ (m : Mem) (k : ℕ), k + remaining = t.payload.length →
      m.Holds g (g.idx claim) t.payload k → ∃ payload,
        Leads (producerCall g) (m, t.goto (.copy claim k))
          ({ m with payload := payload }, t.goto (.storeDesc claim)) [] ∧
        { m with payload := payload }.Holds g (g.idx claim) t.payload t.payload.length ∧
        ∀ i ≠ g.idx claim, m.SameSlot g { m with payload := payload } i := by
  induction remaining with
  | zero =>
    intro m k hk hholds
    refine ⟨m.payload, .single ?_, fun l hl ↦ hholds l (by omega),
      fun i _ ↦ ⟨rfl, rfl, fun _ _ ↦ rfl⟩⟩
    have hnone : t.payload[k]? = none := List.getElem?_eq_none (by omega)
    simp only [producerCall, producerStep, Producer.goto_pc, Producer.goto_payload, hnone]
    rfl
  | succ remaining ih =>
    intro m k hk hholds
    obtain ⟨byte, hbyte⟩ : ∃ byte, t.payload[k]? = some byte :=
      ⟨_, List.getElem?_eq_getElem (by omega)⟩
    have hcopy : ProducerStep g m (t.goto (.copy claim k)) (.next false) _ _ [] :=
      .copyByte false claim k _ rfl hbyte
    have hsized : (t.goto (.copy claim k)).Sized g := fun _ ↦ hsize
    have hwriting := hcopy.writing hsized hholds
    obtain ⟨payload, hleads, hall, hother⟩ := ih _ (k + 1) (by omega) hwriting
    refine ⟨payload, .silent ?_ hleads, hall, fun i hi ↦ ?_⟩
    · simp only [producerCall, producerStep, Producer.goto_pc, Producer.goto_payload, hbyte]
      rfl
    · have hfirst : m.SameSlot g _ i := hcopy.untouched hsized (by
        intro c hc
        obtain rfl : claim = c := Option.some.inj hc
        exact hi.symm)
      have hlast := hother i hi
      exact ⟨hlast.slotSeq_eq.trans hfirst.slotSeq_eq, hlast.descLen_eq.trans hfirst.descLen_eq,
        fun l hl ↦ (hlast.payload_eq l hl).trans (hfirst.payload_eq l hl)⟩

/-- An admitted call that runs alone commits its claim and returns. Assumes: the claim is at
`write_seq`, and no slot has a later stamp. -/
theorem commit_settles (m : Mem) (t : Producer) (hsize : t.payload.length ≤ g.slotBytes) {claim : ℕ}
    (hwrite : m.writeSeq = claim) (hstamps : ∀ i, m.slotSeq i ≤ claim) :
    ∃ m', Settles (producerCall g) (m, t.goto (.copy claim 0)) (m', t.finish)
        [.committed claim, t.success] ∧ m.Published g claim t.payload m' := by
  obtain ⟨payload, hcopy, hholds, hother⟩ := copy_leads hsize claim t.payload.length m 0
    (Nat.zero_add _) fun _ hk ↦ absurd hk (Nat.not_lt_zero _)
  let committed : Mem :=
    { m with
      payload := payload
      descLen := update m.descLen (g.idx claim) (t.payload.length % u32Size)
      slotSeq := update m.slotSeq (g.idx claim) (claim + 1) }
  have hstamp : committed.slotSeq (g.idx claim) = claim + 1 := update_self _ _ _
  -- the next slot still holds an older stamp, or that of this claim when the ring has one slot
  have hnext : committed.slotSeq (g.idx (claim + 1)) ≠ claim + 1 + 1 := by
    have hold := hstamps (g.idx (claim + 1))
    simp only [committed, update_apply]
    split_ifs <;> omega
  have hdesc : producerCall g ({ m with payload := payload }, t.goto (.storeDesc claim)) =
      some (({ committed with slotSeq := m.slotSeq }, t.goto (.storeSeq claim)), []) := rfl
  have hseq : producerCall g ({ committed with slotSeq := m.slotSeq }, t.goto (.storeSeq claim)) =
      some ((committed, t.goto .advanceLoad), [.committed claim]) := rfl
  have hends : EndsAfter (· + 1) g.idx committed.slotSeq committed.writeSeq 1 := by
    rw [show committed.writeSeq = claim from hwrite]
    exact endsAfter_succ_iff.mpr ⟨hstamp, endsAfter_zero_iff.mpr hnext⟩
  have hloop := advance_leads t hends
  rw [show committed.writeSeq = claim from hwrite] at hloop
  refine ⟨{ committed with writeSeq := claim + 1 }, ⟨?_, rfl⟩, ?_⟩
  · exact hcopy.trans (.silent hdesc (.next hseq hloop))
  · refine ⟨rfl, rfl, rfl, rfl, rfl, ⟨hholds, update_self _ _ _⟩, fun i hi ↦ ?_⟩
    exact ⟨update_of_ne hi _ _, update_of_ne hi _ _, (hother i hi).payload_eq⟩

end Commit

/-! ### Subscribing -/

/-- A `subscribe` call that finds an entry free registers. -/
theorem beginSubscribe_of_lt {m : Mem} (hlt : m.nSubs < maxSubscribers) :
    beginSubscribe m = ({ m with nSubs := m.nSubs + 1 }, .loadStart m.nSubs, []) := by
  have hword : (m.nSubs + 1) % u32Size = m.nSubs + 1 := by
    rw [Nat.mod_eq_of_lt]
    simp only [maxSubscribers, u32Size] at hlt ⊢
    omega
  simp only [beginSubscribe, if_neg (not_le.mpr hlt), hword]

/-- A registered call stores `write_seq` as its cursor. -/
theorem subscribe_settles (m : Mem) (id : ℕ) :
    Settles subscriberCall (m, .loadStart id)
      ({ m with subReadSeq := update m.subReadSeq id m.writeSeq }, .ready id)
      [.subscribed id m.writeSeq] :=
  ⟨.silent rfl (.single rfl), rfl⟩

/-! ### Receiving -/

/-- The first `length` bytes of slot `i`. -/
def Mem.bytes (g : Geometry) (m : Mem) (i length : ℕ) : Message :=
  (List.range length).map fun k ↦ m.payload (g.payloadOffset i k)

/-- A slot that holds a message has its bytes. -/
theorem Mem.Holds.bytes_eq {g : Geometry} {m : Mem} {i : ℕ} {message : Message}
    (hholds : m.Holds g i message message.length) : m.bytes g i message.length = message := by
  refine List.ext_getElem? fun k ↦ ?_
  rcases Nat.lt_or_ge k message.length with hlt | hge
  · rw [hholds k hlt]
    simp [Mem.bytes, hlt]
  · rw [List.getElem?_eq_none hge]
    simp [Mem.bytes, hge]

section Receive

variable {g : Geometry} {m : Mem} {h id outLen seq : ℕ}

/-- A `try_recv` at a slot with another stamp returns nothing. -/
theorem recv_empty (hstamp : m.slotSeq (g.idx seq) ≠ seq + 1) :
    Settles (readerCall g) (m, ⟨h, id, outLen, .loadSeq seq⟩) (m, ⟨h, id, outLen, .idle⟩)
      [.returned (.ok none)] := by
  refine ⟨.single ?_, rfl⟩
  simp only [readerCall, readerStep, if_neg hstamp]
  rfl

/-- A `try_recv` whose buffer is too small returns the error, and the cursor stays. -/
theorem recv_tooLarge (hstamp : m.slotSeq (g.idx seq) = seq + 1)
    (hlen : outLen < m.descLen (g.idx seq)) :
    Settles (readerCall g) (m, ⟨h, id, outLen, .loadSeq seq⟩) (m, ⟨h, id, outLen, .idle⟩)
      [.returned (.error .msgTooLarge)] := by
  have hfound : readerCall g (m, ⟨h, id, outLen, .loadSeq seq⟩) =
      some ((m, ⟨h, id, outLen, .loadLen seq⟩), []) := by
    simp only [readerCall, readerStep, if_pos hstamp]
    rfl
  refine ⟨.silent hfound (.single ?_), rfl⟩
  simp only [readerCall, readerStep, if_pos hlen]
  rfl

/-- The copy loop of a `try_recv` that runs alone. -/
theorem recv_copy (len remaining : ℕ) : ∀ k, k + remaining = len →
    Leads (readerCall g) (m, ⟨h, id, outLen, .copy seq len (m.bytes g (g.idx seq) k)⟩)
      (m, ⟨h, id, outLen, .storeSeq seq (m.bytes g (g.idx seq) len)⟩) [] := by
  have hlength : ∀ k, (m.bytes g (g.idx seq) k).length = k := by
    simp [Mem.bytes]
  induction remaining with
  | zero =>
    rintro k rfl
    refine .single ?_
    simp only [readerCall, readerStep, hlength, add_zero, lt_irrefl, if_false]
    rfl
  | succ remaining ih =>
    intro k hk
    have hbyte : m.bytes g (g.idx seq) (k + 1) =
        m.bytes g (g.idx seq) k ++ [m.payload (g.payloadOffset (g.idx seq) k)] := by
      simp [Mem.bytes, List.range_succ]
    refine .silent ?_ (ih (k + 1) (by omega))
    simp only [readerCall, readerStep, hlength, if_pos (show k < len by omega), hbyte]
    rfl

/-- A `try_recv` with a large enough buffer returns the bytes of the slot and moves the cursor. -/
theorem recv_settles (hstamp : m.slotSeq (g.idx seq) = seq + 1)
    (hlen : m.descLen (g.idx seq) ≤ outLen) :
    Settles (readerCall g) (m, ⟨h, id, outLen, .loadSeq seq⟩)
      ({ m with subReadSeq := update m.subReadSeq id (seq + 1) }, ⟨h, id, outLen, .idle⟩)
      [.returned (.ok (some (m.bytes g (g.idx seq) (m.descLen (g.idx seq)))))] := by
  have hfound : readerCall g (m, ⟨h, id, outLen, .loadSeq seq⟩) =
      some ((m, ⟨h, id, outLen, .loadLen seq⟩), []) := by
    simp only [readerCall, readerStep, if_pos hstamp]
    rfl
  have hload : readerCall g (m, ⟨h, id, outLen, .loadLen seq⟩) =
      some ((m, ⟨h, id, outLen, .copy seq (m.descLen (g.idx seq)) (m.bytes g (g.idx seq) 0)⟩),
        []) := by
    simp only [readerCall, readerStep, if_neg (not_lt.mpr hlen)]
    rfl
  exact ⟨.silent hfound (.silent hload
    ((recv_copy _ _ 0 (Nat.zero_add _)).trans (.single rfl))), rfl⟩

end Receive

end AarnnNsys.Bus
