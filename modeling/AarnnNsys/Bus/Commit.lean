import AarnnNsys.Bus.History

/-!
# Claims, commits and the write sequence

The part of the bus protocol that no subscriber can disturb. A call owns the claim it has reserved
and not yet committed (`Producer.owned`) and is admitted to it between its capacity check and its
commit store (`Producer.admitted`). For the three words involved, every step of a producer is one of
four kinds (`RingStep`, `ProducerStep.ringStep`): quiet, a claim, a commit or an advance of
`write_seq`.

`CommitInv` is the invariant: claims are numbered in order and owned by one call each, `write_seq`
has only committed numbers below it, every slot holds the stamp of its last lap and every claim
admitted to a slot lies within one lap of `write_seq`. `commitInv_run` proves it for every run.
`slot_exclusive` and `write_committed_trace` read off slot ownership and the meaning of `write_seq`.
-/

set_option autoImplicit false
set_option relaxedAutoImplicit false

namespace AarnnNsys.Bus

open Function Lib

/-! ### Ownership -/

/-- The claim that a call has reserved and not committed. A `try_publish` owns nothing before its
compare-exchange, and a panicked `publish` owns its claim for ever. -/
def Producer.owned (t : Producer) : Option ℕ :=
  match t.pc with
  | .loadSubs claim | .loadWrite claim _ | .scan claim _ _ _ | .panicked claim =>
    bif t.blocking then some claim else none
  | .copy claim _ | .storeDesc claim | .storeSeq claim => some claim
  | _ => none

/-- The claim that a call has been admitted to and not committed: a `publish` past its capacity
check, a `try_publish` past its compare-exchange. -/
def Producer.admitted (t : Producer) : Option ℕ :=
  match t.pc with
  | .copy claim _ | .storeDesc claim | .storeSeq claim => some claim
  | _ => none

/-- What the local variables of a call promise about the shared words: a minimum is at most
`write_seq`, an admitted claim is within one lap of it, and a slot that looked committed is. -/
def Producer.Bounded (g : Geometry) (m : Mem) (t : Producer) : Prop :=
  match t.pc with
  | .scan _ _ _ minRead => minRead ≤ m.writeSeq
  | .casClaim claim | .copy claim _ | .storeDesc claim | .storeSeq claim =>
    claim < m.writeSeq + g.descCapacity
  | .advanceSlot w => w ≤ m.writeSeq
  | .advanceCas w => w ≤ m.writeSeq ∧ m.Committed g w
  | _ => True

/-- An admitted claim is owned. -/
theorem Producer.owned_of_admitted {t : Producer} {claim : ℕ} (h : t.admitted = some claim) :
    t.owned = some claim := by
  unfold admitted at h
  unfold owned
  split at h <;> simp_all

/-- An admitted claim is within one lap of `write_seq`. -/
theorem Producer.Bounded.admitted_lt {g : Geometry} {m : Mem} {t : Producer} {claim : ℕ}
    (hbounded : t.Bounded g m) (h : t.admitted = some claim) :
    claim < m.writeSeq + g.descCapacity := by
  unfold Producer.admitted at h
  unfold Producer.Bounded at hbounded
  split at h <;> simp_all

/-! ### The four kinds of producer steps -/

/-- The effect of a producer step on `claim_seq`, `write_seq`, the slot stamps and the ownership of
its thread. -/
inductive RingStep (g : Geometry) (m : Mem) (t : Producer) (m' : Mem) (t' : Producer)
    (events : List ProducerEvent) : Prop
  | quiet (hclaim : m'.claimSeq = m.claimSeq) (hwrite : m'.writeSeq = m.writeSeq)
      (hslot : m'.slotSeq = m.slotSeq) (howned : t'.owned = t.owned)
      (hclaims : ∀ p, claims (events.map (.producer p)) = [])
      (hcommits : ∀ p, commits (events.map (.producer p)) = [])
  | claim (hclaim : m'.claimSeq = m.claimSeq + 1) (hwrite : m'.writeSeq = m.writeSeq)
      (hslot : m'.slotSeq = m.slotSeq) (hfree : t.owned = none)
      (howned : t'.owned = some m.claimSeq)
      (hclaims : ∀ p, claims (events.map (.producer p)) = [⟨m.claimSeq, p, t'.payload⟩])
      (hcommits : ∀ p, commits (events.map (.producer p)) = [])
  | commit (claim : ℕ) (hclaim : m'.claimSeq = m.claimSeq) (hwrite : m'.writeSeq = m.writeSeq)
      (hslot : m'.slotSeq = update m.slotSeq (g.idx claim) (claim + 1))
      (hadmitted : t.admitted = some claim) (hfree : t'.owned = none)
      (hclaims : ∀ p, claims (events.map (.producer p)) = [])
      (hcommits : ∀ p, commits (events.map (.producer p)) = [claim])
  | advance (hclaim : m'.claimSeq = m.claimSeq) (hwrite : m'.writeSeq = m.writeSeq + 1)
      (hslot : m'.slotSeq = m.slotSeq) (hcommitted : m.Committed g m.writeSeq)
      (howned : t'.owned = t.owned) (hclaims : ∀ p, claims (events.map (.producer p)) = [])
      (hcommits : ∀ p, commits (events.map (.producer p)) = [])

/-- Every producer step is of one of the four kinds. -/
theorem ProducerStep.ringStep {g : Geometry} {m m' : Mem} {t t' : Producer} {act : ProducerAct}
    {events : List ProducerEvent} (hbounded : t.Bounded g m)
    (hstep : ProducerStep g m t act m' t' events) : RingStep g m t m' t' events := by
  cases hstep with
  | publishRejected payload hpc hsize =>
    exact .quiet rfl rfl rfl (by simp [Producer.owned, hpc]) (fun _ ↦ rfl) (fun _ ↦ rfl)
  | publish payload hpc hne hsize =>
    exact .claim rfl rfl rfl (by simp [Producer.owned, hpc]) rfl (fun _ ↦ rfl) (fun _ ↦ rfl)
  | tryPublishRejected payload hpc hsize =>
    exact .quiet rfl rfl rfl (by simp [Producer.owned, hpc]) (fun _ ↦ rfl) (fun _ ↦ rfl)
  | tryPublish payload hpc hne hsize =>
    exact .quiet rfl rfl rfl (by simp [Producer.owned, hpc]) (fun _ ↦ rfl) (fun _ ↦ rfl)
  | loadSubs b claim hpc =>
    exact .quiet rfl rfl rfl (by simp [Producer.owned, Producer.goto, hpc]) (fun _ ↦ rfl)
      (fun _ ↦ rfl)
  | loadWrite b claim n hpc =>
    exact .quiet rfl rfl rfl (by simp [Producer.owned, Producer.goto, hpc]) (fun _ ↦ rfl)
      (fun _ ↦ rfl)
  | scanRead b claim n i minRead hpc hi hmax =>
    exact .quiet rfl rfl rfl (by simp [Producer.owned, Producer.goto, hpc]) (fun _ ↦ rfl)
      (fun _ ↦ rfl)
  | scanPanic b claim n i minRead hpc hi hmax =>
    exact .quiet rfl rfl rfl (by simp [Producer.owned, Producer.goto, hpc]) (fun _ ↦ rfl)
      (fun _ ↦ rfl)
  | pass b claim n i minRead hpc hi hblocking hspace =>
    exact .quiet rfl rfl rfl (by simp [Producer.owned, Producer.goto, hpc, hblocking])
      (fun _ ↦ rfl) (fun _ ↦ rfl)
  | retry b claim n i minRead hpc hi hblocking hfull =>
    exact .quiet rfl rfl rfl (by simp [Producer.owned, Producer.goto, hpc]) (fun _ ↦ rfl)
      (fun _ ↦ rfl)
  | refuse b claim n i minRead hpc hi hblocking hfull =>
    exact .quiet rfl rfl rfl (by simp [Producer.owned, Producer.finish, hpc, hblocking])
      (fun _ ↦ rfl) (fun _ ↦ rfl)
  | accept b claim n i minRead hpc hi hblocking hspace =>
    exact .quiet rfl rfl rfl (by simp [Producer.owned, Producer.goto, hpc, hblocking])
      (fun _ ↦ rfl) (fun _ ↦ rfl)
  | claim b claim hpc heq =>
    exact .claim (by simp [heq]) rfl rfl (by simp [Producer.owned, hpc])
      (by simp [Producer.owned, Producer.goto, heq]) (fun _ ↦ by rw [heq]; rfl) (fun _ ↦ rfl)
  | claimLost b claim hpc hlost =>
    exact .quiet rfl rfl rfl (by simp [Producer.owned, Producer.finish, hpc]) (fun _ ↦ rfl)
      (fun _ ↦ rfl)
  | copyByte b claim k byte hpc hbyte =>
    exact .quiet rfl rfl rfl (by simp [Producer.owned, Producer.goto, hpc]) (fun _ ↦ rfl)
      (fun _ ↦ rfl)
  | copyDone b claim k hpc hk =>
    exact .quiet rfl rfl rfl (by simp [Producer.owned, Producer.goto, hpc]) (fun _ ↦ rfl)
      (fun _ ↦ rfl)
  | storeDesc b claim hpc =>
    exact .quiet rfl rfl rfl (by simp [Producer.owned, Producer.goto, hpc]) (fun _ ↦ rfl)
      (fun _ ↦ rfl)
  | storeSeq b claim hpc =>
    exact .commit claim rfl rfl rfl (by simp [Producer.admitted, hpc]) rfl (fun _ ↦ rfl)
      (fun _ ↦ rfl)
  | advanceLoad b hpc =>
    exact .quiet rfl rfl rfl (by simp [Producer.owned, Producer.goto, hpc]) (fun _ ↦ rfl)
      (fun _ ↦ rfl)
  | advanceSlot b w hpc hcommitted =>
    exact .quiet rfl rfl rfl (by simp [Producer.owned, Producer.goto, hpc]) (fun _ ↦ rfl)
      (fun _ ↦ rfl)
  | advanceStop b w hpc huncommitted =>
    have hquiet : ∀ p, claims ([t.success].map (Event.producer p)) = [] ∧
        commits ([t.success].map (Event.producer p)) = [] := by
      intro p
      cases hblocking : t.blocking <;>
        simp [Producer.success, hblocking, claims, commits, Event.claim?, Event.commit?]
    exact .quiet rfl rfl rfl (by simp [Producer.owned, Producer.finish, hpc])
      (fun p ↦ (hquiet p).1) (fun p ↦ (hquiet p).2)
  | advanceCas b w hpc heq =>
    simp only [Producer.Bounded, hpc] at hbounded
    subst heq
    exact .advance rfl rfl rfl hbounded.2 (by simp [Producer.owned, Producer.goto, hpc])
      (fun _ ↦ rfl) (fun _ ↦ rfl)
  | advanceLost b w hpc hne =>
    exact .quiet rfl rfl rfl (by simp [Producer.owned, Producer.goto, hpc]) (fun _ ↦ rfl)
      (fun _ ↦ rfl)

/-- No producer step takes a claim back. -/
theorem ProducerStep.claimSeq_le {g : Geometry} {m m' : Mem} {t t' : Producer} {act : ProducerAct}
    {events : List ProducerEvent} (hstep : ProducerStep g m t act m' t' events) :
    m.claimSeq ≤ m'.claimSeq := by
  cases hstep with
  | publish payload hpc hne hsize => exact Nat.le_succ _
  | claim b claim hpc heq => exact heq.trans_le (Nat.le_succ claim)
  | _ => exact le_rfl

/-- A step of a subscribe call leaves `claim_seq`, `write_seq` and the slot stamps alone. -/
theorem SubscriberStep.words {m m' : Mem} {pc pc' : SubscriberPc} {act : SubscriberAct}
    {events : List SubscriberEvent} (hstep : SubscriberStep m pc act m' pc' events) :
    m'.claimSeq = m.claimSeq ∧ m'.writeSeq = m.writeSeq ∧ m'.slotSeq = m.slotSeq := by
  cases hstep <;> exact ⟨rfl, rfl, rfl⟩

/-- A step of a reader leaves `claim_seq`, `write_seq` and the slot stamps alone. -/
theorem ReaderStep.words {g : Geometry} {handles : ℕ → SubscriberPc} {m m' : Mem} {t t' : Reader}
    {act : ReaderAct} {events : List ReaderEvent}
    (hstep : ReaderStep g handles m t act m' t' events) :
    m'.claimSeq = m.claimSeq ∧ m'.writeSeq = m.writeSeq ∧ m'.slotSeq = m.slotSeq := by
  cases hstep <;> exact ⟨rfl, rfl, rfl⟩

/-- No claim is taken back. -/
theorem BusStep.claimSeq_le {g : Geometry} {s s' : State} {action : Action} {events : List Event}
    (hstep : BusStep g s action s' events) : s.mem.claimSeq ≤ s'.mem.claimSeq := by
  cases hstep with
  | producer hthread => exact hthread.claimSeq_le
  | subscriber hthread => exact hthread.words.1.ge
  | reader hthread => exact hthread.words.1.ge

/-! ### Growth of the shared words -/

/-- `write_seq` and every slot stamp have not decreased. -/
structure Mem.Grows (m m' : Mem) : Prop where
  writeSeq_le : m.writeSeq ≤ m'.writeSeq
  slotSeq_le : ∀ i, m.slotSeq i ≤ m'.slotSeq i

theorem Mem.Grows.committed {g : Geometry} {m m' : Mem} (hgrows : m.Grows m') {sequence : ℕ}
    (h : m.Committed g sequence) : m'.Committed g sequence :=
  lt_of_lt_of_le h (hgrows.slotSeq_le _)

/-- The bounds of a thread survive growth of the shared words. -/
theorem Producer.Bounded.grow {g : Geometry} {m m' : Mem} {t : Producer} (hgrows : m.Grows m')
    (hbounded : t.Bounded g m) : t.Bounded g m' := by
  have hwrite := hgrows.writeSeq_le
  unfold Producer.Bounded at hbounded ⊢
  cases hpc : t.pc <;> simp only [hpc] at hbounded ⊢ <;> try omega
  case advanceCas w => exact ⟨hbounded.1.trans hwrite, hgrows.committed hbounded.2⟩

/-- The bounds of a thread after its own step. -/
theorem ProducerStep.bounded {g : Geometry} {m m' : Mem} {t t' : Producer} {act : ProducerAct}
    {events : List ProducerEvent} (hbounded : t.Bounded g m)
    (hstep : ProducerStep g m t act m' t' events) : t'.Bounded g m' := by
  cases hstep <;>
    simp only [Producer.Bounded, Producer.goto, Producer.finish, Mem.Committed, *] at hbounded ⊢ <;>
    omega

/-! ### The invariant -/

/-- The invariant of claims, commits and `write_seq` in a run of the bus. -/
structure CommitInv (g : Geometry) (trace : List Event) (s : State) : Prop where
  claims_sequence : (claims trace).map Claim.sequence = List.range s.mem.claimSeq
  owned_lt : ∀ p claim, (s.producers p).owned = some claim → claim < s.mem.claimSeq
  owned_injective : ∀ p q claim, (s.producers p).owned = some claim →
    (s.producers q).owned = some claim → p = q
  owned_uncommitted : ∀ p claim, (s.producers p).owned = some claim → ¬ s.mem.Committed g claim
  claimed_cases : ∀ claim < s.mem.claimSeq, s.mem.Committed g claim ∨
    ∃ p, (s.producers p).owned = some claim
  bounded : ∀ p, (s.producers p).Bounded g s.mem
  write_committed : ∀ sequence < s.mem.writeSeq, s.mem.Committed g sequence
  slot_window : ∀ i, s.mem.slotSeq i ≤ s.mem.writeSeq + g.descCapacity
  slot_claimed : ∀ i, s.mem.slotSeq i ≤ s.mem.claimSeq
  slot_lap : ∀ i < g.descCapacity, ∃ laps, s.mem.slotSeq i = lapStamp g.descCapacity i laps ∧
    commitsTo g i trace = lapSequence g.descCapacity i laps

/-- The invariant holds in a fresh region. -/
theorem commitInv_init (g : Geometry) (slab : ℕ → UInt8) : CommitInv g [] (State.init slab) where
  claims_sequence := rfl
  owned_lt := fun _ _ howned ↦ nomatch howned
  owned_injective := fun _ _ _ howned ↦ nomatch howned
  owned_uncommitted := fun _ _ howned ↦ nomatch howned
  claimed_cases := fun _ hlt ↦ absurd hlt (Nat.not_lt_zero _)
  bounded := fun _ ↦ trivial
  write_committed := fun _ hlt ↦ absurd hlt (Nat.not_lt_zero _)
  slot_window := fun _ ↦ Nat.zero_le _
  slot_claimed := fun _ ↦ Nat.le_refl _
  slot_lap := fun _ _ ↦ ⟨0, rfl, rfl⟩

namespace CommitInv

variable {g : Geometry} {trace : List Event} {s : State}

/-- An admitted claim is past every committed number of its slot by exactly one lap: the stamp of
its slot is that of the lap before. -/
theorem admitted_lap (hinv : CommitInv g trace s) {p claim : ℕ}
    (hadmitted : (s.producers p).admitted = some claim) {laps : ℕ}
    (hlaps : s.mem.slotSeq (claim % g.descCapacity) =
      lapStamp g.descCapacity (claim % g.descCapacity) laps) :
    claim = claim % g.descCapacity + laps * g.descCapacity := by
  have hbelow := (hinv.bounded p).admitted_lt hadmitted
  have huncommitted := hinv.owned_uncommitted p claim (Producer.owned_of_admitted hadmitted)
  simp only [Mem.Committed, Geometry.idx_eq_mod, not_lt] at huncommitted
  refine lapStamp_next (g.mod_descCapacity_lt claim) rfl (hlaps ▸ huncommitted) ?_
  by_cases hfirst : claim < g.descCapacity
  · omega
  · -- the number one lap earlier is below `write_seq`, hence committed
    have hprevious := hinv.write_committed (claim - g.descCapacity) (by omega)
    simp only [Mem.Committed, Geometry.idx_eq_mod] at hprevious
    rw [← Nat.mod_eq_sub_mod (by omega)] at hprevious
    omega

/-- Two calls are never admitted to the same slot. -/
theorem slot_exclusive (hinv : CommitInv g trace s) {p q first second : ℕ}
    (hfirst : (s.producers p).admitted = some first)
    (hsecond : (s.producers q).admitted = some second) (hslot : g.idx first = g.idx second) :
    p = q := by
  simp only [Geometry.idx_eq_mod] at hslot
  obtain ⟨laps, hlaps, -⟩ := hinv.slot_lap _ (g.mod_descCapacity_lt first)
  have heq : first = second := by
    have h₁ := hinv.admitted_lap hfirst hlaps
    have h₂ := hinv.admitted_lap hsecond (hslot ▸ hlaps)
    omega
  subst heq
  exact hinv.owned_injective p q first (Producer.owned_of_admitted hfirst)
    (Producer.owned_of_admitted hsecond)

/-- The words of the protocol that a subscribe or receive step leaves alone. -/
theorem of_words (hinv : CommitInv g trace s) {s' : State} {events : List Event}
    (hproducers : s'.producers = s.producers) (hclaim : s'.mem.claimSeq = s.mem.claimSeq)
    (hwrite : s'.mem.writeSeq = s.mem.writeSeq) (hslot : s'.mem.slotSeq = s.mem.slotSeq)
    (hclaims : claims events = []) (hcommits : commits events = []) :
    CommitInv g (trace ++ events) s' := by
  have hgrows : s.mem.Grows s'.mem := ⟨hwrite.ge, fun i ↦ (congrFun hslot i).ge⟩
  constructor
  · simpa [hclaims, hclaim] using hinv.claims_sequence
  · simpa [hproducers, hclaim] using hinv.owned_lt
  · simpa [hproducers] using hinv.owned_injective
  · simpa [hproducers, Mem.Committed, hslot] using hinv.owned_uncommitted
  · simpa [hproducers, hclaim, Mem.Committed, hslot] using hinv.claimed_cases
  · exact fun p ↦ hproducers ▸ (hinv.bounded p).grow hgrows
  · simpa [hwrite, Mem.Committed, hslot] using hinv.write_committed
  · simpa [hwrite, hslot] using hinv.slot_window
  · simpa [hclaim, hslot] using hinv.slot_claimed
  · simpa [hslot, commitsTo, hcommits] using hinv.slot_lap

end CommitInv

/-- A committed number's stamp never goes back: a step of the ring grows the shared words. -/
theorem RingStep.grows {g : Geometry} {trace : List Event} {s : State} {p : ℕ} {m : Mem}
    {t : Producer} {events : List ProducerEvent} (hinv : CommitInv g trace s)
    (hstep : RingStep g s.mem (s.producers p) m t events) : s.mem.Grows m := by
  cases hstep with
  | quiet _ hwrite hslot => exact ⟨hwrite.ge, fun i ↦ (congrFun hslot i).ge⟩
  | claim _ hwrite hslot => exact ⟨hwrite.ge, fun i ↦ (congrFun hslot i).ge⟩
  | advance _ hwrite hslot => exact ⟨by omega, fun i ↦ (congrFun hslot i).ge⟩
  | commit claim _ hwrite hslot hadmitted =>
    refine ⟨hwrite.ge, fun i ↦ ?_⟩
    have huncommitted := hinv.owned_uncommitted p claim (Producer.owned_of_admitted hadmitted)
    simp only [Mem.Committed, not_lt] at huncommitted
    rw [hslot, update_apply]
    split_ifs with hi
    · rw [hi]
      omega
    · exact le_rfl

/-- No step of the bus takes a stamp or `write_seq` back. -/
theorem BusStep.grows {g : Geometry} {trace : List Event} {s s' : State} {action : Action}
    {events : List Event} (hinv : CommitInv g trace s) (hstep : BusStep g s action s' events) :
    s.mem.Grows s'.mem := by
  cases hstep with
  | producer hthread => exact (hthread.ringStep (hinv.bounded _)).grows hinv
  | subscriber hthread =>
    obtain ⟨-, hwrite, hslot⟩ := hthread.words
    exact ⟨hwrite.ge, fun i ↦ (congrFun hslot i).ge⟩
  | reader hthread =>
    obtain ⟨-, hwrite, hslot⟩ := hthread.words
    exact ⟨hwrite.ge, fun i ↦ (congrFun hslot i).ge⟩

/-! ### Preservation -/

/-- A step that keeps the claim its thread owns keeps the claim of every thread. -/
theorem owned_update {producers : ℕ → Producer} {p : ℕ} {t : Producer}
    (howned : t.owned = (producers p).owned) (q : ℕ) :
    (update producers p t q).owned = (producers q).owned := by
  by_cases hq : q = p
  · subst hq
    rw [update_self, howned]
  · rw [update_of_ne hq]

/-- After a step that leaves its thread with no claim, the other threads own what they did. -/
theorem owned_update_of_none {producers : ℕ → Producer} {p : ℕ} {t : Producer}
    (hfree : t.owned = none) {q claim : ℕ} (howned : (update producers p t q).owned = some claim) :
    q ≠ p ∧ (producers q).owned = some claim := by
  have hq : q ≠ p := by
    rintro rfl
    rw [update_self, hfree] at howned
    cases howned
  exact ⟨hq, by rwa [update_of_ne hq] at howned⟩

namespace CommitInv

variable {g : Geometry} {trace : List Event} {s : State} {p : ℕ} {m : Mem} {t : Producer}
  {events : List ProducerEvent}

/-- A claim step hands out the next sequence number to a thread that owns none. -/
theorem claim_step (hinv : CommitInv g trace s)
    (hbounded : ∀ q, (update s.producers p t q).Bounded g m)
    (hclaim : m.claimSeq = s.mem.claimSeq + 1) (hwrite : m.writeSeq = s.mem.writeSeq)
    (hslot : m.slotSeq = s.mem.slotSeq) (howned : t.owned = some s.mem.claimSeq)
    (hfree : (s.producers p).owned = none)
    (hclaims : claims (events.map (.producer p)) = [⟨s.mem.claimSeq, p, t.payload⟩])
    (hcommits : commits (events.map (.producer p)) = []) :
    CommitInv g (trace ++ events.map (.producer p)) (s.setProducer p m t) := by
  have hother : ∀ q claim, (update s.producers p t q).owned = some claim →
      q = p ∧ claim = s.mem.claimSeq ∨ q ≠ p ∧ (s.producers q).owned = some claim := by
    intro q claim hq
    by_cases hqp : q = p
    · subst hqp
      rw [update_self, howned] at hq
      exact Or.inl ⟨rfl, (Option.some.inj hq).symm⟩
    · rw [update_of_ne hqp] at hq
      exact Or.inr ⟨hqp, hq⟩
  have hfresh : ∀ i, m.slotSeq i ≤ s.mem.claimSeq := fun i ↦ hslot ▸ hinv.slot_claimed i
  constructor
  · simp [State.setProducer, hclaims, hclaim, hinv.claims_sequence, List.range_succ]
  · intro q claim hq
    simp only [State.setProducer, hclaim]
    rcases hother q claim hq with ⟨-, rfl⟩ | ⟨-, hold⟩
    · omega
    · have := hinv.owned_lt q claim hold
      omega
  · intro q r claim hq hr
    rcases hother q claim hq with ⟨rfl, rfl⟩ | ⟨-, hold⟩
    · rcases hother r _ hr with ⟨rfl, -⟩ | ⟨-, hold'⟩
      · rfl
      · exact absurd (hinv.owned_lt r _ hold') (lt_irrefl _)
    · rcases hother r _ hr with ⟨rfl, rfl⟩ | ⟨-, hold'⟩
      · exact absurd (hinv.owned_lt q _ hold) (lt_irrefl _)
      · exact hinv.owned_injective q r claim hold hold'
  · intro q claim hq
    simp only [State.setProducer, Mem.Committed, hslot, not_lt]
    rcases hother q claim hq with ⟨-, rfl⟩ | ⟨-, hold⟩
    · exact hinv.slot_claimed _
    · simpa [Mem.Committed] using hinv.owned_uncommitted q claim hold
  · intro claim hlt
    simp only [State.setProducer, hclaim] at hlt
    by_cases hnew : claim = s.mem.claimSeq
    · exact Or.inr ⟨p, by simp [State.setProducer, howned, hnew]⟩
    · rcases hinv.claimed_cases claim (by omega) with hcommitted | ⟨q, hq⟩
      · exact Or.inl (by simpa [State.setProducer, Mem.Committed, hslot] using hcommitted)
      · have hqp : q ≠ p := by
          rintro rfl
          rw [hfree] at hq
          cases hq
        exact Or.inr ⟨q, by simpa [State.setProducer, update_of_ne hqp] using hq⟩
  · exact hbounded
  · simpa [State.setProducer, hwrite, Mem.Committed, hslot] using hinv.write_committed
  · simpa [State.setProducer, hwrite, hslot] using hinv.slot_window
  · intro i
    simp only [State.setProducer, hclaim]
    exact (hfresh i).trans (Nat.le_succ _)
  · simpa [State.setProducer, hslot, commitsTo, hcommits] using hinv.slot_lap

/-- A commit step stamps the slot of the claim its thread was admitted to with the next lap. -/
theorem commit_step (hinv : CommitInv g trace s)
    (hbounded : ∀ q, (update s.producers p t q).Bounded g m) {claim : ℕ}
    (hgrows : s.mem.Grows m) (hclaim : m.claimSeq = s.mem.claimSeq)
    (hwrite : m.writeSeq = s.mem.writeSeq)
    (hslot : m.slotSeq = update s.mem.slotSeq (g.idx claim) (claim + 1))
    (hadmitted : (s.producers p).admitted = some claim) (hfree : t.owned = none)
    (hclaims : claims (events.map (.producer p)) = [])
    (hcommits : commits (events.map (.producer p)) = [claim]) :
    CommitInv g (trace ++ events.map (.producer p)) (s.setProducer p m t) := by
  have howned := Producer.owned_of_admitted hadmitted
  have hwindow := (hinv.bounded p).admitted_lt hadmitted
  have hclaimed := hinv.owned_lt p claim howned
  constructor
  · simpa [State.setProducer, hclaims, hclaim] using hinv.claims_sequence
  · intro q other hq
    simp only [State.setProducer, hclaim]
    exact hinv.owned_lt q other (owned_update_of_none hfree hq).2
  · intro q r other hq hr
    exact hinv.owned_injective q r other (owned_update_of_none hfree hq).2
      (owned_update_of_none hfree hr).2
  · intro q other hq hcommitted
    obtain ⟨hqp, hold⟩ := owned_update_of_none hfree hq
    have huncommitted := hinv.owned_uncommitted q other hold
    simp only [Mem.Committed, State.setProducer, hslot, update_apply, Geometry.idx_eq_mod]
      at hcommitted huncommitted
    split_ifs at hcommitted with hcell
    · -- `other` would be at least a lap before `claim`, hence committed
      rcases Nat.lt_or_ge other claim with hlt | hge
      · have hlap := add_le_of_mod_eq hcell hlt
        have hbelow := hinv.write_committed other (by omega)
        simp only [Mem.Committed, Geometry.idx_eq_mod] at hbelow
        omega
      · have heq : other = claim := by omega
        subst heq
        exact hqp (hinv.owned_injective q p other hold howned)
    · omega
  · intro other hlt
    simp only [State.setProducer, hclaim] at hlt
    rcases hinv.claimed_cases other hlt with hcommitted | ⟨q, hq⟩
    · exact Or.inl (hgrows.committed hcommitted)
    · by_cases hqp : q = p
      · subst hqp
        have heq : other = claim := Option.some.inj (hq.symm.trans howned)
        subst heq
        refine Or.inl ?_
        simp [State.setProducer, Mem.Committed, hslot]
      · exact Or.inr ⟨q, by simpa [State.setProducer, update_of_ne hqp] using hq⟩
  · exact hbounded
  · intro sequence hlt
    simp only [State.setProducer, hwrite] at hlt
    exact hgrows.committed (hinv.write_committed sequence hlt)
  · intro i
    simp only [State.setProducer, hslot, hwrite, update_apply]
    split_ifs with hi
    · omega
    · exact hinv.slot_window i
  · intro i
    simp only [State.setProducer, hslot, hclaim, update_apply]
    split_ifs with hi
    · omega
    · exact hinv.slot_claimed i
  · intro i hi
    obtain ⟨laps, hlaps, htrace⟩ := hinv.slot_lap i hi
    by_cases hcell : claim % g.descCapacity = i
    · subst hcell
      have hlap := hinv.admitted_lap hadmitted hlaps
      refine ⟨laps + 1, ?_, ?_⟩
      · simp [State.setProducer, hslot, lapStamp, ← hlap]
      · rw [commitsTo_append, htrace, lapSequence_succ, ← hlap]
        simp [commitsTo, hcommits]
    · refine ⟨laps, ?_, ?_⟩
      · simpa [State.setProducer, hslot, update_of_ne (Ne.symm hcell)] using hlaps
      · simpa [commitsTo, hcommits, hcell] using htrace

/-- A step that changes neither claims nor stamps, and moves `write_seq` over a committed number if
it moves it at all. -/
theorem quiet_step (hinv : CommitInv g trace s)
    (hbounded : ∀ q, (update s.producers p t q).Bounded g m)
    (hclaim : m.claimSeq = s.mem.claimSeq) (hslot : m.slotSeq = s.mem.slotSeq)
    (hwrite : m.writeSeq = s.mem.writeSeq ∨
      m.writeSeq = s.mem.writeSeq + 1 ∧ s.mem.Committed g s.mem.writeSeq)
    (howned : t.owned = (s.producers p).owned)
    (hclaims : claims (events.map (.producer p)) = [])
    (hcommits : commits (events.map (.producer p)) = []) :
    CommitInv g (trace ++ events.map (.producer p)) (s.setProducer p m t) := by
  have howned := owned_update howned
  constructor
  · simpa [State.setProducer, hclaims, hclaim] using hinv.claims_sequence
  · simpa [State.setProducer, howned, hclaim] using hinv.owned_lt
  · simpa [State.setProducer, howned] using hinv.owned_injective
  · simpa [State.setProducer, howned, Mem.Committed, hslot] using hinv.owned_uncommitted
  · simpa [State.setProducer, howned, hclaim, Mem.Committed, hslot] using hinv.claimed_cases
  · exact hbounded
  · intro sequence hlt
    simp only [State.setProducer, Mem.Committed, hslot] at hlt ⊢
    rcases hwrite with heq | ⟨heq, hcommitted⟩
    · exact hinv.write_committed sequence (by omega)
    · rcases Nat.lt_succ_iff_lt_or_eq.mp (heq ▸ hlt) with hbelow | hlast
      · exact hinv.write_committed sequence hbelow
      · exact hlast ▸ hcommitted
  · intro i
    have hwindow := hinv.slot_window i
    simp only [State.setProducer, hslot]
    rcases hwrite with heq | ⟨heq, -⟩ <;> omega
  · simpa [State.setProducer, hclaim, hslot] using hinv.slot_claimed
  · simpa [State.setProducer, hslot, commitsTo, hcommits] using hinv.slot_lap

/-- Every step of a producer thread keeps the invariant. -/
theorem producer_step (hinv : CommitInv g trace s) {act : ProducerAct}
    (hstep : ProducerStep g s.mem (s.producers p) act m t events) :
    CommitInv g (trace ++ events.map (.producer p)) (s.setProducer p m t) := by
  have hring := hstep.ringStep (hinv.bounded p)
  have hgrows := hring.grows hinv
  have hbounded : ∀ q, (update s.producers p t q).Bounded g m := by
    intro q
    by_cases hq : q = p
    · subst hq
      rw [update_self]
      exact hstep.bounded (hinv.bounded q)
    · rw [update_of_ne hq]
      exact (hinv.bounded q).grow hgrows
  cases hring with
  | quiet hclaim hwrite hslot howned hclaims hcommits =>
    exact hinv.quiet_step hbounded hclaim hslot (Or.inl hwrite) howned (hclaims p) (hcommits p)
  | claim hclaim hwrite hslot hfree howned hclaims hcommits =>
    exact hinv.claim_step hbounded hclaim hwrite hslot howned hfree (hclaims p) (hcommits p)
  | commit claim hclaim hwrite hslot hadmitted hfree hclaims hcommits =>
    exact hinv.commit_step hbounded hgrows hclaim hwrite hslot hadmitted hfree (hclaims p)
      (hcommits p)
  | advance hclaim hwrite hslot hcommitted howned hclaims hcommits =>
    exact hinv.quiet_step hbounded hclaim hslot (Or.inr ⟨hwrite, hcommitted⟩) howned (hclaims p)
      (hcommits p)

/-- Every step of the bus keeps the invariant. -/
theorem step (hinv : CommitInv g trace s) {action : Action} {s' : State} {reported : List Event}
    (hstep : BusStep g s action s' reported) : CommitInv g (trace ++ reported) s' := by
  cases hstep with
  | producer hstep => exact hinv.producer_step hstep
  | subscriber hstep =>
    obtain ⟨hclaim, hwrite, hslot⟩ := hstep.words
    exact hinv.of_words rfl hclaim hwrite hslot (claims_map_subscriber _ _)
      (commits_map_subscriber _ _)
  | reader hstep =>
    obtain ⟨hclaim, hwrite, hslot⟩ := hstep.words
    exact hinv.of_words rfl hclaim hwrite hslot (claims_map_reader _ _) (commits_map_reader _ _)

end CommitInv

/-- The invariant of claims, commits and `write_seq` holds in every run of the bus. -/
theorem commitInv_run {g : Geometry} {slab : ℕ → UInt8} {guard : Guard State Action Event}
    {trace : List Event} {s : State} (hrun : Run (busSystem g slab) guard trace s) :
    CommitInv g trace s :=
  hrun.invariant (CommitInv g) (commitInv_init g slab) fun _ hinv _ hstep ↦
    hinv.step (step_cases hstep)

/-- `write_seq` never decreases. -/
theorem writeSeq_mono {g : Geometry} {slab : ℕ → UInt8} {guard : Guard State Action Event}
    {trace : List Event} {s s' : State} {action : Action} {events : List Event}
    (hrun : Run (busSystem g slab) guard trace s) (hstep : step g s action = some (s', events)) :
    s.mem.writeSeq ≤ s'.mem.writeSeq := by
  have hinv := commitInv_run hrun
  cases step_cases hstep with
  | producer hthread => exact ((hthread.ringStep (hinv.bounded _)).grows hinv).writeSeq_le
  | subscriber hthread => exact hthread.words.2.1.ge
  | reader hthread => exact hthread.words.2.1.ge

/-- A sequence number is committed in a state exactly when its commit store is in the trace. -/
theorem CommitInv.committed_iff {g : Geometry} {trace : List Event} {s : State}
    (hinv : CommitInv g trace s) (sequence : ℕ) :
    s.mem.Committed g sequence ↔ sequence ∈ commits trace := by
  have hlt := g.mod_descCapacity_lt sequence
  obtain ⟨laps, hlaps, htrace⟩ := hinv.slot_lap _ hlt
  have hmem : sequence ∈ commitsTo g (sequence % g.descCapacity) trace ↔
      sequence ∈ commits trace := by
    simp [commitsTo]
  rw [← hmem, htrace, mem_lapSequence_iff hlt, Mem.Committed, Geometry.idx_eq_mod, hlaps]
  simp

/-! ### Slot ownership -/

/-- Slot ownership and contiguous commit. In every run of the bus: at most one call at a time is
admitted to a slot; the numbers committed to slot `i` are `i, i + cap, i + 2 * cap, …` in that
order; and `write_seq` never decreases and has only committed numbers below it. -/
theorem slot_ownership (g : Geometry) (slab : ℕ → UInt8) (trace : List Event) (s : State)
    (hrun : Run (busSystem g slab) unguarded trace s) :
    (∀ p q first second, (s.producers p).admitted = some first →
      (s.producers q).admitted = some second → g.idx first = g.idx second → p = q) ∧
    (∀ i < g.descCapacity, ∃ laps, commitsTo g i trace = lapSequence g.descCapacity i laps) ∧
    (∀ action s' events, step g s action = some (s', events) →
      s.mem.writeSeq ≤ s'.mem.writeSeq) ∧
    ∀ sequence < s.mem.writeSeq, sequence ∈ commits trace := by
  have hinv := commitInv_run hrun
  refine ⟨fun p q first second hfirst hsecond hslot ↦ hinv.slot_exclusive hfirst hsecond hslot,
    fun i hi ↦ ?_, fun action s' events hstep ↦ writeSeq_mono hrun hstep, fun sequence hlt ↦ ?_⟩
  · obtain ⟨laps, -, htrace⟩ := hinv.slot_lap i hi
    exact ⟨laps, htrace⟩
  · exact (hinv.committed_iff sequence).mp (hinv.write_committed sequence hlt)

/-- The ring of one slot of one byte. -/
def tinyGeometry : Geometry := ⟨1, 1, rfl⟩

/-- A run in which a `try_publish` is admitted to the slot that a `publish` has filled before. -/
theorem slot_ownership_second_lap : ∃ (trace : List Event) (s : State),
    commits trace = [0] ∧ (s.producers 1).admitted = some 1 ∧
      ∃ laps, commitsTo tinyGeometry 0 trace = lapSequence 1 0 laps := by
  have hrun : ((busSystem tinyGeometry fun _ ↦ 0).exec (State.init fun _ ↦ 0)
      (.producer 0 (.publish [7]) :: List.replicate 12 (.producer 0 (.next false)) ++
        .producer 1 (.tryPublish [8]) :: List.replicate 4 (.producer 1 (.next false)))).map
          (fun result ↦ (commits result.2, (result.1.producers 1).admitted)) =
      some ([0], some 1) := by decide
  obtain ⟨⟨s, trace⟩, hexec, hresult⟩ := Option.map_eq_some_iff.mp hrun
  obtain ⟨hcommits, hadmitted⟩ := Prod.mk.inj hresult
  exact ⟨trace, s, hcommits, hadmitted,
    (slot_ownership _ _ trace s (run_of_exec hexec)).2.1 0 (by decide)⟩

end AarnnNsys.Bus
