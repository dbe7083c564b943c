import AarnnNsys.Lib.HappensBefore
import AarnnNsys.Bus.Layout
import AarnnNsys.Bus.Width

/-!
# What the calls touch

Every operation of a call is one access to the region: atomic to a header word or to the stamp of a
slot, plain to a descriptor or to a payload byte. `touches` is the access that a step makes, with
the ordering that the source gives it, and `touchSystem` is the bus that reports the accesses of its
steps.

`touches_inside` is memory safety. In every run, also one that shares its subscribers, makes too
many subscribe calls or publishes payloads of any length, every access of every call lies inside the
region, accesses to different words, descriptors or bytes do not overlap, and no `try_recv` copies
more bytes than its buffer has room for.
-/

set_option autoImplicit false
set_option relaxedAutoImplicit false

namespace AarnnNsys.Bus

open Function Lib

/-! ### Accesses -/

/-- The atomic words of the region. -/
inductive Location
  | writeSeq
  | claimSeq
  | nSubs
  | subReadSeq (id : ℕ)
  | slotSeq (i : ℕ)
  deriving DecidableEq

/-- The plain memory of the region: the descriptor of a slot, and a byte of the payload slab by its
offset from `payload_base`. -/
inductive Cell
  | desc (i : ℕ)
  | payload (offset : ℕ)
  deriving DecidableEq

/-- The threads of the bus. -/
inductive ThreadId
  | producer (p : ℕ)
  | subscriber (h : ℕ)
  | reader (r : ℕ)
  deriving DecidableEq

/-- An access by a thread. `sequence` is the number of the message that a plain access is about. -/
structure Touch where
  thread : ThreadId
  access : Access Location Cell
  sequence : ℕ
  deriving DecidableEq

/-- The access that the next operation of a producer call makes. A compare-exchange that fails is an
acquire load. -/
def Producer.accesses (g : Geometry) (spurious : Bool) (m : Mem) (t : Producer) :
    List (Access Location Cell × ℕ) :=
  match t.pc with
  | .idle | .panicked _ => []
  | .loadSubs _ => [(.load .nSubs, 0)]
  | .loadWrite _ _ => [(.load .writeSeq, 0)]
  | .scan _ n i _ => if i < n ∧ i < maxSubscribers then [(.load (.subReadSeq i), 0)] else []
  | .casClaim claim =>
    if m.claimSeq = claim ∧ spurious = false then [(.update .claimSeq, 0)]
    else [(.load .claimSeq, 0)]
  | .copy claim k =>
    if k < t.payload.length then [(.write (.payload (g.payloadOffset (g.idx claim) k)), claim)]
    else []
  | .storeDesc claim => [(.write (.desc (g.idx claim)), claim)]
  | .storeSeq claim => [(.store (.slotSeq (g.idx claim)), 0)]
  | .advanceLoad => [(.load .writeSeq, 0)]
  | .advanceSlot w => [(.load (.slotSeq (g.idx w)), 0)]
  | .advanceCas w => if m.writeSeq = w then [(.update .writeSeq, 0)] else [(.load .writeSeq, 0)]

/-- The access of a step of a producer thread. A call with an unsuitable payload makes none. -/
def producerAccesses (g : Geometry) (act : ProducerAct) (m : Mem) (t : Producer) :
    List (Access Location Cell × ℕ) :=
  match act with
  | .publish payload =>
    if payload.isEmpty || g.slotBytes < payload.length then [] else [(.update .claimSeq, 0)]
  | .tryPublish payload =>
    if payload.isEmpty || g.slotBytes < payload.length then [] else [(.load .claimSeq, 0)]
  | .next spurious => t.accesses g spurious m

/-- The access of a step of a subscribe call. -/
def subscriberAccesses (act : SubscriberAct) (pc : SubscriberPc) :
    List (Access Location Cell × ℕ) :=
  match act, pc with
  | .subscribe, _ => [(.update .nSubs, 0)]
  | .next, .loadStart _ => [(.load .writeSeq, 0)]
  | .next, .storeStart id _ => [(.store (.subReadSeq id), 0)]
  | .next, _ => []

/-- The access that the next operation of a `try_recv` call makes. -/
def Reader.accesses (g : Geometry) (t : Reader) : List (Access Location Cell × ℕ) :=
  match t.pc with
  | .idle => []
  | .loadSeq seq => [(.load (.slotSeq (g.idx seq)), 0)]
  | .loadLen seq => [(.read (.desc (g.idx seq)), seq)]
  | .copy seq len out =>
    if out.length < len then
      [(.read (.payload (g.payloadOffset (g.idx seq) out.length)), seq)]
    else []
  | .storeSeq _ _ => [(.store (.subReadSeq t.id), 0)]

/-- The access of a step of a reader thread. -/
def readerAccesses (g : Geometry) (act : ReaderAct) (handles : ℕ → SubscriberPc) (t : Reader) :
    List (Access Location Cell × ℕ) :=
  match act with
  | .tryRecv h _ =>
    match handles h with
    | .ready id => [(.load (.subReadSeq id), 0)]
    | _ => []
  | .next => t.accesses g

/-- An access with the thread that makes it. -/
def Touch.by (thread : ThreadId) (access : Access Location Cell × ℕ) : Touch :=
  ⟨thread, access.1, access.2⟩

/-- The access of a step of the bus. -/
def touches (g : Geometry) (s : State) : Action → List Touch
  | .producer p act =>
    (producerAccesses g act s.mem (s.producers p)).map (.by (.producer p))
  | .subscriber h act => (subscriberAccesses act (s.subscribers h)).map (.by (.subscriber h))
  | .reader r act =>
    (readerAccesses g act s.subscribers (s.readers r)).map (.by (.reader r))

/-- The bus, with the accesses of its steps. -/
def touchSystem (g : Geometry) (slab : ℕ → UInt8) :
    TransitionSystem State Action (Event ⊕ Touch) :=
  (busSystem g slab).watch (touches g)

/-- The accesses of a run, in order. -/
def touched (trace : List (Event ⊕ Touch)) : List Touch := trace.filterMap Sum.getRight?

/-- The accesses so far, and those of the next step. -/
theorem touched_watch (trace : List (Event ⊕ Touch)) (events : List Event) (now : List Touch) :
    touched (trace ++ (events.map .inl ++ now.map .inr)) = touched trace ++ now := by
  simp [touched, List.filterMap_map, Function.comp_def]

/-- A run with its accesses is a run of the bus. -/
theorem run_of_touches {g : Geometry} {slab : ℕ → UInt8} {allowed : State → Action → Prop}
    {trace : List (Event ⊕ Touch)} {s : State}
    (hrun : Run (touchSystem g slab) (fun _ ↦ allowed) trace s) :
    Run (busSystem g slab) (fun _ ↦ allowed) (trace.filterMap Sum.getLeft?) s := by
  refine hrun.unwatch ?_
  intro trace s action hallowed
  exact hallowed

/-- The induction rule for the accesses of a run. Assumes: a property of accesses and states that
every step keeps. -/
theorem touched_invariant {g : Geometry} {slab : ℕ → UInt8} {allowed : State → Action → Prop}
    (property : List Touch → State → Prop) (hinit : property [] (State.init slab))
    (hstep : ∀ {trace s action s' events} (accessed : List Touch),
      Run (busSystem g slab) (fun _ ↦ allowed) trace s → property accessed s → allowed s action →
        BusStep g s action s' events → property (accessed ++ touches g s action) s')
    {trace : List (Event ⊕ Touch)} {s : State}
    (hrun : Run (touchSystem g slab) (fun _ ↦ allowed) trace s) :
    property (touched trace) s := by
  have hstart : property (touched []) (touchSystem g slab).init := hinit
  refine hrun.invariant (fun trace s ↦ property (touched trace) s) hstart ?_
  intro trace s action s' reported hprevious hproperty hallowed hnext
  obtain ⟨events, htaken, rfl⟩ := TransitionSystem.watch_step hnext
  rw [touched_watch]
  exact hstep _ (run_of_touches hprevious) hproperty hallowed (step_cases htaken)

/-! ### Every access is inside its array -/

/-- An access is to a word, a descriptor or a byte that the region has. -/
def InBounds (g : Geometry) : Location ⊕ Cell → Prop
  | .inl (.subReadSeq id) => id < maxSubscribers
  | .inl (.slotSeq i) | .inr (.desc i) => i < g.descCapacity
  | .inr (.payload offset) => offset < g.descCapacity * g.slotBytes
  | _ => True

/-- A byte of a slot is a byte of the slab. -/
theorem payloadOffset_lt {g : Geometry} {sequence k : ℕ} (hk : k < g.slotBytes) :
    g.payloadOffset (g.idx sequence) k < g.descCapacity * g.slotBytes := by
  rw [Geometry.payloadOffset, Geometry.idx_eq_mod]
  have hslot := Handle.mul_add_le g.slotBytes (g.mod_descCapacity_lt sequence)
  omega

/-- What every run knows about identifiers and about the buffers of receive calls. -/
structure BoundsInv (g : Geometry) (s : State) : Prop where
  id_lt : ∀ h id, (s.subscribers h).id? = some id → id < maxSubscribers
  reader_id_lt : ∀ r, (s.readers r).pc ≠ .idle → (s.readers r).id < maxSubscribers
  len_le : ∀ r seq len out, (s.readers r).pc = .copy seq len out →
    out.length ≤ len ∧ len ≤ (s.readers r).outLen ∧ len ≤ g.slotBytes

/-- The bounds in a fresh region. -/
theorem boundsInv_init (g : Geometry) (slab : ℕ → UInt8) : BoundsInv g (State.init slab) where
  id_lt := fun _ _ hid ↦ nomatch hid
  reader_id_lt := fun _ hactive ↦ absurd rfl hactive
  len_le := fun _ _ _ _ hpc ↦ nomatch hpc

namespace BoundsInv

variable {g : Geometry} {s : State}

/-- A step of a subscribe call takes an identifier that has an entry, or none. -/
theorem subscriber_step (hinv : BoundsInv g s) {h : ℕ} {act : SubscriberAct} {m : Mem}
    {pc : SubscriberPc} {events : List SubscriberEvent}
    (hstep : SubscriberStep s.mem (s.subscribers h) act m pc events) :
    BoundsInv g (s.setSubscriber h m pc) := by
  refine ⟨fun h' id hid ↦ ?_, hinv.reader_id_lt, hinv.len_le⟩
  simp only [State.setSubscriber] at hid
  by_cases hh : h' = h
  · rw [hh, update_self] at hid
    cases hstep with
    | reject hpc hmax => cases hid
    | register hpc hmax =>
      cases hid
      exact hmax
    | loadStart other hpc | storeStart other start hpc =>
      exact hinv.id_lt h id (by rw [hpc]; exact hid)
  · rw [update_of_ne hh] at hid
    exact hinv.id_lt h' id hid

/-- A step of a reader keeps within its buffer. -/
theorem reader_step (hinv : BoundsInv g s) (hfit : s.mem.LengthsFit g) {r : ℕ} {act : ReaderAct}
    {m : Mem} {t : Reader} {events : List ReaderEvent}
    (hstep : ReaderStep g s.subscribers s.mem (s.readers r) act m t events) :
    BoundsInv g (s.setReader r m t) := by
  refine ⟨hinv.id_lt, fun r' hactive ↦ ?_, fun r' seq len out hpc' ↦ ?_⟩
  · simp only [State.setReader] at hactive ⊢
    by_cases hr : r' = r
    · subst hr
      rw [update_self] at hactive ⊢
      cases hstep with
      | tryRecv h id outLen hpc hready =>
        exact hinv.id_lt h id (by rw [hready]; rfl)
      | empty seq hpc | tooLarge seq hpc | storeSeq seq out hpc => exact absurd rfl hactive
      | _ => exact hinv.reader_id_lt r' (by simp [*])
    · rw [update_of_ne hr] at hactive ⊢
      exact hinv.reader_id_lt r' hactive
  · simp only [State.setReader] at hpc' ⊢
    by_cases hr : r' = r
    · subst hr
      rw [update_self] at hpc' ⊢
      cases hstep with
      | loadLen other hpc hle =>
        cases hpc'
        exact ⟨Nat.zero_le _, hle, hfit _⟩
      | copyByte other length copied hpc hlt =>
        cases hpc'
        obtain ⟨-, hout, hslot⟩ := hinv.len_le r' _ _ _ hpc
        exact ⟨by simpa using hlt, hout, hslot⟩
      | _ => cases hpc'
    · rw [update_of_ne hr] at hpc' ⊢
      exact hinv.len_le r' seq len out hpc'

end BoundsInv

/-- The bounds in every run. -/
theorem boundsInv_run {g : Geometry} {slab : ℕ → UInt8} {guard : Guard State Action Event}
    {trace : List Event} {s : State} (hrun : Run (busSystem g slab) guard trace s) :
    BoundsInv g s := by
  refine hrun.invariant (fun _ s ↦ BoundsInv g s) (boundsInv_init g slab) ?_
  intro trace s action s' events hprevious hinv _ hstep
  cases step_cases hstep with
  | producer hthread => exact ⟨hinv.id_lt, hinv.reader_id_lt, hinv.len_le⟩
  | subscriber hthread => exact hinv.subscriber_step hthread
  | reader hthread => exact hinv.reader_step (lengthsFit_run hprevious) hthread

/-- A producer accesses what the region has. -/
theorem producerAccesses_inBounds {g : Geometry} {m : Mem} {t : Producer} (hsized : t.Sized g)
    {act : ProducerAct} {access : Access Location Cell × ℕ}
    (hmem : access ∈ producerAccesses g act m t) : InBounds g access.1.target := by
  have hslot : ∀ sequence, g.idx sequence < g.descCapacity := fun sequence ↦ by
    rw [Geometry.idx_eq_mod]
    exact g.mod_descCapacity_lt sequence
  cases act with
  | publish payload | tryPublish payload =>
    simp only [producerAccesses, List.mem_ite_nil_left, List.mem_singleton] at hmem
    rw [hmem.2]
    trivial
  | next b =>
    simp only [producerAccesses, Producer.accesses] at hmem
    cases hpc : t.pc <;> simp only [hpc, List.mem_ite_nil_right, List.mem_singleton,
      List.not_mem_nil] at hmem
    case scan claim n i minRead =>
      rw [hmem.2]
      exact hmem.1.2
    case copy claim k =>
      rw [hmem.2]
      exact payloadOffset_lt (hmem.1.trans_le (hsized (by simp [hpc])))
    case casClaim claim =>
      split_ifs at hmem <;> rw [List.mem_singleton.mp hmem] <;> trivial
    case advanceCas w =>
      split_ifs at hmem <;> rw [List.mem_singleton.mp hmem] <;> trivial
    case loadSubs claim | loadWrite claim n | advanceLoad =>
      rw [hmem]
      trivial
    case storeDesc claim | storeSeq claim | advanceSlot claim =>
      rw [hmem]
      exact hslot claim

/-- A subscribe call accesses what the region has. -/
theorem subscriberAccesses_inBounds {g : Geometry} {act : SubscriberAct} {pc : SubscriberPc}
    (hid : ∀ id, pc.id? = some id → id < maxSubscribers) {access : Access Location Cell × ℕ}
    (hmem : access ∈ subscriberAccesses act pc) : InBounds g access.1.target := by
  cases act with
  | subscribe =>
    rw [List.mem_singleton.mp hmem]
    trivial
  | next =>
    cases pc with
    | loadStart id =>
      rw [List.mem_singleton.mp hmem]
      trivial
    | storeStart id start =>
      rw [List.mem_singleton.mp hmem]
      exact hid id rfl
    | _ => cases hmem

/-- A reader accesses what the region has. -/
theorem readerAccesses_inBounds {g : Geometry} {act : ReaderAct} {handles : ℕ → SubscriberPc}
    {t : Reader} (hready : ∀ h id, handles h = .ready id → id < maxSubscribers)
    (hid : t.pc ≠ .idle → t.id < maxSubscribers)
    (hlen : ∀ seq len out, t.pc = .copy seq len out → len ≤ g.slotBytes)
    {access : Access Location Cell × ℕ} (hmem : access ∈ readerAccesses g act handles t) :
    InBounds g access.1.target := by
  have hslot : ∀ sequence, g.idx sequence < g.descCapacity := fun sequence ↦ by
    rw [Geometry.idx_eq_mod]
    exact g.mod_descCapacity_lt sequence
  cases act with
  | tryRecv h outLen =>
    simp only [readerAccesses] at hmem
    cases hpc : handles h <;> simp only [hpc, List.mem_singleton, List.not_mem_nil] at hmem
    rw [hmem]
    exact hready h _ hpc
  | next =>
    simp only [readerAccesses, Reader.accesses] at hmem
    cases hpc : t.pc <;> simp only [hpc, List.mem_ite_nil_right, List.mem_singleton,
      List.not_mem_nil] at hmem
    case loadSeq seq | loadLen seq =>
      rw [hmem]
      exact hslot seq
    case copy seq len out =>
      rw [hmem.2]
      exact payloadOffset_lt (hmem.1.trans_le (hlen seq len out hpc))
    case storeSeq seq out =>
      rw [hmem]
      exact hid (by simp [hpc])

/-- Every access of every run is in bounds. -/
theorem touched_inBounds {g : Geometry} {slab : ℕ → UInt8} {allowed : State → Action → Prop}
    {trace : List (Event ⊕ Touch)} {s : State}
    (hrun : Run (touchSystem g slab) (fun _ ↦ allowed) trace s) :
    ∀ touch ∈ touched trace, InBounds g touch.access.target := by
  refine touched_invariant (fun accessed _ ↦ ∀ touch ∈ accessed, InBounds g touch.access.target)
    (by simp) ?_ hrun
  intro trace s action s' events accessed hprevious hbefore _ hstep touch hmem
  have hbounds := boundsInv_run hprevious
  rcases List.mem_append.mp hmem with hold | hnew
  · exact hbefore touch hold
  · cases hstep with
    | @producer p act =>
      obtain ⟨access, haccess, rfl⟩ := List.mem_map.mp hnew
      exact producerAccesses_inBounds ((payloadInv_run hprevious).sized p) haccess
    | @subscriber h act =>
      obtain ⟨access, haccess, rfl⟩ := List.mem_map.mp hnew
      exact subscriberAccesses_inBounds (hbounds.id_lt h) haccess
    | @reader r act =>
      obtain ⟨access, haccess, rfl⟩ := List.mem_map.mp hnew
      refine readerAccesses_inBounds (fun h id hready ↦ ?_) (hbounds.reader_id_lt r) ?_ haccess
      · exact hbounds.id_lt h id (by rw [hready]; rfl)
      · exact fun seq len out hpc ↦ (hbounds.len_le r seq len out hpc).2.2

/-! ### Every access is inside the region -/

/-- The distance from the region's base of what an access is to: the fields of `Header`, of the
slots and of the payload slab. -/
def placeOffset (g : Geometry) : Location ⊕ Cell → ℕ
  | .inl .writeSeq => 0
  | .inl .claimSeq => 8
  | .inl .nSubs => 32
  | .inl (.subReadSeq id) => 96 + 8 * id
  | .inl (.slotSeq i) => 640 + 64 * i
  | .inr (.desc i) => 640 + 64 * i + 8
  | .inr (.payload offset) => 640 + 64 * g.descCapacity + offset

/-- The bytes of what an access is to. -/
def placeSize : Location ⊕ Cell → ℕ
  | .inl .nSubs => 4
  | .inr (.payload _) => 1
  | _ => 8

/-- What two different accesses are to stands one behind the other. -/
theorem placeOffset_apart {g : Geometry} {first second : Location ⊕ Cell}
    (hfirst : InBounds g first) (hsecond : InBounds g second) (hne : first ≠ second) :
    placeOffset g first + placeSize first ≤ placeOffset g second ∨
      placeOffset g second + placeSize second ≤ placeOffset g first := by
  rcases first with (_ | _ | _ | id | i) | (i | offset) <;>
  rcases second with (_ | _ | _ | id' | j) | (j | offset') <;>
  simp only [placeOffset, placeSize, InBounds, maxSubscribers, ne_eq, Sum.inl.injEq, Sum.inr.injEq,
    Location.subReadSeq.injEq, Location.slotSeq.injEq, Cell.desc.injEq, Cell.payload.injEq,
    not_true_eq_false] at hfirst hsecond hne ⊢ <;>
  omega

namespace Handle

variable {h : Handle}

variable (h) in
/-- The addresses of what an access is to, as the calls compute them from the region's base,
`slots_base` and `payload_base`. -/
def placeSpan : Location ⊕ Cell → Set ℕ
  | .inl .writeSeq => span h.region.base 8
  | .inl .claimSeq => span (h.region.base + 8) 8
  | .inl .nSubs => span (h.region.base + 32) 4
  | .inl (.subReadSeq id) => span (h.region.base + 96 + UInt64.ofNat id * 8) 8
  | .inl (.slotSeq i) => span (h.slotAddress (UInt64.ofNat i)) 8
  | .inr (.desc i) => span (h.slotAddress (UInt64.ofNat i) + 8) 8
  | .inr (.payload offset) => span (h.region.base + h.headerBytes + UInt64.ofNat offset) 1

/-- No address computation of an access in bounds wraps. -/
theorem Fits.placeSpan_eq (hfits : h.Fits) {place : Location ⊕ Cell}
    (hin : InBounds (h.geometry hfits.isPow2_descCapacity) place) :
    h.placeSpan place = Set.Ico
      (h.region.base.toNat + placeOffset (h.geometry hfits.isPow2_descCapacity) place)
      (h.region.base.toNat + placeOffset (h.geometry hfits.isPow2_descCapacity) place +
        placeSize place) := by
  have hroom := hfits.room
  have hregion := h.region.fits
  have hpos : 0 < h.descCapacity.toNat * h.slotBytes.toNat :=
    Nat.mul_pos (h.geometry hfits.isPow2_descCapacity).descCapacity_pos hfits.slotBytes_pos
  have hword : ∀ {a : UInt64} {offset length : ℕ}, a.toNat = h.region.base.toNat + offset →
      span a length = Set.Ico (h.region.base.toNat + offset)
        (h.region.base.toNat + offset + length) := by
    intro a offset length ha
    rw [span, ha]
  have hslot : ∀ i < h.descCapacity.toNat, (h.slotAddress (UInt64.ofNat i)).toNat =
      h.region.base.toNat + (640 + 64 * i) := by
    intro i hi
    have hi' : (UInt64.ofNat i).toNat = i := UInt64.toNat_ofNat_of_lt' (show i < 2 ^ 64 by omega)
    rw [hfits.toNat_slotAddress (UInt64.lt_iff_toNat_lt.mpr (by rw [hi']; exact hi)), hi']
    omega
  rcases place with (_ | _ | _ | id | i) | (i | offset)
  · exact hword rfl
  · refine hword ?_
    rw [UInt64.toNat_add]
    show (h.region.base.toNat + 8) % 2 ^ 64 = _
    exact Nat.mod_eq_of_lt (by omega)
  · refine hword ?_
    rw [UInt64.toNat_add]
    show (h.region.base.toNat + 32) % 2 ^ 64 = _
    exact Nat.mod_eq_of_lt (by omega)
  · have hid : id < 64 := hin
    refine hword ?_
    rw [UInt64.toNat_add, UInt64.toNat_add, UInt64.toNat_mul,
      UInt64.toNat_ofNat_of_lt' (show id < 2 ^ 64 by omega)]
    show ((h.region.base.toNat + 96) % 2 ^ 64 + id * 8 % 2 ^ 64) % 2 ^ 64 = _
    simp only [placeOffset]
    omega
  · exact hword (hslot i hin)
  · have hi : i < h.descCapacity.toNat := hin
    refine hword ?_
    rw [UInt64.toNat_add, hslot i hi]
    show (h.region.base.toNat + (640 + 64 * i) + 8) % 2 ^ 64 = _
    simp only [placeOffset]
    omega
  · have hoffset : offset < h.descCapacity.toNat * h.slotBytes.toNat := hin
    refine hword ?_
    rw [UInt64.toNat_add, UInt64.toNat_add, hfits.headerBytes_eq,
      UInt64.toNat_ofNat_of_lt' (show offset < 2 ^ 64 by omega)]
    show ((h.region.base.toNat + (640 + 64 * h.descCapacity.toNat)) % 2 ^ 64 + offset) % 2 ^ 64 =
      h.region.base.toNat + (640 + 64 * h.descCapacity.toNat + offset)
    omega

/-- An access in bounds is inside the region. -/
theorem Fits.placeSpan_subset (hfits : h.Fits) {place : Location ⊕ Cell}
    (hin : InBounds (h.geometry hfits.isPow2_descCapacity) place) :
    h.placeSpan place ⊆ h.regionSpan := by
  have hroom := hfits.room
  have hlast : placeOffset (h.geometry hfits.isPow2_descCapacity) place + placeSize place ≤
      640 + 64 * h.descCapacity.toNat + h.descCapacity.toNat * h.slotBytes.toNat := by
    rcases place with (_ | _ | _ | id | i) | (i | offset) <;>
      simp only [placeOffset, placeSize, InBounds, maxSubscribers, geometry] at hin ⊢ <;> omega
  rw [hfits.placeSpan_eq hin]
  exact Set.Ico_subset_Ico (Nat.le_add_right _ _) (by omega)

/-- Accesses in bounds to different words, descriptors or bytes do not overlap. -/
theorem Fits.disjoint_placeSpan (hfits : h.Fits) {first second : Location ⊕ Cell}
    (hfirst : InBounds (h.geometry hfits.isPow2_descCapacity) first)
    (hsecond : InBounds (h.geometry hfits.isPow2_descCapacity) second) (hne : first ≠ second) :
    Disjoint (h.placeSpan first) (h.placeSpan second) := by
  rw [hfits.placeSpan_eq hfirst, hfits.placeSpan_eq hsecond, Set.disjoint_left]
  intro address hin hin'
  simp only [Set.mem_Ico] at hin hin'
  rcases placeOffset_apart hfirst hsecond hne with hbefore | hafter <;> omega

end Handle

/-- Memory safety. Assumes: a handle whose sizes fit its region. In every run of its bus, whatever
the threads do, every access of every call lies inside the region, accesses to different words,
descriptors or bytes do not overlap, and no `try_recv` copies more bytes than its buffer has room
for. -/
theorem touches_inside (h : Handle) (hfits : h.Fits) (slab : ℕ → UInt8)
    (trace : List (Event ⊕ Touch)) (s : State)
    (hrun : Run (touchSystem (h.geometry hfits.isPow2_descCapacity) slab) unguarded trace s) :
    (∀ touch ∈ touched trace, h.placeSpan touch.access.target ⊆ h.regionSpan) ∧
    (∀ first ∈ touched trace, ∀ second ∈ touched trace,
      first.access.target ≠ second.access.target →
        Disjoint (h.placeSpan first.access.target) (h.placeSpan second.access.target)) ∧
    ∀ r seq len out, (s.readers r).pc = .copy seq len out →
      out.length ≤ len ∧ len ≤ (s.readers r).outLen := by
  have hin := touched_inBounds hrun
  refine ⟨fun touch hmem ↦ hfits.placeSpan_subset (hin touch hmem), ?_, ?_⟩
  · intro first hfirst second hsecond hne
    exact hfits.disjoint_placeSpan (hin first hfirst) (hin second hsecond) hne
  · intro r seq len out hpc
    obtain ⟨hout, hlen, -⟩ := (boundsInv_run (run_of_touches hrun)).len_le r seq len out hpc
    exact ⟨hout, hlen⟩

/-- A handle on a ring of one slot of one byte, in a region with no byte to spare. -/
def tinyHandle : Handle := ⟨⟨4096, 705, by decide⟩, 1, 1, 704⟩

theorem tinyHandle_fits : tinyHandle.Fits := ⟨by decide, rfl, by decide, by decide⟩

/-- A message that is published and received through that handle: the last byte of the region is
written and read. -/
theorem touches_inside_tiny : ∃ trace : List (Event ⊕ Touch),
    ⟨.producer 0, .write (.payload 0), 0⟩ ∈ touched trace ∧
    ⟨.reader 0, .read (.payload 0), 0⟩ ∈ touched trace ∧
    tinyHandle.placeSpan (.inr (.payload 0)) ⊆ tinyHandle.regionSpan := by
  let actions : List Action :=
    [.subscriber 0 .subscribe :: List.replicate 2 (.subscriber 0 .next),
      .producer 0 (.publish [7]) :: List.replicate 13 (.producer 0 (.next false)),
      .reader 0 (.tryRecv 0 1) :: List.replicate 5 (.reader 0 .next)].flatten
  have hexec : ((touchSystem (tinyHandle.geometry tinyHandle_fits.isPow2_descCapacity)
      fun _ ↦ 0).exec (State.init fun _ ↦ 0) actions).map (fun result ↦
        (decide (⟨.producer 0, .write (.payload 0), 0⟩ ∈ touched result.2),
          decide (⟨.reader 0, .read (.payload 0), 0⟩ ∈ touched result.2))) =
      some (true, true) := by decide +kernel
  obtain ⟨⟨s, trace⟩, hfinal, hresult⟩ := Option.map_eq_some_iff.mp hexec
  obtain ⟨hwritten, hread⟩ := Prod.mk.inj hresult
  have hsafe := (touches_inside tinyHandle tinyHandle_fits _ trace s (run_of_exec hfinal)).1
  exact ⟨trace, of_decide_eq_true hwritten, of_decide_eq_true hread,
    hsafe _ (of_decide_eq_true hwritten)⟩

end AarnnNsys.Bus
