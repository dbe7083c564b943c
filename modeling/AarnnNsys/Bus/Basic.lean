import AarnnNsys.Lib.Ring

/-!
# The shared region of the bus

The header words, the ring of slots and the payload slab that `BusHandle::init_in_region` lays out,
as one memory record. A `Geometry` is what the constructors fix: the capacity of the ring, which
they only accept when `isPow2` does, and the bytes of a slot. `Mem.init` is the freshly initialised
region. Its payload slab keeps whatever bytes the region held, since the initialisation does not
touch it.

Sequence words are `u64` in the source. Every value stored in one is at most the number of claims
made so far, so they are natural numbers here; the 32-bit words `n_subs` and `desc.len` are stored
modulo `2 ^ 32`.
-/

set_option autoImplicit false
set_option relaxedAutoImplicit false

namespace AarnnNsys.Bus

/-- `BusError`. -/
inductive BusError
  | invalidArg
  | noSubscriberSlots
  | msgTooLarge
  | notReady
  | platform (code : ℤ)
  deriving DecidableEq, Repr

/-- A message: the bytes of one payload. -/
abbrev Message := List UInt8

/-- `MAX_SUBSCRIBERS`, the number of entries of `sub_read_seq`. -/
def maxSubscribers : ℕ := 64

/-- The number of values of a `u32` word. -/
def u32Size : ℕ := 2 ^ 32

/-- `is_pow2`. -/
def isPow2 (x : ℕ) : Bool := x != 0 && (x &&& (x - 1)) == 0

theorem isPow2_iff (x : ℕ) : isPow2 x = true ↔ x.isPowerOfTwo := by
  simp only [isPow2, Bool.and_eq_true, bne_iff_ne, beq_iff_eq]
  exact Nat.ne_zero_and_sub_one_eq_zero_iff_isPowerOfTwo

theorem isPow2_one : isPow2 1 = true := rfl

/-- The sizes that the constructors of a `BusHandle` fix: `desc_capacity`, which passed `is_pow2`,
and `slot_bytes`. -/
structure Geometry where
  descCapacity : ℕ
  slotBytes : ℕ
  isPow2_descCapacity : isPow2 descCapacity = true

namespace Geometry

variable (g : Geometry)

/-- The slot of a sequence number, `claim & (cap - 1)`. -/
def idx (sequence : ℕ) : ℕ := sequence &&& (g.descCapacity - 1)

/-- The offset in the payload slab of byte `k` of slot `i`. -/
def payloadOffset (i k : ℕ) : ℕ := i * g.slotBytes + k

/-- The capacity of a ring is positive. -/
theorem descCapacity_pos : 0 < g.descCapacity :=
  Nat.pos_of_isPowerOfTwo ((isPow2_iff _).mp g.isPow2_descCapacity)

/-- The slot of a sequence number is its remainder by the capacity. -/
@[simp] theorem idx_eq_mod (sequence : ℕ) : g.idx sequence = sequence % g.descCapacity :=
  Lib.and_sub_one_eq_mod ((isPow2_iff _).mp g.isPow2_descCapacity) sequence

theorem mod_descCapacity_lt (sequence : ℕ) : sequence % g.descCapacity < g.descCapacity :=
  Nat.mod_lt _ g.descCapacity_pos

end Geometry

/-- The shared region: the header words, the slots (`seq` and `desc.len` of each) and the payload
slab by byte offset from `payload_base`. -/
structure Mem where
  writeSeq : ℕ
  claimSeq : ℕ
  nSubs : ℕ
  subReadSeq : ℕ → ℕ
  slotSeq : ℕ → ℕ
  descLen : ℕ → ℕ
  payload : ℕ → UInt8

namespace Mem

/-- `BusHandle::init_in_region` on a region whose payload slab holds the bytes `slab`. -/
def init (slab : ℕ → UInt8) : Mem where
  writeSeq := 0
  claimSeq := 0
  nSubs := 0
  subReadSeq := fun _ ↦ 0
  slotSeq := fun _ ↦ 0
  descLen := fun _ ↦ 0
  payload := slab

/-- A sequence number is committed when the stamp of its slot has passed it. -/
def Committed (g : Geometry) (m : Mem) (sequence : ℕ) : Prop :=
  sequence < m.slotSeq (g.idx sequence)

instance (g : Geometry) (m : Mem) (sequence : ℕ) : Decidable (m.Committed g sequence) :=
  inferInstanceAs (Decidable (_ < _))

/-- The first `length` bytes of slot `i` are those of a message. -/
def Holds (g : Geometry) (m : Mem) (i : ℕ) (message : Message) (length : ℕ) : Prop :=
  ∀ k < length, message[k]? = some (m.payload (g.payloadOffset i k))

end Mem

end AarnnNsys.Bus
