import AarnnNsys.Bus.Basic
import Mathlib.Order.CompletePartialOrder
import Mathlib.Order.Interval.Set.Disjoint

/-!
# Where the shared region is laid out

The sizes and addresses that `create`, `open` and `from_slice` compute, in the wrapping arithmetic
of a 64-bit `usize`. A `Region` is the memory a constructor was given; a `Handle` is what it
returns: the region with the sizes that it believes to have laid out in it. `Handle.Sound` says that
header, slots and payload ranges lie in the region and do not overlap.

The constructors check that the capacity is a power of two and divides the slab, but not that the
sizes fit 64 bits. `layoutSize_toNat` says when the header and the ring are as large as they should
be, and `Handle.sound_of_fits` that everything is in place once the sizes add up to the region.
`created_sound_iff` is the exact condition for `create` and `open`: no sum or product wraps.
`from_slice` checks the length of the buffer but never its address (`fromSlice_layout`).
-/

set_option autoImplicit false
set_option relaxedAutoImplicit false

namespace AarnnNsys.Bus

/-! ### Sizes -/

/-- `size_of::<Header>()`. -/
def headerSize : UInt64 := 640

/-- `size_of::<Slot>()`. -/
def slotSize : UInt64 := 64

/-- `CACHELINE`. -/
def cacheline : UInt64 := 64

/-- `align_up`. -/
def alignUp (x a : UInt64) : UInt64 := (x + (a - 1)) &&& ~~~(a - 1)

/-- `Header::layout_size`, which `header_layout_size` makes public. -/
def layoutSize (descCapacity : UInt64) : UInt64 :=
  alignUp (headerSize + descCapacity * slotSize) cacheline

/-- `min_buffer_size`. -/
def minBufferSize (descCapacity slotBytes : UInt64) : UInt64 :=
  layoutSize descCapacity + descCapacity * slotBytes

/-- Clearing the low six bits rounds down to a multiple of 64. -/
theorem toNat_and_not_63 (x : UInt64) : (x &&& ~~~63).toNat = x.toNat / 64 * 64 := by
  have hx : x.toNat < 2 ^ 64 := x.toNat_lt
  have hmask : (~~~(63 : UInt64)).toNat = (2 ^ 58 - 1) <<< 6 := rfl
  have hround : x.toNat / 64 * 64 = (x.toNat >>> 6) <<< 6 := by
    rw [Nat.shiftRight_eq_div_pow, Nat.shiftLeft_eq]
  rw [UInt64.toNat_and, hmask, hround]
  apply Nat.eq_of_testBit_eq
  intro i
  rw [Nat.testBit_and, Nat.testBit_shiftLeft, Nat.testBit_shiftLeft, Nat.testBit_shiftRight,
    Nat.testBit_two_pow_sub_one]
  by_cases hlow : 6 ≤ i
  · have hsplit : 6 + (i - 6) = i := by omega
    by_cases hhigh : i < 64
    · simp [hlow, hsplit, show i - 6 < 58 by omega]
    · have hzero : x.toNat.testBit i = false :=
        Nat.testBit_lt_two_pow (hx.trans_le (Nat.pow_le_pow_right (by decide) (not_lt.mp hhigh)))
      simp [hsplit, hzero]
  · simp [hlow]

/-- Rounding up to a cache line. Assumes: there is room above. -/
theorem toNat_alignUp_cacheline {x : UInt64} (hroom : x.toNat + 63 < 2 ^ 64) :
    (alignUp x cacheline).toNat = (x.toNat + 63) / 64 * 64 := by
  have hsum : (x + (cacheline - 1)).toNat = x.toNat + 63 := by
    rw [UInt64.toNat_add]
    exact Nat.mod_eq_of_lt hroom
  have hmask : cacheline - 1 = 63 := rfl
  rw [alignUp, hmask, toNat_and_not_63, ← hmask, hsum]

/-- The slots of a ring whose capacity is a power of two either fit 64 bits with room to spare, or
their size wraps to zero. -/
theorem slots_size {descCapacity : UInt64} (hpow : isPow2 descCapacity.toNat = true) :
    (descCapacity.toNat < 2 ^ 58 ∧ descCapacity.toNat * 64 ≤ 2 ^ 63) ∨
      (2 ^ 58 ≤ descCapacity.toNat ∧ descCapacity * slotSize = 0) := by
  obtain ⟨k, hk⟩ := (isPow2_iff _).mp hpow
  rcases Nat.lt_or_ge k 58 with hsmall | hlarge
  · have hle : 2 ^ k ≤ 2 ^ 57 := Nat.pow_le_pow_right (by decide) (by omega)
    exact .inl ⟨by omega, by omega⟩
  · obtain ⟨j, rfl⟩ := Nat.exists_eq_add_of_le hlarge
    refine .inr ⟨hk ▸ Nat.pow_le_pow_right (by decide) hlarge, UInt64.toNat_inj.mp ?_⟩
    have hproduct : 2 ^ (58 + j) * 64 = 2 ^ 64 * 2 ^ j := by
      rw [Nat.pow_add, Nat.mul_right_comm]
      rfl
    rw [UInt64.toNat_mul, hk]
    show 2 ^ (58 + j) * 64 % 2 ^ 64 = 0
    rw [hproduct, Nat.mul_mod_right]

/-- The size of the header and the ring. -/
theorem layoutSize_toNat {descCapacity : UInt64} (hpow : isPow2 descCapacity.toNat = true) :
    (layoutSize descCapacity).toNat =
      if descCapacity.toNat < 2 ^ 58 then 640 + 64 * descCapacity.toNat else 640 := by
  rcases slots_size hpow with ⟨hsmall, hsize⟩ | ⟨hlarge, hwrapped⟩
  · have hproduct : (descCapacity * slotSize).toNat = descCapacity.toNat * 64 := by
      rw [UInt64.toNat_mul]
      show descCapacity.toNat * 64 % 2 ^ 64 = _
      omega
    have hsum : (headerSize + descCapacity * slotSize).toNat = 640 + descCapacity.toNat * 64 := by
      rw [UInt64.toNat_add, hproduct]
      show (640 + descCapacity.toNat * 64) % 2 ^ 64 = _
      omega
    rw [layoutSize, toNat_alignUp_cacheline (by omega), hsum, if_pos hsmall]
    omega
  · rw [layoutSize, hwrapped, if_neg (not_lt.mpr hlarge)]
    rfl

/-! ### Handles -/

/-- A piece of memory: the bytes from `base` on. It does not go past the end of the address
space. -/
structure Region where
  base : UInt64
  len : UInt64
  fits : base.toNat + len.toNat ≤ 2 ^ 64

/-- `BusHandle`, with the header words `desc_capacity` and `slot_bytes`. `headerBytes` is the
distance of `payload_base` from the region's base. -/
structure Handle where
  region : Region
  descCapacity : UInt64
  slotBytes : UInt64
  headerBytes : UInt64

/-- `BusHandle::init_in_region`. -/
def Handle.initInRegion (region : Region) (descCapacity slotBytes headerBytes : UInt64) : Handle :=
  ⟨region, descCapacity, slotBytes, headerBytes⟩

/-- The test of the arguments of `create` and `open`. -/
def badSizes (descCapacity slabBytes : UInt64) : Bool :=
  !isPow2 descCapacity.toNat || slabBytes == 0 || slabBytes % descCapacity != 0

/-- `BusHandle::create`. `system` is `Region::create_named`: the region of the requested length, or
the error of the operating system. -/
def Handle.create
    (system : (len : UInt64) → Except BusError { region : Region // region.len = len })
    (descCapacity slabBytes : UInt64) : Except BusError Handle :=
  if badSizes descCapacity slabBytes then .error .invalidArg
  else do
    let slotBytes := slabBytes / descCapacity
    let headerBytes := layoutSize descCapacity
    let total := headerBytes + slabBytes
    let region ← system total
    return initInRegion region.val descCapacity slotBytes headerBytes

/-- `BusHandle::map_in_region`. `words` are the header words `desc_capacity` and `slot_bytes` found
in the region. -/
def Handle.mapInRegion (words : Region → UInt64 × UInt64) (region : Region)
    (descCapacity slotBytes headerBytes : UInt64) : Except BusError Handle :=
  if (words region).1 != descCapacity || (words region).2 != slotBytes then .error .invalidArg
  else .ok ⟨region, descCapacity, slotBytes, headerBytes⟩

/-- `BusHandle::open`. `system` is `Region::open_named`. -/
def Handle.openNamed
    (system : (len : UInt64) → Except BusError { region : Region // region.len = len })
    (words : Region → UInt64 × UInt64) (descCapacity slabBytes : UInt64) : Except BusError Handle :=
  if badSizes descCapacity slabBytes then .error .invalidArg
  else do
    let slotBytes := slabBytes / descCapacity
    let headerBytes := layoutSize descCapacity
    let total := headerBytes + slabBytes
    let region ← system total
    mapInRegion words region.val descCapacity slotBytes headerBytes

/-- `Region::from_slice`. -/
def Region.fromSlice (buf : Region) : Except BusError Region :=
  if buf.len = 0 then .error .invalidArg else .ok buf

/-- `BusHandle::from_slice` on the buffer `buf`. -/
def Handle.fromSlice (buf : Region) (descCapacity : UInt64) : Except BusError Handle :=
  if !isPow2 descCapacity.toNat then .error .invalidArg
  else
    let headerBytes := layoutSize descCapacity
    if buf.len ≤ headerBytes then .error .invalidArg
    else
      let slabBytes := buf.len - headerBytes
      if slabBytes % descCapacity ≠ 0 then .error .invalidArg
      else do
        let slotBytes := slabBytes / descCapacity
        let region ← Region.fromSlice buf
        return initInRegion region descCapacity slotBytes headerBytes

namespace Handle

variable (h : Handle)

/-- `slots_base.add(i)`. -/
def slotAddress (i : UInt64) : UInt64 := h.region.base + headerSize + i * slotSize

/-- `payload_base.add(idx * slot_bytes)`. -/
def payloadAddress (i : UInt64) : UInt64 := h.region.base + h.headerBytes + i * h.slotBytes

/-- `claim & (cap - 1)`. -/
def idx (claim : UInt64) : UInt64 := claim &&& (h.descCapacity - 1)

/-- The addresses of `length` bytes. -/
def span (address : UInt64) (length : ℕ) : Set ℕ :=
  Set.Ico address.toNat (address.toNat + length)

/-- The addresses of the region. -/
def regionSpan : Set ℕ := span h.region.base h.region.len.toNat

/-- The addresses of the header. -/
def headerSpan : Set ℕ := span h.region.base headerSize.toNat

/-- The addresses of slot `i`. -/
def slotSpan (i : UInt64) : Set ℕ := span (h.slotAddress i) slotSize.toNat

/-- The addresses of the payload range of slot `i`. -/
def payloadSpan (i : UInt64) : Set ℕ := span (h.payloadAddress i) h.slotBytes.toNat

/-- The handle owns what it believes to own: header, slots and payload ranges lie in the region and
do not overlap. -/
structure Sound : Prop where
  header_inside : h.headerSpan ⊆ h.regionSpan
  slot_inside : ∀ i < h.descCapacity, h.slotSpan i ⊆ h.regionSpan
  payload_inside : ∀ i < h.descCapacity, h.payloadSpan i ⊆ h.regionSpan
  header_slot : ∀ i < h.descCapacity, Disjoint h.headerSpan (h.slotSpan i)
  header_payload : ∀ i < h.descCapacity, Disjoint h.headerSpan (h.payloadSpan i)
  slot_slot : ∀ i < h.descCapacity, ∀ j < h.descCapacity, i ≠ j →
    Disjoint (h.slotSpan i) (h.slotSpan j)
  slot_payload : ∀ i < h.descCapacity, ∀ j < h.descCapacity,
    Disjoint (h.slotSpan i) (h.payloadSpan j)
  payload_payload : ∀ i < h.descCapacity, ∀ j < h.descCapacity, i ≠ j →
    Disjoint (h.payloadSpan i) (h.payloadSpan j)

/-- What a call that publishes `payload` under the sequence number `claim` writes to lies in the
region. -/
def WritesInside (claim : UInt64) (payload : Message) : Prop :=
  h.slotSpan (h.idx claim) ⊆ h.regionSpan ∧
    span (h.payloadAddress (h.idx claim)) payload.length ⊆ h.regionSpan

/-- The sizes of the bus that the handle stands for. -/
def geometry (hpow : isPow2 h.descCapacity.toNat = true) : Geometry :=
  ⟨h.descCapacity.toNat, h.slotBytes.toNat, hpow⟩

variable {h}

/-- The slot of a sequence number is that of the bus. -/
theorem toNat_idx (hpow : isPow2 h.descCapacity.toNat = true) (claim : UInt64) :
    (h.idx claim).toNat = (h.geometry hpow).idx claim.toNat := by
  have hpos : 1 ≤ h.descCapacity := UInt64.le_iff_toNat_le.mpr (h.geometry hpow).descCapacity_pos
  rw [idx, UInt64.toNat_and, UInt64.toNat_sub_of_le _ _ hpos]
  rfl

theorem idx_lt (hpow : isPow2 h.descCapacity.toNat = true) (claim : UInt64) :
    h.idx claim < h.descCapacity := by
  rw [UInt64.lt_iff_toNat_lt, toNat_idx hpow, Geometry.idx_eq_mod]
  exact (h.geometry hpow).mod_descCapacity_lt _

/-- Address ranges one behind the other do not overlap. -/
theorem disjoint_span {a b : UInt64} {m n : ℕ} (hle : a.toNat + m ≤ b.toNat) :
    Disjoint (span a m) (span b n) := by
  rw [Set.disjoint_left]
  intro x hx hx'
  simp only [span, Set.mem_Ico] at hx hx'
  omega

/-- An address range inside the region. -/
theorem span_subset_regionSpan {a : UInt64} {n : ℕ} (hfirst : h.region.base.toNat ≤ a.toNat)
    (hlast : a.toNat + n ≤ h.region.base.toNat + h.region.len.toNat) :
    span a n ⊆ h.regionSpan :=
  Set.Ico_subset_Ico hfirst hlast

variable (h) in
/-- The sizes of the handle are those of the layout, and the region has room for them. -/
structure Fits : Prop where
  isPow2_descCapacity : isPow2 h.descCapacity.toNat = true
  headerBytes_eq : h.headerBytes.toNat = 640 + 64 * h.descCapacity.toNat
  slotBytes_pos : 0 < h.slotBytes.toNat
  room : 640 + 64 * h.descCapacity.toNat + h.descCapacity.toNat * h.slotBytes.toNat ≤
    h.region.len.toNat

section Fits

variable {i j : UInt64}

/-- The payload ranges stand behind each other. -/
theorem mul_add_le (width : ℕ) {i j : ℕ} (hij : i < j) : i * width + width ≤ j * width := by
  rw [← Nat.succ_mul]
  exact Nat.mul_le_mul_right width hij

/-- Where slot `i` is. -/
theorem Fits.toNat_slotAddress (hfits : h.Fits) (hi : i < h.descCapacity) :
    (h.slotAddress i).toNat = h.region.base.toNat + 640 + i.toNat * 64 := by
  have hi' : i.toNat < h.descCapacity.toNat := UInt64.lt_iff_toNat_lt.mp hi
  have hroom := hfits.room
  have hregion := h.region.fits
  have hslot : (i * slotSize).toNat = i.toNat * 64 := by
    rw [UInt64.toNat_mul]
    show i.toNat * 64 % 2 ^ 64 = _
    omega
  rw [slotAddress, UInt64.toNat_add, UInt64.toNat_add, hslot]
  show ((h.region.base.toNat + 640) % 2 ^ 64 + i.toNat * 64) % 2 ^ 64 = _
  omega

/-- Where the payload range of slot `i` is. -/
theorem Fits.toNat_payloadAddress (hfits : h.Fits) (hi : i < h.descCapacity) :
    (h.payloadAddress i).toNat = h.region.base.toNat + 640 + 64 * h.descCapacity.toNat +
      i.toNat * h.slotBytes.toNat := by
  have hi' : i.toNat < h.descCapacity.toNat := UInt64.lt_iff_toNat_lt.mp hi
  have hroom := hfits.room
  have hregion := h.region.fits
  have hpos := hfits.slotBytes_pos
  have hlast := mul_add_le h.slotBytes.toNat hi'
  have hoffset : (i * h.slotBytes).toNat = i.toNat * h.slotBytes.toNat := by
    rw [UInt64.toNat_mul]
    exact Nat.mod_eq_of_lt (by omega)
  rw [payloadAddress, UInt64.toNat_add, UInt64.toNat_add, hoffset, hfits.headerBytes_eq]
  omega

/-- A handle whose sizes fit owns what it believes to own. -/
theorem Fits.sound (hfits : h.Fits) : h.Sound := by
  have hroom := hfits.room
  have hlt : ∀ {i : UInt64}, i < h.descCapacity → i.toNat < h.descCapacity.toNat := fun hi ↦
    UInt64.lt_iff_toNat_lt.mp hi
  have hslot : ∀ {i : UInt64}, i < h.descCapacity →
      (h.slotAddress i).toNat = h.region.base.toNat + 640 + i.toNat * 64 := hfits.toNat_slotAddress
  have hpayload : ∀ {i : UInt64}, i < h.descCapacity → (h.payloadAddress i).toNat =
      h.region.base.toNat + 640 + 64 * h.descCapacity.toNat + i.toNat * h.slotBytes.toNat :=
    hfits.toNat_payloadAddress
  have hheader : headerSize.toNat = 640 := rfl
  have hwidth : slotSize.toNat = 64 := rfl
  constructor
  · exact span_subset_regionSpan le_rfl (by omega)
  · intro i hi
    have := hlt hi
    exact span_subset_regionSpan (by rw [hslot hi]; omega) (by rw [hslot hi]; omega)
  · intro i hi
    have hlast := mul_add_le h.slotBytes.toNat (hlt hi)
    exact span_subset_regionSpan (by rw [hpayload hi]; omega) (by rw [hpayload hi]; omega)
  · exact fun i hi ↦ disjoint_span (by rw [hslot hi]; omega)
  · exact fun i hi ↦ disjoint_span (by rw [hpayload hi]; omega)
  · intro i hi j hj hne
    have hne' : i.toNat ≠ j.toNat := fun heq ↦ hne (UInt64.toNat_inj.mp heq)
    rcases Nat.lt_or_gt_of_ne hne' with hij | hji
    · exact disjoint_span (by rw [hslot hi, hslot hj]; omega)
    · exact (disjoint_span (by rw [hslot hi, hslot hj]; omega)).symm
  · intro i hi j hj
    have := hlt hi
    exact disjoint_span (by rw [hslot hi, hpayload hj]; omega)
  · intro i hi j hj hne
    have hne' : i.toNat ≠ j.toNat := fun heq ↦ hne (UInt64.toNat_inj.mp heq)
    rcases Nat.lt_or_gt_of_ne hne' with hij | hji
    · have hlast := mul_add_le h.slotBytes.toNat hij
      exact disjoint_span (by rw [hpayload hi, hpayload hj]; omega)
    · have hlast := mul_add_le h.slotBytes.toNat hji
      exact (disjoint_span (by rw [hpayload hi, hpayload hj]; omega)).symm

/-- What a call writes then lies in the region. -/
theorem Fits.writesInside (hfits : h.Fits) (claim : UInt64) {payload : Message}
    (hsize : payload.length ≤ h.slotBytes.toNat) : h.WritesInside claim payload := by
  have hidx := idx_lt hfits.isPow2_descCapacity claim
  refine ⟨hfits.sound.slot_inside _ hidx, (hfits.sound.payload_inside _ hidx).trans' ?_⟩
  exact Set.Ico_subset_Ico le_rfl (Nat.add_le_add_left hsize _)

end Fits

section Sound

/-- A handle whose ring does not fit 64 bits does not own what it believes to own: the first payload
range is the first slot. -/
theorem Sound.descCapacity_lt (hsound : h.Sound) (hpow : isPow2 h.descCapacity.toNat = true)
    (hheader : h.headerBytes = layoutSize h.descCapacity) (hpos : 0 < h.slotBytes.toNat) :
    h.descCapacity.toNat < 2 ^ 58 := by
  by_contra hlarge
  have hsize : h.headerBytes = headerSize := by
    rw [hheader, ← UInt64.toNat_inj, layoutSize_toNat hpow, if_neg hlarge]
    rfl
  have hsame : h.payloadAddress 0 = h.slotAddress 0 := by
    rw [payloadAddress, slotAddress, hsize, UInt64.zero_mul, UInt64.zero_mul]
  have hzero : 0 < h.descCapacity :=
    UInt64.lt_iff_toNat_lt.mpr (h.geometry hpow).descCapacity_pos
  have hdisjoint := hsound.slot_payload 0 hzero 0 hzero
  rw [slotSpan, payloadSpan, hsame, Set.disjoint_left] at hdisjoint
  refine hdisjoint (a := (h.slotAddress 0).toNat) ?_ ?_
  · exact ⟨le_rfl, Nat.lt_add_of_pos_right (by decide)⟩
  · exact ⟨le_rfl, Nat.lt_add_of_pos_right hpos⟩

/-- A handle that owns what it believes to own has room for header and slots. -/
theorem Sound.ring_le (hsound : h.Sound) (hpow : isPow2 h.descCapacity.toNat = true)
    (hsmall : h.descCapacity.toNat < 2 ^ 58) :
    640 + 64 * h.descCapacity.toNat ≤ h.region.len.toNat := by
  have hpos : 1 ≤ h.descCapacity.toNat := (h.geometry hpow).descCapacity_pos
  have hsize : h.descCapacity.toNat * 64 ≤ 2 ^ 63 := by
    rcases slots_size hpow with ⟨-, hsize⟩ | ⟨hlarge, -⟩
    · exact hsize
    · omega
  have hlast : (h.descCapacity - 1).toNat = h.descCapacity.toNat - 1 :=
    UInt64.toNat_sub_of_le _ _ (UInt64.le_iff_toNat_le.mpr hpos)
  have hslot : ((h.descCapacity - 1) * slotSize).toNat = (h.descCapacity.toNat - 1) * 64 := by
    rw [UInt64.toNat_mul, hlast]
    show (h.descCapacity.toNat - 1) * 64 % 2 ^ 64 = _
    omega
  have haddress : (h.slotAddress (h.descCapacity - 1)).toNat =
      ((h.region.base.toNat + 640) % 2 ^ 64 + (h.descCapacity.toNat - 1) * 64) % 2 ^ 64 := by
    rw [slotAddress, UInt64.toNat_add, UInt64.toNat_add, hslot]
    rfl
  have hinside := hsound.slot_inside (h.descCapacity - 1)
    (UInt64.lt_iff_toNat_lt.mpr (by rw [hlast]; omega))
  have hregion := h.region.fits
  have hwidth : slotSize.toNat = 64 := rfl
  have hfirst := hinside (a := (h.slotAddress (h.descCapacity - 1)).toNat)
    ⟨le_rfl, Nat.lt_add_of_pos_right (by decide)⟩
  have hfinal := hinside (a := (h.slotAddress (h.descCapacity - 1)).toNat + 63)
    ⟨by omega, by rw [hwidth]; omega⟩
  rw [regionSpan, span, Set.mem_Ico] at hfirst hfinal
  rw [haddress] at hfirst hfinal
  omega

end Sound

/-! ### `create` and `open` -/

variable (h) in
/-- The handle has the sizes that `create` and `open` compute. -/
structure SizedBy (descCapacity slabBytes : UInt64) : Prop where
  accepted : badSizes descCapacity slabBytes = false
  descCapacity_eq : h.descCapacity = descCapacity
  slotBytes_eq : h.slotBytes = slabBytes / descCapacity
  headerBytes_eq : h.headerBytes = layoutSize descCapacity
  len_eq : h.region.len = layoutSize descCapacity + slabBytes

section Create

variable {system : (len : UInt64) → Except BusError { region : Region // region.len = len }}
  {words : Region → UInt64 × UInt64} {descCapacity slabBytes : UInt64}

theorem sizedBy_of_create (hcreate : create system descCapacity slabBytes = .ok h) :
    h.SizedBy descCapacity slabBytes := by
  unfold create at hcreate
  cases hbad : badSizes descCapacity slabBytes with
  | true => simp [hbad] at hcreate
  | false =>
    cases hsystem : system (layoutSize descCapacity + slabBytes) with
    | error e => simp [hbad, hsystem, bind, Except.bind] at hcreate
    | ok region =>
      simp only [hbad, hsystem, bind, Except.bind, pure, Except.pure, Bool.false_eq_true, if_false,
        Except.ok.injEq] at hcreate
      subst hcreate
      exact ⟨hbad, rfl, rfl, rfl, region.property⟩

theorem sizedBy_of_openNamed
    (hopen : openNamed system words descCapacity slabBytes = .ok h) :
    h.SizedBy descCapacity slabBytes := by
  unfold openNamed at hopen
  cases hbad : badSizes descCapacity slabBytes with
  | true => simp [hbad] at hopen
  | false =>
    cases hsystem : system (layoutSize descCapacity + slabBytes) with
    | error e => simp [hbad, hsystem, bind, Except.bind] at hopen
    | ok region =>
      simp only [hbad, hsystem, bind, Except.bind, Bool.false_eq_true, if_false, mapInRegion]
        at hopen
      split at hopen
      · cases hopen
      · cases hopen
        exact ⟨hbad, rfl, rfl, rfl, region.property⟩

/-- What the test of the arguments says. -/
theorem SizedBy.spec (hsized : h.SizedBy descCapacity slabBytes) :
    isPow2 h.descCapacity.toNat = true ∧ 0 < h.slotBytes.toNat ∧
      h.descCapacity.toNat * h.slotBytes.toNat = slabBytes.toNat := by
  have haccepted := hsized.accepted
  simp only [badSizes, Bool.or_eq_false_iff, Bool.not_eq_eq_eq_not, Bool.not_false,
    beq_eq_false_iff_ne, bne_eq_false_iff_eq] at haccepted
  obtain ⟨⟨hpow, hslab⟩, hdivides⟩ := haccepted
  rw [← UInt64.toNat_inj, UInt64.toNat_mod] at hdivides
  have hdvd : descCapacity.toNat ∣ slabBytes.toNat := Nat.dvd_of_mod_eq_zero hdivides
  have hpos : 0 < slabBytes.toNat :=
    Nat.pos_of_ne_zero fun hzero ↦ hslab (UInt64.toNat_inj.mp hzero)
  rw [hsized.descCapacity_eq, hsized.slotBytes_eq, UInt64.toNat_div]
  exact ⟨hpow, Nat.div_pos (Nat.le_of_dvd hpos hdvd) (Nat.pos_of_dvd_of_pos hdvd hpos),
    Nat.mul_div_cancel' hdvd⟩

/-- `create` and `open` size their region right exactly when no size wraps. Assumes: one of them has
returned the handle. Header, slots and payload ranges lie in the region and do not overlap, and
every call that is not refused writes inside the region, if and only if header, slots and slab
together are smaller than the address space. -/
theorem created_sound_iff (hreturned : create system descCapacity slabBytes = .ok h ∨
      openNamed system words descCapacity slabBytes = .ok h) :
    (h.Sound ∧ ∀ (claim : UInt64) (payload : Message), payload ≠ [] →
        payload.length ≤ h.slotBytes.toNat → h.WritesInside claim payload) ↔
      640 + 64 * descCapacity.toNat + slabBytes.toNat < 2 ^ 64 := by
  have hsized : h.SizedBy descCapacity slabBytes :=
    hreturned.elim sizedBy_of_create sizedBy_of_openNamed
  obtain ⟨hpow, hpos, hslab⟩ := hsized.spec
  have hcapacity := hsized.descCapacity_eq
  have hheader : h.headerBytes = layoutSize h.descCapacity := hcapacity ▸ hsized.headerBytes_eq
  have hsize := layoutSize_toNat hpow
  have hlen : h.region.len.toNat = (h.headerBytes.toNat + slabBytes.toNat) % 2 ^ 64 := by
    rw [hsized.len_eq, hsized.headerBytes_eq, UInt64.toNat_add]
  rw [← hcapacity]
  constructor
  · rintro ⟨hsound, -⟩
    have hsmall := hsound.descCapacity_lt hpow hheader hpos
    have hring := hsound.ring_le hpow hsmall
    have hslabSize : slabBytes.toNat < 2 ^ 64 := slabBytes.toNat_lt
    rw [hheader, hsize, if_pos hsmall] at hlen
    omega
  · intro hsum
    have hsmall : h.descCapacity.toNat < 2 ^ 58 := by omega
    rw [if_pos hsmall] at hsize
    rw [hheader, hsize, Nat.mod_eq_of_lt hsum] at hlen
    have hfits : h.Fits := ⟨hpow, hheader ▸ hsize, hpos, by rw [hslab, hlen]⟩
    exact ⟨hfits.sound, fun claim _ _ hlength ↦ hfits.writesInside claim hlength⟩

end Create

end Handle

/-- An operating system that maps every region at one address, if it fits there. -/
def Region.mapAt (base len : UInt64) : Except BusError { region : Region // region.len = len } :=
  if hfits : base.toNat + len.toNat ≤ 2 ^ 64 then .ok ⟨⟨base, len, hfits⟩, rfl⟩
  else .error (.platform 12)

/-- A ring of four slots of 16 bytes. -/
theorem created_sound_four : ∃ h : Handle, Handle.create (Region.mapAt 4096) 4 64 = .ok h ∧
    h.Sound ∧ ∀ (claim : UInt64) (payload : Message), payload ≠ [] →
      payload.length ≤ h.slotBytes.toNat → h.WritesInside claim payload := by
  let h : Handle := ⟨⟨4096, 960, by decide⟩, 4, 16, 896⟩
  have hcreate : Handle.create (Region.mapAt 4096) 4 64 = .ok h := by rfl
  have hreturned : Handle.create (Region.mapAt 4096) 4 64 = .ok h ∨
      Handle.openNamed (Region.mapAt 4096) (fun _ ↦ (0, 0)) 4 64 = .ok h := .inl hcreate
  exact ⟨_, hcreate, (Handle.created_sound_iff hreturned).mpr (by decide)⟩

/-- A ring of 64 slots with a slab that makes the total wrap: 64 bytes are mapped, and the last slot
lies behind the first page. -/
theorem created_wrapped : ∃ h : Handle,
    Handle.create (Region.mapAt 4096) 64 18446744073709546944 = .ok h ∧
    h.region.base = 4096 ∧ h.region.len = 64 ∧ h.slotAddress (h.idx 63) = 4096 + 4672 ∧
    ¬ h.Sound ∧ ¬ h.WritesInside 63 [7] := by
  have hcreate : Handle.create (Region.mapAt 4096) 64 18446744073709546944 =
      .ok ⟨⟨4096, 64, by decide⟩, 64, 288230376151711671, 4736⟩ := by rfl
  have houtside : ¬ Handle.slotSpan ⟨⟨4096, 64, by decide⟩, 64, 288230376151711671, 4736⟩ 63 ⊆
      Handle.regionSpan ⟨⟨4096, 64, by decide⟩, 64, 288230376151711671, 4736⟩ := by
    intro hinside
    have hfirst : (8768 : ℕ) ∈ Set.Ico 4096 (4096 + 64) := hinside (by decide : 8768 ∈ Set.Ico _ _)
    exact absurd hfirst.2 (by decide)
  refine ⟨_, hcreate, rfl, rfl, by decide, fun hsound ↦ ?_, fun hinside ↦ ?_⟩
  · exact houtside (hsound.slot_inside 63 (by decide))
  · exact houtside hinside.1

/-! ### `from_slice` -/

namespace Handle

/-- The layout that `from_slice` is documented to enforce: the buffer has the size that
`min_buffer_size` asks for, header and slots stand at multiples of 64, as their `repr(align(64))`
requires, and the handle owns what it believes to own. -/
structure LaidOut (buf : Region) (descCapacity : UInt64) (h : Handle) : Prop where
  region_eq : h.region = buf
  slotBytes_pos : 1 ≤ h.slotBytes
  len_eq : buf.len = minBufferSize descCapacity h.slotBytes
  header_aligned : 64 ∣ buf.base.toNat
  slot_aligned : ∀ i < descCapacity, 64 ∣ (h.slotAddress i).toNat
  sound : h.Sound

section FromSlice

variable {buf : Region} {descCapacity : UInt64} {h : Handle}

theorem fromSlice_eq_ok (hslice : fromSlice buf descCapacity = .ok h) :
    isPow2 descCapacity.toNat = true ∧ layoutSize descCapacity < buf.len ∧
      (buf.len - layoutSize descCapacity) % descCapacity = 0 ∧
      h = ⟨buf, descCapacity, (buf.len - layoutSize descCapacity) / descCapacity,
        layoutSize descCapacity⟩ := by
  unfold fromSlice at hslice
  split at hslice
  · cases hslice
  rename_i hpow
  simp only at hslice
  split at hslice
  · cases hslice
  rename_i hlen
  split at hslice
  · cases hslice
  rename_i hdivides
  unfold Region.fromSlice at hslice
  split at hslice
  · cases hslice
  cases hslice
  exact ⟨by simpa using hpow, UInt64.not_le.mp hlen, not_not.mp hdivides, rfl⟩

/-- The slab of a buffer that is accepted: a positive multiple of the capacity, and all of the
buffer behind the ring. -/
theorem fromSlice_sizes (hslice : fromSlice buf descCapacity = .ok h) :
    0 < h.slotBytes.toNat ∧ (layoutSize descCapacity).toNat +
      descCapacity.toNat * h.slotBytes.toNat = buf.len.toNat := by
  obtain ⟨hpow, hlen, hdivides, rfl⟩ := fromSlice_eq_ok hslice
  have hlen' : (layoutSize descCapacity).toNat < buf.len.toNat := UInt64.lt_iff_toNat_lt.mp hlen
  have hslab : (buf.len - layoutSize descCapacity).toNat =
      buf.len.toNat - (layoutSize descCapacity).toNat :=
    UInt64.toNat_sub_of_le _ _ (UInt64.le_iff_toNat_le.mpr hlen'.le)
  rw [← UInt64.toNat_inj, UInt64.toNat_mod, hslab] at hdivides
  have hdvd : descCapacity.toNat ∣ buf.len.toNat - (layoutSize descCapacity).toNat :=
    Nat.dvd_of_mod_eq_zero hdivides
  simp only [UInt64.toNat_div, hslab]
  constructor
  · exact Nat.div_pos (Nat.le_of_dvd (by omega) hdvd) (Nat.pos_of_dvd_of_pos hdvd (by omega))
  · rw [Nat.mul_div_cancel' hdvd]
    omega

/-- Slots stand at multiples of 64 exactly when the buffer does. -/
theorem slot_aligned_iff (i : UInt64) :
    64 ∣ (h.slotAddress i).toNat ↔ 64 ∣ h.region.base.toNat := by
  have haddress : (h.slotAddress i).toNat =
      ((h.region.base.toNat + 640) % 2 ^ 64 + i.toNat * 64 % 2 ^ 64) % 2 ^ 64 := by
    rw [slotAddress, UInt64.toNat_add, UInt64.toNat_add, UInt64.toNat_mul]
    rfl
  rw [haddress]
  omega

/-- Which buffers that are accepted are laid out as documented. -/
theorem laidOut_iff (hslice : fromSlice buf descCapacity = .ok h) :
    LaidOut buf descCapacity h ↔ 64 ∣ buf.base.toNat ∧ descCapacity.toNat < 2 ^ 58 := by
  obtain ⟨hpos, hlen⟩ := fromSlice_sizes hslice
  obtain ⟨hpow, -, -, hhandle⟩ := fromSlice_eq_ok hslice
  have hregion : h.region = buf := hhandle ▸ rfl
  have hcapacity : h.descCapacity = descCapacity := hhandle ▸ rfl
  have hheader : h.headerBytes = layoutSize h.descCapacity := hhandle ▸ rfl
  have hsize := layoutSize_toNat hpow
  have hbuf : buf.len.toNat < 2 ^ 64 := buf.len.toNat_lt
  rw [← hcapacity] at hpow
  constructor
  · rintro ⟨-, -, -, haligned, -, hsound⟩
    exact ⟨haligned, hcapacity ▸ hsound.descCapacity_lt hpow hheader hpos⟩
  · rintro ⟨haligned, hsmall⟩
    rw [if_pos hsmall] at hsize
    have hfits : h.Fits :=
      ⟨hpow, by rw [hheader, hcapacity, hsize], hpos, by rw [hcapacity, hregion]; omega⟩
    have hslab : (descCapacity * h.slotBytes).toNat = descCapacity.toNat * h.slotBytes.toNat := by
      rw [UInt64.toNat_mul]
      exact Nat.mod_eq_of_lt (by omega)
    refine ⟨hregion, UInt64.le_iff_toNat_le.mpr hpos, ?_, haligned, fun i _ ↦ ?_, hfits.sound⟩
    · rw [← UInt64.toNat_inj, minBufferSize, UInt64.toNat_add, hslab, ← hlen]
      exact (Nat.mod_eq_of_lt (by omega)).symm
    · rw [slot_aligned_iff, hregion]
      exact haligned

/-- A buffer of the size that `min_buffer_size` asks for is accepted. Assumes: the size does not
overflow. -/
theorem fromSlice_minBufferSize {slotBytes : UInt64} (hpow : isPow2 descCapacity.toNat = true)
    (hpos : 1 ≤ slotBytes)
    (hroom : 640 + 64 * descCapacity.toNat + descCapacity.toNat * slotBytes.toNat < 2 ^ 64)
    (hlen : buf.len = minBufferSize descCapacity slotBytes) :
    ∃ h, fromSlice buf descCapacity = .ok h ∧ h.slotBytes = slotBytes := by
  have hslot : 1 ≤ slotBytes.toNat := UInt64.le_iff_toNat_le.mp hpos
  have hcapacity : 0 < descCapacity.toNat := Nat.pos_of_isPowerOfTwo ((isPow2_iff _).mp hpow)
  have hslabPos : 0 < descCapacity.toNat * slotBytes.toNat := Nat.mul_pos hcapacity hslot
  have hsize := layoutSize_toNat hpow
  rw [if_pos (by omega)] at hsize
  have hproduct : (descCapacity * slotBytes).toNat = descCapacity.toNat * slotBytes.toNat := by
    rw [UInt64.toNat_mul]
    exact Nat.mod_eq_of_lt (by omega)
  have htotal : buf.len.toNat =
      640 + 64 * descCapacity.toNat + descCapacity.toNat * slotBytes.toNat := by
    rw [hlen, minBufferSize, UInt64.toNat_add, hsize, hproduct]
    exact Nat.mod_eq_of_lt hroom
  have hslab : buf.len - layoutSize descCapacity = descCapacity * slotBytes := by
    rw [hlen, minBufferSize, UInt64.add_comm, UInt64.add_sub_cancel]
  have hlarger : ¬ buf.len ≤ layoutSize descCapacity := by
    rw [UInt64.le_iff_toNat_le]
    omega
  have hdivides : descCapacity * slotBytes % descCapacity = 0 := by
    rw [← UInt64.toNat_inj, UInt64.toNat_mod, hproduct]
    exact Nat.mul_mod_right _ _
  have hquotient : descCapacity * slotBytes / descCapacity = slotBytes := by
    rw [← UInt64.toNat_inj, UInt64.toNat_div, hproduct]
    exact Nat.mul_div_cancel_left _ hcapacity
  have hnonempty : buf.len ≠ 0 := fun hzero ↦ by
    rw [hzero] at htotal
    exact absurd htotal (by rw [UInt64.toNat_zero]; omega)
  refine ⟨⟨buf, descCapacity, slotBytes, layoutSize descCapacity⟩, ?_, rfl⟩
  simp only [fromSlice, hpow, Bool.not_true, Bool.false_eq_true, if_false, hlarger, hslab,
    hdivides, hquotient, Region.fromSlice, hnonempty, ne_eq, not_true_eq_false]
  rfl

/-- When `from_slice` enforces its layout. A buffer that it accepts is laid out as documented if and
only if the buffer stands at a multiple of 64 and the size of the ring does not wrap; it checks
neither. Conversely every aligned buffer of the size that `min_buffer_size` asks for, where that
size does not overflow, is accepted with the slot size that was asked for. -/
theorem fromSlice_layout (buf : Region) (descCapacity : UInt64) :
    (∀ h : Handle, fromSlice buf descCapacity = .ok h →
      (LaidOut buf descCapacity h ↔ 64 ∣ buf.base.toNat ∧ descCapacity.toNat < 2 ^ 58)) ∧
    ∀ slotBytes : UInt64, isPow2 descCapacity.toNat = true → 1 ≤ slotBytes →
      64 ∣ buf.base.toNat →
      640 + 64 * descCapacity.toNat + descCapacity.toNat * slotBytes.toNat < 2 ^ 64 →
      buf.len = minBufferSize descCapacity slotBytes →
        ∃ h, fromSlice buf descCapacity = .ok h ∧ h.slotBytes = slotBytes :=
  ⟨fun _ hslice ↦ laidOut_iff hslice, fun _ hpow hpos _ hroom hlen ↦
    fromSlice_minBufferSize hpow hpos hroom hlen⟩

/-- A buffer for a ring of four slots of 16 bytes, at the beginning of a page. -/
theorem fromSlice_layout_four : ∃ h : Handle,
    fromSlice ⟨4096, 960, by decide⟩ 4 = .ok h ∧ LaidOut ⟨4096, 960, by decide⟩ 4 h := by
  have hslice : fromSlice ⟨4096, 960, by decide⟩ 4 =
      .ok ⟨⟨4096, 960, by decide⟩, 4, 16, 896⟩ := by rfl
  exact ⟨_, hslice, ((fromSlice_layout _ _).1 _ hslice).mpr ⟨by decide, by decide⟩⟩

/-- A buffer of bytes at the address 4112, 16 above a multiple of 64, for a ring of one slot of one
byte, is accepted. Its header and its slot are not aligned. -/
theorem fromSlice_unaligned : ∃ h : Handle,
    fromSlice ⟨4112, 705, by decide⟩ 1 = .ok h ∧ ¬ 64 ∣ h.region.base.toNat ∧
    ¬ 64 ∣ (h.slotAddress 0).toNat ∧ ¬ LaidOut ⟨4112, 705, by decide⟩ 1 h := by
  have hslice : fromSlice ⟨4112, 705, by decide⟩ 1 =
      .ok ⟨⟨4112, 705, by decide⟩, 1, 1, 704⟩ := by rfl
  have haddress : ¬ 64 ∣ (4112 : ℕ) := by decide
  exact ⟨_, hslice, haddress, by decide, fun hlaid ↦ haddress hlaid.header_aligned⟩

end FromSlice

end Handle

end AarnnNsys.Bus
