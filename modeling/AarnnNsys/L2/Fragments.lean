import AarnnNsys.L2.Frame
import AarnnNsys.Lib.Chunks

/-!
# Fragmentation

`fragmentLoop` is the loop that cuts a message into the payloads of its frames, used for data on
channel 0 (`forward`) and for acknowledgements on channel 1. Its fragment index is a sixteen-bit
counter that wraps and its last fragment carries the flag.

`fragments_eq` describes the whole loop: fragment `i` is chunk `i` of the message, its index is `i`
modulo `2 ^ 16`, and it is flagged last exactly when it is the last one. Put together the payloads
are the message (`flatten_payloads`).
-/

set_option autoImplicit false
set_option relaxedAutoImplicit false

namespace AarnnNsys.L2

open Lib

/-- What the fragment loop passes to the frame builder: one fragment. -/
structure Piece where
  fragIdx : UInt16
  last : Bool
  payload : List UInt8
  deriving DecidableEq

theorem mtuPayload_pos : 0 < mtuPayload := by decide

/-- The loop `while sent < n` over a message, from `sent` and `frag_idx` on. -/
def fragmentLoop (message : List UInt8) (sent : ℕ) (fragIdx : UInt16) : List Piece :=
  if hsent : sent < message.length then
    let take := min mtuPayload (message.length - sent)
    let last := decide (sent + take ≥ message.length)
    ⟨fragIdx, last, (message.drop sent).take take⟩ ::
      fragmentLoop message (sent + take) (fragIdx + 1)
  else []
termination_by message.length - sent
decreasing_by
  have := mtuPayload_pos
  omega

/-- All fragments of a message. -/
def fragments (message : List UInt8) : List Piece :=
  fragmentLoop message 0 0

/-- The frames that carry a message on a channel. -/
def sendFragments (link : Link) (chan ttl : UInt8) (msgId : UInt16) (message : List UInt8) :
    List (List UInt8) :=
  (fragments message).map fun piece ↦
    buildFrag link chan ttl msgId piece.fragIdx piece.last piece.payload

/-- The hop limit after one hop: `if ttl > 0 { ttl - 1 } else { 0 }`. -/
def nextTtl (ttl : UInt8) : UInt8 :=
  if ttl > 0 then ttl - 1 else 0

/-- Bus to L2: the message identifier for the next message, and the frames of this one. -/
def forward (link : Link) (msgIdCtr : UInt16) (message : List UInt8) :
    UInt16 × List (List UInt8) :=
  (msgIdCtr + 1, sendFragments link 0 (nextTtl link.cfg.ttl) msgIdCtr message)

/-- The identifier of message `k` of a sender whose counter starts at `msgIdCtr`. -/
def msgIdOf (msgIdCtr : UInt16) (k : ℕ) : UInt16 :=
  msgIdCtr + UInt16.ofNat k

theorem msgIdOf_zero (msgIdCtr : UInt16) : msgIdOf msgIdCtr 0 = msgIdCtr :=
  UInt16.add_zero msgIdCtr

theorem msgIdOf_add_one (msgIdCtr : UInt16) (k : ℕ) :
    msgIdOf msgIdCtr k + 1 = msgIdOf msgIdCtr (k + 1) := by
  rw [msgIdOf, msgIdOf, UInt16.ofNat_add, ← UInt16.add_assoc]
  rfl

theorem msgIdOf_succ (msgIdCtr : UInt16) (k : ℕ) :
    msgIdOf msgIdCtr (k + 1) = msgIdOf (msgIdCtr + 1) k := by
  rw [msgIdOf, msgIdOf, UInt16.ofNat_add, UInt16.add_comm (UInt16.ofNat k), ← UInt16.add_assoc]
  rfl

/-- Which numbers have the same index. -/
theorem ofNat_eq_iff {i j : ℕ} : UInt16.ofNat i = UInt16.ofNat j ↔ i % 65536 = j % 65536 := by
  rw [← UInt16.toNat_inj, UInt16.toNat_ofNat', UInt16.toNat_ofNat']

/-- The indices 0 to 65535 do not wrap. -/
theorem ofNat_ne_zero {i : ℕ} (hpos : i ≠ 0) (hi : i < 65536) : UInt16.ofNat i ≠ 0 := by
  intro hzero
  have hsame : i % 65536 = 0 % 65536 := ofNat_eq_iff.mp hzero
  omega

/-- The number of fragments of a message. -/
def fragmentCount (message : List UInt8) : ℕ :=
  chunkCount mtuPayload message.length

/-- Fragment `i` of a message. -/
def fragment (message : List UInt8) (i : ℕ) : Piece :=
  ⟨UInt16.ofNat i, decide (i + 1 = fragmentCount message), chunk mtuPayload message i⟩

theorem fragmentLoop_done {message : List UInt8} {sent : ℕ} (hsent : message.length ≤ sent)
    (fragIdx : UInt16) : fragmentLoop message sent fragIdx = [] := by
  rw [fragmentLoop, dif_neg (by omega)]

/-- One turn of the loop: fragment `i` is sent and the loop goes on at fragment `i + 1`. -/
theorem fragmentLoop_step {message : List UInt8} {i : ℕ} (hi : i < fragmentCount message) :
    fragmentLoop message (i * mtuPayload) (UInt16.ofNat i) =
      fragment message i ::
        fragmentLoop message ((i + 1) * mtuPayload) (UInt16.ofNat (i + 1)) := by
  have hstart : i * mtuPayload < message.length := (lt_chunkCount_iff mtuPayload_pos).mp hi
  have hnext : i + 1 < fragmentCount message ↔ (i + 1) * mtuPayload < message.length :=
    lt_chunkCount_iff mtuPayload_pos
  rw [Nat.succ_mul] at hnext
  rw [fragmentLoop, dif_pos hstart, List.cons.injEq]
  constructor
  · simp only [fragment, Piece.mk.injEq, true_and]
    constructor
    · rw [decide_eq_decide]
      omega
    · rw [chunk, ← List.length_drop, ← List.take_take, List.take_length]
  · rw [UInt16.ofNat_add]
    rcases le_total mtuPayload (message.length - i * mtuPayload) with hfull | hshort
    · rw [min_eq_left hfull, Nat.succ_mul]
      rfl
    · rw [fragmentLoop_done (by omega), fragmentLoop_done (by rw [Nat.succ_mul]; omega)]

/-- The loop from the start of fragment `i` on. -/
theorem fragmentLoop_eq (message : List UInt8) (remaining : ℕ) :
    ∀ i, i + remaining = fragmentCount message →
      fragmentLoop message (i * mtuPayload) (UInt16.ofNat i) =
        (List.range remaining).map fun k ↦ fragment message (i + k) := by
  induction remaining with
  | zero =>
    intro i hi
    exact fragmentLoop_done ((chunkCount_le_iff mtuPayload_pos).mp hi.ge) _
  | succ remaining ih =>
    intro i hi
    rw [fragmentLoop_step (by omega), ih (i + 1) (by omega), List.range_succ_eq_map,
      List.map_cons, List.map_map]
    simp only [Nat.add_zero, Function.comp_def, Nat.succ_eq_add_one, Nat.add_assoc, Nat.add_comm 1]

/-- The whole loop: the fragments of a message, by their number. -/
theorem fragments_eq (message : List UInt8) :
    fragments message = (List.range (fragmentCount message)).map (fragment message) := by
  have hloop := fragmentLoop_eq message (fragmentCount message) 0 (Nat.zero_add _)
  simpa [fragments] using hloop

/-- The payloads of all fragments put together are the message. -/
theorem flatten_payloads (message : List UInt8) :
    ((fragments message).map Piece.payload).flatten = message := by
  rw [fragments_eq, List.map_map]
  exact flatten_chunks mtuPayload_pos message

/-- No fragment is empty, so no data frame is filled up. -/
theorem payload_ne_nil {message : List UInt8} {i : ℕ} (hi : i < fragmentCount message) :
    (fragment message i).payload ≠ [] :=
  List.ne_nil_of_length_pos (length_chunk_pos mtuPayload_pos hi)

theorem fragmentCount_pos {message : List UInt8} (hmessage : message ≠ []) :
    0 < fragmentCount message := by
  rw [fragmentCount, lt_chunkCount_iff mtuPayload_pos, Nat.zero_mul]
  exact List.length_pos_iff.mpr hmessage

/-! ### A message of two fragments -/

/-- A message of two fragments. -/
def twoFragments (byte : UInt8) : List UInt8 := List.replicate 1475 byte

theorem length_twoFragments (byte : UInt8) : (twoFragments byte).length = 1475 :=
  List.length_replicate

theorem fragmentCount_twoFragments (byte : UInt8) : fragmentCount (twoFragments byte) = 2 := by
  rw [fragmentCount, length_twoFragments]
  rfl

theorem twoFragments_fits (srcMac : Mac) (byte : UInt8) :
    (twoFragments byte).length ≤ (Link.defaults srcMac).cfg.maxFrame := by
  rw [length_twoFragments]
  show 1475 ≤ 4096
  decide

end AarnnNsys.L2
