import AarnnNsys.Usb.Frame
import Mathlib.Data.List.DropRight
import Mathlib.Algebra.Group.Nat.Even

/-!
# Streams of usb-sim frames

A bridge calls `readFrame` again and again on one byte stream. When every byte of a list of frames
is available, as many calls as there are frames return the frames in order and leave the bytes
behind them unread (`readFrames_bytes`).

Bytes in front of a frame are skipped by the scan for the two magic bytes. The scan drops the byte
that follows a first magic byte, also when it is a first magic byte itself, so a run of first magic
bytes in front of a frame is passed in pairs (`skipToMagic_run`). A frame that follows garbage
without magic bytes is therefore found exactly when the garbage ends in an even number of first
magic bytes (`readFrame_garbage`).
-/

set_option autoImplicit false
set_option relaxedAutoImplicit false

namespace AarnnNsys.Usb

open Wire

/-! ### Lists of frames -/

/-- What `write_frame` is given. -/
structure Frame where
  chan : UInt8
  ttl : UInt8
  seq : UInt32
  payload : List UInt8
  deriving DecidableEq

/-- The bytes of a frame on the stream. -/
def Frame.bytes (frame : Frame) : List UInt8 :=
  writeFrame frame.chan frame.ttl frame.seq frame.payload

/-- What a call that returns the frame reports, with the payload in the work buffer. -/
def Frame.received (frame : Frame) : RxResult × List UInt8 :=
  (.ok (frame.chan, frame.ttl, frame.seq, frame.payload.length), frame.payload)

/-- The payload is within the limit of the reader and within what the length word can say. -/
def Frame.Fits (cfg : Cfg) (frame : Frame) : Prop :=
  frame.payload.length ≤ min cfg.maxFrame 65535

instance (cfg : Cfg) (frame : Frame) : Decidable (frame.Fits cfg) :=
  inferInstanceAs (Decidable (_ ≤ _))

/-- Calls of `read_frame` one after the other: the outcome of each with the work buffer it leaves,
and what is unread after the last. -/
def readFrames (cfg : Cfg) :
    ℕ → List UInt8 → List UInt8 → List (RxResult × List UInt8) × List UInt8
  | 0, _, stream => ([], stream)
  | calls + 1, work, stream =>
    let (outcome, work, stream) := readFrame cfg work stream
    let (outcomes, unread) := readFrames cfg calls work stream
    ((outcome, work) :: outcomes, unread)

theorem Frame.length_bytes (frame : Frame) : frame.bytes.length = frame.payload.length + 14 := by
  simp [Frame.bytes, writeFrame, putU16]

/-- The round trip of `readFrame_writeFrame` for a frame in front of a stream. -/
theorem Frame.Fits.readFrame_bytes {cfg : Cfg} {frame : Frame} (hfits : frame.Fits cfg)
    (work rest : List UInt8) :
    readFrame cfg work (frame.bytes ++ rest) = (frame.received.1, frame.payload, rest) := by
  have hbound : frame.payload.length ≤ min cfg.maxFrame 65535 := hfits
  exact readFrame_writeFrame (by omega) (by omega) work rest

/-- The first calls on a stream that begins with frames return these, in order, and the calls after
them find what is behind. Assumes: every frame is within the limit. -/
theorem readFrames_append {cfg : Cfg} {frames : List Frame}
    (hfits : ∀ frame ∈ frames, frame.Fits cfg) (calls : ℕ) (work tail : List UInt8) :
    ∃ work', readFrames cfg (frames.length + calls) work (frames.flatMap Frame.bytes ++ tail) =
      (frames.map Frame.received ++ (readFrames cfg calls work' tail).1,
        (readFrames cfg calls work' tail).2) := by
  induction frames generalizing work with
  | nil => exact ⟨work, by rw [List.length_nil, Nat.zero_add]; rfl⟩
  | cons frame frames hrest =>
    have hhead : frame.Fits cfg := hfits frame List.mem_cons_self
    have htail : ∀ later ∈ frames, later.Fits cfg := fun later hlater ↦
      hfits later (List.mem_cons_of_mem _ hlater)
    obtain ⟨work', hlater⟩ := hrest htail frame.payload
    refine ⟨work', ?_⟩
    rw [List.flatMap_cons, List.append_assoc, List.length_cons, Nat.succ_add, readFrames,
      hhead.readFrame_bytes]
    simp only [hlater, List.map_cons, List.cons_append]
    rfl

/-- As many calls as there are frames return every frame in order and consume exactly their bytes.
Assumes: every frame is within the limit. -/
theorem readFrames_bytes {cfg : Cfg} {frames : List Frame}
    (hfits : ∀ frame ∈ frames, frame.Fits cfg) (work tail : List UInt8) :
    readFrames cfg frames.length work (frames.flatMap Frame.bytes ++ tail) =
      (frames.map Frame.received, tail) := by
  obtain ⟨work', hall⟩ := readFrames_append hfits 0 work tail
  rw [Nat.add_zero] at hall
  rw [hall, readFrames, List.append_nil]

/-- A frame without payload and one whose payload holds the magic bytes, read back in front of a
stray byte. -/
theorem readFrames_bytes_magic_payload :
    readFrames ⟨1400, 8⟩ 2 [9, 9] ([⟨0, 7, 1, []⟩, ⟨1, 0, 70000, putU16 magic⟩].flatMap Frame.bytes
      ++ [0xCD]) = ([⟨0, 7, 1, []⟩, ⟨1, 0, 70000, putU16 magic⟩].map Frame.received, [0xCD]) := by
  have hfits : ∀ frame ∈ [⟨0, 7, 1, []⟩, ⟨1, 0, 70000, putU16 magic⟩],
      Frame.Fits ⟨1400, 8⟩ frame := by decide
  exact readFrames_bytes hfits [9, 9] [0xCD]

/-! ### Finding the next frame -/

/-- The first occurrence of the two magic bytes in `stream` is at `position`. -/
def FirstMagicAt (stream : List UInt8) (position : ℕ) : Prop :=
  putU16 magic <+: stream.drop position ∧
    ∀ earlier < position, ¬ putU16 magic <+: stream.drop earlier

instance (stream : List UInt8) (position : ℕ) : Decidable (FirstMagicAt stream position) :=
  inferInstanceAs (Decidable (_ ∧ _))

/-- The first magic byte, `(MAGIC & 0xFF) as u8`. -/
def firstMagic : UInt8 := 0xCD

/-- How many first magic bytes the garbage ends in. -/
def trailingMagic (garbage : List UInt8) : ℕ := (garbage.rtakeWhile (· == firstMagic)).length

theorem putU16_magic : putU16 magic = [firstMagic, 0xAB] := rfl

theorem toUInt16_eq_firstMagic {byte : UInt8} :
    byte.toUInt16 = magic &&& 0xFF ↔ byte = firstMagic :=
  UInt8.toUInt16_inj (b := firstMagic)

theorem toUInt16_eq_secondMagic {byte : UInt8} :
    byte.toUInt16 = magic >>> 8 ↔ byte = 0xAB :=
  UInt8.toUInt16_inj (b := 0xAB)

/-- What follows a stream does not move its first magic bytes. -/
theorem FirstMagicAt.append {stream : List UInt8} {position : ℕ}
    (hfirst : FirstMagicAt stream position) (rest : List UInt8) :
    FirstMagicAt (stream ++ rest) position := by
  obtain ⟨hmagic, hclean⟩ := hfirst
  have hroom : 2 ≤ stream.length - position := by
    rw [← List.length_drop]
    exact hmagic.length_le
  have hdrop (earlier : ℕ) (hearlier : earlier ≤ position) :
      (stream ++ rest).drop earlier = stream.drop earlier ++ rest :=
    List.drop_append_of_le_length (by omega)
  constructor
  · rw [hdrop position le_rfl]
    exact hmagic.trans (List.prefix_append _ _)
  · intro earlier hearlier hearly
    rw [hdrop earlier hearlier.le] at hearly
    refine hclean earlier hearlier
      (List.prefix_of_prefix_length_le hearly (List.prefix_append _ _) ?_)
    rw [List.length_drop]
    exact le_trans hroom (by omega)

/-- A byte that is no first magic byte is skipped alone. -/
theorem skipToMagic_cons {byte : UInt8} (hbyte : byte ≠ firstMagic) (rest : List UInt8) :
    skipToMagic (byte :: rest) = skipToMagic rest := by
  rw [skipToMagic.eq_def]
  exact if_neg (mt toUInt16_eq_firstMagic.mp hbyte)

/-- A first magic byte is skipped together with the byte behind it, when that is no second one. -/
theorem skipToMagic_pair {byte : UInt8} (hbyte : byte ≠ 0xAB) (rest : List UInt8) :
    skipToMagic (firstMagic :: byte :: rest) = skipToMagic rest := by
  rw [skipToMagic, if_pos (toUInt16_eq_firstMagic.mpr rfl)]
  exact if_neg (mt toUInt16_eq_secondMagic.mp hbyte)

/-- What the scan passes: some bytes, then the two magic bytes. -/
theorem exists_of_skipToMagic {stream rest : List UInt8} (hskip : skipToMagic stream = some rest) :
    ∃ skipped, stream = skipped ++ (putU16 magic ++ rest) := by
  induction stream using skipToMagic.induct with
  | case1 => simp [skipToMagic] at hskip
  | case2 first hfirst => simp [skipToMagic, hfirst] at hskip
  | case3 first hfirst second later hsecond =>
    rw [skipToMagic, if_pos hfirst] at hskip
    have hlater : later = rest := Option.some.inj ((if_pos hsecond).symm.trans hskip)
    rw [toUInt16_eq_firstMagic.mp hfirst, toUInt16_eq_secondMagic.mp hsecond, hlater]
    exact ⟨[], rfl⟩
  | case4 first hfirst second later hsecond ih =>
    rw [skipToMagic, if_pos hfirst] at hskip
    obtain ⟨skipped, hskipped⟩ := ih ((if_neg hsecond).symm.trans hskip)
    exact ⟨first :: second :: skipped, by rw [hskipped]; rfl⟩
  | case5 first later hfirst ih =>
    rw [skipToMagic.eq_def] at hskip
    obtain ⟨skipped, hskipped⟩ := ih ((if_neg hfirst).symm.trans hskip)
    exact ⟨first :: skipped, by rw [hskipped]; rfl⟩

/-- The scan consumes at least the two magic bytes. -/
theorem length_of_skipToMagic {stream rest : List UInt8} (hskip : skipToMagic stream = some rest) :
    rest.length + 2 ≤ stream.length := by
  obtain ⟨skipped, rfl⟩ := exists_of_skipToMagic hskip
  simp only [List.length_append, putU16_magic, List.length_cons, List.length_nil]
  omega

/-- Garbage without magic bytes that does not end in a first magic byte is skipped. -/
theorem skipToMagic_clean (garbage stream : List UInt8)
    (hclean : ∀ earlier < garbage.length, ¬ putU16 magic <+: (garbage ++ stream).drop earlier)
    (hlast : ∀ hne : garbage ≠ [], garbage.getLast hne ≠ firstMagic) :
    skipToMagic (garbage ++ stream) = skipToMagic stream := by
  induction garbage using skipToMagic.induct with
  | case1 => rfl
  | case2 first hfirst =>
    exact absurd (toUInt16_eq_firstMagic.mp hfirst) (hlast (List.cons_ne_nil _ _))
  | case3 first hfirst second later hsecond =>
    have hmagic : putU16 magic <+: first :: second :: (later ++ stream) := by
      rw [toUInt16_eq_firstMagic.mp hfirst, toUInt16_eq_secondMagic.mp hsecond]
      exact List.prefix_append _ _
    exact absurd hmagic (hclean 0 (Nat.zero_lt_succ _))
  | case4 first hfirst second later hsecond ih =>
    rw [toUInt16_eq_firstMagic.mp hfirst, List.cons_append, List.cons_append,
      skipToMagic_pair (mt toUInt16_eq_secondMagic.mpr hsecond)]
    have hlater : ∀ earlier < later.length,
        ¬ putU16 magic <+: (later ++ stream).drop earlier := fun earlier hearlier ↦
      hclean (earlier + 2) (Nat.add_lt_add_right hearlier 2)
    refine ih hlater fun hne ↦ ?_
    have hend := hlast (List.cons_ne_nil _ _)
    rwa [List.getLast_cons (List.cons_ne_nil _ _), List.getLast_cons hne] at hend
  | case5 first later hfirst ih =>
    rw [List.cons_append, skipToMagic_cons (mt toUInt16_eq_firstMagic.mpr hfirst)]
    have hlater : ∀ earlier < later.length,
        ¬ putU16 magic <+: (later ++ stream).drop earlier := fun earlier hearlier ↦
      hclean (earlier + 1) (Nat.add_lt_add_right hearlier 1)
    refine ih hlater fun hne ↦ ?_
    have hend := hlast (List.cons_ne_nil _ _)
    rwa [List.getLast_cons hne] at hend

/-- A run of first magic bytes is passed in pairs: an even run leaves the scan at what follows, an
odd one takes the next first magic byte with it. -/
theorem skipToMagic_run (count : ℕ) (rest : List UInt8) :
    skipToMagic (List.replicate count firstMagic ++ firstMagic :: rest) =
      if Even count then skipToMagic (firstMagic :: rest) else skipToMagic rest := by
  induction count using Nat.twoStepInduction with
  | zero => rfl
  | one => exact skipToMagic_pair (show firstMagic ≠ 0xAB by decide) rest
  | more count ih _ =>
    have hpair : skipToMagic (List.replicate (count + 2) firstMagic ++ firstMagic :: rest) =
        skipToMagic (List.replicate count firstMagic ++ firstMagic :: rest) :=
      skipToMagic_pair (show firstMagic ≠ 0xAB by decide) _
    have hparity : Even (count + 2) ↔ Even count := by
      simp only [Nat.even_iff, Nat.add_mod_right]
    simp only [hpair, ih, hparity]

/-- `read_frame` sees the stream only through the scan. -/
theorem readFrame_congr {stream stream' : List UInt8}
    (hskip : skipToMagic stream = skipToMagic stream') (cfg : Cfg) (work : List UInt8) :
    readFrame cfg work stream = readFrame cfg work stream' := by
  rw [readFrame, readFrame, hskip]

/-- The scan over garbage without magic bytes and the two magic bytes behind it. -/
theorem skipToMagic_garbage {garbage rest : List UInt8}
    (hfirst : FirstMagicAt (garbage ++ (putU16 magic ++ rest)) garbage.length) :
    skipToMagic (garbage ++ (putU16 magic ++ rest)) =
      if Even (trailingMagic garbage) then some rest else skipToMagic (0xAB :: rest) := by
  obtain ⟨-, hclean⟩ := hfirst
  set front := garbage.rdropWhile (· == firstMagic) with hfront
  set run := garbage.rtakeWhile (· == firstMagic) with hrun
  have hsplit : front ++ run = garbage := List.rdropWhile_append_rtakeWhile
  have hrunMagic : run = List.replicate run.length firstMagic :=
    List.eq_replicate_iff.mpr ⟨rfl, fun byte hbyte ↦ by
      simpa using List.mem_rtakeWhile_imp hbyte⟩
  have hlast : ∀ hne : front ≠ [], front.getLast hne ≠ firstMagic := fun hne ↦ by
    simpa using List.rdropWhile_last_not _ _ hne
  have hlength : front.length ≤ garbage.length := by
    rw [← hsplit, List.length_append]
    exact Nat.le_add_right _ _
  have hfrontClean : ∀ earlier < front.length,
      ¬ putU16 magic <+: (front ++ (run ++ (putU16 magic ++ rest))).drop earlier := by
    intro earlier hearlier
    rw [← List.append_assoc, hsplit]
    exact hclean earlier (by omega)
  calc skipToMagic (garbage ++ (putU16 magic ++ rest))
      = skipToMagic (front ++ (run ++ (putU16 magic ++ rest))) := by
        rw [← List.append_assoc front, hsplit]
    _ = skipToMagic (run ++ (putU16 magic ++ rest)) :=
        skipToMagic_clean front _ hfrontClean hlast
    _ = skipToMagic (List.replicate run.length firstMagic ++ firstMagic :: 0xAB :: rest) := by
        rw [← hrunMagic]
        rfl
    _ = _ := skipToMagic_run run.length (0xAB :: rest)

/-! ### What a call consumes -/

/-- How many bytes the frame that a call returns has on the stream: two magic bytes, ten header
bytes, the payload and the CRC. -/
def frameSize : RxResult → ℕ
  | .ok (_, _, _, len) => len + 14
  | .error _ => 0

/-- A call consumes at least the frame that it returns, and always something when there is
something. -/
theorem length_readFrame (cfg : Cfg) (work stream : List UInt8) :
    (readFrame cfg work stream).2.2.length + frameSize (readFrame cfg work stream).1 ≤
      stream.length ∧
    (stream ≠ [] → (readFrame cfg work stream).2.2.length < stream.length) := by
  have hcases := readFrame_cases cfg work stream
  generalize readFrame cfg work stream = result at hcases ⊢
  cases hcases with
  | noMagic hskip => simp [frameSize, List.length_pos_iff]
  | shortHeader hskip hshort =>
    have hmagic := length_of_skipToMagic hskip
    simp only [frameSize, List.length_nil]
    omega
  | lenTooBig hskip hhdr hbig | shortPayload hskip hhdr hfits hshort
  | shortCrc hskip hhdr hfits hpayload hshort | badCrc hskip hhdr hfits hpayload hcrcb hbad
  | accepted hskip hhdr hfits hpayload hcrcb hcrc =>
    have hmagic := length_of_skipToMagic hskip
    simp only [List.length_append] at hmagic
    simp only [frameSize, List.length_nil]
    omega

/-! ### One frame behind garbage -/

/-- One call on garbage, a frame and what follows it, the first magic bytes being those of the
frame, returns that frame and leaves what follows it exactly when the garbage ends in an even number
of first magic bytes. Assumes: the frame is within the limit. -/
theorem readFrame_garbage {cfg : Cfg} {garbage : List UInt8} {frame : Frame}
    (hfits : frame.Fits cfg) (hfirst : FirstMagicAt (garbage ++ frame.bytes) garbage.length)
    (work rest : List UInt8) :
    readFrame cfg work (garbage ++ frame.bytes ++ rest) = (frame.received.1, frame.payload, rest) ↔
      Even (trailingMagic garbage) := by
  obtain ⟨body, hbody⟩ : ∃ body, frame.bytes = putU16 magic ++ body := ⟨_, rfl⟩
  have hlength : body.length = frame.payload.length + 12 := by
    have hbytes := frame.length_bytes
    rw [hbody, List.length_append, putU16_magic, List.length_cons, List.length_singleton] at hbytes
    omega
  have hstream : garbage ++ frame.bytes ++ rest = garbage ++ (putU16 magic ++ (body ++ rest)) := by
    simp [hbody]
  have hfirst' : FirstMagicAt (garbage ++ (putU16 magic ++ (body ++ rest))) garbage.length := by
    rw [← hstream]
    exact hfirst.append rest
  have hscan := skipToMagic_garbage hfirst'
  rw [hstream]
  constructor
  · intro hread
    by_contra hodd
    rw [if_neg hodd] at hscan
    -- the scan starts again behind the first magic byte of the frame, two bytes too far
    have hmissed := (length_readFrame cfg work (0xAB :: (body ++ rest))).1
    rw [← readFrame_congr hscan, hread] at hmissed
    simp only [Frame.received, frameSize, List.length_cons, List.length_append, hlength] at hmissed
    omega
  · intro heven
    rw [if_pos heven, ← skipToMagic_append (body ++ rest)] at hscan
    rw [readFrame_congr hscan, ← List.append_assoc, ← hbody]
    exact hfits.readFrame_bytes work rest

/-- The frame is found behind an ordinary byte and two first magic bytes. -/
theorem readFrame_garbage_pair :
    readFrame ⟨1400, 8⟩ [] ([0x41, 0xCD, 0xCD] ++ Frame.bytes ⟨0, 7, 1, [5]⟩ ++ [0x42]) =
      (.ok (0, 7, 1, 1), [5], [0x42]) := by
  have hfits : Frame.Fits ⟨1400, 8⟩ ⟨0, 7, 1, [5]⟩ := by decide
  have hfirst : FirstMagicAt ([0x41, 0xCD, 0xCD] ++ Frame.bytes ⟨0, 7, 1, [5]⟩) 3 := by
    decide +kernel
  exact (readFrame_garbage hfits hfirst [] [0x42]).mpr (by decide)

/-- Behind a single first magic byte the frame is lost: the call ends without one and has consumed
the whole stream. -/
theorem readFrame_behind_single_magic :
    Frame.Fits ⟨1400, 8⟩ ⟨0, 7, 1, [5]⟩ ∧ FirstMagicAt ([0xCD] ++ Frame.bytes ⟨0, 7, 1, [5]⟩) 1 ∧
    readFrame ⟨1400, 8⟩ [] ([0xCD] ++ Frame.bytes ⟨0, 7, 1, [5]⟩ ++ []) = (.error .io, [], []) :=
  ⟨by decide, by decide +kernel, by decide +kernel⟩

end AarnnNsys.Usb
