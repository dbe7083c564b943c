import AarnnNsys.Wire.Bytes
import Mathlib.Algebra.Group.Nat.Defs

/-!
# The frames of the usb-sim bridge

A frame on the byte stream of the usb-sim link is two magic bytes, a header of ten bytes, the
payload and a CRC over header and payload. `writeFrame` lays it out. `readFrame` scans the stream
for the magic bytes and reads one frame from there; a read that needs more bytes than the descriptor
has consumes them and fails. `FrameRead` lists what a call of `readFrame` can do, by how far it gets
(`readFrame_cases`).

`readFrame_writeFrame` is the round trip: a frame at the front of the stream whose payload is within
the reader's limit is read back field by field, and exactly its bytes are consumed. It is a case of
`readFrame_rawBody`, since the reader looks at neither the version nor the reserved byte.
-/

set_option autoImplicit false
set_option relaxedAutoImplicit false

namespace AarnnNsys.Usb

open Wire

/-- `Cfg`: what the command line fixes. -/
structure Cfg where
  maxFrame : ℕ
  ttl : UInt8

/-- `MAGIC`. -/
def magic : UInt16 := 0xABCD

/-- `VER`. -/
def ver : UInt8 := 1

/-- `RxErr`. What an I/O error says is left to the caller. -/
inductive RxErr
  | io
  | lenTooBig
  | badCrc
  deriving DecidableEq

/-- `put_u16`: the two bytes that a word is written as. -/
def putU16 (x : UInt16) : List UInt8 := [loByte x, hiByte x]

/-- Byte `k` of a `u32`: `((seq >> (8 * k)) & 0xFF) as u8`. -/
def seqByte (seq : UInt32) (k : UInt32) : UInt8 := ((seq >>> (8 * k)) &&& 0xFF).toUInt8

/-- The ten header bytes that the CRC covers. -/
def headerBytes (chan ttl : UInt8) (seq : UInt32) (len : ℕ) : List UInt8 :=
  [ver, chan, ttl, 0, loByte (UInt16.ofNat len), hiByte (UInt16.ofNat len),
    seqByte seq 0, seqByte seq 1, seqByte seq 2, seqByte seq 3]

/-- `write_frame`: the bytes handed to `write_all`. -/
def writeFrame (chan ttl : UInt8) (seq : UInt32) (payload : List UInt8) : List UInt8 :=
  let len := payload.length
  let out := putU16 magic ++ [ver, chan, ttl, 0] ++ putU16 (UInt16.ofNat len) ++
    [seqByte seq 0, seqByte seq 1, seqByte seq 2, seqByte seq 3] ++ payload
  let hdr := headerBytes chan ttl seq len
  let crc := crc16Ccitt (crc16Ccitt 0xFFFF hdr) payload
  out ++ putU16 crc

/-- The scan for the two magic bytes: what is unread behind them, or `none` when the stream ends
first. A first byte that no second one follows is dropped with the byte after it. -/
def skipToMagic : List UInt8 → Option (List UInt8)
  | [] => none
  | first :: rest =>
    if first.toUInt16 = magic &&& 0xFF then
      match rest with
      | [] => none
      | second :: rest' => if second.toUInt16 = magic >>> 8 then some rest' else skipToMagic rest'
    else skipToMagic rest

/-- `read_exact`: `n` bytes from the front of the stream, or `none` when it has fewer. -/
def readExact (n : ℕ) (stream : List UInt8) : Option (List UInt8 × List UInt8) :=
  if n ≤ stream.length then some (stream.take n, stream.drop n) else none

/-- The `u32` with the given bytes, low byte first. -/
def le32 (b0 b1 b2 b3 : UInt8) : UInt32 :=
  b0.toUInt32 ||| (b1.toUInt32 <<< 8) ||| (b2.toUInt32 <<< 16) ||| (b3.toUInt32 <<< 24)

/-- The outcome of `read_frame`: channel, hop limit, sequence number and length, or the error. -/
abbrev RxResult := Except RxErr (UInt8 × UInt8 × UInt32 × ℕ)

/-- `read_frame`: the outcome, the work buffer and the unread rest of the stream. A version other
than `VER` is accepted too. -/
def readFrame (cfg : Cfg) (work stream : List UInt8) : RxResult × List UInt8 × List UInt8 :=
  match skipToMagic stream with
  | none => (.error .io, work, [])
  | some stream =>
    match readExact 10 stream with
    | none => (.error .io, work, [])
    | some (hdr, stream) =>
      let chan := hdr.getD 1 0
      let ttl := hdr.getD 2 0
      let len := (le16 (hdr.getD 4 0) (hdr.getD 5 0)).toNat
      if len > cfg.maxFrame then (.error .lenTooBig, work, stream)
      else
        match readExact len stream with
        | none => (.error .io, stream ++ ((work.take len).rightpad len 0).drop stream.length, [])
        | some (work, stream) =>
          match readExact 2 stream with
          | none => (.error .io, work, [])
          | some (crcb, stream) =>
            let crcRx := le16 (crcb.getD 0 0) (crcb.getD 1 0)
            if crc16Ccitt (crc16Ccitt 0xFFFF hdr) work ≠ crcRx then (.error .badCrc, work, stream)
            else
              let seq := le32 (hdr.getD 6 0) (hdr.getD 7 0) (hdr.getD 8 0) (hdr.getD 9 0)
              (.ok (chan, ttl, seq, len), work, stream)

/-- What `readExact` takes and leaves. -/
theorem append_of_readExact {n : ℕ} {stream front back : List UInt8}
    (hread : readExact n stream = some (front, back)) :
    stream = front ++ back ∧ front.length = n := by
  rw [readExact] at hread
  split at hread
  · rename_i hn
    obtain ⟨rfl, rfl⟩ := Prod.mk.inj (Option.some.inj hread)
    exact ⟨(List.take_append_drop n stream).symm, List.length_take_of_le hn⟩
  · cases hread

theorem length_lt_of_readExact {n : ℕ} {stream : List UInt8} (hread : readExact n stream = none) :
    stream.length < n := by
  rw [readExact] at hread
  split at hread
  · cases hread
  · rename_i hn
    exact Nat.not_le.mp hn

/-- The length field of a header. -/
def lenField (hdr : List UInt8) : ℕ := (le16 (hdr.getD 4 0) (hdr.getD 5 0)).toNat

/-- What a call of `read_frame` can do, by how far it gets in the stream. -/
inductive FrameRead (cfg : Cfg) (work stream : List UInt8) :
    RxResult × List UInt8 × List UInt8 → Prop
  | noMagic (hskip : skipToMagic stream = none) : FrameRead cfg work stream (.error .io, work, [])
  | shortHeader {behind : List UInt8} (hskip : skipToMagic stream = some behind)
      (hshort : behind.length < 10) : FrameRead cfg work stream (.error .io, work, [])
  | lenTooBig {hdr behind : List UInt8} (hskip : skipToMagic stream = some (hdr ++ behind))
      (hhdr : hdr.length = 10) (hbig : cfg.maxFrame < lenField hdr) :
      FrameRead cfg work stream (.error .lenTooBig, work, behind)
  | shortPayload {hdr behind : List UInt8} (hskip : skipToMagic stream = some (hdr ++ behind))
      (hhdr : hdr.length = 10) (hfits : lenField hdr ≤ cfg.maxFrame)
      (hshort : behind.length < lenField hdr) :
      FrameRead cfg work stream (.error .io, behind ++
        ((work.take (lenField hdr)).rightpad (lenField hdr) 0).drop behind.length, [])
  | shortCrc {hdr payload behind : List UInt8}
      (hskip : skipToMagic stream = some (hdr ++ (payload ++ behind))) (hhdr : hdr.length = 10)
      (hfits : lenField hdr ≤ cfg.maxFrame) (hpayload : payload.length = lenField hdr)
      (hshort : behind.length < 2) : FrameRead cfg work stream (.error .io, payload, [])
  | badCrc {hdr payload crcb unread : List UInt8}
      (hskip : skipToMagic stream = some (hdr ++ (payload ++ (crcb ++ unread))))
      (hhdr : hdr.length = 10) (hfits : lenField hdr ≤ cfg.maxFrame)
      (hpayload : payload.length = lenField hdr) (hcrcb : crcb.length = 2)
      (hbad : crc16Ccitt (crc16Ccitt 0xFFFF hdr) payload ≠ le16 (crcb.getD 0 0) (crcb.getD 1 0)) :
      FrameRead cfg work stream (.error .badCrc, payload, unread)
  | accepted {hdr payload crcb unread : List UInt8}
      (hskip : skipToMagic stream = some (hdr ++ (payload ++ (crcb ++ unread))))
      (hhdr : hdr.length = 10) (hfits : lenField hdr ≤ cfg.maxFrame)
      (hpayload : payload.length = lenField hdr) (hcrcb : crcb.length = 2)
      (hcrc : crc16Ccitt (crc16Ccitt 0xFFFF hdr) payload = le16 (crcb.getD 0 0) (crcb.getD 1 0)) :
      FrameRead cfg work stream (.ok (hdr.getD 1 0, hdr.getD 2 0,
        le32 (hdr.getD 6 0) (hdr.getD 7 0) (hdr.getD 8 0) (hdr.getD 9 0), lenField hdr), payload,
        unread)

/-- A call does nothing else. -/
theorem readFrame_cases (cfg : Cfg) (work stream : List UInt8) :
    FrameRead cfg work stream (readFrame cfg work stream) := by
  unfold readFrame
  cases hskip : skipToMagic stream with
  | none => exact .noMagic hskip
  | some behind =>
    cases hheader : readExact 10 behind with
    | none => simpa only [hheader] using .shortHeader hskip (length_lt_of_readExact hheader)
    | some header =>
      obtain ⟨hdr, behindHdr⟩ := header
      obtain ⟨rfl, hhdr⟩ := append_of_readExact hheader
      have hfield : (le16 (hdr.getD 4 0) (hdr.getD 5 0)).toNat = lenField hdr := rfl
      simp only [hheader, hfield]
      by_cases hbig : lenField hdr > cfg.maxFrame
      · rw [if_pos hbig]
        exact .lenTooBig hskip hhdr hbig
      · rw [if_neg hbig]
        have hfits := Nat.not_lt.mp hbig
        cases hbody : readExact (lenField hdr) behindHdr with
        | none => exact .shortPayload hskip hhdr hfits (length_lt_of_readExact hbody)
        | some body =>
          obtain ⟨payload, behindPayload⟩ := body
          obtain ⟨rfl, hpayload⟩ := append_of_readExact hbody
          cases hcheck : readExact 2 behindPayload with
          | none =>
            simp only [hcheck]
            exact .shortCrc hskip hhdr hfits hpayload (length_lt_of_readExact hcheck)
          | some check =>
            obtain ⟨crcb, unread⟩ := check
            obtain ⟨rfl, hcrcb⟩ := append_of_readExact hcheck
            simp only [hcheck]
            split
            · rename_i hbad
              exact .badCrc hskip hhdr hfits hpayload hcrcb hbad
            · rename_i hcrc
              exact .accepted hskip hhdr hfits hpayload hcrcb (not_not.mp hcrc)

/-- Reading exactly what stands in front. -/
theorem readExact_append (front back : List UInt8) {n : ℕ} (hn : n = front.length) :
    readExact n (front ++ back) = some (front, back) := by
  subst hn
  simp [readExact]

/-- The scan stops at once at the magic bytes. -/
theorem skipToMagic_append (rest : List UInt8) :
    skipToMagic (putU16 magic ++ rest) = some rest := by
  rfl

/-- The disjoint bytes of a word add up. -/
theorem or_shiftLeft_toNat {low : UInt32} {high : UInt8} (k : ℕ) (hk : k ≤ 24)
    (hlow : low.toNat < 2 ^ k) : (low ||| (high.toUInt32 <<< UInt32.ofNat k)).toNat =
      low.toNat + high.toNat * 2 ^ k := by
  have hhigh : high.toNat < 2 ^ 8 := high.toNat_lt
  have hpow : 2 ^ k ≤ 2 ^ 24 := Nat.pow_le_pow_right (by decide) hk
  have hsmall : high.toNat * 2 ^ k < 2 ^ 32 := by
    calc high.toNat * 2 ^ k ≤ high.toNat * 2 ^ 24 := Nat.mul_le_mul_left _ hpow
      _ < 2 ^ 32 := by omega
  have hamount : (UInt32.ofNat k).toNat % 32 = k := by
    rw [UInt32.toNat_ofNat']
    omega
  have hshift : (high.toUInt32 <<< UInt32.ofNat k).toNat = high.toNat * 2 ^ k := by
    rw [UInt32.toNat_shiftLeft, UInt8.toNat_toUInt32, hamount, Nat.shiftLeft_eq,
      Nat.mod_eq_of_lt hsmall]
  rw [UInt32.toNat_or, hshift, Nat.or_comm, ← Nat.shiftLeft_eq,
    ← Nat.shiftLeft_add_eq_or_of_lt hlow, Nat.shiftLeft_eq, Nat.add_comm]

theorem seqByte_toNat (seq : UInt32) {k : ℕ} (hk : k ≤ 3) :
    (seqByte seq (UInt32.ofNat k)).toNat = seq.toNat / 2 ^ (8 * k) % 256 := by
  have hamount : (8 * UInt32.ofNat k).toNat % 32 = 8 * k := by
    rw [UInt32.toNat_mul, UInt32.toNat_ofNat']
    show 8 * (k % 2 ^ 32) % 2 ^ 32 % 32 = 8 * k
    omega
  have hmask (x : ℕ) : x &&& 255 = x % 2 ^ 8 := Nat.and_two_pow_sub_one_eq_mod x 8
  rw [seqByte, UInt32.toNat_toUInt8, UInt32.toNat_and, UInt32.toNat_shiftRight, hamount,
    Nat.shiftRight_eq_div_pow]
  show (seq.toNat / 2 ^ (8 * k) &&& 255) % 2 ^ 8 = _
  rw [hmask]
  omega

/-- The word of four bytes as a number. -/
theorem le32_toNat (b0 b1 b2 b3 : UInt8) : (le32 b0 b1 b2 b3).toNat =
    b0.toNat + b1.toNat * 2 ^ 8 + b2.toNat * 2 ^ 16 + b3.toNat * 2 ^ 24 := by
  have h0 : b0.toNat < 2 ^ 8 := b0.toNat_lt
  have h1 : b1.toNat < 2 ^ 8 := b1.toNat_lt
  have h2 : b2.toNat < 2 ^ 8 := b2.toNat_lt
  have hlow : b0.toUInt32.toNat = b0.toNat := UInt8.toNat_toUInt32 _
  have hfirst : (b0.toUInt32 ||| (b1.toUInt32 <<< 8)).toNat = _ :=
    or_shiftLeft_toNat 8 (by decide) (by omega)
  have hsecond : (b0.toUInt32 ||| (b1.toUInt32 <<< 8) ||| (b2.toUInt32 <<< 16)).toNat = _ :=
    or_shiftLeft_toNat 16 (by decide) (by omega)
  have hthird : (le32 b0 b1 b2 b3).toNat = _ := or_shiftLeft_toNat 24 (by decide) (by omega)
  omega

/-- The bytes of a sequence number give it back. -/
theorem le32_seqByte (seq : UInt32) :
    le32 (seqByte seq 0) (seqByte seq 1) (seqByte seq 2) (seqByte seq 3) = seq := by
  have h0 : (seqByte seq 0).toNat = seq.toNat / 2 ^ 0 % 256 := seqByte_toNat seq (Nat.zero_le 3)
  have h1 : (seqByte seq 1).toNat = seq.toNat / 2 ^ 8 % 256 := seqByte_toNat seq (by decide : 1 ≤ 3)
  have h2 : (seqByte seq 2).toNat = seq.toNat / 2 ^ 16 % 256 :=
    seqByte_toNat seq (by decide : 2 ≤ 3)
  have h3 : (seqByte seq 3).toNat = seq.toNat / 2 ^ 24 % 256 :=
    seqByte_toNat seq (by decide : 3 ≤ 3)
  have hseq : seq.toNat < 2 ^ 32 := seq.toNat_lt
  have hword := le32_toNat (seqByte seq 0) (seqByte seq 1) (seqByte seq 2) (seqByte seq 3)
  apply UInt32.toNat_inj.mp
  omega

/-- A sequence number gives its bytes back. -/
theorem seqByte_le32 (b0 b1 b2 b3 : UInt8) : seqByte (le32 b0 b1 b2 b3) 0 = b0 ∧
    seqByte (le32 b0 b1 b2 b3) 1 = b1 ∧ seqByte (le32 b0 b1 b2 b3) 2 = b2 ∧
    seqByte (le32 b0 b1 b2 b3) 3 = b3 := by
  have h0 : b0.toNat < 2 ^ 8 := b0.toNat_lt
  have h1 : b1.toNat < 2 ^ 8 := b1.toNat_lt
  have h2 : b2.toNat < 2 ^ 8 := b2.toNat_lt
  have h3 : b3.toNat < 2 ^ 8 := b3.toNat_lt
  have hword := le32_toNat b0 b1 b2 b3
  set seq := le32 b0 b1 b2 b3
  have hbyte0 : (seqByte seq 0).toNat = seq.toNat / 2 ^ 0 % 256 := seqByte_toNat seq (Nat.zero_le 3)
  have hbyte1 : (seqByte seq 1).toNat = seq.toNat / 2 ^ 8 % 256 :=
    seqByte_toNat seq (by decide : 1 ≤ 3)
  have hbyte2 : (seqByte seq 2).toNat = seq.toNat / 2 ^ 16 % 256 :=
    seqByte_toNat seq (by decide : 2 ≤ 3)
  have hbyte3 : (seqByte seq 3).toNat = seq.toNat / 2 ^ 24 % 256 :=
    seqByte_toNat seq (by decide : 3 ≤ 3)
  refine ⟨UInt8.toNat_inj.mp ?_, UInt8.toNat_inj.mp ?_, UInt8.toNat_inj.mp ?_,
    UInt8.toNat_inj.mp ?_⟩ <;> omega

/-! ### Any version, any reserved byte -/

/-- The ten header bytes with any version and any reserved byte, which the reader does not
check. -/
def rawHeader (version reserved chan ttl : UInt8) (seq : UInt32) (len : ℕ) : List UInt8 :=
  [version, chan, ttl, reserved, loByte (UInt16.ofNat len), hiByte (UInt16.ofNat len),
    seqByte seq 0, seqByte seq 1, seqByte seq 2, seqByte seq 3]

/-- What stands behind the magic bytes of a frame: header, payload and the CRC of both. -/
def rawBody (version reserved chan ttl : UInt8) (seq : UInt32) (payload : List UInt8) :
    List UInt8 :=
  let hdr := rawHeader version reserved chan ttl seq payload.length
  hdr ++ payload ++ putU16 (crc16Ccitt (crc16Ccitt 0xFFFF hdr) payload)

/-- The frames that are written have the current version and a reserved byte of `0`. -/
theorem writeFrame_eq (chan ttl : UInt8) (seq : UInt32) (payload : List UInt8) :
    writeFrame chan ttl seq payload = putU16 magic ++ rawBody ver 0 chan ttl seq payload := by
  simp [writeFrame, rawBody, rawHeader, headerBytes, putU16]

theorem length_rawBody (version reserved chan ttl : UInt8) (seq : UInt32) (payload : List UInt8) :
    (rawBody version reserved chan ttl seq payload).length = payload.length + 12 := by
  simp [rawBody, rawHeader, putU16]

/-- A frame behind the magic bytes is read back, whatever its version and its reserved byte.
Assumes: the payload is within the reader's limit and its length fits the length word. -/
theorem readFrame_rawBody {cfg : Cfg} {version reserved chan ttl : UInt8} {seq : UInt32}
    {payload stream rest : List UInt8}
    (hskip : skipToMagic stream = some (rawBody version reserved chan ttl seq payload ++ rest))
    (hfits : payload.length ≤ cfg.maxFrame) (hword : payload.length < 65536) (work : List UInt8) :
    readFrame cfg work stream = (.ok (chan, ttl, seq, payload.length), payload, rest) := by
  set hdr := rawHeader version reserved chan ttl seq payload.length with hhdr
  set crc := crc16Ccitt (crc16Ccitt 0xFFFF hdr) payload with hcrc
  have hlayout : rawBody version reserved chan ttl seq payload ++ rest =
      hdr ++ (payload ++ (putU16 crc ++ rest)) := by
    simp only [rawBody, ← hhdr, ← hcrc, List.append_assoc]
  have hlen : (UInt16.ofNat payload.length).toNat = payload.length :=
    UInt16.toNat_ofNat_of_lt' hword
  have hheader : readExact 10 (hdr ++ (payload ++ (putU16 crc ++ rest))) = some (hdr, _) :=
    readExact_append hdr _ rfl
  have hpayload : readExact payload.length (payload ++ (putU16 crc ++ rest)) = some (payload, _) :=
    readExact_append payload _ rfl
  have hcheck : readExact 2 (putU16 crc ++ rest) = some (putU16 crc, rest) :=
    readExact_append (putU16 crc) rest rfl
  have hfield : le16 (hdr.getD 4 0) (hdr.getD 5 0) = UInt16.ofNat payload.length :=
    le16_loByte_hiByte _
  have hcrcRead : le16 ((putU16 crc).getD 0 0) ((putU16 crc).getD 1 0) = crc :=
    le16_loByte_hiByte _
  have hseq : le32 (hdr.getD 6 0) (hdr.getD 7 0) (hdr.getD 8 0) (hdr.getD 9 0) = seq :=
    le32_seqByte seq
  have hroom : ¬ payload.length > cfg.maxFrame := Nat.not_lt.mpr hfits
  rw [hlayout] at hskip
  simp only [readFrame, hskip, hheader, hfield, hlen, if_neg hroom, hpayload, hcheck, hcrcRead,
    hseq]
  exact if_neg (not_not.mpr hcrc.symm)

/-- The round trip of a frame. Assumes: the payload is within the reader's limit and its length fits
the length word. -/
theorem readFrame_writeFrame {cfg : Cfg} {chan ttl : UInt8} {seq : UInt32} {payload : List UInt8}
    (hfits : payload.length ≤ cfg.maxFrame) (hword : payload.length < 65536)
    (work rest : List UInt8) :
    readFrame cfg work (writeFrame chan ttl seq payload ++ rest) =
      (.ok (chan, ttl, seq, payload.length), payload, rest) := by
  have hskip : skipToMagic (writeFrame chan ttl seq payload ++ rest) =
      some (rawBody ver 0 chan ttl seq payload ++ rest) := by
    rw [writeFrame_eq, List.append_assoc, skipToMagic_append]
  exact readFrame_rawBody hskip hfits hword work

end AarnnNsys.Usb
