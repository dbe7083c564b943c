import AarnnNsys.Wire.Bytes
import Mathlib.Tactic.Linarith

/-!
# The frames of the layer-two bridge

An Ethernet frame of the bridge is a header of fourteen bytes, a header of the bridge's own of
twelve bytes, whose last two are a CRC over the other ten and the payload, and the payload.
`buildFrag` lays such a frame out. `recvInto` is what `recv` leaves in the receive buffer, where
bytes of earlier frames stay behind the new one, and `parseFrame` reads the buffer and either drops
the frame for one of four reasons or accepts it as a `Fragment`.

`parseFrame_recvInto_buildFrag` is the round trip: a frame that fits the receive buffer is accepted
with the fields it was built from, whatever stands behind it on the wire and in the buffer.
-/

set_option autoImplicit false
set_option relaxedAutoImplicit false

namespace AarnnNsys.L2

open Wire

/-- A hardware address. -/
abbrev Mac := Vector UInt8 6

/-- `Cfg`: what the command line fixes. `maxFrame` is a `usize`. -/
structure Cfg where
  ethertype : UInt16
  maxFrame : ℕ
  ttl : UInt8
  maxFrame_lt : maxFrame < 2 ^ 64

/-- A bridge's end of the link: its configuration, the address it sends from and the one it sends
to. -/
structure Link where
  cfg : Cfg
  srcMac : Mac
  dstMac : Mac

/-- The configuration of a bridge started without options. -/
def Cfg.defaults : Cfg := ⟨0xCAFE, 4096, 8, by decide⟩

/-- A bridge without options sends to everyone. -/
def Link.defaults (srcMac : Mac) : Link := ⟨.defaults, srcMac, Vector.replicate 6 0xFF⟩

/-- `VER`. -/
def ver : UInt8 := 1

/-- `FLAG_FRAG`. -/
def flagFrag : UInt8 := 1

/-- `FLAG_LAST`. -/
def flagLast : UInt8 := 2

/-- The length of the Ethernet header. -/
def ethHdrLen : ℕ := 14

/-- `size_of::<L2Hdr>()`. -/
def l2HdrLen : ℕ := 12

/-- `mtu_payload`: the most payload bytes in one frame. -/
def mtuPayload : ℕ := 1500 - 14 - l2HdrLen

/-- The length of `rx_buf`. -/
def rxBufLen : ℕ := 2048

/-- `min_payload_len`: the least payload of an acknowledgement without bytes. -/
def minPayloadLen : ℕ := 46 - l2HdrLen

/-- `a.checked_add(b)` on `usize`. -/
def checkedAdd (a b : ℕ) : Option ℕ :=
  if a + b < 2 ^ 64 then some (a + b) else none

/-- The payload that `build_and_send_frag` really sends: an acknowledgement without bytes is filled
up with zeros. -/
def effPayload (chan : UInt8) (last : Bool) (payload : List UInt8) : List UInt8 :=
  if chan = 1 ∧ last ∧ payload = [] then List.replicate minPayloadLen 0 else payload

/-- The flags of a frame. -/
def fragFlags (last : Bool) (payload : List UInt8) : UInt8 :=
  (if payload = [] then 0 else flagFrag) ||| (if last then flagLast else 0)

/-- The first ten bytes of the bridge's header, those that the CRC covers. -/
def headerBytes (chan flags ttl : UInt8) (msgId fragIdx fragLen : UInt16) : List UInt8 :=
  [ver, chan, flags, ttl, loByte msgId, hiByte msgId, loByte fragIdx, hiByte fragIdx,
    loByte fragLen, hiByte fragLen]

/-- The CRC over the header's first ten bytes and the payload. -/
def frameCrc (header payload : List UInt8) : UInt16 :=
  crc16Ccitt (crc16Ccitt 0xFFFF header) payload

/-- `build_and_send_frag`: the bytes handed to the socket. -/
def buildFrag (link : Link) (chan ttl : UInt8) (msgId fragIdx : UInt16) (last : Bool)
    (payload : List UInt8) : List UInt8 :=
  let payload := effPayload chan last payload
  let flags := fragFlags last payload
  let header := headerBytes chan flags ttl msgId fragIdx (UInt16.ofNat payload.length)
  let crc := frameCrc header payload
  link.dstMac.toList ++ link.srcMac.toList ++ toBeBytes link.cfg.ethertype ++
    header ++ [loByte crc, hiByte crc] ++ payload

/-- A frame that the receiver accepted, field by field. -/
structure Fragment where
  chan : UInt8
  flags : UInt8
  ttl : UInt8
  msgId : UInt16
  fragIdx : UInt16
  payload : List UInt8
  deriving DecidableEq

/-- `(flags & FLAG_LAST) != 0`. -/
def Fragment.last (fragment : Fragment) : Bool := fragment.flags &&& flagLast != 0

/-- What becomes of a received frame. -/
inductive Verdict
  | shortFrame
  | wrongEthertype
  | wrongVersion
  | crcFail
  | accepted (fragment : Fragment)
  deriving DecidableEq

/-- `recv_into`: the buffer after a frame has been received into it, and the number of bytes
received. A frame longer than the buffer is cut off, and behind a shorter one the old bytes stay. -/
def recvInto (rxBuf frame : List UInt8) : List UInt8 × ℕ :=
  (frame.take rxBuf.length ++ rxBuf.drop frame.length, min frame.length rxBuf.length)

/-- The header fields that the receiver reads after the version. -/
structure L2Hdr where
  chan : UInt8
  flags : UInt8
  ttl : UInt8
  msgId : UInt16
  fragIdx : UInt16
  fragLen : UInt16
  crc16 : UInt16

/-- Reads a word stored low byte first. `none` is a panic. -/
def readWord (rxBuf : List UInt8) (k : ℕ) : Option UInt16 := do
  return le16 (← rxBuf[k]?) (← rxBuf[k + 1]?)

/-- Reads the header fields of a frame whose bridge header starts at `off`. -/
def readHdr (rxBuf : List UInt8) (off : ℕ) : Option L2Hdr := do
  let chan ← rxBuf[off + 1]?
  let flags ← rxBuf[off + 2]?
  let rttl ← rxBuf[off + 3]?
  let msgId ← readWord rxBuf (off + 4)
  let fragIdx ← readWord rxBuf (off + 6)
  let fragLen ← readWord rxBuf (off + 8)
  let crcRx ← readWord rxBuf (off + 10)
  return ⟨chan, flags, rttl, msgId, fragIdx, fragLen, crcRx⟩

/-- The checks of the length and of the CRC, once the header is read. -/
def parsePayload (rxBuf : List UInt8) (nbytes off : ℕ) (hdr : L2Hdr) : Option Verdict :=
  let start := off + l2HdrLen
  match checkedAdd start hdr.fragLen.toNat with
  | none => some .shortFrame
  | some stop =>
    if stop > nbytes then some .shortFrame else do
      let pay ← slice? rxBuf start stop
      let hdr10 ← slice? rxBuf off (off + 10)
      if frameCrc hdr10 pay ≠ hdr.crc16 then
        return .crcFail
      return .accepted ⟨hdr.chan, hdr.flags, hdr.ttl, hdr.msgId, hdr.fragIdx, pay⟩

/-- The checks on a received frame, in the order of the source. `none` is a panic. -/
def parseFrame (cfg : Cfg) (rxBuf : List UInt8) (nbytes : ℕ) : Option Verdict :=
  if nbytes < ethHdrLen + l2HdrLen then some .shortFrame else do
    let ethertypeBe := be16 (← rxBuf[12]?) (← rxBuf[13]?)
    if ethertypeBe ≠ cfg.ethertype then
      return .wrongEthertype
    let off := ethHdrLen
    if nbytes < off + l2HdrLen then
      return .shortFrame
    if (← rxBuf[off]?) ≠ ver then
      return .wrongVersion
    parsePayload rxBuf nbytes off (← readHdr rxBuf off)

/-- The bridge's header stands behind the Ethernet header. -/
theorem getElem?_buildFrag (link : Link) (chan ttl : UInt8) (msgId fragIdx : UInt16) (last : Bool)
    (payload : List UInt8) {k : ℕ} (hk : k < 10) :
    (buildFrag link chan ttl msgId fragIdx last payload)[14 + k]? =
      (headerBytes chan (fragFlags last (effPayload chan last payload)) ttl msgId fragIdx
        (UInt16.ofNat (effPayload chan last payload).length))[k]? := by
  have hdst : link.dstMac.toList.length = 6 := Vector.length_toList
  have hsrc : link.srcMac.toList.length = 6 := Vector.length_toList
  have hether : (toBeBytes link.cfg.ethertype).length = 2 := rfl
  simp only [buildFrag, List.append_assoc]
  rw [List.getElem?_append_right (by omega), List.getElem?_append_right (by omega),
    List.getElem?_append_right (by omega), hdst, hsrc, hether,
    show 14 + k - 6 - 6 - 2 = k by omega, List.getElem?_append_left hk]

/-- Byte 15 of a frame is its channel. -/
theorem getElem?_buildFrag_chan (link : Link) (chan ttl : UInt8) (msgId fragIdx : UInt16)
    (last : Bool) (payload : List UInt8) :
    (buildFrag link chan ttl msgId fragIdx last payload)[15]? = some chan :=
  getElem?_buildFrag link chan ttl msgId fragIdx last payload (by decide : 1 < 10)

/-- Byte 17 of a frame is its ttl. -/
theorem getElem?_buildFrag_ttl (link : Link) (chan ttl : UInt8) (msgId fragIdx : UInt16)
    (last : Bool) (payload : List UInt8) :
    (buildFrag link chan ttl msgId fragIdx last payload)[17]? = some ttl :=
  getElem?_buildFrag link chan ttl msgId fragIdx last payload (by decide : 3 < 10)

theorem length_recvInto (rxBuf frame : List UInt8) :
    (recvInto rxBuf frame).1.length = rxBuf.length := by
  simp only [recvInto, List.length_append, List.length_take, List.length_drop]
  omega

/-- Only bytes of the received frame lie below the received length. -/
theorem take_recvInto (rxBuf frame : List UInt8) :
    (recvInto rxBuf frame).1.take (recvInto rxBuf frame).2 = frame.take rxBuf.length := by
  have hlength : (frame.take rxBuf.length).length = min frame.length rxBuf.length := by
    rw [List.length_take, Nat.min_comm]
  exact List.take_left' hlength

theorem readWord_isSome {rxBuf : List UInt8} {k : ℕ} (hk : k + 1 < rxBuf.length) :
    (readWord rxBuf k).isSome := by
  simp [readWord, hk, Nat.lt_of_succ_lt hk]

theorem readHdr_isSome {rxBuf : List UInt8} {off : ℕ} (hoff : off + 11 < rxBuf.length) :
    (readHdr rxBuf off).isSome := by
  have hbyte : ∀ k, k < 12 → (rxBuf[off + k]?).isSome := fun k hk ↦ by
    rw [List.getElem?_eq_getElem (by omega)]
    rfl
  have hword : ∀ k, k < 11 → (readWord rxBuf (off + k)).isSome := fun k hk ↦
    readWord_isSome (by omega)
  exact isSome_bind_of (hbyte 1 (by decide)) fun _ _ ↦
    isSome_bind_of (hbyte 2 (by decide)) fun _ _ ↦
    isSome_bind_of (hbyte 3 (by decide)) fun _ _ ↦
    isSome_bind_of (hword 4 (by decide)) fun _ _ ↦
    isSome_bind_of (hword 6 (by decide)) fun _ _ ↦
    isSome_bind_of (hword 8 (by decide)) fun _ _ ↦
    isSome_bind_of (hword 10 (by decide)) fun _ _ ↦ rfl

theorem parsePayload_isSome {rxBuf : List UInt8} {nbytes off : ℕ} (hdr : L2Hdr)
    (hoff : off + l2HdrLen ≤ rxBuf.length) (hnbytes : nbytes ≤ rxBuf.length) :
    (parsePayload rxBuf nbytes off hdr).isSome := by
  simp only [l2HdrLen] at hoff
  unfold parsePayload checkedAdd
  by_cases hadd : off + l2HdrLen + hdr.fragLen.toNat < 2 ^ 64
  · simp only [hadd, if_true]
    split
    · rfl
    · refine isSome_bind_of (slice?_isSome (by omega) (by omega)) fun _ _ ↦
        isSome_bind_of (slice?_isSome (by omega) (by omega)) fun _ _ ↦ ?_
      split <;> rfl
  · simp only [hadd, if_false]
    rfl

/-- The parser never panics on what `recv` leaves in the receive buffer. -/
theorem parseFrame_isSome {cfg : Cfg} {rxBuf : List UInt8} {nbytes : ℕ}
    (hbuf : rxBuf.length = rxBufLen) (hnbytes : nbytes ≤ rxBufLen) :
    (parseFrame cfg rxBuf nbytes).isSome := by
  rw [rxBufLen] at hbuf hnbytes
  have hbyte : ∀ k, k < 26 → (rxBuf[k]?).isSome := fun k hk ↦ by
    rw [List.getElem?_eq_getElem (by omega)]
    rfl
  unfold parseFrame
  split
  · rfl
  refine isSome_bind_of (hbyte 12 (by decide)) fun _ _ ↦
    isSome_bind_of (hbyte 13 (by decide)) fun _ _ ↦ ?_
  simp only
  -- the second check of the length repeats the first and goes with it
  split
  · rfl
  refine isSome_bind_of (hbyte 14 (by decide)) fun _ _ ↦ ?_
  split
  · rfl
  exact isSome_bind_of (readHdr_isSome (by simp only [ethHdrLen]; omega)) fun hdr _ ↦
    parsePayload_isSome hdr (by simp only [ethHdrLen, l2HdrLen]; omega) (by omega)

/-- What the bytes of an accepted frame say, field by field. -/
structure Accepts (cfg : Cfg) (bytes : List UInt8) (fragment : Fragment) : Prop where
  ethertype : ∃ hi lo, bytes[12]? = some hi ∧ bytes[13]? = some lo ∧ be16 hi lo = cfg.ethertype
  version : bytes[14]? = some ver
  chan : bytes[15]? = some fragment.chan
  flags : bytes[16]? = some fragment.flags
  ttl : bytes[17]? = some fragment.ttl
  msgId : readWord bytes 18 = some fragment.msgId
  fragIdx : readWord bytes 20 = some fragment.fragIdx
  payload : ∃ fragLen, readWord bytes 22 = some fragLen ∧
    slice? bytes 26 (26 + fragLen.toNat) = some fragment.payload
  crc : ∃ header, slice? bytes 14 24 = some header ∧
    readWord bytes 24 = some (frameCrc header fragment.payload)

/-- The tests that the receiver drops a frame for, read off the frame's bytes: it is too short for
the two headers, has another EtherType or version, claims more payload than it has, or its CRC is
wrong. -/
inductive FailsTest (cfg : Cfg) (bytes : List UInt8) : Prop
  | tooShort (hshort : bytes.length < ethHdrLen + l2HdrLen)
  | otherEthertype {hi lo : UInt8} (hhi : bytes[12]? = some hi) (hlo : bytes[13]? = some lo)
      (hother : be16 hi lo ≠ cfg.ethertype)
  | otherVersion {version : UInt8} (hversion : bytes[14]? = some version) (hother : version ≠ ver)
  | missingPayload {fragLen : UInt16} (hfragLen : readWord bytes 22 = some fragLen)
      (hshort : bytes.length < ethHdrLen + l2HdrLen + fragLen.toNat)
  | badCrc {header payload : List UInt8} {fragLen crc : UInt16}
      (hheader : slice? bytes 14 24 = some header) (hfragLen : readWord bytes 22 = some fragLen)
      (hcrc : readWord bytes 24 = some crc)
      (hpayload : slice? bytes 26 (26 + fragLen.toNat) = some payload)
      (hbad : frameCrc header payload ≠ crc)

/-- A frame that fails a test is not accepted. -/
theorem FailsTest.not_accepts {cfg : Cfg} {bytes : List UInt8} (hfails : FailsTest cfg bytes)
    (fragment : Fragment) : ¬ Accepts cfg bytes fragment := by
  intro haccepts
  obtain ⟨fragLen', hfragLen', hpayload'⟩ := haccepts.payload
  have hroom : 26 + fragLen'.toNat ≤ bytes.length := stop_le_of_slice? hpayload'
  cases hfails with
  | tooShort hshort =>
    simp only [ethHdrLen, l2HdrLen] at hshort
    omega
  | otherEthertype hhi hlo hother =>
    obtain ⟨hi, lo, hhi', hlo', hether⟩ := haccepts.ethertype
    rw [hhi, Option.some.injEq] at hhi'
    rw [hlo, Option.some.injEq] at hlo'
    exact hother (hhi' ▸ hlo' ▸ hether)
  | otherVersion hversion hother =>
    have hsame := haccepts.version
    rw [hversion, Option.some.injEq] at hsame
    exact hother hsame
  | missingPayload hfragLen hshort =>
    rw [hfragLen, Option.some.injEq] at hfragLen'
    simp only [ethHdrLen, l2HdrLen] at hshort
    subst hfragLen'
    omega
  | badCrc hheader hfragLen hcrc hpayload hbad =>
    obtain ⟨header, hheader', hcrc'⟩ := haccepts.crc
    rw [hheader, Option.some.injEq] at hheader'
    rw [hfragLen, Option.some.injEq] at hfragLen'
    subst hheader' hfragLen'
    rw [hpayload, Option.some.injEq] at hpayload'
    rw [hcrc, Option.some.injEq] at hcrc'
    exact hbad (hpayload' ▸ hcrc'.symm)

theorem readHdr_eq_some {rxBuf : List UInt8} {off : ℕ} {hdr : L2Hdr}
    (hread : readHdr rxBuf off = some hdr) :
    rxBuf[off + 1]? = some hdr.chan ∧ rxBuf[off + 2]? = some hdr.flags ∧
      rxBuf[off + 3]? = some hdr.ttl ∧ readWord rxBuf (off + 4) = some hdr.msgId ∧
      readWord rxBuf (off + 6) = some hdr.fragIdx ∧ readWord rxBuf (off + 8) = some hdr.fragLen ∧
      readWord rxBuf (off + 10) = some hdr.crc16 := by
  simp only [readHdr, Option.bind_eq_bind, Option.bind_eq_some_iff, Option.pure_def,
    Option.some.injEq] at hread
  obtain ⟨chan, hchan, flags, hflags, ttl, httl, msgId, hmsgId, fragIdx, hfragIdx,
    fragLen, hfragLen, crc, hcrc, rfl⟩ := hread
  exact ⟨hchan, hflags, httl, hmsgId, hfragIdx, hfragLen, hcrc⟩

theorem parsePayload_accepted {rxBuf : List UInt8} {nbytes off : ℕ} {hdr : L2Hdr}
    {fragment : Fragment}
    (hparse : parsePayload rxBuf nbytes off hdr = some (.accepted fragment)) :
    off + l2HdrLen + hdr.fragLen.toNat ≤ nbytes ∧ ∃ header pay,
      slice? rxBuf (off + l2HdrLen) (off + l2HdrLen + hdr.fragLen.toNat) = some pay ∧
      slice? rxBuf off (off + 10) = some header ∧ frameCrc header pay = hdr.crc16 ∧
      fragment = ⟨hdr.chan, hdr.flags, hdr.ttl, hdr.msgId, hdr.fragIdx, pay⟩ := by
  unfold parsePayload checkedAdd at hparse
  by_cases hadd : off + l2HdrLen + hdr.fragLen.toNat < 2 ^ 64
  · simp only [hadd, if_true, Option.bind_eq_bind, Option.pure_def] at hparse
    split at hparse
    · simp at hparse
    simp only [Option.bind_eq_some_iff] at hparse
    obtain ⟨pay, hpay, header, hheader, hcrc⟩ := hparse
    split at hcrc
    · simp at hcrc
    · rename_i hroom hsame
      simp only [Option.some.injEq, Verdict.accepted.injEq] at hcrc
      exact ⟨not_lt.mp hroom, header, pay, hpay, hheader, not_not.mp hsame, hcrc.symm⟩
  · simp only [hadd, if_false, Option.some.injEq, reduceCtorEq] at hparse

theorem readWord_take {buf : List UInt8} {k n : ℕ} (hk : k + 1 < n) :
    readWord (buf.take n) k = readWord buf k := by
  simp only [readWord, List.getElem?_take_of_lt hk, List.getElem?_take_of_lt (Nat.lt_of_succ_lt hk)]

/-- What an accepted frame's bytes say does not depend on bytes behind them. -/
theorem Accepts.of_take {cfg : Cfg} {bytes : List UInt8} {fragment : Fragment} {n : ℕ}
    (haccepts : Accepts cfg (bytes.take n) fragment) (hn : 26 ≤ n) :
    Accepts cfg bytes fragment := by
  have hbyte : ∀ {k : ℕ}, k < 26 → (bytes.take n)[k]? = bytes[k]? := fun hk ↦
    List.getElem?_take_of_lt (by omega)
  have hword : ∀ {k : ℕ}, k < 25 → readWord (bytes.take n) k = readWord bytes k := fun hk ↦
    readWord_take (by omega)
  obtain ⟨hi, lo, hhi, hlo, hether⟩ := haccepts.ethertype
  obtain ⟨fragLen, hfragLen, hpayload⟩ := haccepts.payload
  obtain ⟨header, hheader, hcrc⟩ := haccepts.crc
  exact
    { ethertype := ⟨hi, lo, (hbyte (by decide)).symm.trans hhi, (hbyte (by decide)).symm.trans hlo,
        hether⟩
      version := (hbyte (by decide)).symm.trans haccepts.version
      chan := (hbyte (by decide)).symm.trans haccepts.chan
      flags := (hbyte (by decide)).symm.trans haccepts.flags
      ttl := (hbyte (by decide)).symm.trans haccepts.ttl
      msgId := (hword (by decide)).symm.trans haccepts.msgId
      fragIdx := (hword (by decide)).symm.trans haccepts.fragIdx
      payload := ⟨fragLen, (hword (by decide)).symm.trans hfragLen, slice?_of_take hpayload⟩
      crc := ⟨header, slice?_of_take hheader, (hword (by decide)).symm.trans hcrc⟩ }

/-- The inversion of the parser: an accepted frame passed every check, and its fields are those of
its bytes. -/
theorem parseFrame_accepted {cfg : Cfg} {rxBuf : List UInt8} {nbytes : ℕ} {fragment : Fragment}
    (hparse : parseFrame cfg rxBuf nbytes = some (.accepted fragment)) :
    Accepts cfg (rxBuf.take nbytes) fragment := by
  unfold parseFrame at hparse
  split at hparse
  · simp at hparse
  rename_i hlength
  simp only [Option.bind_eq_bind, Option.bind_eq_some_iff, Option.pure_def] at hparse
  obtain ⟨hi, hhi, lo, hlo, hparse⟩ := hparse
  split at hparse
  · simp at hparse
  rename_i hether
  simp only [Option.bind_eq_some_iff] at hparse
  obtain ⟨version, hversion, hparse⟩ := hparse
  split at hparse
  · simp at hparse
  rename_i hver
  simp only [Option.bind_eq_some_iff] at hparse
  obtain ⟨hdr, hhdr, hparse⟩ := hparse
  obtain ⟨hchan, hflags, httl, hmsgId, hfragIdx, hfragLen, hcrc⟩ := readHdr_eq_some hhdr
  obtain ⟨hstop, header, pay, hpay, hheader, hsame, rfl⟩ := parsePayload_accepted hparse
  simp only [ethHdrLen, l2HdrLen, Nat.reduceAdd] at *
  have hbyte : ∀ {k : ℕ}, k < 26 → (rxBuf.take nbytes)[k]? = rxBuf[k]? := fun hk ↦
    List.getElem?_take_of_lt (by omega)
  have hword : ∀ {k : ℕ}, k < 25 → readWord (rxBuf.take nbytes) k = readWord rxBuf k := fun hk ↦
    readWord_take (by omega)
  exact
    { ethertype := ⟨hi, lo, (hbyte (by decide)).trans hhi, (hbyte (by decide)).trans hlo,
        not_not.mp hether⟩
      version := (hbyte (by decide)).trans (not_not.mp hver ▸ hversion)
      chan := (hbyte (by decide)).trans hchan
      flags := (hbyte (by decide)).trans hflags
      ttl := (hbyte (by decide)).trans httl
      msgId := (hword (by decide)).trans hmsgId
      fragIdx := (hword (by decide)).trans hfragIdx
      payload := ⟨hdr.fragLen, (hword (by decide)).trans hfragLen, (slice?_take hstop).trans hpay⟩
      crc := ⟨header, (slice?_take (by omega)).trans hheader,
        (hword (by decide)).trans (hsame ▸ hcrc)⟩ }

/-- The converse: a frame whose bytes pass every check is accepted, with the fields that its bytes
say. -/
theorem parseFrame_of_accepts {cfg : Cfg} {rxBuf : List UInt8} {nbytes : ℕ} {fragment : Fragment}
    (haccepts : Accepts cfg (rxBuf.take nbytes) fragment) :
    parseFrame cfg rxBuf nbytes = some (.accepted fragment) := by
  have hroom : ∃ fragLen, readWord (rxBuf.take nbytes) 22 = some fragLen ∧
      26 + fragLen.toNat ≤ nbytes := by
    obtain ⟨fragLen, hfragLen, hpayload⟩ := haccepts.payload
    exact ⟨fragLen, hfragLen, (stop_le_of_slice? hpayload).trans (List.length_take_le _ _)⟩
  obtain ⟨fragLen, hfragLen, hstop⟩ := hroom
  rw [readWord_take (by omega)] at hfragLen
  have hwhole : Accepts cfg rxBuf fragment := haccepts.of_take (by omega)
  obtain ⟨hi, lo, hhi, hlo, hether⟩ := hwhole.ethertype
  obtain ⟨fragLen', hfragLen', hpayload⟩ := hwhole.payload
  obtain rfl : fragLen = fragLen' := Option.some.inj (hfragLen.symm.trans hfragLen')
  obtain ⟨header, hheader, hcrc⟩ := hwhole.crc
  have hshort : ¬ nbytes < 26 := by omega
  have hadd : checkedAdd 26 fragLen.toNat = some (26 + fragLen.toNat) :=
    if_pos (by have := fragLen.toNat_lt; omega)
  have hhdr : readHdr rxBuf 14 = some ⟨fragment.chan, fragment.flags, fragment.ttl, fragment.msgId,
      fragment.fragIdx, fragLen, frameCrc header fragment.payload⟩ := by
    simp [readHdr, hwhole.chan, hwhole.flags, hwhole.ttl, hwhole.msgId, hwhole.fragIdx, hfragLen,
      hcrc]
  simp [parseFrame, parsePayload, ethHdrLen, l2HdrLen, hshort, hhi, hlo, hether, hwhole.version,
    hhdr, hadd, not_lt.mpr hstop, hpayload, hheader]

/-- The flag for the last fragment is read back as it was written. -/
theorem last_fragFlags (last : Bool) (payload : List UInt8) :
    (fragFlags last payload &&& flagLast != 0) = last := by
  unfold fragFlags
  cases last <;> split <;> rfl

/-- The length of a built frame. -/
theorem length_buildFrag (link : Link) (chan ttl : UInt8) (msgId fragIdx : UInt16) (last : Bool)
    (payload : List UInt8) :
    (buildFrag link chan ttl msgId fragIdx last payload).length =
      ethHdrLen + l2HdrLen + (effPayload chan last payload).length := by
  simp only [buildFrag, toBeBytes, headerBytes, List.length_append, Vector.length_toList,
    List.length_cons, List.length_nil, ethHdrLen, l2HdrLen]

/-- The parser accepts a buffer laid out as the builder lays out a frame. -/
theorem parseFrame_layout {cfg : Cfg} {addresses header : List UInt8} {chan flags ttl : UInt8}
    {msgId fragIdx : UInt16} {payload rest : List UInt8} {nbytes : ℕ}
    (haddresses : addresses.length = 12) (hlen : payload.length < 65536)
    (hnbytes : ethHdrLen + l2HdrLen + payload.length ≤ nbytes)
    (hheader : header = headerBytes chan flags ttl msgId fragIdx (UInt16.ofNat payload.length)) :
    parseFrame cfg (addresses ++ (toBeBytes cfg.ethertype ++ header ++
        [loByte (frameCrc header payload), hiByte (frameCrc header payload)] ++ payload ++ rest))
      nbytes = some (.accepted ⟨chan, flags, ttl, msgId, fragIdx, payload⟩) := by
  simp only [ethHdrLen, l2HdrLen] at hnbytes
  have hshort : ¬ nbytes < 26 := by omega
  have hstop : ¬ nbytes < 26 + payload.length := by omega
  have hword : payload.length % 65536 = payload.length := Nat.mod_eq_of_lt hlen
  have hchecked : checkedAdd 26 payload.length = some (26 + payload.length) := if_pos (by omega)
  match addresses, haddresses with
  | [_, _, _, _, _, _, _, _, _, _, _, _], _ =>
    generalize hcrc : frameCrc header payload = crc
    subst hheader
    simp only [headerBytes] at hcrc
    -- every byte of the two headers is read off the literal list
    simp [parseFrame, parsePayload, readHdr, readWord, ethHdrLen, l2HdrLen, toBeBytes, headerBytes,
      slice?, hshort, hword, hchecked, hstop]
    rw [if_pos (by omega)]
    simp [hcrc]

/-- The round trip of a frame. Assumes: the frame with what is padded behind it fits the receive
buffer, and both ends use one EtherType. -/
theorem parseFrame_recvInto_buildFrag {link : Link} {cfg : Cfg} {chan ttl : UInt8}
    {msgId fragIdx : UInt16} {last : Bool} {payload padding rxBuf : List UInt8}
    (hether : link.cfg.ethertype = cfg.ethertype) (hbuf : rxBuf.length = rxBufLen)
    (hfits : (buildFrag link chan ttl msgId fragIdx last payload ++ padding).length ≤ rxBufLen) :
    parseFrame cfg
        (recvInto rxBuf (buildFrag link chan ttl msgId fragIdx last payload ++ padding)).1
        (recvInto rxBuf (buildFrag link chan ttl msgId fragIdx last payload ++ padding)).2 =
      some (.accepted ⟨chan, fragFlags last (effPayload chan last payload), ttl, msgId, fragIdx,
        effPayload chan last payload⟩) := by
  set frame := buildFrag link chan ttl msgId fragIdx last payload with hframe
  have hlength : frame.length = ethHdrLen + l2HdrLen + (effPayload chan last payload).length :=
    length_buildFrag ..
  have hsmall : (effPayload chan last payload).length < 65536 := by
    simp only [List.length_append, hlength, rxBufLen] at hfits
    omega
  have hbytes : (recvInto rxBuf (frame ++ padding)).1 =
      frame ++ (padding ++ rxBuf.drop (frame ++ padding).length) := by
    rw [recvInto, hbuf, List.take_of_length_le hfits, List.append_assoc]
  have hcount : ethHdrLen + l2HdrLen + (effPayload chan last payload).length ≤
      (recvInto rxBuf (frame ++ padding)).2 := by
    simp only [recvInto, hbuf, List.length_append, hlength] at hfits ⊢
    omega
  have haddresses : (link.dstMac.toList ++ link.srcMac.toList).length = 12 := by simp
  set header := headerBytes chan (fragFlags last (effPayload chan last payload)) ttl msgId fragIdx
    (UInt16.ofNat (effPayload chan last payload).length) with hheader
  have hlayout : frame ++ (padding ++ rxBuf.drop (frame ++ padding).length) =
      (link.dstMac.toList ++ link.srcMac.toList) ++ (toBeBytes cfg.ethertype ++ header ++
        [loByte (frameCrc header (effPayload chan last payload)),
          hiByte (frameCrc header (effPayload chan last payload))] ++
        effPayload chan last payload ++
        (padding ++ rxBuf.drop (frame ++ padding).length)) := by
    rw [← hether]
    simp only [hframe, buildFrag, ← hheader, List.append_assoc]
  rw [hbytes, hlayout]
  exact parseFrame_layout haddresses hsmall hcount hheader

end AarnnNsys.L2
