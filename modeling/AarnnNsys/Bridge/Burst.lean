import AarnnNsys.L2.Reassembly
import AarnnNsys.Usb.Accept
import AarnnNsys.Wire.Checksum

/-!
# Short bursts do not pass

A burst error in a frame changes header and payload within a window of sixteen bits and leaves the
checksum and the field alone that says how long the payload is. Neither bridge accepts such a frame
(`L2.Accepts.burst`, `Usb.readFrame_burst`): the length field fixes which bytes are under the
checksum, and on these the checksum differs from the one that the frame carries.

`bursts_caught` is the result, with what the receiver of `l2bridge` does about the frame: nothing.
-/

set_option autoImplicit false
set_option relaxedAutoImplicit false

namespace AarnnNsys.L2

open Wire

/-- The bytes of a frame that its checksum is about: ten of the header, and the payload. -/
def covered (frame : List UInt8) : List UInt8 := (frame.drop 14).take 10 ++ frame.drop 26

/-- The Ethernet header, the length field and the checksum. -/
def intact (k : ℕ) : Prop := k < 14 ∨ 22 ≤ k ∧ k < 26

/-- What is under the checksum and what stays intact make up the frame. -/
theorem eq_of_covered {frame frame' : List UInt8} (hlength : frame'.length = frame.length)
    (hintact : ∀ k, intact k → frame'[k]? = frame[k]?) (hcovered : covered frame' = covered frame) :
    frame' = frame := by
  obtain ⟨hheader, hpayload⟩ := List.append_inj hcovered (by simp [hlength])
  refine List.ext_getElem? fun k ↦ ?_
  by_cases hk : intact k
  · exact hintact k hk
  rw [intact] at hk
  rcases Nat.lt_or_ge k 26 with hlow | hhigh
  · have hbyte := congrArg (·[k - 14]?) hheader
    simpa [List.getElem?_take, show k - 14 < 10 by omega, show 14 + (k - 14) = k by omega]
      using hbyte
  · have hbyte := congrArg (·[k - 26]?) hpayload
    simpa [show 26 + (k - 26) = k by omega] using hbyte

/-- The checksum that an accepted frame carries. Assumes: the frame ends where its length field says
that the payload does. -/
theorem Accepts.crc_covered {cfg : Cfg} {frame rest : List UInt8} {fragment : Fragment}
    (haccepts : Accepts cfg (frame ++ rest) fragment) {fragLen : UInt16}
    (hfragLen : readWord frame 22 = some fragLen) (hlength : frame.length = 26 + fragLen.toNat) :
    readWord frame 24 = some (crc16Ccitt 0xFFFF (covered frame)) := by
  have hword : ∀ {k : ℕ}, k + 1 < frame.length → readWord (frame ++ rest) k = readWord frame k := by
    intro k hk
    rw [← readWord_take hk, List.take_left]
  obtain ⟨fragLen', hfragLen', hpayload⟩ := haccepts.payload
  rw [hword (by omega), hfragLen, Option.some.injEq] at hfragLen'
  subst hfragLen'
  obtain ⟨header, hheader, hcrc⟩ := haccepts.crc
  rw [← hlength, ← slice?_take le_rfl, List.take_left, slice?, if_pos ⟨by omega, le_rfl⟩,
    Option.some.injEq] at hpayload
  rw [← slice?_take (n := frame.length) (by omega), List.take_left, slice?,
    if_pos ⟨by omega, by omega⟩, Option.some.injEq] at hheader
  rw [hword (by omega), frameCrc, ← crc16Ccitt_append, ← hheader, ← hpayload] at hcrc
  rw [hcrc, covered, List.take_of_length_le (i := frame.length - 26) (by simp)]

/-- A burst error in an accepted frame gives a frame that is not accepted, by whatever bridge and
whatever follows it. Assumes: the frame ends where its length field says. -/
theorem Accepts.burst {cfg cfg' : Cfg} {frame frame' rest : List UInt8}
    {fragment fragment' : Fragment} (haccepts : Accepts cfg frame fragment) {fragLen : UInt16}
    (hfragLen : readWord frame 22 = some fragLen) (hlength : frame.length = 26 + fragLen.toNat)
    (hburst : Burst intact covered frame frame') : ¬ Accepts cfg' (frame' ++ rest) fragment' := by
  intro haccepts'
  have hword : ∀ {k : ℕ}, 22 ≤ k → k < 25 → readWord frame' k = readWord frame k := by
    intro k hlow hhigh
    rw [readWord, readWord, hburst.intact k (.inr ⟨hlow, by omega⟩),
      hburst.intact (k + 1) (.inr ⟨by omega, by omega⟩)]
  have hcarried := haccepts'.crc_covered ((hword le_rfl (by decide)).trans hfragLen)
    (hburst.length_eq.trans hlength)
  rw [hword (by decide) (by decide)] at hcarried
  rw [← List.append_nil frame] at haccepts
  have hsame := Option.some.inj ((haccepts.crc_covered hfragLen hlength).symm.trans hcarried)
  have hcovered : covered frame ≠ covered frame' := fun hcovered ↦
    hburst.ne (eq_of_covered hburst.length_eq hburst.intact hcovered.symm)
  have hsizes : (covered frame).length = (covered frame').length := by
    simp [covered, hburst.length_eq]
  exact crc16Ccitt_ne_of_differWithin hsizes hburst.window hcovered _ hsame

/-- A frame that fits the receive buffer is one that the checks pass and ends where its length field
says. -/
theorem accepts_buildFrag (link : Link) (chan ttl : UInt8) (msgId fragIdx : UInt16) (last : Bool)
    (payload : List UInt8)
    (hfits : (buildFrag link chan ttl msgId fragIdx last payload).length ≤ rxBufLen) :
    ∃ fragment fragLen, Accepts link.cfg (buildFrag link chan ttl msgId fragIdx last payload)
        fragment ∧
      readWord (buildFrag link chan ttl msgId fragIdx last payload) 22 = some fragLen ∧
      (buildFrag link chan ttl msgId fragIdx last payload).length = 26 + fragLen.toNat := by
  have hlength := length_buildFrag link chan ttl msgId fragIdx last payload
  have hbuf : (List.replicate rxBufLen (0 : UInt8)).length = rxBufLen := List.length_replicate
  have hwhole : (buildFrag link chan ttl msgId fragIdx last payload ++ []).length ≤ rxBufLen := by
    rwa [List.append_nil]
  have haccepts := parseFrame_accepted 
    (parseFrame_recvInto_buildFrag (Eq.refl link.cfg.ethertype) hbuf hwhole)
  rw [take_recvInto, List.append_nil, List.length_replicate, List.take_of_length_le hfits]
    at haccepts
  refine ⟨_, UInt16.ofNat (effPayload chan last payload).length, haccepts, ?_, ?_⟩
  · have hlo := getElem?_buildFrag link chan ttl msgId fragIdx last payload (by decide : 8 < 10)
    have hhi := getElem?_buildFrag link chan ttl msgId fragIdx last payload (by decide : 9 < 10)
    simp only [Nat.reduceAdd] at hlo hhi
    rw [readWord, hlo, hhi]
    exact congrArg some (le16_loByte_hiByte _)
  · simp only [rxBufLen, ethHdrLen, l2HdrLen] at hfits hlength
    have hword : (effPayload chan last payload).length < 65536 := by omega
    rw [UInt16.toNat_ofNat_of_lt' hword]
    omega

/-- The receiver drops a frame with a burst error and stays as it is, except for its receive
buffer. -/
theorem Receiver.receive_burst {sender link : Link} {chan ttl : UInt8} {msgId fragIdx : UInt16}
    {last : Bool} {payload frame' : List UInt8}
    (hfits : (buildFrag sender chan ttl msgId fragIdx last payload).length ≤ rxBufLen)
    (hburst : Burst intact covered (buildFrag sender chan ttl msgId fragIdx last payload) frame')
    {receiver : Receiver} (hwf : receiver.WellFormed link) (padding : List UInt8) :
    ∃ verdict, (∀ fragment, verdict ≠ .accepted fragment) ∧
      receiver.receive link (frame' ++ padding) =
        some (⟨(recvInto receiver.rxBuf (frame' ++ padding)).1, receiver.reasm⟩,
          ⟨verdict, []⟩) := by
  obtain ⟨verdict, hparse⟩ := hwf.parse (frame' ++ padding)
  have hdropped : ∀ fragment, verdict ≠ .accepted fragment := by
    rintro fragment rfl
    have haccepts := parseFrame_accepted hparse
    rw [take_recvInto, hwf.length_rxBuf] at haccepts
    obtain ⟨fragment₀, fragLen, hsent, hfragLen, hlength⟩ := accepts_buildFrag sender chan ttl msgId
      fragIdx last payload hfits
    exact hsent.burst hfragLen hlength hburst (haccepts.of_take (by decide))
  exact ⟨verdict, hdropped, receive_other hparse fun fragment haccepted ↦
    absurd haccepted (hdropped fragment)⟩

end AarnnNsys.L2

namespace AarnnNsys.Usb

open Wire

/-- The bytes of a frame that its checksum is about: all but the magic bytes and the checksum. -/
def covered (frame : List UInt8) : List UInt8 := (frame.drop 2).take (frame.length - 4)

/-- The magic bytes, the length field, and the checksum at the end of a frame of the given
length. -/
def intact (length k : ℕ) : Prop := k < 2 ∨ k = 6 ∨ k = 7 ∨ length ≤ k + 2

/-- The frame with the given header and payload. -/
def sealed (body : List UInt8) : List UInt8 :=
  putU16 magic ++ (body ++ putU16 (crc16Ccitt 0xFFFF body))

theorem length_sealed (body : List UInt8) : (sealed body).length = body.length + 4 := by
  simp [sealed, putU16]

theorem covered_sealed (body : List UInt8) : covered (sealed body) = body := by
  rw [covered, length_sealed, Nat.add_sub_cancel]
  exact List.take_left

/-- The two bytes at the end of a frame. -/
theorem getElem?_sealed (body : List UInt8) {k : ℕ} (hk : k < 2) :
    (sealed body)[body.length + 2 + k]? = (putU16 (crc16Ccitt 0xFFFF body))[k]? := by
  have hmagic : (putU16 magic).length = 2 := rfl
  rw [sealed, List.getElem?_append_right (by omega), List.getElem?_append_right (by omega), hmagic,
    show body.length + 2 + k - 2 - body.length = k by omega]

theorem magic_append_rawBody (version reserved chan ttl : UInt8) (seq : UInt32)
    (payload : List UInt8) : putU16 magic ++ rawBody version reserved chan ttl seq payload =
      sealed (rawHeader version reserved chan ttl seq payload.length ++ payload) := by
  rw [sealed, rawBody, crc16Ccitt_append]

/-- The header stands in front. -/
theorem getElem?_rawBody (version reserved chan ttl : UInt8) (seq : UInt32)
    (payload rest : List UInt8) {k : ℕ} (hk : k < 10) :
    (rawBody version reserved chan ttl seq payload ++ rest)[k]? =
      (rawHeader version reserved chan ttl seq payload.length)[k]? := by
  rw [rawBody, List.append_assoc, List.append_assoc, List.getElem?_append_left hk]

/-- A burst error leaves no frame behind. -/
theorem Burst.not_sealed {body body' : List UInt8} :
    ¬ Burst (intact (sealed body).length) covered (sealed body) (sealed body') := by
  intro hburst
  have hwindow := hburst.window
  rw [covered_sealed, covered_sealed] at hwindow
  have hlength : body'.length = body.length := by
    have htotal := hburst.length_eq
    rw [length_sealed, length_sealed] at htotal
    omega
  have hbyte : ∀ k < 2,
      (putU16 (crc16Ccitt 0xFFFF body'))[k]? = (putU16 (crc16Ccitt 0xFFFF body))[k]? := by
    intro k hk
    rw [← getElem?_sealed body' hk, ← getElem?_sealed body hk, hlength]
    apply hburst.intact
    rw [intact, length_sealed]
    omega
  have hlo : loByte (crc16Ccitt 0xFFFF body') = loByte (crc16Ccitt 0xFFFF body) :=
    Option.some.inj (hbyte 0 (by decide))
  have hhi : hiByte (crc16Ccitt 0xFFFF body') = hiByte (crc16Ccitt 0xFFFF body) :=
    Option.some.inj (hbyte 1 (by decide))
  have hsame : crc16Ccitt 0xFFFF body = crc16Ccitt 0xFFFF body' := by
    rw [← le16_loByte_hiByte (crc16Ccitt 0xFFFF body), ← hlo, ← hhi, le16_loByte_hiByte]
  have hne : body ≠ body' := fun heq ↦ hburst.ne (congrArg sealed heq.symm)
  exact crc16Ccitt_ne_of_differWithin hlength.symm hwindow hne _ hsame

/-- A frame with a burst error is not read, whatever follows it. Assumes: the length of its payload
fits the length word. -/
theorem readFrame_burst {cfg : Cfg} {chan ttl : UInt8} {seq : UInt32} {payload : List UInt8}
    (hword : payload.length < 65536) {frame' : List UInt8}
    (hburst : Burst (intact (writeFrame chan ttl seq payload).length) covered
      (writeFrame chan ttl seq payload) frame')
    (work rest : List UInt8) {chan' ttl' : UInt8} {seq' : UInt32} {len : ℕ}
    {payload' unread : List UInt8} :
    readFrame cfg work (frame' ++ rest) ≠ (.ok (chan', ttl', seq', len), payload', unread) := by
  have hmagic : frame' = putU16 magic ++ frame'.drop 2 := by
    have hfront : frame'.take 2 = putU16 magic := by
      refine List.ext_getElem? fun k ↦ ?_
      rw [List.getElem?_take]
      split
      · rename_i hk
        rw [hburst.intact k (.inl hk), writeFrame_eq, List.getElem?_append_left hk]
      · rename_i hk
        rw [List.getElem?_eq_none (not_lt.mp hk)]
    rw [← hfront, List.take_append_drop]
  have hbehind : (frame'.drop 2).length = payload.length + 12 := by
    rw [List.length_drop, hburst.length_eq, writeFrame_eq, List.length_append, length_rawBody]
    simp [putU16]
  intro hread
  obtain ⟨-, -, hword', version, reserved, hskip⟩ := readFrame_eq_ok_iff.mp hread
  rw [hmagic, List.append_assoc, skipToMagic_append, Option.some.injEq] at hskip
  -- the length field says that the reader has taken exactly the frame
  have hfield : ∀ k, k = 4 ∨ k = 5 →
      (rawHeader version reserved chan' ttl' seq' payload'.length)[k]? =
        (rawHeader ver 0 chan ttl seq payload.length)[k]? := by
    intro k hk
    have hsame : frame'[2 + k]? = (writeFrame chan ttl seq payload)[2 + k]? :=
      hburst.intact _ (by rw [intact]; omega)
    rw [← getElem?_rawBody _ _ _ _ _ _ unread (by omega), ← hskip,
      List.getElem?_append_left (by omega), List.getElem?_drop, hsame, writeFrame_eq,
      List.getElem?_append_right (by simp [putU16]), ← List.append_nil (rawBody ..),
      show 2 + k - (putU16 magic).length = k by simp [putU16],
      getElem?_rawBody _ _ _ _ _ _ _ (by omega)]
  have hlength : payload'.length = payload.length := by
    have hlo := Option.some.inj (hfield 4 (.inl rfl))
    have hhi := Option.some.inj (hfield 5 (.inr rfl))
    have hfields : UInt16.ofNat payload'.length = UInt16.ofNat payload.length := by
      rw [← le16_loByte_hiByte (UInt16.ofNat payload'.length), hlo, hhi, le16_loByte_hiByte]
    rw [← UInt16.toNat_ofNat_of_lt' hword, ← hfields, UInt16.toNat_ofNat_of_lt' hword']
  have hbody : frame'.drop 2 = rawBody version reserved chan' ttl' seq' payload' :=
    (List.append_inj hskip (by rw [hbehind, length_rawBody, hlength])).1
  rw [writeFrame_eq, magic_append_rawBody, hmagic, hbody, magic_append_rawBody] at hburst
  exact Burst.not_sealed hburst

end AarnnNsys.Usb

namespace AarnnNsys.Bridge

open Lib Wire

/-- Every short burst is caught. Strings of one length that differ only within sixteen consecutive
bits have different checksums, for every start value. So a frame of `l2bridge` that fits the receive
buffer and comes with such an error is dropped in every state of every receiver, whatever padding
follows, and nothing is published or sent; and `read_frame` does not succeed on a frame of
`usbsim_bridge` with such an error, whatever follows it. -/
theorem bursts_caught :
    (∀ (crc : UInt16) (first second : List UInt8), first.length = second.length → first ≠ second →
      DifferWithin 16 (bits first) (bits second) → crc16Ccitt crc first ≠ crc16Ccitt crc second) ∧
    (∀ (sender link : L2.Link) (chan ttl : UInt8) (msgId fragIdx : UInt16) (last : Bool)
      (payload frame' padding : List UInt8) (receiver : L2.Receiver),
      (L2.buildFrag sender chan ttl msgId fragIdx last payload).length ≤ L2.rxBufLen →
      Burst L2.intact L2.covered (L2.buildFrag sender chan ttl msgId fragIdx last payload) frame' →
      L2.Reachable link receiver →
      ∃ verdict, (∀ fragment, verdict ≠ .accepted fragment) ∧
        receiver.receive link (frame' ++ padding) =
          some (⟨(L2.recvInto receiver.rxBuf (frame' ++ padding)).1, receiver.reasm⟩,
            ⟨verdict, []⟩)) ∧
    (∀ (cfg : Usb.Cfg) (chan ttl : UInt8) (seq : UInt32)
      (payload frame' work rest payload' unread : List UInt8) (result : UInt8 × UInt8 × UInt32 × ℕ),
      payload.length < 65536 →
      Burst (Usb.intact (Usb.writeFrame chan ttl seq payload).length) Usb.covered
        (Usb.writeFrame chan ttl seq payload) frame' →
      Usb.readFrame cfg work (frame' ++ rest) ≠ (.ok result, payload', unread)) := by
  refine ⟨?_, ?_, ?_⟩
  · intro crc first second hlength hne hdiffer
    exact crc16Ccitt_ne_of_differWithin hlength hdiffer hne crc
  · intro sender link chan ttl msgId fragIdx last payload frame' padding receiver hfits hburst
      hreach
    exact L2.Receiver.receive_burst hfits hburst hreach.wellFormed padding
  · intro cfg chan ttl seq payload frame' work rest payload' unread result hword hburst
    exact Usb.readFrame_burst hword hburst work rest

/-- One flipped bit in the payload of a frame of each bridge. -/
theorem bursts_caught_one :
    let link : L2.Link := .defaults (Vector.replicate 6 1)
    let damaged := (L2.buildFrag link 0 8 0 0 true [5]).set 26 4
    crc16Ccitt 0xFFFF [1] ≠ crc16Ccitt 0xFFFF [2] ∧
    (∃ verdict, (∀ fragment, verdict ≠ .accepted fragment) ∧
      (L2.Receiver.initial link.cfg).receive link (damaged ++ []) =
        some (⟨(L2.recvInto (L2.Receiver.initial link.cfg).rxBuf (damaged ++ [])).1,
          (L2.Receiver.initial link.cfg).reasm⟩, ⟨verdict, []⟩)) ∧
    Usb.readFrame ⟨1400, 8⟩ [] ((Usb.writeFrame 0 7 1 [5]).set 12 4 ++ []) ≠
      (.ok (0, 7, 1, 1), [4], []) := by
  intro link damaged
  obtain ⟨hcrc, hframe, hread⟩ := bursts_caught
  refine ⟨hcrc _ [1] [2] rfl (by decide) ⟨0, rfl, rfl⟩, ?_, ?_⟩
  · have hburst : Burst L2.intact L2.covered (L2.buildFrag link 0 8 0 0 true [5]) damaged :=
      { length_eq := List.length_set
        intact := fun k hk ↦ List.getElem?_set_ne (by rw [L2.intact] at hk; omega)
        window := ⟨72, by decide +kernel, by decide +kernel⟩
        ne := by decide +kernel }
    exact hframe link link 0 8 0 0 true [5] damaged [] _ (by decide +kernel) hburst ⟨[], .start⟩
  · have hburst : Burst (Usb.intact (Usb.writeFrame 0 7 1 [5]).length) Usb.covered
        (Usb.writeFrame 0 7 1 [5]) ((Usb.writeFrame 0 7 1 [5]).set 12 4) :=
      { length_eq := List.length_set
        intact := by
          intro k hk
          have hlength : (Usb.writeFrame 0 7 1 [5]).length = 15 := by decide +kernel
          rw [Usb.intact, hlength] at hk
          exact List.getElem?_set_ne (by omega)
        window := ⟨72, by decide +kernel, by decide +kernel⟩
        ne := by decide +kernel }
    exact hread _ 0 7 1 [5] _ [] [] [4] [] (0, 7, 1, 1) (by decide) hburst

end AarnnNsys.Bridge
