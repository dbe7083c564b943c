import AarnnNsys.L2.Reassembly

/-!
# Fragmentation and reassembly are inverse

A sender cuts a list of messages into frames (`forwardAll`). A link that keeps the order and loses
nothing delivers them (`Delivers`), each with some padding behind it, and among them frames that are
not data for this bridge (`Noise`): of another EtherType or version, with a wrong CRC, or
acknowledgements.

`InProgress` is the state of the receiver in the middle of a message: the fragments before the next
one are in the buffer. `receive_fragment` is the step to the next fragment, `receive_noise` the step
of a frame that is no data, and `handles_of_step` the rule for the run over the fragments of one
message. The run over the list of messages is `fragmentation_roundtrip`: the receiver accepts every
data frame, publishes exactly the messages, in order, and acknowledges each of them with frames that
carry it (`Acknowledges`).
-/

set_option autoImplicit false
set_option relaxedAutoImplicit false

namespace AarnnNsys.L2

open Bridge Wire Lib

/-- Bus to L2 for one message after the other. -/
def forwardAll (link : Link) : UInt16 → List (List UInt8) → List (List UInt8)
  | _, [] => []
  | msgIdCtr, message :: rest =>
    (forward link msgIdCtr message).2 ++ forwardAll link (forward link msgIdCtr message).1 rest

/-- What arrives at a receiver: a data frame with padding behind it, or something else. -/
inductive Arrival
  | data (frame padding : List UInt8)
  | noise (frame : List UInt8)

/-- The bytes that arrive. -/
def Arrival.bytes : Arrival → List UInt8
  | .data frame padding => frame ++ padding
  | .noise frame => frame

/-- The data frame that arrives. -/
def Arrival.frame? : Arrival → Option (List UInt8)
  | .data frame _ => some frame
  | .noise _ => none

/-- A frame that is not data for a bridge: the reason is read off its bytes. -/
inductive Noise (cfg : Cfg) (frame : List UInt8) : Prop
  | otherEthertype {hi lo : UInt8} (hhi : frame[12]? = some hi) (hlo : frame[13]? = some lo)
      (hother : be16 hi lo ≠ cfg.ethertype)
  | otherVersion {version : UInt8} (hversion : frame[14]? = some version) (hother : version ≠ ver)
  | badCrc {header payload : List UInt8} {fragLen crc : UInt16}
      (hheader : slice? frame 14 24 = some header) (hfragLen : readWord frame 22 = some fragLen)
      (hcrc : readWord frame 24 = some crc)
      (hpayload : slice? frame 26 (26 + fragLen.toNat) = some payload)
      (hbad : frameCrc header payload ≠ crc)
  | channelOne (hchan : frame[15]? = some 1)

/-- Data frames fit the receive buffer with their padding, and everything else is noise. -/
def Arrival.Sound (cfg : Cfg) : Arrival → Prop
  | .data frame padding => (frame ++ padding).length ≤ rxBufLen
  | .noise frame => Noise cfg frame

/-- The link delivers the frames in order and once each, with noise between them. -/
structure Delivers (cfg : Cfg) (frames : List (List UInt8)) (arrivals : List Arrival) : Prop where
  frames_eq : arrivals.filterMap Arrival.frame? = frames
  sound : ∀ arrival ∈ arrivals, arrival.Sound cfg

/-- Frames that a bridge accepts as fragments on channel 1 of one message, numbered from 0 on. -/
structure Acknowledges (cfg : Cfg) (msgId : UInt16) (message : List UInt8)
    (frames : List (List UInt8)) : Prop where
  carries : ∃ fragments : List Fragment,
    List.Forall₂ (fun frame fragment ↦ ∀ rxBuf : List UInt8, rxBuf.length = rxBufLen →
      parseFrame cfg (recvInto rxBuf frame).1 (recvInto rxBuf frame).2 =
        some (.accepted fragment)) frames fragments ∧
    (∀ (i : ℕ) (fragment : Fragment), fragments[i]? = some fragment →
      fragment.chan = 1 ∧ fragment.msgId = msgId ∧ fragment.fragIdx.toNat = i) ∧
    (fragments.map Fragment.payload).flatten = message

/-- No frame that is not data is accepted on channel 0. -/
theorem Noise.chan_ne_zero {cfg : Cfg} {frame : List UInt8} {fragment : Fragment}
    (hnoise : Noise cfg frame) (haccepts : Accepts cfg frame fragment) : fragment.chan ≠ 0 := by
  cases hnoise with
  | otherEthertype hhi hlo hother =>
    exact absurd haccepts ((FailsTest.otherEthertype hhi hlo hother).not_accepts fragment)
  | otherVersion hversion hother =>
    exact absurd haccepts ((FailsTest.otherVersion hversion hother).not_accepts fragment)
  | badCrc hheader hfragLen hcrc hpayload hbad =>
    have hfails : FailsTest cfg frame := .badCrc hheader hfragLen hcrc hpayload hbad
    exact absurd haccepts (hfails.not_accepts fragment)
  | channelOne hchan =>
    have hsame := haccepts.chan
    rw [hchan, Option.some.injEq] at hsame
    rw [← hsame]
    decide

/-- A piece of a message as it goes over the wire. -/
def Piece.onWire (piece : Piece) (chan ttl : UInt8) (msgId : UInt16) : Fragment :=
  ⟨chan, fragFlags piece.last piece.payload, ttl, msgId, piece.fragIdx, piece.payload⟩

@[simp] theorem Piece.last_onWire (piece : Piece) (chan ttl : UInt8) (msgId : UInt16) :
    (piece.onWire chan ttl msgId).last = piece.last :=
  last_fragFlags _ _

section Wire

variable {link : Link} {cfg : Cfg} {chan ttl : UInt8} {msgId : UInt16}
  {message padding rxBuf : List UInt8} {i : ℕ}

/-- The frame of fragment `i` of a message. -/
def fragmentFrame (link : Link) (chan ttl : UInt8) (msgId : UInt16) (message : List UInt8) (i : ℕ) :
    List UInt8 :=
  buildFrag link chan ttl msgId (fragment message i).fragIdx (fragment message i).last
    (fragment message i).payload

theorem sendFragments_eq (link : Link) (chan ttl : UInt8) (msgId : UInt16) (message : List UInt8) :
    sendFragments link chan ttl msgId message =
      (List.range (fragmentCount message)).map (fragmentFrame link chan ttl msgId message) := by
  rw [sendFragments, fragments_eq, List.map_map]
  rfl

theorem effPayload_fragment (hi : i < fragmentCount message) :
    effPayload chan (fragment message i).last (fragment message i).payload =
      (fragment message i).payload :=
  if_neg fun h ↦ payload_ne_nil hi h.2.2

/-- The frame of a fragment is never longer than an Ethernet frame. -/
theorem length_fragmentFrame_le (hi : i < fragmentCount message) :
    (fragmentFrame link chan ttl msgId message i).length ≤ 1500 := by
  have hchunk : (fragment message i).payload.length ≤ mtuPayload := length_chunk_le
  rw [fragmentFrame, length_buildFrag, effPayload_fragment hi]
  simp only [mtuPayload, ethHdrLen, l2HdrLen] at hchunk ⊢
  omega

theorem length_unpadded_le (link : Link) (ttl : UInt8) (msgId : UInt16)
    (hi : i < fragmentCount message) :
    (fragmentFrame link 0 ttl msgId message i ++ []).length ≤ rxBufLen := by
  rw [List.append_nil]
  exact (length_fragmentFrame_le hi).trans (by decide)

/-- The receiver reads a fragment's frame as the fragment. -/
theorem parseFrame_fragmentFrame (hether : link.cfg.ethertype = cfg.ethertype)
    (hbuf : rxBuf.length = rxBufLen) (hi : i < fragmentCount message)
    (hfits : (fragmentFrame link chan ttl msgId message i ++ padding).length ≤ rxBufLen) :
    parseFrame cfg
        (recvInto rxBuf (fragmentFrame link chan ttl msgId message i ++ padding)).1
        (recvInto rxBuf (fragmentFrame link chan ttl msgId message i ++ padding)).2 =
      some (.accepted ((fragment message i).onWire chan ttl msgId)) := by
  have hparse := parseFrame_recvInto_buildFrag hether hbuf hfits
  rwa [effPayload_fragment hi] at hparse

/-- The fragments of a message on channel 1 acknowledge it. Assumes: their numbers do not wrap. -/
theorem acknowledges_sendFragments (hether : link.cfg.ethertype = cfg.ethertype)
    (hcount : fragmentCount message ≤ 65536) :
    Acknowledges cfg msgId message (sendFragments link 1 ttl msgId message) := by
  refine ⟨(List.range (fragmentCount message)).map fun i ↦ (fragment message i).onWire 1 ttl msgId,
    ?_, ?_, ?_⟩
  · rw [sendFragments_eq, List.forall₂_map_left_iff, List.forall₂_map_right_iff, List.forall₂_same]
    intro i hi rxBuf hbuf
    have hi' : i < fragmentCount message := List.mem_range.mp hi
    have hfits : (fragmentFrame link 1 ttl msgId message i ++ []).length ≤ rxBufLen := by
      rw [List.append_nil]
      exact (length_fragmentFrame_le hi').trans (by decide)
    have hparse := parseFrame_fragmentFrame hether hbuf hi' hfits
    rwa [List.append_nil] at hparse
  · intro i wire hwire
    rw [List.getElem?_map, Option.map_eq_some_iff] at hwire
    obtain ⟨k, hk, rfl⟩ := hwire
    obtain ⟨hlt, rfl⟩ := List.getElem?_eq_some_iff.mp hk
    rw [List.length_range] at hlt
    rw [List.getElem_range]
    exact ⟨rfl, rfl, UInt16.toNat_ofNat_of_lt' (hlt.trans_le hcount)⟩
  · rw [List.map_map]
    exact flatten_chunks mtuPayload_pos message

end Wire

/-! ### In the middle of a message -/

/-- The fragments before fragment `i` of a message are in the buffer, and it is the next one. Before
fragment 0, and once no fragment is left, anything may be there. -/
def InProgress (reasm : Reasm) (msgId : UInt16) (message : List UInt8) (i : ℕ) : Prop :=
  0 < i → i < fragmentCount message → reasm.id = msgId ∧ reasm.nextIdx = UInt16.ofNat i ∧
    reasm.content = message.take (i * mtuPayload)

section Message

variable {link : Link} {reasm : Reasm} {chan ttl : UInt8} {msgId : UInt16} {message : List UInt8}
  {i : ℕ}

/-- What the last fragment of a whole message makes the receiver do. -/
def delivery (link : Link) (ttl : UInt8) (msgId : UInt16) (message : List UInt8) : List Action :=
  .publish message :: (sendFragments link 1 (nextTtl ttl) msgId message).map .send

theorem completion_of_ne_nil {wire : Fragment} (hmessage : message ≠ []) :
    completion link wire message = delivery link wire.ttl wire.msgId message :=
  if_neg hmessage

@[simp] theorem published_delivery (receiver : Link) (ttl : UInt8) (msgId : UInt16)
    (message : List UInt8) : published (delivery receiver ttl msgId message) = [message] := by
  have hsends := published_map_send (sendFragments receiver 1 (nextTtl ttl) msgId message)
  rw [delivery, published, List.filterMap_cons, ← published, hsends]

@[simp] theorem sent_delivery (receiver : Link) (ttl : UInt8) (msgId : UInt16)
    (message : List UInt8) :
    sent (delivery receiver ttl msgId message) =
      sendFragments receiver 1 (nextTtl ttl) msgId message := by
  have hsends := sent_map_send (sendFragments receiver 1 (nextTtl ttl) msgId message)
  rw [delivery, sent, List.filterMap_cons, ← sent, hsends]

/-- A fragment of the message in progress other than its first one does not start over. -/
theorem Reasm.not_startsOver_onWire (hid : reasm.id = msgId) (hpos : 0 < i) (hidx : i < 65536)
    (ttl : UInt8) : ¬ reasm.startsOver ((fragment message i).onWire 0 ttl msgId) := by
  have hne : UInt16.ofNat i ≠ 0 := ofNat_ne_zero hpos.ne' hidx
  simp [startsOver, Piece.onWire, fragment, hid, hne]

/-- So it leaves the reassembly as it is. -/
theorem Reasm.restart_onWire (hid : reasm.id = msgId) (hpos : 0 < i) (hidx : i < 65536)
    (ttl : UInt8) : reasm.restart ((fragment message i).onWire 0 ttl msgId) = reasm :=
  restart_of_not (not_startsOver_onWire hid hpos hidx ttl)

/-- After the restart that fragment `i` may cause, the fragments before it are the content. -/
theorem InProgress.restart (hprogress : InProgress reasm msgId message i)
    (hi : i < fragmentCount message) (hidx : i < 65536) :
    (reasm.restart ((fragment message i).onWire 0 ttl msgId)).nextIdx = UInt16.ofNat i ∧
      (reasm.restart ((fragment message i).onWire 0 ttl msgId)).content =
        message.take (i * mtuPayload) := by
  rcases Nat.eq_zero_or_pos i with rfl | hpos
  · have hstarts : reasm.startsOver ((fragment message 0).onWire 0 ttl msgId) = true := by
      simp [Reasm.startsOver, Piece.onWire, fragment]
    obtain ⟨hcontent, hnext⟩ := Reasm.content_restart hstarts
    exact ⟨hnext, by rw [hcontent, Nat.zero_mul, List.take_zero]⟩
  · obtain ⟨hid, hnext, hcontent⟩ := hprogress hpos hi
    rw [Reasm.restart_onWire hid hpos hidx]
    exact ⟨hnext, hcontent⟩

/-- What has arrived of a message, with fragment `i` behind it. -/
theorem InProgress.append_chunk (hprogress : InProgress reasm msgId message i)
    (hi : i < fragmentCount message) (hidx : i < 65536) :
    (reasm.restart ((fragment message i).onWire 0 ttl msgId)).content ++
        ((fragment message i).onWire 0 ttl msgId).payload =
      message.take ((i + 1) * mtuPayload) := by
  rw [(hprogress.restart hi hidx).2]
  exact take_append_chunk _ _ _

/-- The step from fragment `i` to the next one. Assumes: the message fits the receiver up to there
and the number of the fragment does not wrap. -/
theorem receive_fragment (hwf : reasm.WellFormed link.cfg)
    (hprogress : InProgress reasm msgId message i) (hi : i < fragmentCount message)
    (hidx : i < 65536)
    (hfits : (message.take ((i + 1) * mtuPayload)).length ≤ link.cfg.maxFrame) (ttl : UInt8) :
    ∃ reasm' : Reasm, reasm'.WellFormed link.cfg ∧ reasm'.id = msgId ∧
      reasm'.nextIdx = UInt16.ofNat (i + 1) ∧
      reasm'.content =
        (if i + 1 = fragmentCount message then [] else message.take ((i + 1) * mtuPayload)) ∧
      reasm.receive link ((fragment message i).onWire 0 ttl msgId) =
        some (reasm',
          if i + 1 = fragmentCount message then delivery link ttl msgId message else []) := by
  set wire := (fragment message i).onWire 0 ttl msgId with hwire
  have hnext : (reasm.restart wire).nextIdx = UInt16.ofNat i := (hprogress.restart hi hidx).1
  have happend : (reasm.restart wire).content ++ wire.payload =
      message.take ((i + 1) * mtuPayload) := hprogress.append_chunk hi hidx
  have hroom : (reasm.restart wire).len + wire.payload.length ≤ link.cfg.maxFrame := by
    rw [← hwf.restart.length_content, ← List.length_append, happend]
    exact hfits
  obtain ⟨stored, hstored, hbytes, hid, hindex, hreceive⟩ :=
    hwf.receive_expected link hnext.symm hroom
  rw [happend] at hbytes
  have hindex' : stored.nextIdx = UInt16.ofNat (i + 1) := by
    rw [hindex, UInt16.ofNat_add]
    rfl
  have hlast : wire.last = decide (i + 1 = fragmentCount message) := by
    rw [hwire, Piece.last_onWire]
    rfl
  by_cases hend : i + 1 = fragmentCount message
  · have hwhole : message.take ((i + 1) * mtuPayload) = message :=
      List.take_of_length_le ((chunkCount_le_iff mtuPayload_pos).mp hend.ge)
    have hmessage : message ≠ [] := by
      rintro rfl
      exact Nat.not_lt_zero i hi
    refine ⟨{ stored with len := 0 }, hstored.setLen_zero, hid, hindex', ?_, ?_⟩
    · simp [Reasm.content, hend]
    · rw [hreceive, Reasm.conclude, hlast, hbytes, hwhole, completion_of_ne_nil hmessage]
      simp [hend, hwire, Piece.onWire]
  · refine ⟨stored, hstored, hid, hindex', by rw [if_neg hend, hbytes], ?_⟩
    rw [hreceive, Reasm.conclude, hlast]
    simp [hend]

/-- The step from fragment `i` of a message that fits the receiver and whose numbers do not wrap. -/
theorem InProgress.receive (hprogress : InProgress reasm msgId message i)
    (hwf : reasm.WellFormed link.cfg) (hi : i < fragmentCount message)
    (hcount : fragmentCount message ≤ 65536) (hfits : message.length ≤ link.cfg.maxFrame)
    (ttl : UInt8) :
    ∃ reasm' : Reasm, reasm.receive link ((fragment message i).onWire 0 ttl msgId) =
        some (reasm',
          if i + 1 = fragmentCount message then delivery link ttl msgId message else []) ∧
      reasm'.WellFormed link.cfg ∧ InProgress reasm' msgId message (i + 1) := by
  obtain ⟨reasm', hwf', hid, hnext, hcontent, hreceive⟩ :=
    receive_fragment hwf hprogress hi (hi.trans_le hcount)
      ((List.length_take_le' _ _).trans hfits) ttl
  refine ⟨reasm', hreceive, hwf', fun _ hmore ↦ ⟨hid, hnext, ?_⟩⟩
  rw [hcontent, if_neg hmore.ne]

/-- The step from fragment `i` when the message no longer fits: what has arrived of it is dropped,
and nothing is sent, also when it is the last fragment. -/
theorem receive_fragment_overflow (hwf : reasm.WellFormed link.cfg)
    (hprogress : InProgress reasm msgId message i) (hi : i < fragmentCount message)
    (hidx : i < 65536)
    (hfull : link.cfg.maxFrame < (message.take ((i + 1) * mtuPayload)).length) (ttl : UInt8) :
    ∃ reasm' : Reasm, reasm'.WellFormed link.cfg ∧ reasm'.id = msgId ∧ reasm'.nextIdx = 0 ∧
      reasm'.len = 0 ∧
      reasm.receive link ((fragment message i).onWire 0 ttl msgId) = some (reasm', []) := by
  set wire := (fragment message i).onWire 0 ttl msgId with hwire
  have hnext : (reasm.restart wire).nextIdx = UInt16.ofNat i := (hprogress.restart hi hidx).1
  have hroom : link.cfg.maxFrame < (reasm.restart wire).len + wire.payload.length := by
    rw [← hwf.restart.length_content, ← List.length_append, hwire, hprogress.append_chunk hi hidx]
    exact hfull
  have hid : (reasm.restart wire).id = msgId := Reasm.id_restart
  exact ⟨_, hwf.restart.reset, hid, rfl, rfl, hwf.receive_overflow hnext.symm hroom⟩

end Message

/-! ### Whole deliveries -/

section Delivery

variable {sender receiver : Link} {state : Receiver} {msgId : UInt16} {message : List UInt8} {i : ℕ}

/-- A data frame that arrives is accepted. -/
def AcceptsData (arrival : Arrival) (reception : Reception) : Prop :=
  arrival.frame?.isSome → ∃ fragment, reception.verdict = .accepted fragment

/-- The receiver goes through arrivals to a state, does the given actions on the way and accepts
every data frame. -/
def Handles (receiver : Link) (state : Receiver) (arrivals : List Arrival) (final : Receiver)
    (actions : List Action) : Prop :=
  ∃ receptions, (receiverSystem receiver).exec state (arrivals.map Arrival.bytes) =
      some (final, receptions) ∧
    receptions.flatMap Reception.actions = actions ∧ List.Forall₂ AcceptsData arrivals receptions

theorem Handles.nil (receiver : Link) (state : Receiver) : Handles receiver state [] state [] :=
  ⟨[], rfl, rfl, .nil⟩

theorem Handles.cons {arrival : Arrival} {rest : List Arrival} {middle final : Receiver}
    {reception : Reception} {actions : List Action}
    (hreceive : state.receive receiver arrival.bytes = some (middle, reception))
    (haccepts : AcceptsData arrival reception)
    (hrest : Handles receiver middle rest final actions) :
    Handles receiver state (arrival :: rest) final (reception.actions ++ actions) := by
  obtain ⟨receptions, hexec, rfl, hall⟩ := hrest
  refine ⟨[reception] ++ receptions, ?_, by simp, .cons haccepts hall⟩
  exact TransitionSystem.exec_cons (by simp [receiverSystem, hreceive]) hexec

theorem Handles.append {first last : List Arrival} {middle final : Receiver}
    {actions actions' : List Action} (hfirst : Handles receiver state first middle actions)
    (hlast : Handles receiver middle last final actions') :
    Handles receiver state (first ++ last) final (actions ++ actions') := by
  obtain ⟨receptions, hexec, rfl, hall⟩ := hfirst
  obtain ⟨receptions', hexec', rfl, hall'⟩ := hlast
  refine ⟨receptions ++ receptions', ?_, by simp, List.rel_append hall hall'⟩
  rw [List.map_append]
  exact TransitionSystem.exec_append hexec hexec'

/-- Noise changes nothing but the receive buffer. -/
theorem receive_noise {frame : List UInt8} (hwf : state.WellFormed receiver)
    (hnoise : Noise receiver.cfg frame) :
    ∃ state' reception, state.receive receiver frame = some (state', reception) ∧
      state'.WellFormed receiver ∧ state'.reasm = state.reasm ∧ reception.actions = [] := by
  obtain ⟨verdict, hparse⟩ := hwf.parse frame
  have hother : ∀ fragment, verdict = .accepted fragment → fragment.chan ≠ 0 := by
    rintro fragment rfl
    have haccepts := parseFrame_accepted hparse
    rw [take_recvInto, hwf.length_rxBuf] at haccepts
    exact hnoise.chan_ne_zero (haccepts.of_take (by decide))
  exact ⟨_, _, Receiver.receive_other hparse hother, hwf.setReasm hwf.reasm frame, rfl, rfl⟩

/-- The step of one data frame. -/
theorem receive_fragmentFrame {padding : List UInt8}
    (hether : sender.cfg.ethertype = receiver.cfg.ethertype) (hwf : state.WellFormed receiver)
    (hprogress : InProgress state.reasm msgId message i) (hi : i < fragmentCount message)
    (hidx : i < 65536)
    (hfits : (message.take ((i + 1) * mtuPayload)).length ≤ receiver.cfg.maxFrame) (ttl : UInt8)
    (hframe : (fragmentFrame sender 0 ttl msgId message i ++ padding).length ≤ rxBufLen) :
    ∃ state' : Receiver, state'.WellFormed receiver ∧ state'.reasm.id = msgId ∧
      state'.reasm.nextIdx = UInt16.ofNat (i + 1) ∧
      state'.reasm.content =
        (if i + 1 = fragmentCount message then [] else message.take ((i + 1) * mtuPayload)) ∧
      state.receive receiver (fragmentFrame sender 0 ttl msgId message i ++ padding) =
        some (state', ⟨.accepted ((fragment message i).onWire 0 ttl msgId),
          if i + 1 = fragmentCount message then delivery receiver ttl msgId message else []⟩) := by
  obtain ⟨reasm, hreasm, hid, hnext, hcontent, hreceive⟩ :=
    receive_fragment hwf.reasm hprogress hi hidx hfits ttl
  have hparse : state.parse receiver (fragmentFrame sender 0 ttl msgId message i ++ padding) =
      some (.accepted ((fragment message i).onWire 0 ttl msgId)) :=
    parseFrame_fragmentFrame hether hwf.length_rxBuf hi hframe
  exact ⟨_, hwf.setReasm hreasm _, hid, hnext, hcontent, Receiver.receive_data hparse rfl hreceive⟩

/-- Fragment `i` of a message was stored: it started the message or was the expected fragment, and
the fragments up to it are in the buffer, or nothing once it was the last one. -/
structure Continued (before after : Reasm) (msgId : UInt16) (message : List UInt8) (i : ℕ) :
    Prop where
  expected : 0 < i → before.id = msgId ∧ before.nextIdx = UInt16.ofNat i
  id : after.id = msgId
  nextIdx : after.nextIdx = UInt16.ofNat (i + 1)
  content : after.content =
    if i + 1 = fragmentCount message then [] else message.take ((i + 1) * mtuPayload)

/-- The step of a data frame of the message in progress that is not the expected one. Assumes: where
it is a last fragment, the buffer is empty. -/
theorem receive_skippedFrame {padding : List UInt8}
    (hether : sender.cfg.ethertype = receiver.cfg.ethertype) (hwf : state.WellFormed receiver)
    (hi : i < fragmentCount message) (hidx : i < 65536) (hpos : 0 < i)
    (hid : state.reasm.id = msgId) (hother : state.reasm.nextIdx ≠ UInt16.ofNat i)
    (hempty : i + 1 = fragmentCount message → state.reasm.len = 0) (ttl : UInt8)
    (hframe : (fragmentFrame sender 0 ttl msgId message i ++ padding).length ≤ rxBufLen) :
    ∃ state' reception,
      state.receive receiver (fragmentFrame sender 0 ttl msgId message i ++ padding) =
        some (state', reception) ∧ state'.WellFormed receiver ∧ state'.reasm = state.reasm ∧
      published reception.actions = [] := by
  set wire := (fragment message i).onWire 0 ttl msgId with hwire
  have hparse : state.parse receiver (fragmentFrame sender 0 ttl msgId message i ++ padding) =
      some (.accepted wire) := parseFrame_fragmentFrame hether hwf.length_rxBuf hi hframe
  have hrestart : state.reasm.restart wire = state.reasm := Reasm.restart_onWire hid hpos hidx ttl
  have hlast : wire.last → state.reasm.len = 0 := by
    intro hlast
    rw [hwire, Piece.last_onWire] at hlast
    exact hempty (of_decide_eq_true hlast)
  obtain ⟨actions, hconclude, hnone⟩ := hwf.reasm.conclude_of_empty receiver hlast
  have hskip : wire.fragIdx ≠ (state.reasm.restart wire).nextIdx := hrestart.symm ▸ hother.symm
  have hreasm : state.reasm.receive receiver wire = _ := hwf.reasm.receive_skipped hskip
  rw [hrestart, hconclude] at hreasm
  exact ⟨_, _, Receiver.receive_data hparse rfl hreasm, hwf.setReasm hwf.reasm _, rfl, hnone⟩

/-- The step of one data frame, whatever the state of the reassembly. Assumes: where the fragment is
the expected one, the fragments before it are in the buffer, and where it is a last fragment but not
the expected one, the buffer is empty. -/
theorem receive_fragmentFrame_any {padding : List UInt8}
    (hether : sender.cfg.ethertype = receiver.cfg.ethertype) (hwf : state.WellFormed receiver)
    (hi : i < fragmentCount message) (hidx : i < 65536)
    (hexpected : 0 < i → state.reasm.id = msgId → state.reasm.nextIdx = UInt16.ofNat i →
      state.reasm.content = message.take (i * mtuPayload))
    (hskipped : 0 < i → state.reasm.id = msgId → state.reasm.nextIdx ≠ UInt16.ofNat i →
      i + 1 = fragmentCount message → state.reasm.len = 0) (ttl : UInt8)
    (hframe : (fragmentFrame sender 0 ttl msgId message i ++ padding).length ≤ rxBufLen) :
    ∃ state' reception,
      state.receive receiver (fragmentFrame sender 0 ttl msgId message i ++ padding) =
        some (state', reception) ∧ state'.WellFormed receiver ∧
      (∀ other ∈ published reception.actions, other = message) ∧
      (state'.reasm.nextIdx ≠ 0 → Continued state.reasm state'.reasm msgId message i ∨
        0 < i ∧ state'.reasm = state.reasm) := by
  set wire := (fragment message i).onWire 0 ttl msgId with hwire
  have hparse : state.parse receiver (fragmentFrame sender 0 ttl msgId message i ++ padding) =
      some (.accepted wire) := parseFrame_fragmentFrame hether hwf.length_rxBuf hi hframe
  by_cases hnext : 0 < i → state.reasm.id = msgId ∧ state.reasm.nextIdx = UInt16.ofNat i
  · -- the fragment starts the message or is the expected one
    have hprogress : InProgress state.reasm msgId message i := fun hpos _ ↦
      ⟨(hnext hpos).1, (hnext hpos).2, hexpected hpos (hnext hpos).1 (hnext hpos).2⟩
    rcases le_or_gt (message.take ((i + 1) * mtuPayload)).length receiver.cfg.maxFrame
      with hfits | hfull
    · obtain ⟨reasm, hreasm, hid, hindex, hcontent, hreceive⟩ :=
        receive_fragment hwf.reasm hprogress hi hidx hfits ttl
      refine ⟨_, _, Receiver.receive_data hparse rfl hreceive, hwf.setReasm hreasm _, ?_,
        fun _ ↦ .inl ⟨hnext, hid, hindex, hcontent⟩⟩
      intro other hmem
      dsimp only at hmem
      split at hmem
      · rw [published_delivery] at hmem
        exact List.mem_singleton.mp hmem
      · simp [published] at hmem
    · obtain ⟨reasm, hreasm, -, hindex, -, hreceive⟩ :=
        receive_fragment_overflow hwf.reasm hprogress hi hidx hfull ttl
      exact ⟨_, _, Receiver.receive_data hparse rfl hreceive, hwf.setReasm hreasm _,
        by simp [published], fun hne ↦ absurd hindex hne⟩
  · push Not at hnext
    obtain ⟨hpos, hother⟩ := hnext
    by_cases hid : state.reasm.id = msgId
    · obtain ⟨state', reception, hreceive, hwf', hsame, hnone⟩ :=
        receive_skippedFrame hether hwf hi hidx hpos hid (hother hid)
          (hskipped hpos hid (hother hid)) ttl hframe
      exact ⟨state', reception, hreceive, hwf', by simp [hnone], fun _ ↦ .inr ⟨hpos, hsame⟩⟩
    · -- the fragment starts over but is not a first one, so nothing is left
      have hne : wire.fragIdx ≠ 0 := ofNat_ne_zero hpos.ne' hidx
      have hstarts : state.reasm.startsOver wire := by
        rw [Reasm.startsOver, beq_false_of_ne hne, Bool.or_false]
        exact bne_iff_ne.mpr hid
      obtain ⟨hcontent, hzero⟩ := Reasm.content_restart hstarts
      obtain ⟨actions, hconclude, hnone⟩ := hwf.reasm.restart.conclude_of_empty receiver
        fun _ ↦ hwf.reasm.restart.content_eq_nil_iff.mp hcontent
      have hreasm : state.reasm.receive receiver wire = _ :=
        hwf.reasm.receive_skipped (hzero.symm ▸ hne)
      rw [hconclude] at hreasm
      exact ⟨_, _, Receiver.receive_data hparse rfl hreasm, hwf.setReasm hwf.reasm.restart _,
        by simp [hnone], fun hindex ↦ absurd hzero hindex⟩

/-- The frames from fragment `i` of a message on. -/
def framesFrom (sender : Link) (msgId : UInt16) (message : List UInt8) (i : ℕ) :
    List (List UInt8) :=
  (List.range' i (fragmentCount message - i)).map
    (fragmentFrame sender 0 (nextTtl sender.cfg.ttl) msgId message)

theorem framesFrom_eq_nil (hi : fragmentCount message ≤ i) :
    framesFrom sender msgId message i = [] := by
  rw [framesFrom, Nat.sub_eq_zero_of_le hi]
  rfl

theorem framesFrom_eq_cons (hi : i < fragmentCount message) :
    framesFrom sender msgId message i =
      fragmentFrame sender 0 (nextTtl sender.cfg.ttl) msgId message i ::
        framesFrom sender msgId message (i + 1) := by
  obtain ⟨remaining, hremaining⟩ := Nat.exists_eq_add_of_lt hi
  have hcount : fragmentCount message - i = remaining + 1 := by omega
  have hnext : fragmentCount message - (i + 1) = remaining := by omega
  rw [framesFrom, framesFrom, hcount, hnext, List.range'_succ, List.map_cons]

/-- The rule for the run over the fragments of one message from fragment `i` on. Assumes: a property
`before` of the reassembly in front of each fragment, which the step to the next fragment keeps, and
a relation `result` between a fragment and the actions from there on, which holds where no fragment
is left and is kept when the actions of a step are put in front. -/
theorem handles_of_step (before : Reasm → ℕ → Prop) (result : ℕ → List Action → Prop)
    (hether : sender.cfg.ethertype = receiver.cfg.ethertype)
    (hdone : ∀ i, fragmentCount message ≤ i → result i [])
    (hstep : ∀ (reasm : Reasm) (i : ℕ), reasm.WellFormed receiver.cfg → before reasm i →
      i < fragmentCount message → ∃ reasm' actions,
        reasm.receive receiver ((fragment message i).onWire 0 (nextTtl sender.cfg.ttl) msgId) =
          some (reasm', actions) ∧ reasm'.WellFormed receiver.cfg ∧ before reasm' (i + 1) ∧
        ∀ later, result (i + 1) later → result i (actions ++ later)) :
    ∀ {arrivals : List Arrival} {state : Receiver} {i : ℕ}, state.WellFormed receiver →
      before state.reasm i → Delivers receiver.cfg (framesFrom sender msgId message i) arrivals →
      ∃ final actions, final.WellFormed receiver ∧ Handles receiver state arrivals final actions ∧
        result i actions := by
  intro arrivals
  induction arrivals with
  | nil =>
    intro state i hwf hbefore hdelivers
    have hend : fragmentCount message ≤ i := by
      by_contra hi
      have hframes := hdelivers.frames_eq
      simp [framesFrom_eq_cons (not_le.mp hi)] at hframes
    exact ⟨state, [], hwf, .nil receiver state, hdone i hend⟩
  | cons arrival rest ih =>
    intro state i hwf hbefore hdelivers
    have hsound := hdelivers.sound arrival List.mem_cons_self
    have hrest := fun other hmem ↦ hdelivers.sound other (List.mem_cons_of_mem arrival hmem)
    have hframes := hdelivers.frames_eq
    cases arrival with
    | noise frame =>
      obtain ⟨state', reception, hreceive, hwf', hreasm, hactions⟩ := receive_noise hwf hsound
      obtain ⟨final, actions, hfinal, hhandles, hresult⟩ :=
        ih hwf' (hreasm ▸ hbefore) ⟨hframes, hrest⟩
      have hcons : Handles receiver state (.noise frame :: rest) final (reception.actions ++ _) :=
        .cons hreceive (fun hdata ↦ absurd hdata Bool.false_ne_true) hhandles
      rw [hactions] at hcons
      exact ⟨final, actions, hfinal, hcons, hresult⟩
    | data frame padding =>
      have hi : i < fragmentCount message := by
        by_contra hend
        rw [framesFrom_eq_nil (not_lt.mp hend)] at hframes
        exact List.cons_ne_nil _ _ hframes
      rw [framesFrom_eq_cons hi] at hframes
      obtain ⟨rfl, htail⟩ := List.cons.inj hframes
      obtain ⟨reasm', actions, hreasm, hwf', hbefore', hresult⟩ :=
        hstep state.reasm i hwf.reasm hbefore hi
      have hparse : state.parse receiver
          (fragmentFrame sender 0 (nextTtl sender.cfg.ttl) msgId message i ++ padding) = _ :=
        parseFrame_fragmentFrame hether hwf.length_rxBuf hi hsound
      obtain ⟨final, later, hfinal, hhandles, hlater⟩ :=
        ih (hwf.setReasm hwf' _) hbefore' ⟨htail, hrest⟩
      have hcons : Handles receiver state (.data _ padding :: rest) final (actions ++ later) :=
        .cons (Receiver.receive_data hparse rfl hreasm) (fun _ ↦ ⟨_, rfl⟩) hhandles
      exact ⟨final, actions ++ later, hfinal, hcons, hresult later hlater⟩

/-- The run over the fragments of one message from fragment `i` on: it ends with the delivery of the
message, or without an action where no fragment is left. -/
theorem handles_framesFrom (hether : sender.cfg.ethertype = receiver.cfg.ethertype)
    (hcount : fragmentCount message ≤ 65536) (hfits : message.length ≤ receiver.cfg.maxFrame)
    {arrivals : List Arrival} (hwf : state.WellFormed receiver)
    (hprogress : InProgress state.reasm msgId message i)
    (hdelivers : Delivers receiver.cfg (framesFrom sender msgId message i) arrivals) :
    ∃ final, final.WellFormed receiver ∧ Handles receiver state arrivals final
      (if i < fragmentCount message then
        delivery receiver (nextTtl sender.cfg.ttl) msgId message else []) := by
  let outcome (i : ℕ) : List Action :=
    if i < fragmentCount message then delivery receiver (nextTtl sender.cfg.ttl) msgId message
    else []
  obtain ⟨final, actions, hfinal, hhandles, rfl⟩ :=
    handles_of_step (fun reasm i ↦ InProgress reasm msgId message i)
      (fun i actions ↦ actions = outcome i) hether (fun i hend ↦ (if_neg (not_lt.mpr hend)).symm)
      (fun reasm i hwf hprogress hi ↦ by
        obtain ⟨reasm', hreceive, hwf', hprogress'⟩ :=
          hprogress.receive hwf hi hcount hfits (nextTtl sender.cfg.ttl)
        refine ⟨reasm', _, hreceive, hwf', hprogress', ?_⟩
        rintro later rfl
        have hle : i + 1 ≤ fragmentCount message := hi
        rcases hle.eq_or_lt with hend | hmore
        · simp [outcome, ← hend]
        · simp [outcome, hi, hmore, hmore.ne]) hwf hprogress hdelivers
  exact ⟨final, hfinal, hhandles⟩

/-- A delivery of two lists of frames is a delivery of the first and one of the second. -/
theorem Delivers.split {cfg : Cfg} {first last : List (List UInt8)} {arrivals : List Arrival}
    (hdelivers : Delivers cfg (first ++ last) arrivals) :
    ∃ before after, arrivals = before ++ after ∧ Delivers cfg first before ∧
      Delivers cfg last after := by
  obtain ⟨before, after, rfl, hfirst, hlast⟩ := List.filterMap_eq_append_iff.mp hdelivers.frames_eq
  exact ⟨before, after, rfl,
    ⟨hfirst, fun arrival hmem ↦ hdelivers.sound arrival (List.mem_append_left _ hmem)⟩,
    ⟨hlast, fun arrival hmem ↦ hdelivers.sound arrival (List.mem_append_right _ hmem)⟩⟩

/-- The frames of one message are its fragments from the first on. -/
theorem forward_eq (sender : Link) (msgIdCtr : UInt16) (message : List UInt8) :
    forward sender msgIdCtr message = (msgIdCtr + 1, framesFrom sender msgIdCtr message 0) := by
  rw [forward, sendFragments_eq, framesFrom, Nat.sub_zero, List.range_eq_range']

/-- What the receiver does for one message after the other. -/
def deliveries (receiver : Link) (ttl : UInt8) : UInt16 → List (List UInt8) → List Action
  | _, [] => []
  | msgId, message :: rest =>
    delivery receiver ttl msgId message ++ deliveries receiver ttl (msgId + 1) rest

/-- The run over a list of messages. -/
theorem handles_forwardAll (hether : sender.cfg.ethertype = receiver.cfg.ethertype)
    {messages : List (List UInt8)} (hmessages : ∀ message ∈ messages, 1 ≤ message.length ∧
      message.length ≤ receiver.cfg.maxFrame ∧ message.length ≤ 65536 * mtuPayload) :
    ∀ {msgIdCtr : UInt16} {arrivals : List Arrival} {state : Receiver}, state.WellFormed receiver →
      Delivers receiver.cfg (forwardAll sender msgIdCtr messages) arrivals →
      ∃ final, final.WellFormed receiver ∧ Handles receiver state arrivals final
        (deliveries receiver (nextTtl sender.cfg.ttl) msgIdCtr messages) := by
  induction messages with
  | nil =>
    intro msgIdCtr arrivals state hwf hdelivers
    -- frames that are no data deliver the message without bytes
    have hnone : Delivers receiver.cfg (framesFrom sender msgIdCtr [] 0) arrivals := hdelivers
    exact handles_framesFrom hether (Nat.zero_le _) (Nat.zero_le _) hwf
      (fun hpos ↦ absurd hpos (lt_irrefl 0)) hnone
  | cons message rest ih =>
    intro msgIdCtr arrivals state hwf hdelivers
    obtain ⟨hpos, hfits, hlength⟩ := hmessages message List.mem_cons_self
    rw [forwardAll, forward_eq] at hdelivers
    obtain ⟨before, after, rfl, hfirst, hlast⟩ := hdelivers.split
    have hcount : fragmentCount message ≤ 65536 := (chunkCount_le_iff mtuPayload_pos).mpr hlength
    have hsome : 0 < fragmentCount message := fragmentCount_pos (List.ne_nil_of_length_pos hpos)
    obtain ⟨middle, hmiddle, hhandles⟩ := handles_framesFrom hether hcount hfits hwf
      (fun hzero ↦ absurd hzero (lt_irrefl 0)) hfirst
    rw [if_pos hsome] at hhandles
    obtain ⟨final, hfinal, hhandles'⟩ :=
      ih (fun other hmem ↦ hmessages other (List.mem_cons_of_mem _ hmem)) hmiddle hlast
    exact ⟨final, hfinal, hhandles.append hhandles'⟩

theorem published_deliveries (receiver : Link) (ttl : UInt8) (messages : List (List UInt8)) :
    ∀ msgId, published (deliveries receiver ttl msgId messages) = messages := by
  induction messages with
  | nil => exact fun _ ↦ rfl
  | cons message rest ih =>
    intro msgId
    rw [deliveries, published_append, published_delivery, ih]
    rfl

/-- The frames sent for a list of messages are an acknowledgement of each of them. -/
theorem sent_deliveries (hether : sender.cfg.ethertype = receiver.cfg.ethertype) (ttl : UInt8)
    {messages : List (List UInt8)}
    (hmessages : ∀ message ∈ messages, message.length ≤ 65536 * mtuPayload) :
    ∀ msgId, ∃ acks : List (List (List UInt8)),
      sent (deliveries receiver ttl msgId messages) = acks.flatten ∧
      acks.length = messages.length ∧
      ∀ k frames message, acks[k]? = some frames → messages[k]? = some message →
        Acknowledges sender.cfg (msgIdOf msgId k) message frames := by
  induction messages with
  | nil => exact fun _ ↦ ⟨[], rfl, rfl, by simp⟩
  | cons message rest ih =>
    intro msgId
    obtain ⟨acks, hsent, hlength, hacks⟩ :=
      ih (fun other hmem ↦ hmessages other (List.mem_cons_of_mem _ hmem)) (msgId + 1)
    refine ⟨sendFragments receiver 1 (nextTtl ttl) msgId message :: acks, ?_, ?_, ?_⟩
    · rw [deliveries, sent_append, sent_delivery, hsent]
      rfl
    · rw [List.length_cons, List.length_cons, hlength]
    · intro k frames other hframes hother
      cases k with
      | zero =>
        obtain rfl : sendFragments receiver 1 (nextTtl ttl) msgId message = frames := by
          simpa using hframes
        obtain rfl : message = other := by simpa using hother
        have hcount := (chunkCount_le_iff mtuPayload_pos).mpr (hmessages message List.mem_cons_self)
        rw [msgIdOf_zero]
        exact acknowledges_sendFragments hether.symm hcount
      | succ k =>
        rw [msgIdOf_succ]
        exact hacks k frames other (by simpa using hframes) (by simpa using hother)

/-- Fragmentation and reassembly are inverse. Assumes: both ends use one EtherType, every message
has between one byte and what the receiver's buffer and the sixteen-bit fragment numbers allow, and
the link delivers the sender's frames in order and once each, with any noise between them, to a
receiver in any reachable state. The receiver does not panic, publishes exactly the messages, in
order, accepts every data frame, and acknowledges the messages in order, each under its own
identifier. -/
theorem fragmentation_roundtrip (hether : sender.cfg.ethertype = receiver.cfg.ethertype)
    {messages : List (List UInt8)} (hmessages : ∀ message ∈ messages, 1 ≤ message.length ∧
      message.length ≤ receiver.cfg.maxFrame ∧ message.length ≤ 65536 * mtuPayload)
    {msgIdCtr : UInt16} {state : Receiver} (hreach : Reachable receiver state)
    {arrivals : List Arrival}
    (hdelivers : Delivers receiver.cfg (forwardAll sender msgIdCtr messages) arrivals) :
    ∃ final receptions,
      (receiverSystem receiver).exec state (arrivals.map Arrival.bytes) =
        some (final, receptions) ∧
      published (receptions.flatMap Reception.actions) = messages ∧
      List.Forall₂ AcceptsData arrivals receptions ∧
      ∃ acks : List (List (List UInt8)),
        sent (receptions.flatMap Reception.actions) = acks.flatten ∧
        acks.length = messages.length ∧
        ∀ k frames message, acks[k]? = some frames → messages[k]? = some message →
          Acknowledges sender.cfg (msgIdOf msgIdCtr k) message frames := by
  obtain ⟨final, -, receptions, hexec, hactions, haccepts⟩ :=
    handles_forwardAll hether hmessages hreach.wellFormed hdelivers
  refine ⟨final, receptions, hexec, ?_, haccepts, ?_⟩
  · rw [hactions, published_deliveries]
  · rw [hactions]
    exact sent_deliveries hether _ (fun message hmem ↦ (hmessages message hmem).2.2) msgIdCtr

/-- A message of two fragments and a short one, whose identifiers wrap, with a frame of another
EtherType in the middle of the first and padding behind the last frame. -/
theorem fragmentation_roundtrip_two :
    ∃ final receptions,
      (receiverSystem (.defaults (Vector.replicate 6 2))).exec (.initial .defaults)
        ([.data (fragmentFrame (.defaults (Vector.replicate 6 1)) 0 7 65535 (twoFragments 7) 0) [],
          .noise (List.replicate 60 0),
          .data (fragmentFrame (.defaults (Vector.replicate 6 1)) 0 7 65535 (twoFragments 7) 1) [],
          .data (fragmentFrame (.defaults (Vector.replicate 6 1)) 0 7 0 [8, 9] 0)
            (List.replicate 33 0)].map Arrival.bytes) = some (final, receptions) ∧
      published (receptions.flatMap Reception.actions) = [twoFragments 7, [8, 9]] := by
  set sender : Link := .defaults (Vector.replicate 6 1)
  set receiver : Link := .defaults (Vector.replicate 6 2)
  have hcount := fragmentCount_twoFragments 7
  have hdelivers : Delivers receiver.cfg (forwardAll sender 65535 [twoFragments 7, [8, 9]])
      [.data (fragmentFrame sender 0 7 65535 (twoFragments 7) 0) [],
        .noise (List.replicate 60 0),
        .data (fragmentFrame sender 0 7 65535 (twoFragments 7) 1) [],
        .data (fragmentFrame sender 0 7 0 [8, 9] 0) (List.replicate 33 0)] := by
    refine ⟨?_, ?_⟩
    · have httl : nextTtl sender.cfg.ttl = 7 := by decide
      have hwrap : (65535 : UInt16) + 1 = 0 := by decide
      rw [forwardAll, forward_eq, forwardAll, forward_eq, forwardAll, hwrap,
        framesFrom_eq_cons (by omega), framesFrom_eq_cons (by omega), framesFrom_eq_nil (by omega),
        framesFrom_eq_cons (by decide), framesFrom_eq_nil (by decide), httl]
      rfl
    · have hother : Noise receiver.cfg (List.replicate 60 0) :=
        @Noise.otherEthertype _ _ 0 0 rfl rfl (by decide)
      have hfirst : (fragmentFrame sender 0 7 65535 (twoFragments 7) 0).length ≤ 1500 :=
        length_fragmentFrame_le (by omega)
      have hsecond : (fragmentFrame sender 0 7 65535 (twoFragments 7) 1).length ≤ 1500 :=
        length_fragmentFrame_le (by omega)
      have hthird : (fragmentFrame sender 0 7 0 [8, 9] 0).length ≤ 1500 :=
        length_fragmentFrame_le (by decide)
      simp only [List.forall_mem_cons, List.not_mem_nil, false_implies, implies_true, and_true,
        Arrival.Sound, List.length_append, List.length_replicate, List.length_nil, rxBufLen]
      exact ⟨by omega, hother, by omega, by omega⟩
  have hmessages : ∀ message ∈ ([twoFragments 7, [8, 9]] : List (List UInt8)),
      1 ≤ message.length ∧ message.length ≤ receiver.cfg.maxFrame ∧
        message.length ≤ 65536 * mtuPayload := by
    simp only [List.forall_mem_cons, length_twoFragments]
    decide
  have hether : sender.cfg.ethertype = receiver.cfg.ethertype := rfl
  obtain ⟨final, receptions, hexec, hpublished, -⟩ :=
    fragmentation_roundtrip hether hmessages ⟨[], .start⟩ hdelivers
  exact ⟨final, receptions, hexec, hpublished⟩

end Delivery

end AarnnNsys.L2
