import AarnnNsys.L2.Loss

/-!
# Several senders on one segment

`segmentSystem` is a receiver on a segment with any number of peers, each of which numbers its
messages from 1 on. The receiver has one reassembly buffer, and the only thing it tells messages
apart by is their identifier: fragments of two peers that use one identifier at the same time can be
put together (`publishes_spliced`).

`Unspliced` is the condition under which they are not: the number of the fragment does not wrap, a
fragment that is stored continues the message that was started last, and a last fragment that is not
the expected one finds nothing in the buffer. In every run whose steps all meet it, each published
message is one of the messages of one of the peers (`publishes_sent_by_peer`); this needs no
assumption on the order or the completeness of what arrives, nor on the length of the messages.
-/

set_option autoImplicit false
set_option relaxedAutoImplicit false

namespace AarnnNsys.L2

open Bridge Lib

/-- A bridge that sends on the segment: its end of the link and the messages of its bus. -/
structure Peer where
  link : Link
  messages : List (List UInt8)

/-- `msg_id_ctr` before the loop. -/
def firstMsgId : UInt16 := 1

/-- A frame that arrives: one of the frames of a peer. -/
structure Incoming where
  peer : ℕ
  arrived : Arrived

/-- The message that the frame carries a fragment of. -/
def Incoming.source (incoming : Incoming) : ℕ × ℕ := (incoming.peer, incoming.arrived.message)

section Model

variable (receiver : Link) (peers : List Peer)

/-- The message of a peer. -/
def messageOf (source : ℕ × ℕ) : Option (List UInt8) := do
  let peer ← peers[source.1]?
  peer.messages[source.2]?

/-- A receiver on a segment with several peers: any frame of any peer arrives at any time, as on the
link of a single sender. -/
def segmentSystem : TransitionSystem Receiver Incoming (Incoming × Reception) where
  init := .initial receiver.cfg
  step state incoming := do
    let peer ← peers[incoming.peer]?
    let (state', events) ← (lossySystem peer.link receiver firstMsgId peer.messages).step state
      incoming.arrived
    return (state', events.map fun event ↦ (incoming, event.2))

/-- The messages published in the course of a run. -/
def publishedOn (trace : List (Incoming × Reception)) : List (List UInt8) :=
  published (trace.flatMap fun event ↦ event.2.actions)

/-- The message of the last fragment with index 0 that arrived. -/
def startedLast (trace : List (Incoming × Reception)) : Option (ℕ × ℕ) :=
  (trace.filter fun event ↦ event.1.arrived.fragment == 0).getLast?.map fun event ↦ event.1.source

/-- The condition on a fragment that arrives: its number does not wrap, and if it does not start a
message, then where it is the expected one it belongs to the message that was started last, and
where it is a last fragment but not the expected one the buffer is empty. -/
def Unspliced : Guard Receiver Incoming (Incoming × Reception) := fun trace state incoming ↦
  incoming.arrived.fragment < 65536 ∧
  (0 < incoming.arrived.fragment → state.reasm.id = msgIdOf firstMsgId incoming.arrived.message →
    (state.reasm.nextIdx = UInt16.ofNat incoming.arrived.fragment →
      startedLast trace = some incoming.source) ∧
    (state.reasm.nextIdx ≠ UInt16.ofNat incoming.arrived.fragment →
      ∀ message, messageOf peers incoming.source = some message →
        incoming.arrived.fragment + 1 = fragmentCount message → state.reasm.len = 0))

end Model

variable {receiver : Link} {peers : List Peer}

theorem messageOf_eq_some {source : ℕ × ℕ} {message : List UInt8}
    (hmessage : messageOf peers source = some message) :
    ∃ peer ∈ peers, message ∈ peer.messages := by
  simp only [messageOf, Option.bind_eq_bind, Option.bind_eq_some_iff] at hmessage
  obtain ⟨peer, hpeer, hmem⟩ := hmessage
  exact ⟨peer, List.mem_of_getElem? hpeer, List.mem_of_getElem? hmem⟩

/-- Everything a step does: the frame is one of a peer's, and the receiver receives it. -/
theorem segmentSystem_step {state state' : Receiver} {incoming : Incoming}
    {events : List (Incoming × Reception)}
    (hstep : (segmentSystem receiver peers).step state incoming = some (state', events)) :
    ∃ peer ∈ peers, ∃ message reception, messageOf peers incoming.source = some message ∧
      incoming.arrived.fragment < fragmentCount message ∧
      (fragmentFrame peer.link 0 (nextTtl peer.link.cfg.ttl)
        (msgIdOf firstMsgId incoming.arrived.message) message incoming.arrived.fragment ++
          incoming.arrived.padding).length ≤ rxBufLen ∧
      state.receive receiver (fragmentFrame peer.link 0 (nextTtl peer.link.cfg.ttl)
        (msgIdOf firstMsgId incoming.arrived.message) message incoming.arrived.fragment ++
          incoming.arrived.padding) = some (state', reception) ∧
      events = [(incoming, reception)] := by
  simp only [segmentSystem, Option.bind_eq_bind, Option.bind_eq_some_iff, Option.pure_def,
    Option.some.injEq, Prod.mk.injEq, Prod.exists] at hstep
  obtain ⟨peer, hpeer, next, own, hown, rfl, rfl⟩ := hstep
  obtain ⟨message, reception, hmessage, hi, hlength, hreceive, rfl⟩ := lossySystem_step hown
  exact ⟨peer, List.mem_of_getElem? hpeer, message, reception,
    by simp [messageOf, Incoming.source, hpeer, hmessage], hi, hlength, hreceive, rfl⟩

theorem publishedOn_append (trace : List (Incoming × Reception)) (incoming : Incoming)
    (reception : Reception) :
    publishedOn (trace ++ [(incoming, reception)]) =
      publishedOn trace ++ published reception.actions := by
  simp [publishedOn, List.flatMap_append]

theorem startedLast_append (trace : List (Incoming × Reception)) (incoming : Incoming)
    (reception : Reception) :
    startedLast (trace ++ [(incoming, reception)]) =
      if incoming.arrived.fragment = 0 then some incoming.source else startedLast trace := by
  by_cases hstart : incoming.arrived.fragment = 0 <;>
    simp [startedLast, List.filter_append, hstart]

/-- Messages of different peers are never spliced in an unspliced run. Assumes: all ends of the
segment use one EtherType. -/
theorem publishes_sent_by_peer
    (hether : ∀ peer ∈ peers, peer.link.cfg.ethertype = receiver.cfg.ethertype)
    {trace : List (Incoming × Reception)} {state : Receiver}
    (hrun : Run (segmentSystem receiver peers) (Unspliced peers) trace state) :
    ∀ message ∈ publishedOn trace, ∃ peer ∈ peers, message ∈ peer.messages := by
  have hinv : IntactInv receiver (messageOf peers) (startedLast trace) (publishedOn trace)
      state := by
    refine hrun.invariant (fun trace state ↦ IntactInv receiver (messageOf peers)
      (startedLast trace) (publishedOn trace) state) (.init receiver _ none) ?_
    intro trace state incoming state' events _ hinv hunspliced hstep
    obtain ⟨peer, hpeer, message, reception, hmessage, hi, hlength, hreceive, rfl⟩ :=
      segmentSystem_step hstep
    obtain ⟨hidx, hbelongs⟩ := hunspliced
    rw [publishedOn_append, startedLast_append]
    exact hinv.step (hether peer hpeer) hmessage hi hidx (fun hpos hid ↦ (hbelongs hpos hid).1)
      (fun hpos hid hnext ↦ (hbelongs hpos hid).2 hnext message hmessage) hlength hreceive
  intro message hmem
  obtain ⟨source, hmessage⟩ := hinv.delivered_mem message hmem
  exact messageOf_eq_some hmessage

section Arrival

variable {guard : Guard Receiver Incoming (Incoming × Reception)}
  {trace : List (Incoming × Reception)} {state : Receiver} {peer : Peer} {message : List UInt8}
  {p k i : ℕ}

/-- A frame of a peer may arrive whenever the guard lets it. -/
theorem arrive_of_step (p : ℕ) (hrun : Run (segmentSystem receiver peers) guard trace state)
    (hpeer : peers[p]? = some peer) {arrived : Arrived} (hguard : guard trace state ⟨p, arrived⟩)
    {state' : Receiver} {reception : Reception}
    (hown : (lossySystem peer.link receiver firstMsgId peer.messages).step state arrived =
      some (state', [(arrived, reception)])) :
    Run (segmentSystem receiver peers) guard (trace ++ [(⟨p, arrived⟩, reception)]) state' := by
  refine hrun.next hguard ?_
  simp [segmentSystem, hpeer, hown]

/-- The next fragment of the message in progress arrives. -/
theorem arrive_next (p k : ℕ) (hrun : Run (segmentSystem receiver peers) guard trace state)
    (hwf : state.WellFormed receiver) (hpeer : peers[p]? = some peer)
    (hether : peer.link.cfg.ethertype = receiver.cfg.ethertype)
    (hmessage : peer.messages[k]? = some message)
    (hfits : message.length ≤ receiver.cfg.maxFrame) (hi : i < fragmentCount message)
    (hidx : i < 65536)
    (hprogress : InProgress state.reasm (msgIdOf firstMsgId k) message i)
    (hguard : guard trace state ⟨p, k, i, []⟩) :
    ∃ reception state', Run (segmentSystem receiver peers) guard
        (trace ++ [(⟨p, k, i, []⟩, reception)]) state' ∧ state'.WellFormed receiver ∧
      state'.reasm.id = msgIdOf firstMsgId k ∧ state'.reasm.nextIdx = UInt16.ofNat (i + 1) ∧
      state'.reasm.content =
        (if i + 1 = fragmentCount message then [] else message.take ((i + 1) * mtuPayload)) ∧
      published reception.actions = if i + 1 = fragmentCount message then [message] else [] := by
  obtain ⟨reception, state', hown, hkept⟩ :=
    lossySystem_next k hether hwf hmessage hfits hi hidx hprogress
  exact ⟨reception, state', arrive_of_step p hrun hpeer hguard hown, hkept⟩

/-- A message of two fragments arrives in an unspliced run, and is published. -/
theorem arrive_both (p k : ℕ)
    (hrun : Run (segmentSystem receiver peers) (Unspliced peers) trace state)
    (hwf : state.WellFormed receiver) (hpeer : peers[p]? = some peer)
    (hether : peer.link.cfg.ethertype = receiver.cfg.ethertype)
    (hmessage : peer.messages[k]? = some message)
    (hfits : message.length ≤ receiver.cfg.maxFrame) (hcount : fragmentCount message = 2) :
    ∃ trace' state', Run (segmentSystem receiver peers) (Unspliced peers) trace' state' ∧
      state'.WellFormed receiver ∧ publishedOn trace' = publishedOn trace ++ [message] := by
  obtain ⟨first, middle, hrun, hwf, hid, hnext, hcontent, hsilent⟩ :=
    arrive_next p k hrun hwf hpeer hether hmessage hfits (by omega : 0 < fragmentCount message)
      (by decide) (fun hpos ↦ absurd hpos (lt_irrefl 0))
      ⟨Nat.zero_lt_succ _, fun hpos ↦ absurd hpos (lt_irrefl 0)⟩
  rw [if_neg (by omega)] at hcontent hsilent
  obtain ⟨last, final, hrun, hwf, -, -, -, hpublished⟩ :=
    arrive_next p k hrun hwf hpeer hether hmessage hfits (by omega : 1 < fragmentCount message)
      (by decide) (fun _ _ ↦ ⟨hid, hnext, hcontent⟩)
      ⟨show 1 < 65536 by decide, fun _ _ ↦ ⟨fun _ ↦ by rw [startedLast_append]; rfl,
        fun hother ↦ absurd hnext hother⟩⟩
  refine ⟨_, final, hrun, hwf, ?_⟩
  rw [publishedOn_append, publishedOn_append, hsilent, hpublished, if_pos hcount.symm,
    List.append_nil]

end Arrival

/-- A peer with one message of two fragments. -/
def onePeer (byte : UInt8) : Peer := ⟨.defaults (Vector.replicate 6 byte), [twoFragments byte]⟩

/-- Two peers whose messages have one identifier. -/
def twoPeers : List Peer := [onePeer 1, onePeer 2]

/-- One peer's message after the other's: both are published as they were sent. -/
theorem publishes_sent_by_peer_in_turn :
    ∃ trace state, Run (segmentSystem (.defaults (Vector.replicate 6 3)) twoPeers)
        (Unspliced twoPeers) trace state ∧
      publishedOn trace = [twoFragments 1, twoFragments 2] ∧
      ∀ message ∈ publishedOn trace, ∃ peer ∈ twoPeers, message ∈ peer.messages := by
  set receiver : Link := .defaults (Vector.replicate 6 3)
  have hether : ∀ peer ∈ twoPeers, peer.link.cfg.ethertype = receiver.cfg.ethertype := by
    simp [twoPeers, onePeer, receiver, Link.defaults]
  have hstart : Run (segmentSystem receiver twoPeers) (Unspliced twoPeers) []
    (.initial receiver.cfg) := .start
  obtain ⟨_, _, hrun, hwf, hfirst⟩ :=
    arrive_both 0 0 hstart (Receiver.wellFormed_initial receiver) rfl rfl rfl
      (twoFragments_fits _ 1) (fragmentCount_twoFragments 1)
  obtain ⟨trace, state, hrun, -, hsecond⟩ :=
    arrive_both 1 0 hrun hwf rfl rfl rfl (twoFragments_fits _ 2) (fragmentCount_twoFragments 2)
  refine ⟨trace, state, hrun, ?_, publishes_sent_by_peer hether hrun⟩
  rw [hsecond, hfirst]
  rfl

/-- The step that an unspliced run leaves out: an expected last fragment is put behind whatever is
in the buffer, and both are published together. -/
theorem receive_spliced {sender : Link} {state : Receiver} {message : List UInt8} {msgId : UInt16}
    {i : ℕ} (hether : sender.cfg.ethertype = receiver.cfg.ethertype)
    (hwf : state.WellFormed receiver) (hend : i + 1 = fragmentCount message) (hpos : 0 < i)
    (hidx : i < 65536) (hid : state.reasm.id = msgId)
    (hnext : state.reasm.nextIdx = UInt16.ofNat i)
    (hfits : (state.reasm.content ++ (fragment message i).payload).length ≤ receiver.cfg.maxFrame)
    (ttl : UInt8) :
    ∃ state' reception, state.receive receiver (fragmentFrame sender 0 ttl msgId message i ++ []) =
        some (state', reception) ∧ state'.WellFormed receiver ∧ state'.reasm.len = 0 ∧
      state'.reasm.nextIdx = UInt16.ofNat (i + 1) ∧
      published reception.actions = [state.reasm.content ++ (fragment message i).payload] := by
  have hi : i < fragmentCount message := by omega
  set wire := (fragment message i).onWire 0 ttl msgId with hwire
  have hparse : state.parse receiver (fragmentFrame sender 0 ttl msgId message i ++ []) =
      some (.accepted wire) :=
    parseFrame_fragmentFrame hether hwf.length_rxBuf hi (length_unpadded_le _ _ _ hi)
  have hrestart : state.reasm.restart wire = state.reasm :=
    Reasm.restart_onWire hid hpos hidx ttl
  have hexpected : wire.fragIdx = (state.reasm.restart wire).nextIdx := by
    rw [hrestart, hnext]
    rfl
  have hroom : (state.reasm.restart wire).len + wire.payload.length ≤ receiver.cfg.maxFrame := by
    rw [hrestart, ← hwf.reasm.length_content, ← List.length_append]
    exact hfits
  obtain ⟨stored, hstored, hcontent, -, hindex, hreceive⟩ :=
    hwf.reasm.receive_expected receiver hexpected hroom
  rw [hrestart] at hcontent
  have hlast : wire.last := by
    rw [hwire, Piece.last_onWire]
    exact decide_eq_true hend
  have hfull : stored.content ≠ [] := by
    rw [hcontent]
    exact List.append_ne_nil_of_right_ne_nil _ (payload_ne_nil hi)
  rw [Reasm.conclude, if_pos hlast, completion_of_ne_nil hfull] at hreceive
  refine ⟨_, _, Receiver.receive_data hparse rfl hreceive, hwf.setReasm hstored.setLen_zero _, rfl,
    ?_, ?_⟩
  · show stored.nextIdx = _
    rw [hindex, UInt16.ofNat_add]
    rfl
  · rw [published_delivery, hcontent]
    rfl

/-- The first fragment of the one message with the second fragment of the other. -/
theorem spliced_eq :
    (twoFragments 2).take ((0 + 1) * mtuPayload) ++ (fragment (twoFragments 1) 1).payload =
      List.replicate 1474 2 ++ [1] := by
  simp only [fragment, chunk, twoFragments, mtuPayload, l2HdrLen, List.take_replicate,
    List.drop_replicate]
  rfl

/-- Two peers send a message of two fragments each, and all frames arrive, each peer's in order: the
receiver publishes the first fragment of the one message with the second fragment of the other. -/
theorem publishes_spliced : ∃ trace state,
    Run (segmentSystem (.defaults (Vector.replicate 6 3)) twoPeers) unguarded trace state ∧
    trace.map (fun event ↦ (event.1.source, event.1.arrived.fragment)) =
      [((0, 0), 0), ((1, 0), 0), ((0, 0), 1), ((1, 0), 1)] ∧
    ∃ message ∈ publishedOn trace, ∀ peer ∈ twoPeers, message ∉ peer.messages := by
  set receiver : Link := .defaults (Vector.replicate 6 3)
  have hstart : Run (segmentSystem receiver twoPeers) unguarded [] (.initial receiver.cfg) := .start
  have hether (byte : UInt8) : (onePeer byte).link.cfg.ethertype = receiver.cfg.ethertype := rfl
  have hone (byte : UInt8) : 1 < fragmentCount (twoFragments byte) := by
    rw [fragmentCount_twoFragments]
    decide
  -- the first fragments of both messages
  obtain ⟨first, _, hrun, hwf, -, -, -, -⟩ :=
    arrive_next 0 0 hstart (Receiver.wellFormed_initial receiver) rfl (hether 1) rfl
      (twoFragments_fits _ 1) (Nat.zero_lt_of_lt (hone 1)) (Nat.zero_lt_succ _)
      (fun hpos ↦ absurd hpos (lt_irrefl 0)) trivial
  obtain ⟨second, _, hrun, hwf, hid, hnext, hcontent, -⟩ :=
    arrive_next 1 0 hrun hwf rfl (hether 2) rfl (twoFragments_fits _ 2)
      (Nat.zero_lt_of_lt (hone 2)) (Nat.zero_lt_succ _) (fun hpos ↦ absurd hpos (lt_irrefl 0))
      trivial
  rw [if_neg (hone 2).ne] at hcontent
  -- the second fragments
  have hfits : (List.replicate 1474 (2 : UInt8) ++ [1]).length ≤ receiver.cfg.maxFrame := by
    rw [List.length_append, List.length_replicate]
    show 1475 ≤ 4096
    decide
  obtain ⟨_, third, hreceive, hwf, hlen, hnext, hpublished⟩ :=
    receive_spliced (hether 1) hwf (fragmentCount_twoFragments 1).symm Nat.zero_lt_one (by decide)
      hid hnext (by rwa [hcontent, spliced_eq]) (nextTtl (onePeer 1).link.cfg.ttl)
  rw [hcontent, spliced_eq] at hpublished
  have hown : (lossySystem (onePeer 1).link receiver firstMsgId (onePeer 1).messages).step _
      ⟨0, 1, []⟩ = some (_, [(⟨0, 1, []⟩, third)]) :=
    lossySystem_step_of rfl (hone 1) (length_unpadded_le _ _ _ (hone 1)) hreceive
  have hrun := arrive_of_step 0 hrun rfl trivial hown
  obtain ⟨_, fourth, hreceive, -, -, -⟩ :=
    receive_fragmentFrame_any (hether 2) hwf (hone 2) (by decide)
      (fun _ _ hsame ↦ absurd (hnext.symm.trans hsame) (by decide)) (fun _ _ _ _ ↦ hlen)
      (nextTtl (onePeer 2).link.cfg.ttl) (length_unpadded_le _ _ (msgIdOf firstMsgId 0) (hone 2))
  have hown : (lossySystem (onePeer 2).link receiver firstMsgId (onePeer 2).messages).step _
      ⟨0, 1, []⟩ = some (_, [(⟨0, 1, []⟩, fourth)]) :=
    lossySystem_step_of rfl (hone 2) (length_unpadded_le _ _ _ (hone 2)) hreceive
  have hrun := arrive_of_step 1 hrun rfl trivial hown
  refine ⟨_, _, hrun, rfl, List.replicate 1474 2 ++ [1], ?_, ?_⟩
  · rw [publishedOn_append, publishedOn_append, hpublished]
    simp only [List.mem_append, List.mem_singleton, true_or, or_true]
  · -- a message of either peer has one byte throughout
    have hother (byte : UInt8) : List.replicate 1474 2 ++ [1] ≠ twoFragments byte := by
      intro heq
      have hmem (other : UInt8) (hin : other ∈ List.replicate 1474 2 ++ [1]) : other = byte := by
        rw [heq] at hin
        exact List.eq_of_mem_replicate hin
      have htwo := hmem 2 (List.mem_append_left _ (List.mem_replicate.mpr ⟨by decide, rfl⟩))
      have hlast := hmem 1 (List.mem_append_right _ (List.mem_singleton_self 1))
      exact absurd (htwo.trans hlast.symm) (by decide)
    intro peer hpeer hmem
    rcases List.mem_pair.mp hpeer with rfl | rfl
    · exact hother 1 (List.mem_singleton.mp hmem)
    · exact hother 2 (List.mem_singleton.mp hmem)

end AarnnNsys.L2
