import AarnnNsys.L2.RoundTrip

/-!
# A stream of messages, those that do not fit included

A bus may carry messages that are longer than the other bridge's `max_frame`. Their fragments
overflow the receiver's buffer: it starts the message again, skips the fragments that follow and
publishes nothing, not even at the last one (`receive_overlong`, `handles_overlong`).

So a receiver publishes of a list of messages those that fit it (`handles_stream`), and of a list of
which not every frame has arrived yet a prefix of those (`published_prefix`).
-/

set_option autoImplicit false
set_option relaxedAutoImplicit false

namespace AarnnNsys.L2

open Bridge Lib

/-- The message can go through a receiver. -/
def Fits (cfg : Cfg) (message : List UInt8) : Prop :=
  message ≠ [] ∧ message.length ≤ cfg.maxFrame

instance (cfg : Cfg) : DecidablePred (Fits cfg) := fun message ↦
  inferInstanceAs (Decidable (message ≠ [] ∧ message.length ≤ cfg.maxFrame))

section Overlong

variable {link sender receiver : Link} {reasm : Reasm} {state : Receiver} {msgId : UInt16}
  {message : List UInt8} {i : ℕ}

/-- The message in progress has overflowed the buffer and is waiting for a first fragment that does
not come. -/
def Overflowed (reasm : Reasm) (msgId : UInt16) : Prop :=
  reasm.id = msgId ∧ reasm.nextIdx = 0 ∧ reasm.len = 0

/-- In front of fragment `i` of a message that is too long: the fragments before it are in the
buffer, or they have overflowed it. -/
def Overlong (message : List UInt8) (msgId : UInt16) (reasm : Reasm) (i : ℕ) : Prop :=
  InProgress reasm msgId message i ∨ 0 < i ∧ Overflowed reasm msgId

/-- A fragment of a message that has overflowed is skipped. -/
theorem Overflowed.receive (hwf : reasm.WellFormed link.cfg) (hover : Overflowed reasm msgId)
    (hpos : 0 < i) (hi : i < fragmentCount message) (hcount : fragmentCount message ≤ 65536)
    (ttl : UInt8) :
    ∃ reasm' actions, reasm.receive link ((fragment message i).onWire 0 ttl msgId) =
        some (reasm', actions) ∧ reasm'.WellFormed link.cfg ∧ Overflowed reasm' msgId ∧
      published actions = [] := by
  obtain ⟨hid, hnext, hlen⟩ := hover
  set wire := (fragment message i).onWire 0 ttl msgId with hwire
  have hidx : wire.fragIdx ≠ 0 := ofNat_ne_zero hpos.ne' (hi.trans_le hcount)
  have hrestart : reasm.restart wire = reasm :=
    Reasm.restart_onWire hid hpos (hi.trans_le hcount) ttl
  have hreceive : reasm.receive link wire = some (reasm.conclude link wire) := by
    rw [hwf.receive_skipped (hrestart.symm ▸ hnext.symm ▸ hidx), hrestart]
  obtain ⟨actions, hconclude, hsilent⟩ := hwf.conclude_of_empty link fun _ ↦ hlen
  exact ⟨reasm, actions, hreceive.trans (congrArg some hconclude), hwf, ⟨hid, hnext, hlen⟩, hsilent⟩

/-- The step over a fragment of a message that is too long. -/
theorem receive_overlong (hwf : reasm.WellFormed link.cfg)
    (hbefore : Overlong message msgId reasm i) (hi : i < fragmentCount message)
    (hcount : fragmentCount message ≤ 65536) (hlong : link.cfg.maxFrame < message.length)
    (ttl : UInt8) :
    ∃ reasm' actions, reasm.receive link ((fragment message i).onWire 0 ttl msgId) =
        some (reasm', actions) ∧ reasm'.WellFormed link.cfg ∧
      Overlong message msgId reasm' (i + 1) ∧ published actions = [] := by
  rcases hbefore with hprogress | ⟨hpos, hover⟩
  · rcases le_or_gt (message.take ((i + 1) * mtuPayload)).length link.cfg.maxFrame
      with hfits | hfull
    · obtain ⟨reasm', hwf', hid, hnext, hcontent, hreceive⟩ :=
        receive_fragment hwf hprogress hi (hi.trans_le hcount) hfits ttl
      have hmore : i + 1 ≠ fragmentCount message := by
        intro hend
        rw [List.take_of_length_le ((chunkCount_le_iff mtuPayload_pos).mp hend.ge)] at hfits
        exact absurd hfits (not_le.mpr hlong)
      rw [if_neg hmore] at hcontent hreceive
      exact ⟨reasm', [], hreceive, hwf', .inl fun _ _ ↦ ⟨hid, hnext, hcontent⟩, rfl⟩
    · obtain ⟨reasm', hwf', hid, hnext, hlen, hreceive⟩ :=
        receive_fragment_overflow hwf hprogress hi (hi.trans_le hcount) hfull ttl
      exact ⟨reasm', [], hreceive, hwf', .inr ⟨Nat.succ_pos i, hid, hnext, hlen⟩, rfl⟩
  · obtain ⟨reasm', actions, hreceive, hwf', hover', hsilent⟩ :=
      hover.receive hwf hpos hi hcount ttl
    exact ⟨reasm', actions, hreceive, hwf', .inr ⟨Nat.succ_pos i, hover'⟩, hsilent⟩

/-- The run over a message that is too long publishes nothing. -/
theorem handles_overlong (hether : sender.cfg.ethertype = receiver.cfg.ethertype)
    (hcount : fragmentCount message ≤ 65536) (hlong : receiver.cfg.maxFrame < message.length)
    {arrivals : List Arrival} (hwf : state.WellFormed receiver)
    (hdelivers : Delivers receiver.cfg (framesFrom sender msgId message 0) arrivals) :
    ∃ final actions, final.WellFormed receiver ∧ Handles receiver state arrivals final actions ∧
      published actions = [] := by
  refine handles_of_step (Overlong message msgId) (fun _ actions ↦ published actions = []) hether
    (fun _ _ ↦ rfl) ?_ hwf (.inl fun hpos ↦ absurd hpos (lt_irrefl 0)) hdelivers
  intro reasm i hwf hbefore hi
  obtain ⟨reasm', actions, hreceive, hwf', hafter, hsilent⟩ :=
    receive_overlong hwf hbefore hi hcount hlong (nextTtl sender.cfg.ttl)
  refine ⟨reasm', actions, hreceive, hwf', hafter, fun later hlater ↦ ?_⟩
  rw [published_append, hsilent, hlater]
  rfl

end Overlong

section Stream

variable {sender receiver : Link} {messages : List (List UInt8)}

/-- The run over one message: it publishes the message if it fits. -/
theorem handles_message (hether : sender.cfg.ethertype = receiver.cfg.ethertype)
    {message : List UInt8} (hlength : message.length ≤ 65536 * mtuPayload) {msgId : UInt16}
    {arrivals : List Arrival} {state : Receiver} (hwf : state.WellFormed receiver)
    (hdelivers : Delivers receiver.cfg (framesFrom sender msgId message 0) arrivals) :
    ∃ final actions, final.WellFormed receiver ∧ Handles receiver state arrivals final actions ∧
      published actions = [message].filter (Fits receiver.cfg) := by
  have hcount : fragmentCount message ≤ 65536 := (chunkCount_le_iff mtuPayload_pos).mpr hlength
  rcases le_or_gt message.length receiver.cfg.maxFrame with hfits | hlong
  · obtain ⟨final, hfinal, hhandles⟩ := handles_framesFrom hether hcount hfits hwf
      (fun hzero ↦ absurd hzero (lt_irrefl 0)) hdelivers
    refine ⟨final, _, hfinal, hhandles, ?_⟩
    by_cases hmessage : message = []
    · subst hmessage
      rfl
    · rw [if_pos (fragmentCount_pos hmessage), published_delivery]
      simp [Fits, hmessage, hfits]
  · obtain ⟨final, actions, hfinal, hhandles, hsilent⟩ :=
      handles_overlong hether hcount hlong hwf hdelivers
    refine ⟨final, actions, hfinal, hhandles, ?_⟩
    have hnot : ¬ Fits receiver.cfg message := fun hfit ↦ absurd hfit.2 (not_le.mpr hlong)
    rw [hsilent]
    simp [hnot]

/-- The run over a list of messages publishes those that fit. -/
theorem handles_stream (hether : sender.cfg.ethertype = receiver.cfg.ethertype)
    (hmessages : ∀ message ∈ messages, message.length ≤ 65536 * mtuPayload) :
    ∀ {msgIdCtr : UInt16} {arrivals : List Arrival} {state : Receiver}, state.WellFormed receiver →
      Delivers receiver.cfg (forwardAll sender msgIdCtr messages) arrivals →
      ∃ final actions, final.WellFormed receiver ∧ Handles receiver state arrivals final actions ∧
        published actions = messages.filter (Fits receiver.cfg) := by
  induction messages with
  | nil =>
    intro msgIdCtr arrivals state hwf hdelivers
    -- frames that are no data deliver the message without bytes
    have hnone : Delivers receiver.cfg (framesFrom sender msgIdCtr [] 0) arrivals := hdelivers
    exact handles_message hether (Nat.zero_le _) hwf hnone
  | cons message rest ih =>
    intro msgIdCtr arrivals state hwf hdelivers
    rw [forwardAll, forward_eq] at hdelivers
    obtain ⟨before, after, rfl, hfirst, hlast⟩ := hdelivers.split
    obtain ⟨middle, actions, hmiddle, hhandles, hpublished⟩ :=
      handles_message hether (hmessages message List.mem_cons_self) hwf hfirst
    obtain ⟨final, later, hfinal, hhandles', hpublished'⟩ :=
      ih (fun other hmem ↦ hmessages other (List.mem_cons_of_mem _ hmem)) hmiddle hlast
    refine ⟨final, actions ++ later, hfinal, hhandles.append hhandles', ?_⟩
    rw [published_append, hpublished, hpublished', ← List.filter_append]
    rfl

/-- What a receiver has published when the first arrivals of a delivery are there: a prefix of the
messages that fit, and all of them when nothing is left to arrive. -/
theorem published_prefix (hether : sender.cfg.ethertype = receiver.cfg.ethertype)
    (hmessages : ∀ message ∈ messages, message.length ≤ 65536 * mtuPayload) {msgIdCtr : UInt16}
    {arrived left : List Arrival}
    (hdelivers : Delivers receiver.cfg (forwardAll sender msgIdCtr messages) (arrived ++ left))
    {final : Receiver} {receptions : List Reception}
    (hexec : (receiverSystem receiver).exec (.initial receiver.cfg) (arrived.map Arrival.bytes) =
      some (final, receptions)) :
    published (receptions.flatMap Reception.actions) <+: messages.filter (Fits receiver.cfg) ∧
      (left = [] → published (receptions.flatMap Reception.actions) =
        messages.filter (Fits receiver.cfg)) := by
  obtain ⟨whole, actions, -, ⟨all, hall, rfl, -⟩, hpublished⟩ :=
    handles_stream hether hmessages (Receiver.wellFormed_initial receiver) hdelivers
  rw [List.map_append] at hall
  obtain ⟨middle, first, last, hfirst, hlast, rfl⟩ := TransitionSystem.exec_split hall
  obtain ⟨-, rfl⟩ : final = middle ∧ receptions = first := by
    simpa using hexec.symm.trans hfirst
  rw [List.flatMap_append, published_append] at hpublished
  refine ⟨⟨_, hpublished⟩, ?_⟩
  rintro rfl
  obtain rfl : last = [] := by
    simp only [List.map_nil, TransitionSystem.exec, Option.some.injEq, Prod.mk.injEq] at hlast
    exact hlast.2.symm
  simpa [published] using hpublished

/-- A sender's frames for one more message. -/
theorem forwardAll_append_singleton (sender : Link) (message : List UInt8) :
    ∀ msgIdCtr, forwardAll sender msgIdCtr (messages ++ [message]) =
      forwardAll sender msgIdCtr messages ++
        (forward sender (msgIdOf msgIdCtr messages.length) message).2 := by
  induction messages with
  | nil =>
    intro msgIdCtr
    rw [List.nil_append, List.length_nil, msgIdOf_zero, forwardAll, forwardAll, forwardAll,
      List.append_nil, List.nil_append]
  | cons first rest ih =>
    intro msgIdCtr
    rw [List.cons_append, forwardAll, forwardAll, ih, List.append_assoc, List.length_cons,
      msgIdOf_succ]
    rfl

/-- Frames that arrive behind others. -/
theorem Delivers.append {cfg : Cfg} {first last : List (List UInt8)} {before after : List Arrival}
    (hfirst : Delivers cfg first before) (hlast : Delivers cfg last after) :
    Delivers cfg (first ++ last) (before ++ after) where
  frames_eq := by rw [List.filterMap_append, hfirst.frames_eq, hlast.frames_eq]
  sound := fun arrival hmem ↦
    (List.mem_append.mp hmem).elim (hfirst.sound arrival) (hlast.sound arrival)

/-- The frames of a message, without padding. -/
theorem delivers_forward (cfg : Cfg) (sender : Link) (msgIdCtr : UInt16) (message : List UInt8) :
    Delivers cfg (forward sender msgIdCtr message).2
      ((forward sender msgIdCtr message).2.map fun frame ↦ .data frame []) where
  frames_eq := by simp [List.filterMap_map, Function.comp_def, Arrival.frame?]
  sound := by
    intro arrival hmem
    obtain ⟨frame, hframe, rfl⟩ := List.mem_map.mp hmem
    rw [forward, sendFragments_eq] at hframe
    obtain ⟨i, hi, rfl⟩ := List.mem_map.mp hframe
    rw [Arrival.Sound, List.append_nil]
    exact (length_fragmentFrame_le (List.mem_range.mp hi)).trans (by decide)

end Stream

/-! ### Acknowledgements -/

section Acks

variable {link : Link} {frame : List UInt8}

/-- The frame is on channel 1. -/
def IsAck (frame : List UInt8) : Prop := frame[15]? = some 1

/-- An acknowledgement is no data, for any receiver. -/
theorem IsAck.delivers (hack : IsAck frame) (cfg : Cfg) : Delivers cfg [] [.noise frame] where
  frames_eq := rfl
  sound := fun _ hmem ↦ List.mem_singleton.mp hmem ▸ .channelOne hack

theorem isAck_of_mem_conclude {reasm : Reasm} {wire : Fragment}
    (hmem : frame ∈ sent (reasm.conclude link wire).2) : IsAck frame := by
  unfold Reasm.conclude completion at hmem
  split at hmem
  · split at hmem
    · obtain rfl : frame = _ := List.mem_singleton.mp hmem
      exact getElem?_buildFrag_chan ..
    · have hsent : frame ∈ sendFragments link 1 (nextTtl wire.ttl) wire.msgId reasm.content := by
        simpa [sent, List.filterMap_map] using hmem
      obtain ⟨piece, -, rfl⟩ := List.mem_map.mp hsent
      exact getElem?_buildFrag_chan ..
  · cases hmem

/-- All that a data fragment makes a receiver send is acknowledgements. -/
theorem isAck_of_mem_receive {reasm reasm' : Reasm} {wire : Fragment} {actions : List Action}
    (hwf : reasm.WellFormed link.cfg) (hreceive : reasm.receive link wire = some (reasm', actions))
    (hmem : frame ∈ sent actions) : IsAck frame := by
  rcases hwf.receive_concludes link wire with ⟨stored, -, hconcludes⟩ | hreset
  · rw [hconcludes, Option.some.injEq] at hreceive
    obtain rfl : _ = actions := congrArg Prod.snd hreceive
    exact isAck_of_mem_conclude hmem
  · rw [hreset, Option.some.injEq, Prod.mk.injEq] at hreceive
    rw [← hreceive.2] at hmem
    cases hmem

/-- All that a receiver sends is acknowledgements. -/
theorem Receiver.WellFormed.isAck_of_mem {state state' : Receiver} {arrived : List UInt8}
    {reception : Reception} (hwf : state.WellFormed link)
    (hreceive : state.receive link arrived = some (state', reception))
    (hmem : frame ∈ sent reception.actions) : IsAck frame := by
  obtain ⟨verdict, hparse⟩ := hwf.parse arrived
  by_cases hdata : ∃ wire, verdict = .accepted wire ∧ wire.chan = 0
  · obtain ⟨wire, rfl, hchan⟩ := hdata
    obtain ⟨reasm, actions, hreasm, -⟩ := hwf.reasm.receive link wire
    rw [Receiver.receive_data hparse hchan hreasm, Option.some.injEq, Prod.mk.injEq] at hreceive
    rw [← hreceive.2] at hmem
    exact isAck_of_mem_receive hwf.reasm hreasm hmem
  · rw [Receiver.receive_other hparse fun wire hverdict hchan ↦ hdata ⟨wire, hverdict, hchan⟩,
      Option.some.injEq, Prod.mk.injEq] at hreceive
    rw [← hreceive.2] at hmem
    cases hmem

end Acks

end AarnnNsys.L2
