import AarnnNsys.L2.Segment

/-!
# What an acknowledgement says

The receiver acknowledges a message when a fragment with the last flag has arrived, whatever it has
of the message by then: also after a fragment was lost, and after the message turned out too long
and its buffer was reset, when it sends an acknowledgement without having published anything
(`acknowledges_undelivered`).

`CompleteAtLast` is the condition on what is lost and on the lengths: when the last fragment of a
message arrives all others have arrived before it, they fit the buffer, and their numbers do not
wrap. On a link that may lose frames but keeps them in order (`InOrder`), in every run whose
arrivals all meet it, an acknowledgement is only sent together with the publication of the whole
message (`acknowledged_published`). A message that only its last fragment makes too long is neither
published nor acknowledged.
-/

set_option autoImplicit false
set_option relaxedAutoImplicit false

namespace AarnnNsys.L2

open Bridge Lib

/-- A fragment that the sender sends before fragment `i` of message `k`. -/
def Arrived.Precedes (arrived : Arrived) (k i : ℕ) : Prop :=
  arrived.message < k ∨ arrived.message = k ∧ arrived.fragment < i

/-- Fragment `i` of message `k` has arrived. -/
def HasArrived (trace : List (Arrived × Reception)) (k i : ℕ) : Prop :=
  ∃ event ∈ trace, event.1.message = k ∧ event.1.fragment = i

/-- The link may lose frames, and delivers the others in the order in which they were sent. -/
def InOrder (trace : List (Arrived × Reception)) (arrived : Arrived) : Prop :=
  ∀ event ∈ trace, event.1.Precedes arrived.message arrived.fragment

/-- The condition on a last fragment that arrives: all other fragments of its message have arrived,
they fit the buffer, and there are no more of them than the fragment index can number. -/
def CompleteAtLast (receiver : Link) (messages : List (List UInt8))
    (trace : List (Arrived × Reception)) (arrived : Arrived) : Prop :=
  ∀ message, messages[arrived.message]? = some message →
    arrived.fragment + 1 = fragmentCount message →
      (∀ i < arrived.fragment, HasArrived trace arrived.message i) ∧
      arrived.fragment * mtuPayload ≤ receiver.cfg.maxFrame ∧ arrived.fragment < 65536

/-- Frames are only sent for a message that is published in the same step: the whole message of the
sender that the last fragment belongs to, which the local bus does not reject. -/
def Honest (receiver : Link) (slotBytes : ℕ) (ttl : UInt8) (msgIdCtr : UInt16)
    (messages : List (List UInt8)) (event : Arrived × Reception) : Prop :=
  sent event.2.actions ≠ [] → ∃ message, messages[event.1.message]? = some message ∧
    message ≠ [] ∧ message.length ≤ slotBytes ∧
    event.2.actions = .publish message :: (sendFragments receiver 1 (nextTtl ttl)
      (msgIdOf msgIdCtr event.1.message) message).map .send

/-- What holds in every run over a link that keeps the order: every acknowledgement so far came with
the message, and where all fragments before one that has not been passed have arrived, and fit, they
are in the buffer. -/
structure AckInv (sender receiver : Link) (slotBytes : ℕ) (msgIdCtr : UInt16)
    (messages : List (List UInt8)) (trace : List (Arrived × Reception)) (state : Receiver) :
    Prop where
  wellFormed : state.WellFormed receiver
  honest : ∀ event ∈ trace,
    Honest receiver slotBytes (nextTtl sender.cfg.ttl) msgIdCtr messages event
  progress : ∀ k message i, messages[k]? = some message → i < 65536 →
    i * mtuPayload ≤ receiver.cfg.maxFrame → (∀ j < i, HasArrived trace k j) →
    (∀ event ∈ trace, event.1.Precedes k i) →
    InProgress state.reasm (msgIdOf msgIdCtr k) message i

theorem HasArrived.of_append {trace : List (Arrived × Reception)} {event : Arrived × Reception}
    {k i : ℕ} (harrived : HasArrived (trace ++ [event]) k i)
    (hother : ¬ (event.1.message = k ∧ event.1.fragment = i)) : HasArrived trace k i := by
  obtain ⟨own, hmem, hsame⟩ := harrived
  rcases List.mem_append.mp hmem with hold | hnew
  · exact ⟨own, hold, hsame⟩
  · rw [List.mem_singleton.mp hnew] at hsame
    exact absurd hsame hother

/-- Where the fragments before one that has not been passed have all arrived, the last of them is
the one that arrived last. -/
theorem eq_of_precedes {trace : List (Arrived × Reception)} {event : Arrived × Reception} {k i : ℕ}
    (horder : InOrder trace event.1) (harrived : HasArrived (trace ++ [event]) k i)
    (hpassed : event.1.Precedes k (i + 1)) : event.1.message = k ∧ event.1.fragment = i := by
  obtain ⟨own, hmem, hmessage, hfragment⟩ := harrived
  rcases List.mem_append.mp hmem with hold | hnew
  · have hbefore := horder own hold
    unfold Arrived.Precedes at hbefore hpassed
    omega
  · rw [List.mem_singleton.mp hnew] at hmessage hfragment
    exact ⟨hmessage, hfragment⟩

section Step

variable {sender receiver : Link} {slotBytes : ℕ} {msgIdCtr : UInt16}
  {messages : List (List UInt8)} {trace : List (Arrived × Reception)} {state state' : Receiver}
  {arrived : Arrived} {reception : Reception} {message : List UInt8}

/-- The invariant after a step. Assumes: the step is honest, and where it continued a message from
its first fragment on, the message is still in progress. -/
theorem AckInv.append (hinv : AckInv sender receiver slotBytes msgIdCtr messages trace state)
    (horder : InOrder trace arrived) (hmessage : messages[arrived.message]? = some message)
    (hwf : state'.WellFormed receiver)
    (hhonest : Honest receiver slotBytes (nextTtl sender.cfg.ttl) msgIdCtr messages
      (arrived, reception))
    (hnext : arrived.fragment < 65536 →
      (arrived.fragment + 1) * mtuPayload ≤ receiver.cfg.maxFrame →
      (∀ j < arrived.fragment, HasArrived trace arrived.message j) →
        InProgress state'.reasm (msgIdOf msgIdCtr arrived.message) message
          (arrived.fragment + 1)) :
    AckInv sender receiver slotBytes msgIdCtr messages (trace ++ [(arrived, reception)])
      state' := by
  refine ⟨hwf, fun event hmem ↦ ?_, fun k other i hother hidx hfits harrived hpassed ↦ ?_⟩
  · rcases List.mem_append.mp hmem with hold | hnew
    · exact hinv.honest event hold
    · rw [List.mem_singleton.mp hnew]
      exact hhonest
  · cases i with
    | zero => exact fun hpos ↦ absurd hpos (lt_irrefl 0)
    | succ i =>
      obtain ⟨rfl, rfl⟩ : arrived.message = k ∧ arrived.fragment = i :=
        eq_of_precedes horder (harrived i (Nat.lt_succ_self i))
          (hpassed (arrived, reception) (List.mem_append_right _ (List.mem_singleton_self _)))
      obtain rfl : message = other := Option.some.inj (hmessage.symm.trans hother)
      refine hnext (Nat.lt_of_succ_lt hidx) hfits fun j hj ↦ ?_
      exact (harrived j (Nat.lt_succ_of_lt hj)).of_append fun hsame ↦ hj.ne' hsame.2

/-- Every step over a link that keeps the order keeps the invariant. Assumes: where it is the last
fragment that arrives, the others have arrived. -/
theorem AckInv.step {events : List (Arrived × Reception)}
    (hether : sender.cfg.ethertype = receiver.cfg.ethertype)
    (hslot : receiver.cfg.maxFrame ≤ slotBytes)
    (hinv : AckInv sender receiver slotBytes msgIdCtr messages trace state)
    (horder : InOrder trace arrived) (hcomplete : CompleteAtLast receiver messages trace arrived)
    (hstep : (lossySystem sender receiver msgIdCtr messages).step state arrived =
      some (state', events)) :
    AckInv sender receiver slotBytes msgIdCtr messages (trace ++ events) state' := by
  obtain ⟨message, reception, hmessage, hi, hlength, hreceive, rfl⟩ := lossySystem_step hstep
  set wire := (fragment message arrived.fragment).onWire 0 (nextTtl sender.cfg.ttl)
    (msgIdOf msgIdCtr arrived.message) with hwire
  have hparse := parseFrame_fragmentFrame hether hinv.wellFormed.length_rxBuf hi hlength
  have hsilent (verdict : Verdict) : Honest receiver slotBytes (nextTtl sender.cfg.ttl) msgIdCtr
      messages (arrived, ⟨verdict, []⟩) := fun hsent ↦ absurd rfl hsent
  by_cases hcontinues : arrived.fragment < 65536 ∧
      arrived.fragment * mtuPayload ≤ receiver.cfg.maxFrame ∧
      ∀ j < arrived.fragment, HasArrived trace arrived.message j
  · obtain ⟨hidx, hroom, hall⟩ := hcontinues
    have hprogress : InProgress state.reasm (msgIdOf msgIdCtr arrived.message) message
        arrived.fragment := hinv.progress _ _ _ hmessage hidx hroom hall horder
    rcases le_or_gt (message.take ((arrived.fragment + 1) * mtuPayload)).length
      receiver.cfg.maxFrame with hfits | hfull
    · obtain ⟨next, hwf, hid, hnext, hcontent, hreceive'⟩ :=
        receive_fragmentFrame hether hinv.wellFormed hprogress hi hidx hfits _ hlength
      rw [hreceive', Option.some.injEq, Prod.mk.injEq] at hreceive
      obtain ⟨rfl, rfl⟩ := hreceive
      refine hinv.append horder hmessage hwf ?_ fun _ _ _ _ hlt ↦
        ⟨hid, hnext, by rw [hcontent, if_neg hlt.ne]⟩
      split
      · rename_i hend
        have hwhole : message.take ((arrived.fragment + 1) * mtuPayload) = message :=
          List.take_of_length_le ((chunkCount_le_iff mtuPayload_pos).mp hend.ge)
        rw [hwhole] at hfits
        refine fun _ ↦ ⟨message, hmessage, ?_, hfits.trans hslot, rfl⟩
        rintro rfl
        exact Nat.not_lt_zero _ hi
      · exact hsilent _
    · obtain ⟨reasm, hreasm, -, -, -, hreceive'⟩ :=
        receive_fragment_overflow hinv.wellFormed.reasm hprogress hi hidx hfull
          (nextTtl sender.cfg.ttl)
      rw [Receiver.receive_data hparse rfl hreceive', Option.some.injEq, Prod.mk.injEq] at hreceive
      obtain ⟨rfl, rfl⟩ := hreceive
      refine hinv.append horder hmessage (hinv.wellFormed.setReasm hreasm _) (hsilent _) ?_
      intro _ hroom' _
      rw [List.length_take] at hfull
      exact absurd (lt_of_lt_of_le hfull (min_le_left _ _)) (not_lt.mpr hroom')
  · -- such a fragment is not the last one of its message
    have hlast : ¬ wire.last := by
      rw [hwire, Piece.last_onWire]
      intro hend
      obtain ⟨hall, hroom, hidx⟩ := hcomplete message hmessage (of_decide_eq_true hend)
      exact hcontinues ⟨hidx, hroom, hall⟩
    obtain ⟨reasm, hreasm, hwf⟩ := hinv.wellFormed.reasm.receive_of_not_last _ hlast
    rw [Receiver.receive_data hparse rfl hreasm, Option.some.injEq, Prod.mk.injEq] at hreceive
    obtain ⟨rfl, rfl⟩ := hreceive
    refine hinv.append horder hmessage (hinv.wellFormed.setReasm hwf _) (hsilent _) ?_
    intro hidx hroom hall
    have hless : arrived.fragment * mtuPayload ≤ (arrived.fragment + 1) * mtuPayload :=
      Nat.mul_le_mul_right _ (Nat.le_succ _)
    exact absurd ⟨hidx, hless.trans hroom, hall⟩ hcontinues

end Step

/-- An acknowledgement means delivery, in every run over a link that keeps the order and in which
the last fragment of a message only arrives after all others. Assumes: both ends use one EtherType,
and the buffer of the receiver is no longer than a slot of its bus. -/
theorem acknowledged_published {sender receiver : Link} {slotBytes : ℕ} {msgIdCtr : UInt16}
    {messages : List (List UInt8)} (hether : sender.cfg.ethertype = receiver.cfg.ethertype)
    (hslot : receiver.cfg.maxFrame ≤ slotBytes) {trace : List (Arrived × Reception)}
    {state : Receiver}
    (hrun : Run (lossySystem sender receiver msgIdCtr messages) (fun trace _ arrived ↦
      InOrder trace arrived ∧ CompleteAtLast receiver messages trace arrived) trace state) :
    ∀ event ∈ trace,
      Honest receiver slotBytes (nextTtl sender.cfg.ttl) msgIdCtr messages event := by
  have hinit : AckInv sender receiver slotBytes msgIdCtr messages [] (.initial receiver.cfg) := by
    refine ⟨Receiver.wellFormed_initial receiver, by simp,
      fun k message i _ _ _ harrived _ hpos ↦ ?_⟩
    obtain ⟨event, hmem, -⟩ := harrived 0 hpos
    cases hmem
  have hinv : AckInv sender receiver slotBytes msgIdCtr messages trace state :=
    hrun.invariant (AckInv sender receiver slotBytes msgIdCtr messages) hinit
      fun _ hinv hguard hstep ↦ hinv.step hether hslot hguard.1 hguard.2 hstep
  exact hinv.honest

/-- Both fragments of a message arrive, and it is acknowledged with its publication. -/
theorem acknowledged_published_two : ∃ trace state,
    Run (lossySystem (.defaults (Vector.replicate 6 1)) (.defaults (Vector.replicate 6 2)) 1
      [twoFragments 1]) (fun trace _ arrived ↦ InOrder trace arrived ∧
        CompleteAtLast (.defaults (Vector.replicate 6 2)) [twoFragments 1] trace arrived)
      trace state ∧
    publishedIn trace = [twoFragments 1] ∧
    ∀ event ∈ trace, Honest (.defaults (Vector.replicate 6 2)) 4096 (nextTtl 8) 1 [twoFragments 1]
      event := by
  set sender : Link := .defaults (Vector.replicate 6 1)
  set receiver : Link := .defaults (Vector.replicate 6 2)
  have hether : sender.cfg.ethertype = receiver.cfg.ethertype := rfl
  have hone : 1 < fragmentCount (twoFragments 1) := by
    rw [fragmentCount_twoFragments]
    decide
  have hzero : 0 < fragmentCount (twoFragments 1) := Nat.zero_lt_of_lt hone
  have hfits (count : ℕ) : ((twoFragments 1).take count).length ≤ receiver.cfg.maxFrame :=
    (List.length_take_le' _ _).trans (twoFragments_fits _ 1)
  obtain ⟨middle, hwf, hid, hnext, hcontent, hreceive⟩ :=
    receive_fragmentFrame hether (Receiver.wellFormed_initial receiver)
      (fun hpos ↦ absurd hpos (lt_irrefl 0)) hzero (Nat.zero_lt_succ _) (hfits _)
      (nextTtl sender.cfg.ttl) (length_unpadded_le _ _ (msgIdOf 1 0) hzero)
  rw [if_neg hone.ne] at hcontent hreceive
  obtain ⟨final, -, -, -, -, hreceive'⟩ :=
    receive_fragmentFrame hether hwf
      (fun _ _ ↦ ⟨hid, hnext, hcontent⟩) hone (by decide) (hfits _) (nextTtl sender.cfg.ttl)
      (length_unpadded_le _ _ (msgIdOf 1 0) hone)
  rw [if_pos (fragmentCount_twoFragments 1).symm] at hreceive'
  have hmessage : [twoFragments 1][0]? = some (twoFragments 1) := rfl
  have hfirst : (lossySystem sender receiver 1 [twoFragments 1]).step (.initial receiver.cfg)
      ⟨0, 0, []⟩ = some (middle, [(⟨0, 0, []⟩, _)]) :=
    lossySystem_step_of hmessage hzero (length_unpadded_le _ _ _ hzero) hreceive
  have hsecond : (lossySystem sender receiver 1 [twoFragments 1]).step middle ⟨0, 1, []⟩ =
      some (final, [(⟨0, 1, []⟩, _)]) :=
    lossySystem_step_of hmessage hone (length_unpadded_le _ _ _ hone) hreceive'
  have hcomplete : CompleteAtLast receiver [twoFragments 1] [] ⟨0, 0, []⟩ := by
    intro message hsome hend
    obtain rfl : twoFragments 1 = message := Option.some.inj (hmessage.symm.trans hsome)
    exact absurd hend hone.ne
  have hstart : Run (lossySystem sender receiver 1 [twoFragments 1]) (fun trace _ arrived ↦
      InOrder trace arrived ∧ CompleteAtLast receiver [twoFragments 1] trace arrived) []
        (.initial receiver.cfg) := .start
  have hmiddle := hstart.next ⟨fun _ hnone ↦ (nomatch hnone), hcomplete⟩ hfirst
  have hrun := hmiddle.next ⟨?_, ?_⟩ hsecond
  · refine ⟨_, final, hrun, ?_, acknowledged_published hether (le_refl 4096) hrun⟩
    rw [publishedIn_append, published_delivery]
    rfl
  · intro event hmem
    rw [List.mem_singleton.mp hmem]
    exact .inr ⟨rfl, Nat.zero_lt_one⟩
  · intro message _ _
    refine ⟨fun i hi ↦ ⟨_, List.mem_singleton_self _, rfl, ?_⟩, by decide, by decide⟩
    exact (Nat.lt_one_iff.mp hi).symm

/-- A last fragment of a message that was dropped because it is too long: it is acknowledged, and
nothing is published. -/
theorem receive_dropped_last {sender receiver : Link} {state : Receiver} {message : List UInt8}
    {msgId : UInt16} {i : ℕ} (hether : sender.cfg.ethertype = receiver.cfg.ethertype)
    (hwf : state.WellFormed receiver) (hend : i + 1 = fragmentCount message) (hpos : 0 < i)
    (hidx : i < 65536) (hid : state.reasm.id = msgId) (hnext : state.reasm.nextIdx = 0)
    (hlen : state.reasm.len = 0) (ttl : UInt8) :
    ∃ state' reception, state.receive receiver (fragmentFrame sender 0 ttl msgId message i ++ []) =
        some (state', reception) ∧ published reception.actions = [] ∧
      sent reception.actions = [buildFrag receiver 1 (nextTtl ttl) msgId 0 true []] := by
  have hi : i < fragmentCount message := by omega
  set wire := (fragment message i).onWire 0 ttl msgId with hwire
  have hparse : state.parse receiver (fragmentFrame sender 0 ttl msgId message i ++ []) =
      some (.accepted wire) :=
    parseFrame_fragmentFrame hether hwf.length_rxBuf hi (length_unpadded_le _ _ _ hi)
  have hne : wire.fragIdx ≠ 0 := ofNat_ne_zero hpos.ne' hidx
  have hrestart : state.reasm.restart wire = state.reasm :=
    Reasm.restart_onWire hid hpos hidx ttl
  have hskipped : wire.fragIdx ≠ (state.reasm.restart wire).nextIdx := by
    rw [hrestart, hnext]
    exact hne
  have hlast : wire.last := by
    rw [hwire, Piece.last_onWire]
    exact decide_eq_true hend
  have hreasm : state.reasm.receive receiver wire = _ := hwf.reasm.receive_skipped hskipped
  rw [hrestart, Reasm.conclude, if_pos hlast, completion,
    if_pos (hwf.reasm.content_eq_nil_iff.mpr hlen)] at hreasm
  exact ⟨_, _, Receiver.receive_data hparse rfl hreasm, rfl, rfl⟩

/-- A receiver whose buffer is shorter than a fragment. -/
def shortReceiver : Link :=
  ⟨⟨0xCAFE, 1000, 8, by decide⟩, Vector.replicate 6 2, Vector.replicate 6 0xFF⟩

/-- Both fragments of a message arrive that is longer than the buffer of the receiver: nothing is
published, and the message is acknowledged. -/
theorem acknowledges_undelivered : ∃ trace state,
    Run (lossySystem (.defaults (Vector.replicate 6 1)) shortReceiver 1 [twoFragments 1])
      (fun trace _ arrived ↦ InOrder trace arrived) trace state ∧
    trace.map (fun event ↦ (event.1.message, event.1.fragment)) = [(0, 0), (0, 1)] ∧
    publishedIn trace = [] ∧
    ∃ event ∈ trace, ¬ Honest shortReceiver 4096 (nextTtl 8) 1 [twoFragments 1] event := by
  set sender : Link := .defaults (Vector.replicate 6 1)
  have hether : sender.cfg.ethertype = shortReceiver.cfg.ethertype := rfl
  have hone : 1 < fragmentCount (twoFragments 1) := by
    rw [fragmentCount_twoFragments]
    decide
  have hzero : 0 < fragmentCount (twoFragments 1) := Nat.zero_lt_of_lt hone
  have hmessage : [twoFragments 1][0]? = some (twoFragments 1) := rfl
  have hfull : shortReceiver.cfg.maxFrame <
      ((twoFragments 1).take ((0 + 1) * mtuPayload)).length := by
    rw [List.length_take, length_twoFragments]
    decide
  -- the first fragment does not fit
  have hwf := Receiver.wellFormed_initial shortReceiver
  obtain ⟨reasm, hreasm, hid, hnext, hlen, hreceive⟩ :=
    receive_fragment_overflow hwf.reasm (fun hpos ↦ absurd hpos (lt_irrefl 0)) hzero
      (Nat.zero_lt_succ _) hfull (nextTtl sender.cfg.ttl)
  have hparse : (Receiver.initial shortReceiver.cfg).parse shortReceiver
      (fragmentFrame sender 0 (nextTtl sender.cfg.ttl) (msgIdOf 1 0) (twoFragments 1) 0 ++ []) =
        _ :=
    parseFrame_fragmentFrame hether hwf.length_rxBuf hzero (length_unpadded_le _ _ _ hzero)
  have hreceive := Receiver.receive_data hparse rfl hreceive
  have hfirst : (lossySystem sender shortReceiver 1 [twoFragments 1]).step
      (.initial shortReceiver.cfg) ⟨0, 0, []⟩ = some (_, [(⟨0, 0, []⟩, _)]) :=
    lossySystem_step_of hmessage hzero (length_unpadded_le _ _ _ hzero) hreceive
  -- and the second one is acknowledged
  obtain ⟨final, reception, hreceive', hnone, hsent⟩ :=
    receive_dropped_last hether (hwf.setReasm hreasm _) (fragmentCount_twoFragments 1).symm
      Nat.zero_lt_one (by decide) hid hnext hlen (nextTtl sender.cfg.ttl)
  have hsecond : (lossySystem sender shortReceiver 1 [twoFragments 1]).step _ ⟨0, 1, []⟩ =
      some (final, [(⟨0, 1, []⟩, reception)]) :=
    lossySystem_step_of hmessage hone (length_unpadded_le _ _ _ hone) hreceive'
  have hstart : Run (lossySystem sender shortReceiver 1 [twoFragments 1])
      (fun trace _ arrived ↦ InOrder trace arrived) [] (.initial shortReceiver.cfg) := .start
  have hmiddle := hstart.next (fun _ hmem ↦ (nomatch hmem)) hfirst
  have hrun := hmiddle.next ?_ hsecond
  · refine ⟨_, final, hrun, rfl, ?_, (⟨0, 1, []⟩, reception), by simp, fun hhonest ↦ ?_⟩
    · rw [publishedIn_append, hnone, List.append_nil]
      rfl
    · obtain ⟨message, -, -, -, hactions⟩ := hhonest (by simp [hsent])
      dsimp only at hactions
      rw [hactions, published, List.filterMap_cons] at hnone
      cases hnone
  · intro event hmem
    rw [List.mem_singleton.mp hmem]
    exact .inr ⟨rfl, Nat.zero_lt_one⟩

end AarnnNsys.L2
