import AarnnNsys.Bus.Step
import AarnnNsys.L2.Reassembly

/-!
# Arbitrary frames do no harm

The receive branch once more, with every operation that could panic made explicit: additions and
subtractions of lengths are checked (`checkedAdd`, `checkedSub`), and so are the copy into the
reassembly buffer (`copyInto?`) and the slices of it, those of the acknowledgement loop included
(`ackLoop`). `Receiver.WellFormed.receiveChecked_eq` says that no check ever fails in a well-formed
state: there the branch is `Receiver.receive`.

`Reasm.gathered` is what the reassembly buffer holds of the message in progress once a data fragment
has been looked at, and `Outcome` what the branch then does with it, in terms of that content alone:
it drops it, keeps it, or publishes it and acknowledges it by pieces that put together are the
content (`Reasm.WellFormed.outcome`).

`receive_robust` is the result for every sequence of frames with arbitrary bytes: no pass through
the branch panics, only bytes of the frame that has just been received are copied into the
reassembly buffer, what is published fits a slot of the bus and is acknowledged whole, a frame
that fails a test changes nothing, and one that passes them all has its `Outcome`.
-/

set_option autoImplicit false
set_option relaxedAutoImplicit false

namespace AarnnNsys.L2

open Bridge Wire Lib

/-! ### The receive branch with its panics -/

/-- `a - b` on `usize`. `none` is the panic of an underflow. -/
def checkedSub (a b : ℕ) : Option ℕ :=
  if b ≤ a then some (a - b) else none

/-- `buf[start..stop].copy_from_slice(src)`. `none` is the panic of a slice out of bounds or of
unequal lengths. -/
def copyInto? (buf : List UInt8) (start stop : ℕ) (src : List UInt8) : Option (List UInt8) :=
  if start ≤ stop ∧ stop ≤ buf.length ∧ src.length = stop - start then
    some (buf.take start ++ src ++ buf.drop stop)
  else none

/-- `if rttl > 0 { rttl - 1 } else { 0 }`. -/
def nextTtlChecked (ttl : UInt8) : Option UInt8 :=
  if ttl > 0 then (checkedSub ttl.toNat 1).map UInt8.ofNat else some 0

/-- The loop `while sent < reasm_len` that cuts the acknowledgement of the first `len` bytes of the
reassembly buffer into pieces for the frame builder. -/
def ackLoop (buf : List UInt8) (len sent : ℕ) (aidx : UInt16) : Option (List Piece) :=
  if _hsent : sent < len then
    match _hrest : checkedSub len sent with
    | none => none
    | some rest =>
      let t := min mtuPayload rest
      match checkedAdd sent t with
      | none => none
      | some stop => do
        let lastAck := decide (stop ≥ len)
        let part ← slice? buf sent stop
        return ⟨aidx, lastAck, part⟩ :: (← ackLoop buf len (sent + t) (aidx + 1))
  else some []
termination_by len - sent
decreasing_by
  have hpos := mtuPayload_pos
  simp only [checkedSub, Option.ite_none_right_eq_some, Option.some.injEq] at _hrest
  omega

/-- The frame that a piece of an acknowledgement is sent as. -/
def ackFrame (link : Link) (ttl : UInt8) (msgId : UInt16) (piece : Piece) : List UInt8 :=
  buildFrag link 1 ttl msgId piece.fragIdx piece.last piece.payload

/-- `Reasm.store` with its panics. The inner `none` is the overflow that the code handles. -/
def Reasm.storeChecked (reasm : Reasm) (pay : List UInt8) : Option (Option Reasm) :=
  match checkedAdd reasm.len pay.length with
  | none => some none
  | some newEnd =>
    if newEnd ≤ reasm.buf.length then do
      let buf ← copyInto? reasm.buf reasm.len newEnd pay
      return some { reasm with buf := buf, len := newEnd, nextIdx := reasm.nextIdx + 1 }
    else some none

/-- `Reasm.finish` with its panics. -/
def Reasm.finishChecked (link : Link) (reasm : Reasm) (fragment : Fragment) :
    Option (Reasm × List Action) :=
  if fragment.last then do
    let publishes ←
      if reasm.len > 0 then (slice? reasm.buf 0 reasm.len).map fun message ↦ [.publish message]
      else some []
    let ackTtl ← nextTtlChecked fragment.ttl
    let frames ←
      if reasm.len = 0 then some [buildFrag link 1 ackTtl fragment.msgId 0 true []]
      else (ackLoop reasm.buf reasm.len 0 0).map (·.map (ackFrame link ackTtl fragment.msgId))
    return ({ reasm with len := 0 }, publishes ++ frames.map .send)
  else some (reasm, [])

/-- `Reasm.receive` with its panics. -/
def Reasm.receiveChecked (link : Link) (reasm : Reasm) (fragment : Fragment) :
    Option (Reasm × List Action) :=
  let reasm := reasm.restart fragment
  if fragment.fragIdx = reasm.nextIdx then do
    match ← reasm.storeChecked fragment.payload with
    | none => return (reasm.reset, [])
    | some reasm => reasm.finishChecked link fragment
  else reasm.finishChecked link fragment

/-- One pass through the receive branch of the loop, with its panics. -/
def Receiver.receiveChecked (link : Link) (receiver : Receiver) (frame : List UInt8) :
    Option (Receiver × Reception) := do
  let (rxBuf, nbytes) := recvInto receiver.rxBuf frame
  match ← parseFrame link.cfg rxBuf nbytes with
  | .accepted fragment =>
    if fragment.chan = 0 then
      let (reasm, actions) ← receiver.reasm.receiveChecked link fragment
      return (⟨rxBuf, reasm⟩, ⟨.accepted fragment, actions⟩)
    else return (⟨rxBuf, receiver.reasm⟩, ⟨.accepted fragment, []⟩)
  | verdict => return (⟨rxBuf, receiver.reasm⟩, ⟨verdict, []⟩)

/-- The receiving half with its panics, as a transition system whose actions are the frames that
arrive. -/
def checkedSystem (link : Link) : TransitionSystem Receiver (List UInt8) Reception where
  init := .initial link.cfg
  step receiver frame :=
    (receiver.receiveChecked link frame).map fun result ↦ (result.1, [result.2])

/-! ### No check fails -/

theorem nextTtlChecked_eq (ttl : UInt8) : nextTtlChecked ttl = some (nextTtl ttl) := by
  unfold nextTtlChecked nextTtl
  split
  · rename_i hpos
    have hone : 1 ≤ ttl.toNat := UInt8.lt_iff_toNat_lt.mp hpos
    have hsub : (ttl - 1).toNat = ttl.toNat - 1 :=
      UInt8.toNat_sub_of_le _ _ (UInt8.le_iff_toNat_le.mpr hone)
    rw [checkedSub, if_pos hone, Option.map_some, ← hsub, UInt8.ofNat_toNat]
  · rfl

section Buffer

variable {buf : List UInt8} {len : ℕ}

/-- The acknowledgement loop ends without a panic and cuts the filled part of the buffer as the
fragment loop cuts a message. Assumes: the buffer has that many bytes. -/
theorem ackLoop_eq (hlen : len ≤ buf.length) (hsize : len < 2 ^ 64) (sent : ℕ) (aidx : UInt16) :
    ackLoop buf len sent aidx = some (fragmentLoop (buf.take len) sent aidx) := by
  have hlength : (buf.take len).length = len := by
    rw [List.length_take, min_eq_left hlen]
  induction hremaining : len - sent using Nat.strong_induction_on generalizing sent aidx with
  | h remaining ih =>
    have hpos := mtuPayload_pos
    rw [ackLoop, fragmentLoop]
    simp only [hlength]
    by_cases hsent : sent < len
    · have hsub : checkedSub len sent = some (len - sent) := if_pos hsent.le
      have hstop : sent + min mtuPayload (len - sent) ≤ len := by omega
      have hadd : checkedAdd sent (min mtuPayload (len - sent)) =
          some (sent + min mtuPayload (len - sent)) := if_pos (by omega)
      have hpart : slice? buf sent (sent + min mtuPayload (len - sent)) =
          some (((buf.take len).drop sent).take (min mtuPayload (len - sent))) := by
        rw [slice?, if_pos ⟨by omega, by omega⟩, Nat.add_sub_cancel_left, List.drop_take,
          List.take_take, min_eq_left (min_le_right _ _)]
      have hnext := ih (len - (sent + min mtuPayload (len - sent))) (by omega)
        (sent + min mtuPayload (len - sent)) (aidx + 1) rfl
      rw [dif_pos hsent, dif_pos hsent]
      split
      · rename_i hnone
        rw [hsub] at hnone
        cases hnone
      · rename_i rest hrest
        obtain rfl : len - sent = rest := Option.some.inj (hsub.symm.trans hrest)
        simp only [hadd, hpart, hnext]
        rfl
    · rw [dif_neg hsent, dif_neg hsent]

end Buffer

section Reasm

variable {cfg : Cfg} {link : Link} {reasm : Reasm} {fragment : Fragment} {pay : List UInt8}

theorem Reasm.storeChecked_eq (reasm : Reasm) (pay : List UInt8) :
    reasm.storeChecked pay = some (reasm.store pay) := by
  unfold Reasm.storeChecked Reasm.store
  cases hadd : checkedAdd reasm.len pay.length with
  | none => rfl
  | some newEnd =>
    simp only [checkedAdd, Option.ite_none_right_eq_some, Option.some.injEq] at hadd
    obtain ⟨-, rfl⟩ := hadd
    by_cases hroom : reasm.len + pay.length ≤ reasm.buf.length
    · have hcopy : copyInto? reasm.buf reasm.len (reasm.len + pay.length) pay =
          some (reasm.buf.take reasm.len ++ pay ++ reasm.buf.drop (reasm.len + pay.length)) :=
        if_pos ⟨by omega, hroom, by omega⟩
      simp only [if_pos hroom, hcopy]
      rfl
    · simp only [if_neg hroom]

theorem Reasm.WellFormed.finishChecked_eq (hwf : reasm.WellFormed link.cfg) :
    reasm.finishChecked link fragment = reasm.finish link fragment := by
  have hlen : reasm.len ≤ reasm.buf.length := hwf.length_buf.symm ▸ hwf.len_le
  have hslice : slice? reasm.buf 0 reasm.len = some (reasm.buf.take reasm.len) :=
    if_pos ⟨Nat.zero_le _, hlen⟩
  have hloop : ackLoop reasm.buf reasm.len 0 0 = some (fragments (reasm.buf.take reasm.len)) :=
    ackLoop_eq hlen (hwf.len_le.trans_lt link.cfg.maxFrame_lt) 0 0
  unfold Reasm.finishChecked Reasm.finish
  split
  · by_cases hzero : reasm.len = 0
    · simp [hzero, nextTtlChecked_eq]
    · simp [hzero, Nat.pos_of_ne_zero hzero, nextTtlChecked_eq, hslice, hloop, sendFragments,
        Function.comp_def, ackFrame]
  · rfl

/-- What a fragment that is stored does to the buffer. -/
theorem Reasm.buf_of_store {stored : Reasm} (hstore : reasm.store pay = some stored) :
    reasm.len + pay.length ≤ reasm.buf.length ∧ stored.len = reasm.len + pay.length ∧
      stored.buf = reasm.buf.take reasm.len ++ pay ++ reasm.buf.drop (reasm.len + pay.length) := by
  unfold Reasm.store at hstore
  cases hadd : checkedAdd reasm.len pay.length with
  | none => simp [hadd] at hstore
  | some newEnd =>
    simp only [hadd, Option.ite_none_right_eq_some, Option.some.injEq] at hstore
    simp only [checkedAdd, Option.ite_none_right_eq_some, Option.some.injEq] at hadd
    obtain ⟨-, rfl⟩ := hadd
    obtain ⟨hroom, rfl⟩ := hstore
    exact ⟨hroom, rfl, rfl⟩

theorem Reasm.WellFormed.of_store {stored : Reasm} (hwf : reasm.WellFormed cfg)
    (hstore : reasm.store pay = some stored) : stored.WellFormed cfg := by
  obtain ⟨hroom, hlen, hbuf⟩ := Reasm.buf_of_store hstore
  have hlength := hwf.length_buf
  constructor
  · rw [hbuf, List.length_append, List.length_append, List.length_take, List.length_drop]
    omega
  · omega

theorem Reasm.WellFormed.receiveChecked_eq (hwf : reasm.WellFormed link.cfg) :
    reasm.receiveChecked link fragment = reasm.receive link fragment := by
  unfold Reasm.receiveChecked Reasm.receive
  simp only [Reasm.storeChecked_eq, hwf.restart.finishChecked_eq, Option.bind_eq_bind,
    Option.bind_some]
  split
  · cases hstore : (reasm.restart fragment).store fragment.payload with
    | none => rfl
    | some stored => exact (hwf.restart.of_store hstore).finishChecked_eq
  · rfl

end Reasm

section Receiver

variable {link : Link} {receiver : Receiver} {frame : List UInt8}

/-- In a well-formed state no check of the receive branch fails. -/
theorem Receiver.WellFormed.receiveChecked_eq (hwf : receiver.WellFormed link)
    (frame : List UInt8) : receiver.receiveChecked link frame = receiver.receive link frame := by
  obtain ⟨verdict, hparse⟩ := hwf.parse frame
  rw [Receiver.parse] at hparse
  cases verdict <;>
    simp [Receiver.receiveChecked, Receiver.receive, hparse, hwf.reasm.receiveChecked_eq]

theorem checkedSystem_step {receiver' : Receiver} {reception : Reception}
    (hreceive : receiver.receiveChecked link frame = some (receiver', reception)) :
    (checkedSystem link).step receiver frame = some (receiver', [reception]) := by
  simp only [checkedSystem, hreceive, Option.map_some]

/-- Every state that is reached by frames without a panic is well formed. -/
theorem wellFormed_of_run {receptions : List Reception}
    (hrun : Run (checkedSystem link) unguarded receptions receiver) : receiver.WellFormed link := by
  refine hrun.invariant (fun _ receiver ↦ receiver.WellFormed link)
    (Receiver.wellFormed_initial link) ?_
  intro trace receiver frame receiver' events hprevious hwf hguard hstep
  obtain ⟨next, reception, hreceive, hwf'⟩ := hwf.receive frame
  simp only [checkedSystem, hwf.receiveChecked_eq, hreceive, Option.map_some, Option.some.injEq,
    Prod.mk.injEq] at hstep
  exact hstep.1 ▸ hwf'

end Receiver

/-! ### What one frame can do -/

/-- The reassembly buffer is as before, or a part of the received bytes has been copied into it. -/
def CopiesFrom (bytes before after : List UInt8) : Prop :=
  after = before ∨ ∃ start stop place part, slice? bytes start stop = some part ∧
    place + part.length ≤ before.length ∧
    after = before.take place ++ part ++ before.drop (place + part.length)

/-- A bus with this geometry does not refuse the message: a `publish` of it claims a number. -/
def Publishable (g : Bus.Geometry) (message : List UInt8) : Prop :=
  message.length ∈ Set.Icc 1 g.slotBytes ∧ ∀ m : Bus.Mem,
    (Bus.beginPublish g m message).2.2 = [.called message, .claimed m.claimSeq message]

theorem publishable_of_length {g : Bus.Geometry} {message : List UInt8} (hne : message ≠ [])
    (hfits : message.length ≤ g.slotBytes) : Publishable g message := by
  refine ⟨⟨List.length_pos_iff.mpr hne, hfits⟩, fun m ↦ ?_⟩
  rw [Bus.beginPublish, if_neg]
  simp [hne, hfits]

section Step

variable {link : Link} {reasm reasm' : Reasm} {fragment : Fragment} {actions : List Action}

/-- What a data fragment does: it resets a message that is too long, or it leads to the branch on
the last flag, with its payload stored or not. -/
theorem Reasm.WellFormed.receive_cases (hwf : reasm.WellFormed link.cfg)
    (hreceive : reasm.receive link fragment = some (reasm', actions)) :
    (reasm' = (reasm.restart fragment).reset ∧ actions = []) ∨
      ∃ stored : Reasm, stored.WellFormed link.cfg ∧
        (reasm', actions) = stored.conclude link fragment ∧
        (stored = reasm.restart fragment ∨
          (reasm.restart fragment).store fragment.payload = some stored) := by
  unfold Reasm.receive at hreceive
  simp only at hreceive
  split at hreceive
  · cases hstore : (reasm.restart fragment).store fragment.payload with
    | none =>
      simp only [hstore, Option.some.injEq, Prod.mk.injEq] at hreceive
      exact .inl ⟨hreceive.1.symm, hreceive.2.symm⟩
    | some stored =>
      have hstored := hwf.restart.of_store hstore
      simp only [hstore, hstored.finish_eq, Option.some.injEq] at hreceive
      exact .inr ⟨stored, hstored, hreceive.symm, .inr rfl⟩
  · rw [hwf.restart.finish_eq, Option.some.injEq] at hreceive
    exact .inr ⟨_, hwf.restart, hreceive.symm, .inl rfl⟩

/-- A data fragment copies its payload into the buffer or leaves the buffer alone. -/
theorem Reasm.WellFormed.buf_receive (hwf : reasm.WellFormed link.cfg)
    (hreceive : reasm.receive link fragment = some (reasm', actions)) :
    reasm'.buf = reasm.buf ∨ ∃ place, place + fragment.payload.length ≤ reasm.buf.length ∧
      reasm'.buf = reasm.buf.take place ++ fragment.payload ++
        reasm.buf.drop (place + fragment.payload.length) := by
  have hrestart : (reasm.restart fragment).buf = reasm.buf := by
    unfold Reasm.restart
    split <;> rfl
  have hconclude : ∀ stored : Reasm, (stored.conclude link fragment).1.buf = stored.buf := by
    intro stored
    unfold Reasm.conclude
    split <;> rfl
  rcases hwf.receive_cases hreceive with ⟨rfl, -⟩ | ⟨stored, -, hdone, hstored⟩
  · exact .inl hrestart
  · have hbuf : reasm'.buf = stored.buf := by
      rw [← hconclude stored, ← hdone]
    rcases hstored with rfl | hstore
    · exact .inl (hbuf.trans hrestart)
    · obtain ⟨hroom, -, hcopied⟩ := Reasm.buf_of_store hstore
      rw [hrestart] at hroom hcopied
      exact .inr ⟨_, hroom, hbuf.trans hcopied⟩

/-- What the buffer holds of the message in progress once a data fragment has been looked at, and
the index that is expected next: the payload stands behind what was there if its index is the
expected one. `none` when it does not fit. -/
def Reasm.gathered (cfg : Cfg) (reasm : Reasm) (fragment : Fragment) :
    Option (List UInt8 × UInt16) :=
  let reasm := reasm.restart fragment
  if fragment.fragIdx = reasm.nextIdx then
    if reasm.len + fragment.payload.length ≤ cfg.maxFrame then
      some (reasm.content ++ fragment.payload, reasm.nextIdx + 1)
    else none
  else some (reasm.content, reasm.nextIdx)

/-- What a data fragment leaves in the buffer and makes the bridge do, from what has been gathered:
a message that is too long is dropped, one that is not complete is kept, and a complete one is
published, if it is not empty, and acknowledged. -/
inductive Outcome (link : Link) (fragment : Fragment) (after : Reasm) :
    Option (List UInt8 × UInt16) → List Action → Prop
  | overflow (hlen : after.len = 0) (hnext : after.nextIdx = 0) :
      Outcome link fragment after none []
  | kept {content : List UInt8} {nextIdx : UInt16} (hlast : ¬ fragment.last)
      (hcontent : after.content = content) (hnext : after.nextIdx = nextIdx) :
      Outcome link fragment after (some (content, nextIdx)) []
  | empty {nextIdx : UInt16} (hlast : fragment.last) (hlen : after.len = 0)
      (hnext : after.nextIdx = nextIdx) :
      Outcome link fragment after (some ([], nextIdx))
        [.send (buildFrag link 1 (nextTtl fragment.ttl) fragment.msgId 0 true [])]
  | complete {content : List UInt8} {nextIdx : UInt16} {pieces : List Piece}
      (hlast : fragment.last) (hne : content ≠ [])
      (hbuf : after.buf.take content.length = content)
      (hpieces : (pieces.map Piece.payload).flatten = content)
      (hsizes : ∀ piece ∈ pieces, piece.payload.length ∈ Set.Icc 1 mtuPayload)
      (hlen : after.len = 0) (hnext : after.nextIdx = nextIdx) :
      Outcome link fragment after (some (content, nextIdx))
        (.publish content ::
          (pieces.map (ackFrame link (nextTtl fragment.ttl) fragment.msgId)).map .send)

theorem length_payload_mem {message : List UInt8} {piece : Piece}
    (hpiece : piece ∈ fragments message) : piece.payload.length ∈ Set.Icc 1 mtuPayload := by
  rw [fragments_eq] at hpiece
  obtain ⟨i, hi, rfl⟩ := List.mem_map.mp hpiece
  exact ⟨length_chunk_pos mtuPayload_pos (List.mem_range.mp hi), length_chunk_le⟩

/-- The branch on the last flag hands on the content or keeps it. -/
theorem Reasm.WellFormed.outcome_conclude (hwf : reasm.WellFormed link.cfg) (fragment : Fragment) :
    Outcome link fragment (reasm.conclude link fragment).1 (some (reasm.content, reasm.nextIdx))
      (reasm.conclude link fragment).2 := by
  unfold Reasm.conclude
  split
  · rename_i hlast
    rw [completion]
    by_cases hempty : reasm.content = []
    · rw [if_pos hempty, hempty]
      exact .empty hlast rfl rfl
    · rw [if_neg hempty]
      exact .complete hlast hempty (by rw [hwf.length_content]; rfl) (flatten_payloads _)
        (fun _ ↦ length_payload_mem) rfl rfl
  · rename_i hlast
    exact .kept hlast rfl rfl

/-- What a data fragment does, in terms of what has been gathered. -/
theorem Reasm.WellFormed.outcome (hwf : reasm.WellFormed link.cfg)
    (hreceive : reasm.receive link fragment = some (reasm', actions)) :
    reasm'.id = fragment.msgId ∧
      Outcome link fragment reasm' (reasm.gathered link.cfg fragment) actions := by
  have hconclude : ∀ stored : Reasm, (stored.conclude link fragment).1.id = stored.id := by
    intro stored
    unfold Reasm.conclude
    split <;> rfl
  unfold Reasm.gathered
  by_cases hidx : fragment.fragIdx = (reasm.restart fragment).nextIdx
  · rcases le_or_gt ((reasm.restart fragment).len + fragment.payload.length) link.cfg.maxFrame with
      hfits | hfull
    · obtain ⟨stored, hstored, hcontent, hid, hnext, heq⟩ := hwf.receive_expected link hidx hfits
      obtain ⟨rfl, rfl⟩ := Prod.mk.inj (Option.some.inj (heq.symm.trans hreceive))
      have houtcome := hstored.outcome_conclude fragment
      rw [hcontent, hnext, hidx] at houtcome
      simp only [if_pos hidx, if_pos hfits]
      exact ⟨(hconclude stored).trans hid, houtcome⟩
    · obtain ⟨rfl, rfl⟩ := Prod.mk.inj
        (Option.some.inj ((hwf.receive_overflow hidx hfull).symm.trans hreceive))
      simp only [if_pos hidx, if_neg (not_le.mpr hfull)]
      exact ⟨id_restart, .overflow rfl rfl⟩
  · obtain ⟨rfl, rfl⟩ := Prod.mk.inj
      (Option.some.inj ((hwf.receive_skipped hidx).symm.trans hreceive))
    simp only [if_neg hidx]
    exact ⟨(hconclude _).trans id_restart, hwf.restart.outcome_conclude fragment⟩

/-- A fragment that is not the last one keeps what has been gathered. -/
theorem Outcome.of_not_last {after : Reasm} {content : List UInt8} {nextIdx : UInt16}
    (houtcome : Outcome link fragment after (some (content, nextIdx)) actions)
    (hlast : ¬ fragment.last) :
    after.content = content ∧ after.nextIdx = nextIdx ∧ actions = [] := by
  cases houtcome with
  | kept _ hcontent hnext => exact ⟨hcontent, hnext, rfl⟩
  | empty hlast' => exact absurd hlast' hlast
  | complete hlast' => exact absurd hlast' hlast

/-- The last fragment of a message that is not empty publishes and acknowledges it. -/
theorem Outcome.of_last {after : Reasm} {content : List UInt8} {nextIdx : UInt16}
    (houtcome : Outcome link fragment after (some (content, nextIdx)) actions)
    (hlast : fragment.last) (hne : content ≠ []) :
    published actions = [content] ∧ ∃ pieces : List Piece,
      sent actions = pieces.map (ackFrame link (nextTtl fragment.ttl) fragment.msgId) ∧
      (pieces.map Piece.payload).flatten = content := by
  cases houtcome with
  | kept hlast' => exact absurd hlast hlast'
  | empty => exact absurd rfl hne
  | @complete _ _ pieces _ _ _ hpieces =>
    refine ⟨?_, pieces, ?_, hpieces⟩
    · rw [published, List.filterMap_cons, ← published, published_map_send]
    · rw [sent, List.filterMap_cons, ← sent, sent_map_send]

/-- What is published is not empty, stands in the buffer, and is acknowledged by frames that carry
exactly its bytes. -/
theorem Outcome.publishes {after : Reasm} {gathered : Option (List UInt8 × UInt16)}
    (houtcome : Outcome link fragment after gathered actions) {message : List UInt8}
    (hpublished : message ∈ published actions) :
    message ≠ [] ∧ message.length ≤ after.buf.length ∧ ∃ pieces : List Piece,
      sent actions = pieces.map (ackFrame link (nextTtl fragment.ttl) fragment.msgId) ∧
      (pieces.map Piece.payload).flatten = message := by
  cases houtcome with
  | overflow => cases hpublished
  | kept => cases hpublished
  | empty => cases hpublished
  | @complete content nextIdx pieces hlast hne hbuf hpieces hsizes hlen hnext =>
    obtain ⟨honly, hacknowledged⟩ :=
      Outcome.of_last (.complete hlast hne hbuf hpieces hsizes hlen hnext) hlast hne
    rw [honly, List.mem_singleton] at hpublished
    subst hpublished
    refine ⟨hne, ?_, hacknowledged⟩
    rw [← hbuf]
    exact List.length_take_le' _ _

/-- A message that a data fragment publishes is within `max_frame`, and it is acknowledged whole. -/
theorem Reasm.WellFormed.publishes (hwf : reasm.WellFormed link.cfg)
    (hreceive : reasm.receive link fragment = some (reasm', actions)) {message : List UInt8}
    (hpublished : message ∈ published actions) :
    message ≠ [] ∧ message.length ≤ link.cfg.maxFrame ∧ ∃ pieces : List Piece,
      sent actions = pieces.map (ackFrame link (nextTtl fragment.ttl) fragment.msgId) ∧
      (pieces.map Piece.payload).flatten = message := by
  obtain ⟨reasm'', actions', hreceive', hwf'⟩ := hwf.receive link fragment
  obtain ⟨rfl, -⟩ := Prod.mk.inj (Option.some.inj (hreceive.symm.trans hreceive'))
  rw [← hwf'.length_buf]
  exact (hwf.outcome hreceive).2.publishes hpublished

end Step

/-! ### The result for every sequence of frames -/

/-- The receive path is robust. Assumes: the buffer of the bridge is no larger than a slot, which
the bridge checks when it starts. In every state that any frames lead to, the next frame, whatever
its bytes, makes no operation panic and keeps the length within the buffer. Only received bytes are
copied into the reassembly buffer, every message that is published fits a slot and is passed to the
frame builder once, in order and whole, and a frame that fails a test changes neither the
reassembly nor the bus. A frame that passes every test is accepted. If it carries data, the branch
gathers its payload and, at the last flag, publishes the bytes that stand in the buffer and
acknowledges exactly these. -/
theorem receive_robust {link : Link} {g : Bus.Geometry} (hslots : link.cfg.maxFrame ≤ g.slotBytes)
    {receptions : List Reception} {receiver : Receiver}
    (hrun : Run (checkedSystem link) unguarded receptions receiver) (frame : List UInt8) :
    receiver.reasm.len ≤ link.cfg.maxFrame ∧ ∃ receiver' reception,
      receiver.receiveChecked link frame = some (receiver', reception) ∧
      receiver'.reasm.len ≤ link.cfg.maxFrame ∧
      CopiesFrom (frame.take rxBufLen) receiver.reasm.buf receiver'.reasm.buf ∧
      (∀ message ∈ published reception.actions, Publishable g message ∧
        ∃ (ttl : UInt8) (msgId : UInt16) (pieces : List Piece),
          sent reception.actions = pieces.map (ackFrame link ttl msgId) ∧
          (pieces.map Piece.payload).flatten = message) ∧
      (FailsTest link.cfg (frame.take rxBufLen) →
        receiver'.reasm = receiver.reasm ∧ reception.actions = []) ∧
      ∀ fragment, Accepts link.cfg (frame.take rxBufLen) fragment →
        reception.verdict = .accepted fragment ∧
        (fragment.chan ≠ 0 → receiver'.reasm = receiver.reasm ∧ reception.actions = []) ∧
        (fragment.chan = 0 → receiver'.reasm.id = fragment.msgId ∧
          Outcome link fragment receiver'.reasm (receiver.reasm.gathered link.cfg fragment)
            reception.actions) := by
  have hwf := wellFormed_of_run hrun
  refine ⟨hwf.reasm.len_le, ?_⟩
  obtain ⟨verdict, hparse⟩ := hwf.parse frame
  have haccepted : ∀ fragment, Accepts link.cfg (frame.take rxBufLen) fragment ↔
      verdict = .accepted fragment := by
    intro fragment
    rw [← hwf.length_rxBuf, ← take_recvInto]
    constructor
    · exact fun haccepts ↦ Option.some.inj (hparse.symm.trans (parseFrame_of_accepts haccepts))
    · rintro rfl
      exact parseFrame_accepted hparse
  rw [hwf.receiveChecked_eq]
  by_cases hdata : ∃ fragment, verdict = .accepted fragment ∧ fragment.chan = 0
  · obtain ⟨fragment, rfl, hchan⟩ := hdata
    have hfragment := (haccepted fragment).mpr rfl
    obtain ⟨reasm', actions, hreasm, hwf'⟩ := hwf.reasm.receive link fragment
    refine ⟨_, _, Receiver.receive_data hparse hchan hreasm, hwf'.len_le, ?_, ?_, ?_, ?_⟩
    · obtain ⟨fragLen, -, hpayload⟩ := hfragment.payload
      rcases hwf.reasm.buf_receive hreasm with hsame | ⟨place, hroom, hcopied⟩
      · exact .inl hsame
      · exact .inr ⟨_, _, place, _, hpayload, hroom, hcopied⟩
    · intro message hpublished
      obtain ⟨hne, hfits, pieces, hsent, hwhole⟩ := hwf.reasm.publishes hreasm hpublished
      exact ⟨publishable_of_length hne (hfits.trans hslots), _, _, pieces, hsent, hwhole⟩
    · exact fun hfails ↦ absurd hfragment (hfails.not_accepts fragment)
    · intro other hother
      obtain rfl := Verdict.accepted.inj ((haccepted other).mp hother)
      exact ⟨rfl, fun hne ↦ absurd hchan hne, fun _ ↦ hwf.reasm.outcome hreasm⟩
  · have hother : ∀ fragment, verdict = .accepted fragment → fragment.chan ≠ 0 :=
      fun fragment hverdict hchan ↦ hdata ⟨fragment, hverdict, hchan⟩
    refine ⟨_, _, Receiver.receive_other hparse hother, hwf.reasm.len_le, .inl rfl, ?_,
      fun _ ↦ ⟨rfl, rfl⟩, ?_⟩
    · exact fun _ hpublished ↦ nomatch hpublished
    · intro fragment hfragment
      have hverdict := (haccepted fragment).mp hfragment
      exact ⟨hverdict, fun _ ↦ ⟨rfl, rfl⟩, fun hchan ↦ absurd hchan (hother fragment hverdict)⟩

/-- A message of two fragments. The first one is stored, and in the state that it leads to the
second one publishes the message and acknowledges it. -/
theorem receive_robust_two : ∃ receiver reception receiver' reception',
    (Receiver.initial .defaults).receiveChecked (.defaults (Vector.replicate 6 2))
      (buildFrag (.defaults (Vector.replicate 6 1)) 0 7 1 0 false [5, 6]) =
        some (receiver, reception) ∧
    receiver.reasm.content = [5, 6] ∧ reception.actions = [] ∧
    receiver.receiveChecked (.defaults (Vector.replicate 6 2))
      (buildFrag (.defaults (Vector.replicate 6 1)) 0 7 1 1 true [7]) =
        some (receiver', reception') ∧
    published reception'.actions = [[5, 6, 7]] ∧ ∃ pieces : List Piece,
      sent reception'.actions =
        pieces.map (ackFrame (.defaults (Vector.replicate 6 2)) 6 1) ∧
      (pieces.map Piece.payload).flatten = [5, 6, 7] := by
  have hslots : (Link.defaults (Vector.replicate 6 2)).cfg.maxFrame ≤
      (⟨1, 4096, Bus.isPow2_one⟩ : Bus.Geometry).slotBytes := le_rfl
  have hfirst : Accepts .defaults (List.take rxBufLen
      (buildFrag (.defaults (Vector.replicate 6 1)) 0 7 1 0 false [5, 6]))
      ⟨0, 1, 7, 1, 0, [5, 6]⟩ := parseFrame_accepted (by decide +kernel)
  have hsecond : Accepts .defaults (List.take rxBufLen
      (buildFrag (.defaults (Vector.replicate 6 1)) 0 7 1 1 true [7]))
      ⟨0, 3, 7, 1, 1, [7]⟩ := parseFrame_accepted (by decide +kernel)
  -- the first fragment is kept
  obtain ⟨-, receiver, reception, hreceive, -, -, -, -, hall⟩ := receive_robust hslots .start
    (buildFrag (.defaults (Vector.replicate 6 1)) 0 7 1 0 false [5, 6])
  obtain ⟨-, -, hdata⟩ := hall _ hfirst
  obtain ⟨hid, houtcome⟩ := hdata rfl
  have hkept : receiver.reasm.content = [5, 6] ∧ receiver.reasm.nextIdx = 1 ∧
      reception.actions = [] := Outcome.of_not_last houtcome (by decide)
  obtain ⟨hcontent, hnext, hnothing⟩ := hkept
  -- the second one completes the message
  have hreached : Run (checkedSystem (.defaults (Vector.replicate 6 2))) unguarded
      ([] ++ [reception]) receiver := .next .start trivial (checkedSystem_step hreceive)
  obtain ⟨-, receiver', reception', hreceive', -, -, -, -, hall'⟩ := receive_robust hslots hreached
    (buildFrag (.defaults (Vector.replicate 6 1)) 0 7 1 1 true [7])
  obtain ⟨-, -, hdata'⟩ := hall' _ hsecond
  have hgathered : receiver.reasm.gathered (Link.defaults (Vector.replicate 6 2)).cfg
      ⟨0, 3, 7, 1, 1, [7]⟩ = some ([5, 6, 7], 2) := by
    have hlen := (wellFormed_of_run hreached).reasm.length_content
    rw [hcontent] at hlen
    simp [Reasm.gathered, Reasm.restart, Reasm.startsOver, hid, hnext, hcontent, ← hlen,
      Link.defaults, Cfg.defaults]
  have houtcome' := (hdata' rfl).2
  rw [hgathered] at houtcome'
  exact ⟨receiver, reception, receiver', reception', hreceive, hcontent, hnothing, hreceive',
    houtcome'.of_last (by decide) (by decide)⟩

end AarnnNsys.L2
