import AarnnNsys.Bridge.Device
import AarnnNsys.L2.Fragments
import AarnnNsys.Lib.Transition

/-!
# Reassembly

The receiving half of the bridge's loop. `Reasm` is the reassembly state: one buffer of `max_frame`
bytes, how much of it is filled, and the identifier and the next index of the message in progress.
`Reasm.receive` is what a data fragment does to it, and `Receiver.receive` what any frame does: it
goes through the receive buffer and the parser first.

`Reasm.content` is the part of the message in progress. The state after a fragment is described in
its terms: a fragment that starts over empties it (`content_restart`), the expected fragment is
appended (`store_eq`) unless the buffer is too small, and the last one hands it on (`finish_eq`).
`Receiver.WellFormed` is kept by every frame and rules out every panic
(`Receiver.WellFormed.receive`, `Reachable.wellFormed`).

The trace counters and the self test are left out.
-/

set_option autoImplicit false
set_option relaxedAutoImplicit false

namespace AarnnNsys.L2

open Bridge Wire Lib

/-- The reassembly variables `reasm_buf`, `reasm_len`, `reasm_id` and `reasm_next_idx`. -/
structure Reasm where
  buf : List UInt8
  len : ℕ
  id : UInt16
  nextIdx : UInt16
  deriving DecidableEq

/-- The reassembly variables before the loop. -/
def Reasm.initial (cfg : Cfg) : Reasm :=
  ⟨List.replicate cfg.maxFrame 0, 0, 0, 0⟩

/-- `reasm_id != msg_id || frag_idx == 0`: the fragment starts a message. -/
def Reasm.startsOver (reasm : Reasm) (fragment : Fragment) : Bool :=
  reasm.id != fragment.msgId || fragment.fragIdx == 0

/-- A fragment that starts a message drops what was there. -/
def Reasm.restart (reasm : Reasm) (fragment : Fragment) : Reasm :=
  if reasm.startsOver fragment then
    { reasm with id := fragment.msgId, len := 0, nextIdx := 0 }
  else reasm

/-- The expected fragment is copied behind the bytes already there. `none` when it does not fit. -/
def Reasm.store (reasm : Reasm) (pay : List UInt8) : Option Reasm :=
  match checkedAdd reasm.len pay.length with
  | none => none
  | some newEnd =>
    if newEnd ≤ reasm.buf.length then
      some { reasm with
        buf := reasm.buf.take reasm.len ++ pay ++ reasm.buf.drop newEnd
        len := newEnd
        nextIdx := reasm.nextIdx + 1 }
    else none

/-- The reset of a message that is too long. -/
def Reasm.reset (reasm : Reasm) : Reasm :=
  { reasm with len := 0, nextIdx := 0 }

/-- The branch on the flag for the last fragment. `none` is a panic. -/
def Reasm.finish (link : Link) (reasm : Reasm) (fragment : Fragment) :
    Option (Reasm × List Action) :=
  if fragment.last then
    let ackTtl := nextTtl fragment.ttl
    if reasm.len = 0 then
      some ({ reasm with len := 0 }, [.send (buildFrag link 1 ackTtl fragment.msgId 0 true [])])
    else do
      let message ← slice? reasm.buf 0 reasm.len
      return ({ reasm with len := 0 },
        .publish message :: (sendFragments link 1 ackTtl fragment.msgId message).map .send)
  else some (reasm, [])

/-- What a data fragment does. `none` is a panic. -/
def Reasm.receive (link : Link) (reasm : Reasm) (fragment : Fragment) :
    Option (Reasm × List Action) :=
  let reasm := reasm.restart fragment
  if fragment.fragIdx = reasm.nextIdx then
    match reasm.store fragment.payload with
    | none => some (reasm.reset, [])
    | some reasm => reasm.finish link fragment
  else reasm.finish link fragment

/-- The receiving half of a bridge: its receive buffer and its reassembly variables. -/
structure Receiver where
  rxBuf : List UInt8
  reasm : Reasm
  deriving DecidableEq

/-- The receiving half before the loop. -/
def Receiver.initial (cfg : Cfg) : Receiver :=
  ⟨List.replicate rxBufLen 0, Reasm.initial cfg⟩

/-- What becomes of one received frame: the parser's verdict and the actions. -/
structure Reception where
  verdict : Verdict
  actions : List Action
  deriving DecidableEq

/-- One pass through the receive branch of the loop. Only data on channel 0 reaches the reassembly.
`none` is a panic. -/
def Receiver.receive (link : Link) (receiver : Receiver) (frame : List UInt8) :
    Option (Receiver × Reception) := do
  let (rxBuf, nbytes) := recvInto receiver.rxBuf frame
  match ← parseFrame link.cfg rxBuf nbytes with
  | .accepted fragment =>
    if fragment.chan = 0 then
      let (reasm, actions) ← receiver.reasm.receive link fragment
      return (⟨rxBuf, reasm⟩, ⟨.accepted fragment, actions⟩)
    else return (⟨rxBuf, receiver.reasm⟩, ⟨.accepted fragment, []⟩)
  | verdict => return (⟨rxBuf, receiver.reasm⟩, ⟨verdict, []⟩)

/-- The receiving half as a transition system: its actions are the frames that arrive. -/
def receiverSystem (link : Link) : TransitionSystem Receiver (List UInt8) Reception where
  init := .initial link.cfg
  step receiver frame :=
    (receiver.receive link frame).map fun result ↦ (result.1, [result.2])

/-- The states of the receiving half after any frames. -/
def Reachable (link : Link) (receiver : Receiver) : Prop :=
  ∃ receptions, Run (receiverSystem link) unguarded receptions receiver

section Reasm

variable {cfg : Cfg} {link : Link} {reasm : Reasm} {fragment : Fragment} {pay : List UInt8}

/-- The part of the message in progress that has arrived. -/
def Reasm.content (reasm : Reasm) : List UInt8 :=
  reasm.buf.take reasm.len

/-- The buffer has `max_frame` bytes and is filled within its bounds. -/
structure Reasm.WellFormed (cfg : Cfg) (reasm : Reasm) : Prop where
  length_buf : reasm.buf.length = cfg.maxFrame
  len_le : reasm.len ≤ cfg.maxFrame

/-- The actions at the last fragment of a message of which `content` has arrived. -/
def completion (link : Link) (fragment : Fragment) (content : List UInt8) : List Action :=
  if content = [] then
    [.send (buildFrag link 1 (nextTtl fragment.ttl) fragment.msgId 0 true [])]
  else
    .publish content ::
      (sendFragments link 1 (nextTtl fragment.ttl) fragment.msgId content).map .send

/-- What `Reasm.finish` does, in terms of the content. -/
def Reasm.conclude (link : Link) (reasm : Reasm) (fragment : Fragment) : Reasm × List Action :=
  if fragment.last then ({ reasm with len := 0 }, completion link fragment reasm.content)
  else (reasm, [])

theorem Reasm.wellFormed_initial (cfg : Cfg) : (Reasm.initial cfg).WellFormed cfg :=
  ⟨List.length_replicate, Nat.zero_le _⟩

theorem Reasm.WellFormed.length_content (hwf : reasm.WellFormed cfg) :
    reasm.content.length = reasm.len := by
  rw [content, List.length_take, hwf.length_buf, min_eq_left hwf.len_le]

theorem Reasm.WellFormed.content_eq_nil_iff (hwf : reasm.WellFormed cfg) :
    reasm.content = [] ↔ reasm.len = 0 := by
  rw [← List.length_eq_zero_iff, hwf.length_content]

theorem Reasm.WellFormed.setLen_zero (hwf : reasm.WellFormed cfg) :
    ({ reasm with len := 0 } : Reasm).WellFormed cfg :=
  ⟨hwf.length_buf, Nat.zero_le _⟩

theorem Reasm.WellFormed.reset (hwf : reasm.WellFormed cfg) : reasm.reset.WellFormed cfg :=
  ⟨hwf.length_buf, Nat.zero_le _⟩

theorem Reasm.WellFormed.restart (hwf : reasm.WellFormed cfg) :
    (reasm.restart fragment).WellFormed cfg := by
  unfold Reasm.restart
  split
  · exact ⟨hwf.length_buf, Nat.zero_le _⟩
  · exact hwf

/-- After a fragment that starts a message nothing has arrived. -/
theorem Reasm.content_restart (hstarts : reasm.startsOver fragment) :
    (reasm.restart fragment).content = [] ∧ (reasm.restart fragment).nextIdx = 0 := by
  simp [restart, hstarts, content]

theorem Reasm.restart_of_not (hstarts : ¬ reasm.startsOver fragment) :
    reasm.restart fragment = reasm :=
  if_neg hstarts

/-- The message in progress is the fragment's. -/
theorem Reasm.id_restart : (reasm.restart fragment).id = fragment.msgId := by
  unfold restart
  split
  · rfl
  · rename_i hstarts
    simp only [startsOver, Bool.or_eq_true, bne_iff_ne, not_or, not_not] at hstarts
    exact hstarts.1

/-- A fragment that does not fit the buffer is not stored. -/
theorem Reasm.WellFormed.store_eq_none (hwf : reasm.WellFormed cfg)
    (hfull : cfg.maxFrame < reasm.len + pay.length) : reasm.store pay = none := by
  unfold store checkedAdd
  split
  · rfl
  · rename_i newEnd hadd
    split at hadd
    · rw [if_neg (by rw [← Option.some.inj hadd, hwf.length_buf]; omega)]
    · simp at hadd

/-- A fragment that fits is appended to the content. -/
theorem Reasm.WellFormed.store_eq (hwf : reasm.WellFormed cfg)
    (hfits : reasm.len + pay.length ≤ cfg.maxFrame) :
    ∃ reasm', reasm.store pay = some reasm' ∧ reasm'.WellFormed cfg ∧
      reasm'.content = reasm.content ++ pay ∧ reasm'.id = reasm.id ∧
      reasm'.nextIdx = reasm.nextIdx + 1 := by
  have hadd : checkedAdd reasm.len pay.length = some (reasm.len + pay.length) :=
    if_pos (hfits.trans_lt cfg.maxFrame_lt)
  have hroom : reasm.len + pay.length ≤ reasm.buf.length := hwf.length_buf.symm ▸ hfits
  have hstore : reasm.store pay = some { reasm with
      buf := reasm.buf.take reasm.len ++ pay ++ reasm.buf.drop (reasm.len + pay.length)
      len := reasm.len + pay.length
      nextIdx := reasm.nextIdx + 1 } := by
    simp only [store, hadd, if_pos hroom]
  refine ⟨_, hstore, ⟨?_, hfits⟩, ?_, rfl, rfl⟩
  · rw [← hwf.length_buf]
    simp only [List.length_append, List.length_take, List.length_drop]
    omega
  · have hfront : (reasm.buf.take reasm.len ++ pay).length = reasm.len + pay.length := by
      rw [List.length_append, List.length_take]
      omega
    simp only [content]
    rw [← hfront, List.take_left]

/-- The branch on the last flag never panics, and hands on the content. -/
theorem Reasm.WellFormed.finish_eq (hwf : reasm.WellFormed cfg) :
    reasm.finish link fragment = some (reasm.conclude link fragment) := by
  have hslice : slice? reasm.buf 0 reasm.len = some reasm.content :=
    if_pos ⟨Nat.zero_le _, hwf.length_buf.symm ▸ hwf.len_le⟩
  unfold finish conclude completion
  split
  · simp only [hwf.content_eq_nil_iff]
    split
    · rfl
    · rw [hslice]
      rfl
  · rfl

theorem Reasm.WellFormed.conclude (hwf : reasm.WellFormed cfg) :
    (reasm.conclude link fragment).1.WellFormed cfg := by
  unfold Reasm.conclude
  split
  · exact hwf.setLen_zero
  · exact hwf

/-- A last fragment that finds nothing in the buffer publishes nothing. -/
theorem Reasm.WellFormed.conclude_of_empty (hwf : reasm.WellFormed cfg) (link : Link)
    (hempty : fragment.last → reasm.len = 0) :
    ∃ actions, reasm.conclude link fragment = (reasm, actions) ∧ published actions = [] := by
  unfold Reasm.conclude
  split
  · rename_i hlast
    have hlen := hempty hlast
    rw [completion, if_pos (hwf.content_eq_nil_iff.mpr hlen)]
    refine ⟨_, Prod.ext ?_ rfl, rfl⟩
    cases reasm
    simp_all
  · exact ⟨[], rfl, rfl⟩

/-- The expected fragment. Assumes: it fits the buffer. -/
theorem Reasm.WellFormed.receive_expected (hwf : reasm.WellFormed cfg) (link : Link)
    (hidx : fragment.fragIdx = (reasm.restart fragment).nextIdx)
    (hfits : (reasm.restart fragment).len + fragment.payload.length ≤ cfg.maxFrame) :
    ∃ stored : Reasm, stored.WellFormed cfg ∧
      stored.content = (reasm.restart fragment).content ++ fragment.payload ∧
      stored.id = fragment.msgId ∧ stored.nextIdx = fragment.fragIdx + 1 ∧
      reasm.receive link fragment = some (stored.conclude link fragment) := by
  obtain ⟨stored, hstore, hwf', hcontent, hid, hnext⟩ := hwf.restart.store_eq hfits
  refine ⟨stored, hwf', hcontent, hid.trans id_restart, hnext.trans (by rw [hidx]), ?_⟩
  simp only [receive, if_pos hidx, hstore, hwf'.finish_eq]

/-- The expected fragment of a message that is too long. -/
theorem Reasm.WellFormed.receive_overflow (hwf : reasm.WellFormed cfg)
    (hidx : fragment.fragIdx = (reasm.restart fragment).nextIdx)
    (hfull : cfg.maxFrame < (reasm.restart fragment).len + fragment.payload.length) :
    reasm.receive link fragment = some ((reasm.restart fragment).reset, []) := by
  simp only [receive, if_pos hidx, hwf.restart.store_eq_none hfull]

/-- A fragment that is not the expected one. -/
theorem Reasm.WellFormed.receive_skipped (hwf : reasm.WellFormed cfg)
    (hidx : fragment.fragIdx ≠ (reasm.restart fragment).nextIdx) :
    reasm.receive link fragment = some ((reasm.restart fragment).conclude link fragment) := by
  simp only [receive, if_neg hidx, hwf.restart.finish_eq]

/-- A data fragment leads to the branch on the last flag, or resets a message that is too long. -/
theorem Reasm.WellFormed.receive_concludes (hwf : reasm.WellFormed cfg) (link : Link)
    (fragment : Fragment) :
    (∃ stored : Reasm, stored.WellFormed cfg ∧
      reasm.receive link fragment = some (stored.conclude link fragment)) ∨
    reasm.receive link fragment = some ((reasm.restart fragment).reset, []) := by
  by_cases hidx : fragment.fragIdx = (reasm.restart fragment).nextIdx
  · rcases le_or_gt ((reasm.restart fragment).len + fragment.payload.length) cfg.maxFrame with
      hfits | hfull
    · obtain ⟨stored, hstored, -, -, -, hreceive⟩ := hwf.receive_expected link hidx hfits
      exact .inl ⟨stored, hstored, hreceive⟩
    · exact .inr (hwf.receive_overflow hidx hfull)
  · exact .inl ⟨_, hwf.restart, hwf.receive_skipped hidx⟩

/-- A data fragment never makes the bridge panic, and keeps the reassembly well formed. -/
theorem Reasm.WellFormed.receive (hwf : reasm.WellFormed cfg) (link : Link) (fragment : Fragment) :
    ∃ reasm' actions, reasm.receive link fragment = some (reasm', actions) ∧
      reasm'.WellFormed cfg := by
  rcases hwf.receive_concludes link fragment with ⟨stored, hstored, hreceive⟩ | hreceive
  · exact ⟨_, _, hreceive, hstored.conclude⟩
  · exact ⟨_, _, hreceive, hwf.restart.reset⟩

/-- A fragment without the last flag makes the receiver do nothing. -/
theorem Reasm.WellFormed.receive_of_not_last (hwf : reasm.WellFormed cfg) (link : Link)
    (hlast : ¬ fragment.last) :
    ∃ reasm', reasm.receive link fragment = some (reasm', []) ∧ reasm'.WellFormed cfg := by
  rcases hwf.receive_concludes link fragment with ⟨stored, hstored, hreceive⟩ | hreceive
  · rw [Reasm.conclude, if_neg hlast] at hreceive
    exact ⟨stored, hreceive, hstored⟩
  · exact ⟨_, hreceive, hwf.restart.reset⟩

end Reasm

section Receiver

variable {link : Link} {receiver : Receiver} {frame : List UInt8}

/-- The receive buffer has its length and the reassembly is well formed. -/
structure Receiver.WellFormed (link : Link) (receiver : Receiver) : Prop where
  length_rxBuf : receiver.rxBuf.length = rxBufLen
  reasm : receiver.reasm.WellFormed link.cfg

theorem Receiver.wellFormed_initial (link : Link) : (Receiver.initial link.cfg).WellFormed link :=
  ⟨List.length_replicate, Reasm.wellFormed_initial _⟩

/-- The parser's verdict on a frame that arrives. -/
def Receiver.parse (link : Link) (receiver : Receiver) (frame : List UInt8) : Option Verdict :=
  parseFrame link.cfg (recvInto receiver.rxBuf frame).1 (recvInto receiver.rxBuf frame).2

/-- Data on channel 0 goes through the reassembly. -/
theorem Receiver.receive_data {fragment : Fragment} {reasm : Reasm} {actions : List Action}
    (hparse : receiver.parse link frame = some (.accepted fragment)) (hchan : fragment.chan = 0)
    (hreasm : receiver.reasm.receive link fragment = some (reasm, actions)) :
    receiver.receive link frame =
      some (⟨(recvInto receiver.rxBuf frame).1, reasm⟩, ⟨.accepted fragment, actions⟩) := by
  rw [parse] at hparse
  simp [receive, hparse, hchan, hreasm]

/-- Every other frame leaves the reassembly alone and does nothing. -/
theorem Receiver.receive_other {verdict : Verdict}
    (hparse : receiver.parse link frame = some verdict)
    (hother : ∀ fragment, verdict = .accepted fragment → fragment.chan ≠ 0) :
    receiver.receive link frame =
      some (⟨(recvInto receiver.rxBuf frame).1, receiver.reasm⟩, ⟨verdict, []⟩) := by
  rw [parse] at hparse
  cases verdict with
  | accepted fragment => simp [receive, hparse, hother fragment rfl]
  | shortFrame => simp [receive, hparse]
  | wrongEthertype => simp [receive, hparse]
  | wrongVersion => simp [receive, hparse]
  | crcFail => simp [receive, hparse]

/-- The parser always reaches a verdict. -/
theorem Receiver.WellFormed.parse (hwf : receiver.WellFormed link) (frame : List UInt8) :
    ∃ verdict, receiver.parse link frame = some verdict := by
  refine Option.isSome_iff_exists.mp (parseFrame_isSome ?_ ?_)
  · rw [length_recvInto, hwf.length_rxBuf]
  · exact hwf.length_rxBuf ▸ min_le_right _ _

theorem Receiver.WellFormed.setReasm (hwf : receiver.WellFormed link) {reasm : Reasm}
    (hreasm : reasm.WellFormed link.cfg) (frame : List UInt8) :
    Receiver.WellFormed link ⟨(recvInto receiver.rxBuf frame).1, reasm⟩ :=
  ⟨(length_recvInto ..).trans hwf.length_rxBuf, hreasm⟩

/-- No frame makes the bridge panic, and every frame keeps the receiver well formed. -/
theorem Receiver.WellFormed.receive (hwf : receiver.WellFormed link) (frame : List UInt8) :
    ∃ receiver' reception, receiver.receive link frame = some (receiver', reception) ∧
      receiver'.WellFormed link := by
  obtain ⟨verdict, hparse⟩ := hwf.parse frame
  by_cases hdata : ∃ fragment, verdict = .accepted fragment ∧ fragment.chan = 0
  · obtain ⟨fragment, rfl, hchan⟩ := hdata
    obtain ⟨reasm, actions, hreasm, hwf'⟩ := hwf.reasm.receive link fragment
    exact ⟨_, _, receive_data hparse hchan hreasm, hwf.setReasm hwf' frame⟩
  · have hother : ∀ fragment, verdict = .accepted fragment → fragment.chan ≠ 0 :=
      fun fragment hverdict hchan ↦ hdata ⟨fragment, hverdict, hchan⟩
    exact ⟨_, _, receive_other hparse hother, hwf.setReasm hwf.reasm frame⟩

/-- Every reachable receiver is well formed. -/
theorem Reachable.wellFormed (hreach : Reachable link receiver) : receiver.WellFormed link := by
  obtain ⟨receptions, hrun⟩ := hreach
  refine hrun.invariant (fun _ receiver ↦ receiver.WellFormed link)
    (Receiver.wellFormed_initial link) ?_
  intro trace receiver frame receiver' events hprevious hwf hguard hstep
  obtain ⟨next, reception, hreceive, hwf'⟩ := hwf.receive frame
  simp only [receiverSystem, hreceive, Option.map_some, Option.some.injEq, Prod.mk.injEq] at hstep
  exact hstep.1 ▸ hwf'

end Receiver

end AarnnNsys.L2
