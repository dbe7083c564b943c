import AarnnNsys.L2.RoundTrip

/-!
# Fragments over a link that loses, duplicates and reorders

`lossySystem` is a receiver at the end of a link on which any frame of one sender arrives at any
time, any number of times or never (`mem_forwardAll_iff` says these are the sender's frames).

The branch on the last flag hands on whatever is in the buffer, also when the fragment that carries
the flag was not the expected one: `publishes_partial` loses the middle fragment of a message and
the receiver publishes its first fragment alone. `Unbroken` is the condition under which this does
not happen: the fragment that is stored continues the message that was started last, and a last
fragment that is not the expected one finds nothing in the buffer. In a run whose steps all meet it
every published message is one of the sender's (`publishes_sent`).

`IntactInv` is the invariant, for messages that go by any names, and `IntactInv.step` says what
keeps it, so the same lemma serves several senders on one segment.
-/

set_option autoImplicit false
set_option relaxedAutoImplicit false

namespace AarnnNsys.L2

open Bridge Lib

/-- A frame that arrives: fragment `fragment` of the sender's message `message`, and what is padded
behind it. -/
structure Arrived where
  message : ℕ
  fragment : ℕ
  padding : List UInt8

section Model

variable (sender receiver : Link) (msgIdCtr : UInt16) (messages : List (List UInt8))

/-- The bytes of the frame that arrives, if the sender has such a frame. -/
def Arrived.bytes? (arrived : Arrived) : Option (List UInt8) := do
  let message ← messages[arrived.message]?
  if arrived.fragment < fragmentCount message then
    return fragmentFrame sender 0 (nextTtl sender.cfg.ttl) (msgIdOf msgIdCtr arrived.message)
      message arrived.fragment ++ arrived.padding
  else none

/-- A receiver at the end of a link that loses, duplicates and reorders the frames of a sender. A
frame arrives padded up to the length of the receive buffer at most. -/
def lossySystem : TransitionSystem Receiver Arrived (Arrived × Reception) where
  init := .initial receiver.cfg
  step state arrived := do
    let frame ← arrived.bytes? sender msgIdCtr messages
    if frame.length ≤ rxBufLen then
      let (state', reception) ← state.receive receiver frame
      return (state', [(arrived, reception)])
    else none

/-- The messages published in the course of a run. -/
def publishedIn (trace : List (Arrived × Reception)) : List (List UInt8) :=
  published (trace.flatMap fun event ↦ event.2.actions)

/-- The message of the last fragment with index 0 that arrived. -/
def lastStarted (trace : List (Arrived × Reception)) : Option ℕ :=
  (trace.filter fun event ↦ event.1.fragment == 0).getLast?.map fun event ↦ event.1.message

/-- The condition on a fragment that arrives and does not start a message: where it is the expected
one, it belongs to the message that was started last, and where it is a last fragment but not the
expected one, the buffer is empty. -/
def Unbroken : Guard Receiver Arrived (Arrived × Reception) := fun trace state arrived ↦
  state.reasm.id = msgIdOf msgIdCtr arrived.message → arrived.fragment ≠ 0 →
    (state.reasm.nextIdx = UInt16.ofNat arrived.fragment →
      lastStarted trace = some arrived.message) ∧
    (state.reasm.nextIdx ≠ UInt16.ofNat arrived.fragment →
      (∀ message, messages[arrived.message]? = some message →
        arrived.fragment + 1 = fragmentCount message → state.reasm.len = 0))

end Model

variable {sender receiver : Link} {msgIdCtr : UInt16} {messages : List (List UInt8)}

theorem mem_framesFrom_zero {message frame : List UInt8} :
    frame ∈ framesFrom sender msgIdCtr message 0 ↔ ∃ i, i < fragmentCount message ∧
      fragmentFrame sender 0 (nextTtl sender.cfg.ttl) msgIdCtr message i = frame := by
  simp [framesFrom, List.mem_map, List.mem_range'_1]

/-- The frames that may arrive are those that the sender sends. -/
theorem mem_forwardAll_iff {frame : List UInt8} :
    frame ∈ forwardAll sender msgIdCtr messages ↔
      ∃ k i, Arrived.bytes? sender msgIdCtr messages ⟨k, i, []⟩ = some frame := by
  induction messages generalizing msgIdCtr with
  | nil => simp [forwardAll, Arrived.bytes?]
  | cons message rest ih =>
    rw [forwardAll, forward_eq, List.mem_append, mem_framesFrom_zero, ih]
    constructor
    · rintro (⟨i, hi, hframe⟩ | ⟨k, i, hframe⟩)
      · exact ⟨0, i, by simp [Arrived.bytes?, hi, hframe, msgIdOf_zero]⟩
      · exact ⟨k + 1, i, by simpa [Arrived.bytes?, msgIdOf_succ] using hframe⟩
    · rintro ⟨k, i, hframe⟩
      cases k with
      | zero => exact .inl ⟨i, by simpa [Arrived.bytes?, msgIdOf_zero] using hframe⟩
      | succ k => exact .inr ⟨k, i, by simpa [Arrived.bytes?, msgIdOf_succ] using hframe⟩

/-- Everything a step does: the frame is one of the sender's, and the receiver receives it. -/
theorem lossySystem_step {state state' : Receiver} {arrived : Arrived}
    {events : List (Arrived × Reception)}
    (hstep : (lossySystem sender receiver msgIdCtr messages).step state arrived =
      some (state', events)) :
    ∃ message reception, messages[arrived.message]? = some message ∧
      arrived.fragment < fragmentCount message ∧
      (fragmentFrame sender 0 (nextTtl sender.cfg.ttl) (msgIdOf msgIdCtr arrived.message) message
        arrived.fragment ++ arrived.padding).length ≤ rxBufLen ∧
      state.receive receiver (fragmentFrame sender 0 (nextTtl sender.cfg.ttl)
        (msgIdOf msgIdCtr arrived.message) message arrived.fragment ++ arrived.padding) =
          some (state', reception) ∧
      events = [(arrived, reception)] := by
  simp only [lossySystem, Arrived.bytes?, Option.bind_eq_bind, Option.bind_eq_some_iff] at hstep
  obtain ⟨frame, ⟨message, hmessage, hframe⟩, hstep⟩ := hstep
  split at hframe
  · rename_i hfragment
    obtain rfl := Option.some.inj hframe
    split at hstep
    · rename_i hlength
      simp only [Option.bind_eq_some_iff, Option.pure_def, Option.some.injEq, Prod.mk.injEq,
        Prod.exists] at hstep
      obtain ⟨next, reception, hreceive, rfl, rfl⟩ := hstep
      exact ⟨message, reception, hmessage, hfragment, hlength, hreceive, rfl⟩
    · simp at hstep
  · simp at hframe

/-- A frame of the sender's that fits the receive buffer may arrive at any time. -/
theorem lossySystem_step_of {state state' : Receiver} {arrived : Arrived} {message : List UInt8}
    {reception : Reception} (hmessage : messages[arrived.message]? = some message)
    (hi : arrived.fragment < fragmentCount message)
    (hlength : (fragmentFrame sender 0 (nextTtl sender.cfg.ttl) (msgIdOf msgIdCtr arrived.message)
      message arrived.fragment ++ arrived.padding).length ≤ rxBufLen)
    (hreceive : state.receive receiver (fragmentFrame sender 0 (nextTtl sender.cfg.ttl)
      (msgIdOf msgIdCtr arrived.message) message arrived.fragment ++ arrived.padding) =
        some (state', reception)) :
    (lossySystem sender receiver msgIdCtr messages).step state arrived =
      some (state', [(arrived, reception)]) := by
  rw [List.length_append] at hlength
  simp [lossySystem, Arrived.bytes?, hmessage, hi, hlength, hreceive]

theorem publishedIn_append (trace : List (Arrived × Reception)) (arrived : Arrived)
    (reception : Reception) :
    publishedIn (trace ++ [(arrived, reception)]) =
      publishedIn trace ++ published reception.actions := by
  simp [publishedIn, List.flatMap_append]

theorem lastStarted_append (trace : List (Arrived × Reception)) (arrived : Arrived)
    (reception : Reception) :
    lastStarted (trace ++ [(arrived, reception)]) =
      if arrived.fragment = 0 then some arrived.message else lastStarted trace := by
  by_cases hstart : arrived.fragment = 0 <;> simp [lastStarted, List.filter_append, hstart]

/-- An index in a message is not that of another fragment of it, nor of its end. -/
theorem eq_of_ofNat_eq {n i : ℕ} (hn : n ≤ 65536) (hi : i < 65536) (hpos : i ≠ 0)
    (heq : UInt16.ofNat n = UInt16.ofNat i) : n = i := by
  rw [ofNat_eq_iff] at heq
  omega

/-! ### What keeps messages whole -/

/-- What holds of a receiver of the messages that `find` names, where the first fragment that has
arrived last is one of the message `started`: what has been delivered are messages, and a message in
progress is the one started last, its fragments before the next one in the buffer. -/
structure IntactInv {Name : Type} (receiver : Link) (find : Name → Option (List UInt8))
    (started : Option Name) (delivered : List (List UInt8)) (state : Receiver) : Prop where
  wellFormed : state.WellFormed receiver
  delivered_mem : ∀ message ∈ delivered, ∃ name, find name = some message
  progress : state.reasm.nextIdx ≠ 0 → ∃ name message n, find name = some message ∧
    started = some name ∧ n ≤ 65536 ∧ state.reasm.nextIdx = UInt16.ofNat n ∧
    state.reasm.content =
      if n = fragmentCount message then [] else message.take (n * mtuPayload)

namespace IntactInv

variable {Name : Type} {find : Name → Option (List UInt8)} {started : Option Name}
  {delivered : List (List UInt8)} {state : Receiver} {name : Name} {message : List UInt8} {i : ℕ}

theorem init (receiver : Link) (find : Name → Option (List UInt8)) (started : Option Name) :
    IntactInv receiver find started [] (.initial receiver.cfg) :=
  ⟨Receiver.wellFormed_initial receiver, fun _ hmem ↦ absurd hmem List.not_mem_nil,
    fun hnext ↦ absurd rfl hnext⟩

/-- The expected fragment of the message started last finds the fragments before it. -/
theorem content_eq (hinv : IntactInv receiver find started delivered state)
    (hmessage : find name = some message) (hstarted : started = some name)
    (hi : i < fragmentCount message) (hidx : i < 65536) (hpos : 0 < i)
    (hnext : state.reasm.nextIdx = UInt16.ofNat i) :
    state.reasm.content = message.take (i * mtuPayload) := by
  obtain ⟨other, message', n, hother, hlast, hn, hnext', hcontent⟩ :=
    hinv.progress (hnext ▸ ofNat_ne_zero hpos.ne' hidx)
  obtain rfl : name = other := Option.some.inj (hstarted.symm.trans hlast)
  obtain rfl : message = message' := Option.some.inj (hmessage.symm.trans hother)
  obtain rfl : n = i := eq_of_ofNat_eq hn hidx hpos.ne' (hnext'.symm.trans hnext)
  rw [hcontent, if_neg hi.ne]

/-- A fragment of a message keeps the invariant. Assumes: its number does not wrap, and if it does
not start the message, then where it is the expected one its message was started last, and where it
is a last fragment but not the expected one the buffer is empty. -/
theorem step (hinv : IntactInv receiver find started delivered state) {padding : List UInt8}
    {ttl : UInt8} {msgId : UInt16} {state' : Receiver} {reception : Reception}
    (hether : sender.cfg.ethertype = receiver.cfg.ethertype) (hmessage : find name = some message)
    (hi : i < fragmentCount message) (hidx : i < 65536)
    (hexpected : 0 < i → state.reasm.id = msgId → state.reasm.nextIdx = UInt16.ofNat i →
      started = some name)
    (hskipped : 0 < i → state.reasm.id = msgId → state.reasm.nextIdx ≠ UInt16.ofNat i →
      i + 1 = fragmentCount message → state.reasm.len = 0)
    (hlength : (fragmentFrame sender 0 ttl msgId message i ++ padding).length ≤ rxBufLen)
    (hreceive : state.receive receiver (fragmentFrame sender 0 ttl msgId message i ++ padding) =
      some (state', reception)) :
    IntactInv receiver find (if i = 0 then some name else started)
      (delivered ++ published reception.actions) state' := by
  obtain ⟨next, own, hreceive', hwf, hpublished, hkept⟩ :=
    receive_fragmentFrame_any hether hinv.wellFormed hi hidx
      (fun hpos hid hnext ↦
        hinv.content_eq hmessage (hexpected hpos hid hnext) hi hidx hpos hnext)
      hskipped ttl hlength
  rw [hreceive', Option.some.injEq, Prod.mk.injEq] at hreceive
  obtain ⟨rfl, rfl⟩ := hreceive
  refine ⟨hwf, fun other hmem ↦ ?_, fun hne ↦ ?_⟩
  · rcases List.mem_append.mp hmem with hold | hnew
    · exact hinv.delivered_mem other hold
    · exact ⟨name, hpublished other hnew ▸ hmessage⟩
  · rcases hkept hne with hstored | ⟨hpos, hsame⟩
    · refine ⟨name, message, i + 1, hmessage, ?_, hidx, hstored.nextIdx, hstored.content⟩
      split
      · rfl
      · rename_i hother
        obtain ⟨hid, hnext⟩ := hstored.expected (Nat.pos_of_ne_zero hother)
        exact hexpected (Nat.pos_of_ne_zero hother) hid hnext
    · rw [hsame] at hne ⊢
      rw [if_neg hpos.ne']
      exact hinv.progress hne

end IntactInv

/-- No partial message is published in an unbroken run. Assumes: both ends use one EtherType, and
every message fits the receiver's buffer and the sixteen-bit fragment numbers. -/
theorem publishes_sent (hether : sender.cfg.ethertype = receiver.cfg.ethertype)
    (hmessages : ∀ message ∈ messages,
      message.length ≤ receiver.cfg.maxFrame ∧ message.length ≤ 65536 * mtuPayload)
    {trace : List (Arrived × Reception)} {state : Receiver}
    (hrun : Run (lossySystem sender receiver msgIdCtr messages) (Unbroken msgIdCtr messages) trace
      state) :
    ∀ message ∈ publishedIn trace, message ∈ messages := by
  have hinv : IntactInv receiver (fun k : ℕ ↦ messages[k]?) (lastStarted trace)
      (publishedIn trace) state := by
    refine hrun.invariant (fun trace state ↦ IntactInv receiver (fun k : ℕ ↦ messages[k]?)
      (lastStarted trace) (publishedIn trace) state) (.init receiver _ none) ?_
    intro trace state arrived state' events _ hinv hunbroken hstep
    obtain ⟨message, reception, hmessage, hi, hlength, hreceive, rfl⟩ := lossySystem_step hstep
    have hcount : fragmentCount message ≤ 65536 :=
      (chunkCount_le_iff mtuPayload_pos).mpr (hmessages message (List.mem_of_getElem? hmessage)).2
    rw [publishedIn_append, lastStarted_append]
    exact hinv.step hether hmessage hi (hi.trans_le hcount)
      (fun hpos hid ↦ (hunbroken hid hpos.ne').1)
      (fun hpos hid hnext ↦ (hunbroken hid hpos.ne').2 hnext message hmessage) hlength hreceive
  intro message hmem
  obtain ⟨k, hmessage⟩ := hinv.delivered_mem message hmem
  exact List.mem_of_getElem? hmessage

/-- The next fragment of the message in progress may arrive, unpadded. -/
theorem lossySystem_next {state : Receiver} {message : List UInt8} (k : ℕ) {i : ℕ}
    (hether : sender.cfg.ethertype = receiver.cfg.ethertype) (hwf : state.WellFormed receiver)
    (hmessage : messages[k]? = some message) (hfits : message.length ≤ receiver.cfg.maxFrame)
    (hi : i < fragmentCount message) (hidx : i < 65536)
    (hprogress : InProgress state.reasm (msgIdOf msgIdCtr k) message i) :
    ∃ reception state', (lossySystem sender receiver msgIdCtr messages).step state ⟨k, i, []⟩ =
        some (state', [(⟨k, i, []⟩, reception)]) ∧ state'.WellFormed receiver ∧
      state'.reasm.id = msgIdOf msgIdCtr k ∧ state'.reasm.nextIdx = UInt16.ofNat (i + 1) ∧
      state'.reasm.content =
        (if i + 1 = fragmentCount message then [] else message.take ((i + 1) * mtuPayload)) ∧
      published reception.actions = if i + 1 = fragmentCount message then [message] else [] := by
  obtain ⟨state', hwf', hid, hnext, hcontent, hreceive⟩ :=
    receive_fragmentFrame hether hwf hprogress hi hidx ((List.length_take_le' _ _).trans hfits)
      (nextTtl sender.cfg.ttl) (length_unpadded_le _ _ _ hi)
  refine ⟨_, state', lossySystem_step_of hmessage hi (length_unpadded_le _ _ _ hi) hreceive, hwf',
    hid, hnext, hcontent, ?_⟩
  split
  · exact published_delivery _ _ _ _
  · rfl

/-- The next fragment of the message in progress arrives in a run whose guard lets it. -/
theorem run_next {guard : Guard Receiver Arrived (Arrived × Reception)}
    {trace : List (Arrived × Reception)} {state : Receiver} {message : List UInt8} (k : ℕ) {i : ℕ}
    (hrun : Run (lossySystem sender receiver msgIdCtr messages) guard trace state)
    (hether : sender.cfg.ethertype = receiver.cfg.ethertype) (hwf : state.WellFormed receiver)
    (hmessage : messages[k]? = some message) (hfits : message.length ≤ receiver.cfg.maxFrame)
    (hi : i < fragmentCount message) (hidx : i < 65536)
    (hprogress : InProgress state.reasm (msgIdOf msgIdCtr k) message i)
    (hguard : guard trace state ⟨k, i, []⟩) :
    ∃ reception state', Run (lossySystem sender receiver msgIdCtr messages) guard
        (trace ++ [(⟨k, i, []⟩, reception)]) state' ∧ state'.WellFormed receiver ∧
      state'.reasm.id = msgIdOf msgIdCtr k ∧ state'.reasm.nextIdx = UInt16.ofNat (i + 1) ∧
      state'.reasm.content =
        (if i + 1 = fragmentCount message then [] else message.take ((i + 1) * mtuPayload)) ∧
      published reception.actions = if i + 1 = fragmentCount message then [message] else [] := by
  obtain ⟨reception, state', hstep, hkept⟩ :=
    lossySystem_next k hether hwf hmessage hfits hi hidx hprogress
  exact ⟨reception, state', hrun.next hguard hstep, hkept⟩

/-- A message of two fragments whose last one arrives twice, between two arrivals of a short message
that was sent after it. -/
theorem publishes_sent_reordered : ∃ (trace : List (Arrived × Reception)) (state : Receiver),
    Run (lossySystem (.defaults (Vector.replicate 6 1)) (.defaults (Vector.replicate 6 2)) 1
      [twoFragments 7, [8, 9]]) (Unbroken 1 [twoFragments 7, [8, 9]]) trace state ∧
    trace.map (fun event ↦ (event.1.message, event.1.fragment)) =
      [(1, 0), (0, 0), (0, 1), (0, 1), (1, 0)] ∧
    publishedIn trace = [[8, 9], twoFragments 7, [8, 9]] ∧
    ∀ message ∈ publishedIn trace, message ∈ [twoFragments 7, [8, 9]] := by
  set sender : Link := .defaults (Vector.replicate 6 1)
  set receiver : Link := .defaults (Vector.replicate 6 2)
  set messages : List (List UInt8) := [twoFragments 7, [8, 9]]
  have hether : sender.cfg.ethertype = receiver.cfg.ethertype := rfl
  have hcount := fragmentCount_twoFragments 7
  have hone : 1 < fragmentCount (twoFragments 7) := by omega
  have hzero : 0 < fragmentCount (twoFragments 7) := by omega
  have hfits := twoFragments_fits (Vector.replicate 6 2) 7
  have hshort : ([8, 9] : List UInt8).length ≤ receiver.cfg.maxFrame := by decide
  have hsingle : 0 < fragmentCount [8, 9] := by decide
  have hfirst : ∀ {reasm : Reasm} {msgId : UInt16} {message : List UInt8},
      InProgress reasm msgId message 0 := fun hpos ↦ absurd hpos (lt_irrefl 0)
  have hstarts : ∀ (trace : List (Arrived × Reception)) (state : Receiver) (k : ℕ),
      Unbroken 1 messages trace state ⟨k, 0, []⟩ := fun _ _ _ _ hother ↦ absurd rfl hother
  have hstart : Run (lossySystem sender receiver 1 messages) (Unbroken 1 messages) []
    (.initial receiver.cfg) := .start
  obtain ⟨_, _, hrun, hwf, -, -, -, hpublished₁⟩ :=
    run_next 1 hstart hether (Receiver.wellFormed_initial receiver) rfl hshort hsingle (by decide)
      hfirst (hstarts _ _ 1)
  obtain ⟨second, _, hrun, hwf, hid, hnext, hcontent, hpublished₂⟩ :=
    run_next 0 hrun hether hwf rfl hfits hzero (by decide) hfirst (hstarts _ _ 0)
  rw [if_neg (by omega)] at hcontent hpublished₂
  -- the last fragment is the expected one, and belongs to the message started last
  have hlast : ∀ (trace : List (Arrived × Reception)),
      lastStarted (trace ++ [(⟨0, 0, []⟩, second)]) = some 0 := by
    intro trace
    rw [lastStarted_append]
    rfl
  obtain ⟨third, state₃, hrun, hwf, hid, hnext, hcontent, hpublished₃⟩ :=
    run_next 0 hrun hether hwf rfl hfits hone (by decide) (fun _ _ ↦ ⟨hid, hnext, hcontent⟩)
      (fun _ _ ↦ ⟨fun _ ↦ hlast _, fun hother ↦ absurd hnext hother⟩)
  rw [if_pos (by omega)] at hcontent hpublished₃
  -- when it arrives again the buffer is empty
  have hempty : state₃.reasm.len = 0 := hwf.reasm.content_eq_nil_iff.mp hcontent
  have hother : state₃.reasm.nextIdx ≠ UInt16.ofNat 1 := by
    rw [hnext]
    decide
  obtain ⟨_, fourth, hreceive, hwf, -, hpublished₄⟩ :=
    receive_skippedFrame hether hwf hone (by decide) Nat.one_pos hid hother (fun _ ↦ hempty)
      (nextTtl sender.cfg.ttl) (length_unpadded_le _ _ _ hone)
  have hstep : (lossySystem sender receiver 1 messages).step state₃ ⟨0, 1, []⟩ =
      some (_, [(⟨0, 1, []⟩, fourth)]) :=
    lossySystem_step_of rfl hone (length_unpadded_le _ _ _ hone) hreceive
  have hrun := hrun.next (fun _ _ ↦ ⟨fun hsame ↦ absurd hsame hother, fun _ _ _ _ ↦ hempty⟩) hstep
  obtain ⟨fifth, state, hrun, -, -, -, -, hpublished₅⟩ :=
    run_next 1 hrun hether hwf rfl hshort hsingle (by decide) hfirst (hstarts _ _ 1)
  refine ⟨_, state, hrun, rfl, ?_, publishes_sent hether ?_ hrun⟩
  · simp only [publishedIn_append, hpublished₁, hpublished₂, hpublished₃, hpublished₄, hpublished₅]
    rfl
  · simp only [messages, List.forall_mem_cons, length_twoFragments]
    decide

/-- The step that an unbroken run leaves out: a last fragment that is not the expected one publishes
what is in the buffer. -/
theorem receive_broken {state : Receiver} {frame : List UInt8} {wire : Fragment}
    (hwf : state.WellFormed receiver)
    (hparse : state.parse receiver frame = some (.accepted wire)) (hchan : wire.chan = 0)
    (hstarts : ¬ state.reasm.startsOver wire) (hskipped : wire.fragIdx ≠ state.reasm.nextIdx)
    (hlast : wire.last) (hcontent : state.reasm.content ≠ []) :
    ∃ state' reception, state.receive receiver frame = some (state', reception) ∧
      published reception.actions = [state.reasm.content] := by
  have hrestart := Reasm.restart_of_not hstarts
  have hreasm : state.reasm.receive receiver wire = _ :=
    hwf.reasm.receive_skipped (hrestart.symm ▸ hskipped)
  rw [hrestart, Reasm.conclude, if_pos hlast, completion_of_ne_nil hcontent] at hreasm
  exact ⟨_, _, Receiver.receive_data hparse hchan hreasm, published_delivery ..⟩

/-- A message of three fragments or more of which only the first and the last arrive: the receiver
publishes the first one alone. -/
theorem publishes_first_fragment (sender receiver : Link) (msgIdCtr : UInt16)
    (hether : sender.cfg.ethertype = receiver.cfg.ethertype) {message : List UInt8}
    (hfits : message.length ≤ receiver.cfg.maxFrame)
    (hmany : 3 ≤ fragmentCount message) (hcount : fragmentCount message ≤ 65536) :
    ∃ trace state, Run (lossySystem sender receiver msgIdCtr [message]) unguarded trace state ∧
      publishedIn trace = [message.take mtuPayload] := by
  set last := fragmentCount message - 1 with hlast
  have hzero : 0 < fragmentCount message := by omega
  have hlt : last < fragmentCount message := by omega
  have hbound : last < 65536 := by omega
  -- the first fragment is stored
  have hmessage : [message][0]? = some message := rfl
  have hfirst : InProgress (Receiver.initial receiver.cfg).reasm (msgIdOf msgIdCtr 0) message 0 :=
    fun hpos ↦ absurd hpos (lt_irrefl 0)
  obtain ⟨first, middle, hstored, hmiddle, hid, hnext, hcontent, hsilent⟩ :=
    lossySystem_next 0 hether (Receiver.wellFormed_initial receiver) hmessage hfits hzero
      (by decide) hfirst
  rw [if_neg (by omega)] at hcontent hsilent
  -- the last one is not the expected one
  set wire := (fragment message last).onWire 0 (nextTtl sender.cfg.ttl) (msgIdOf msgIdCtr 0)
  have hparse : middle.parse receiver _ = some (.accepted wire) :=
    parseFrame_fragmentFrame hether hmiddle.length_rxBuf hlt (length_unpadded_le _ _ _ hlt)
  have hskipped : wire.fragIdx ≠ middle.reasm.nextIdx := by
    rw [hnext]
    intro heq
    have hone : last = 1 := eq_of_ofNat_eq hbound.le (by decide) one_ne_zero heq
    omega
  have hstarts : ¬ middle.reasm.startsOver wire :=
    Reasm.not_startsOver_onWire hid (by omega) hbound _
  have hfull : middle.reasm.content ≠ [] := by
    rw [hcontent, zero_add, one_mul]
    exact payload_ne_nil hzero
  have hflag : wire.last := by
    rw [Piece.last_onWire]
    exact decide_eq_true (by omega)
  obtain ⟨final, reception, hreceive', hpublished⟩ :=
    receive_broken hmiddle hparse rfl hstarts hskipped hflag hfull
  have hsecond : (lossySystem sender receiver msgIdCtr [message]).step middle ⟨0, last, []⟩ =
      some (final, [(⟨0, last, []⟩, reception)]) :=
    lossySystem_step_of hmessage hlt (length_unpadded_le _ _ _ hlt) hreceive'
  refine ⟨_, final, (Run.start.next trivial hstored).next trivial hsecond, ?_⟩
  rw [publishedIn_append, publishedIn_append, hsilent, hpublished, hcontent, zero_add, one_mul]
  rfl

/-- Three fragments, of which the middle one is lost: what the receiver publishes is no message of
the sender's. -/
theorem publishes_partial : ∃ (messages : List (List UInt8)) (trace : List (Arrived × Reception))
    (state : Receiver),
    (∀ message ∈ messages, message.length ≤ Cfg.defaults.maxFrame ∧
      message.length ≤ 65536 * mtuPayload) ∧
    Run (lossySystem (.defaults (Vector.replicate 6 1)) (.defaults (Vector.replicate 6 2)) 1
      messages) unguarded trace state ∧
    ∃ message ∈ publishedIn trace, message ∉ messages := by
  set message : List UInt8 := List.replicate 2949 0
  have hlength : message.length = 2949 := List.length_replicate
  have hcount : fragmentCount message = 3 := by
    rw [fragmentCount, hlength]
    rfl
  have hfits : message.length ≤ Cfg.defaults.maxFrame := by
    rw [hlength]
    decide
  obtain ⟨trace, state, hrun, hpublished⟩ :=
    publishes_first_fragment (.defaults (Vector.replicate 6 1)) (.defaults (Vector.replicate 6 2)) 1
      rfl hfits hcount.ge (hcount.trans_le (by decide))
  refine ⟨[message], trace, state, ?_, hrun, message.take mtuPayload, ?_, ?_⟩
  · intro other hother
    obtain rfl := List.mem_singleton.mp hother
    exact ⟨hfits, by rw [hlength]; decide⟩
  · rw [hpublished]
    exact List.mem_singleton_self _
  · intro hmem
    have hsame := congrArg List.length (List.mem_singleton.mp hmem)
    rw [List.length_take, hlength] at hsame
    exact absurd hsame (by decide)

end AarnnNsys.L2
