import AarnnNsys.Bridge.Network

/-!
# The hop limit

Every frame has a ttl, and a bridge gives the messages that it takes from its bus the one of its own
command line, less one: the bus does not keep the ttl a message has arrived with, and the ttl that a
bridge reads off a frame only goes into the acknowledgement. So a message that has come over a link
is forwarded with the ttl it came with, again and again, also when that is 0
(`hop_limit_exceeded`).

`OriginInv` is the invariant of the history, for any property of the origins on the buses and of
those on the segments that the steps carry over. `hop_limit` instantiates it twice: in every run a
data frame has less ttl than its message arrived with exactly when an application has published the
message on that very bus and the limit is not 0; and in the runs in which bridges take nothing else,
the limit is observed (`HopLimited`).
-/

set_option autoImplicit false
set_option relaxedAutoImplicit false

namespace AarnnNsys.Bridge

open Function Lib

/-! ### What the bridge does with a frame -/

section Device

variable {link : L2.Link} {state after : L2State}

/-- The frames of a message that is taken from the bus have the bridge's own ttl, less one. -/
theorem rttl_of_mem_forward {message frame : List UInt8}
    (hmem : frame ∈ ((l2bridge link).forward state message).2) :
    rttl frame = L2.nextTtl link.cfg.ttl := by
  obtain ⟨piece, -, rfl⟩ := List.mem_map.mp hmem
  rw [rttl, List.getD_eq_getElem?_getD, L2.getElem?_buildFrag_ttl]
  rfl

/-- An acknowledgement is no data. -/
theorem not_isData_of_isAck {frame : List UInt8} (hack : L2.IsAck frame) : ¬ IsData frame := by
  rw [IsData, hack]
  decide

/-- A look at the link: what it makes the bridge send is acknowledgements, and it publishes
something only if it has found a frame that is none. -/
theorem l2bridge_receive {found : Found} {pending : List Action}
    (hwf : state.receiver.WellFormed link)
    (hreceive : (l2bridge link).receive state found = some (after, pending)) :
    after.receiver.WellFormed link ∧ (∀ frame ∈ sent pending, L2.IsAck frame) ∧
      (published pending ≠ [] → ∃ frame, found = some frame ∧ ¬ L2.IsAck frame) := by
  cases found with
  | none =>
    obtain ⟨rfl, rfl⟩ : state = after ∧ [] = pending := by simpa [l2bridge] using hreceive
    exact ⟨hwf, List.forall_mem_nil _, fun hne ↦ absurd rfl hne⟩
  | some frame =>
    simp only [l2bridge, Option.bind_eq_bind, Option.bind_eq_some_iff, Prod.exists] at hreceive
    obtain ⟨receiver, reception, htaken, hresult⟩ := hreceive
    obtain ⟨rfl, rfl⟩ := Prod.mk.inj (Option.some.inj hresult)
    refine ⟨?_, fun other hmem ↦ hwf.isAck_of_mem htaken hmem,
      fun hne ↦ ⟨frame, rfl, fun hack ↦ hne ?_⟩⟩
    · obtain ⟨receiver', reception', htaken', hwf'⟩ := hwf.receive frame
      obtain ⟨rfl, -⟩ := Prod.mk.inj (Option.some.inj (htaken.symm.trans htaken'))
      exact hwf'
    · obtain ⟨receiver', reception', htaken', -, -, hnothing⟩ :=
        L2.receive_noise hwf (.channelOne hack)
      obtain ⟨-, rfl⟩ := Prod.mk.inj (Option.some.inj (htaken.symm.trans htaken'))
      rw [hnothing]
      rfl

end Device

/-- Only the threads of producers claim. -/
theorem claims_of_consumer {g : Bus.Geometry} {bus bus' : Bus.State} {action : Bus.Action}
    {events : List Bus.Event} (hconsumer : ∀ p act, action ≠ .producer p act)
    (hstep : Bus.step g bus action = some (bus', events)) : Bus.claims events = [] := by
  cases Bus.step_cases hstep with
  | producer => exact absurd rfl (hconsumer _ _)
  | subscriber => exact Bus.claims_map_subscriber _ _
  | reader => exact Bus.claims_map_reader _ _

/-- A receive call that returns a message was about to store its cursor. -/
theorem returning_of_received {g : Bus.Geometry} {bus bus' : Bus.State} {r : ℕ}
    {events : List Bus.Event} {message : List UInt8}
    (hstep : Bus.step g bus (.reader r .next) = some (bus', events))
    (hmessage : (Bus.received r events).head? = some message) :
    ∃ seq, (bus.readers r).pc.returning? = some seq := by
  cases Bus.step_cases hstep with
  | @reader r act m t own hthread =>
    cases hthread with
    | storeSeq seq out hpc => exact ⟨seq, by rw [hpc]; rfl⟩
    | _ => cases hmessage

/-! ### The invariant of the history -/

/-- What holds of the origins on the buses and of those on the segments. -/
structure OriginInv (net : Network) (onBus onLink : Origin → Prop) (s : NetState) : Prop where
  receivers : ∀ i, (s.devices i).receiver.WellFormed (net.link i)
  acks : ∀ i, ∀ frame ∈ sent ((s.phases i).pending []), L2.IsAck frame
  publishing : ∀ i, (s.phases i).Publishes → onBus (s.publishing i)
  logged : ∀ b, ∀ origin ∈ s.logs b, onBus origin
  written : ∀ l, ∀ carried ∈ s.segments l, L2.IsAck carried.bytes ∨
    rttl carried.bytes = L2.nextTtl net.ttl ∧ onLink carried.origin

namespace OriginInv

variable {net : Network} {onBus onLink : Origin → Prop} {s s' : NetState}

/-- The invariant holds of fresh buses. -/
theorem init (net : Network) (onBus onLink : Origin → Prop) :
    OriginInv net onBus onLink (netSystem net).init where
  receivers := fun i ↦ L2.Receiver.wellFormed_initial (net.link i)
  acks := fun _ _ hmem ↦ nomatch hmem
  publishing := fun _ hpublishes ↦ hpublishes.elim
  logged := fun _ _ hmem ↦ nomatch hmem
  written := fun _ _ hmem ↦ nomatch hmem

/-- A step of a bus keeps the invariant, if what is new in its log has an origin as it should. -/
theorem withBus (hinv : OriginInv net onBus onLink s) {b : ℕ} (bus : Bus.State)
    {events : List Bus.Event} {origin : Origin} (horigin : Bus.claims events ≠ [] → onBus origin) :
    OriginInv net onBus onLink (s.withBus b bus events origin) := by
  refine ⟨hinv.receivers, hinv.acks, hinv.publishing, fun b' other hmem ↦ ?_, hinv.written⟩
  simp only [NetState.withBus] at hmem
  by_cases hb : b' = b
  · rw [hb, update_self, List.mem_append, List.mem_map] at hmem
    rcases hmem with hmem | ⟨claim, hclaim, rfl⟩
    · exact hinv.logged b other hmem
    · exact horigin (List.ne_nil_of_mem hclaim)
  · rw [update_of_ne hb] at hmem
    exact hinv.logged b' other hmem

/-- A step of a bridge keeps the invariant, if what it writes is as it should be. -/
theorem withBridge (hinv : OriginInv net onBus onLink s) {i : ℕ} {loop : LoopState L2State}
    {written : List (List UInt8)} {origin : Origin}
    (hwf : loop.device.receiver.WellFormed (net.link i))
    (hacks : ∀ frame ∈ sent (loop.phase.pending []), L2.IsAck frame)
    (hpublishes : loop.phase.Publishes → onBus (s.publishing i))
    (hwritten : ∀ frame ∈ written, L2.IsAck frame ∨
      rttl frame = L2.nextTtl net.ttl ∧ onLink origin) :
    OriginInv net onBus onLink (s.withBridge net i loop written origin) := by
  refine ⟨fun j ↦ ?_, fun j ↦ ?_, fun j ↦ ?_, hinv.logged, fun l carried hmem ↦ ?_⟩
  · simp only [NetState.withBridge, update_apply]
    split_ifs with hj
    · rw [hj]
      exact hwf
    · exact hinv.receivers j
  · simp only [NetState.withBridge, update_apply]
    split_ifs with hj
    · exact hacks
    · exact hinv.acks j
  · simp only [NetState.withBridge, update_apply]
    split_ifs with hj
    · rw [hj]
      exact hpublishes
    · exact hinv.publishing j
  · simp only [NetState.withBridge] at hmem
    by_cases hl : l = net.segment i
    · rw [hl, update_self, List.mem_append, List.mem_map] at hmem
      rcases hmem with hmem | ⟨frame, hframe, rfl⟩
      · exact hinv.written _ carried hmem
      · exact hwritten frame hframe
    · rw [update_of_ne hl] at hmem
      exact hinv.written l carried hmem

/-- The origin of a message that is taken is one of the log. -/
theorem origin_of_takes (hinv : OriginInv net onBus onLink s) (hfresh : onBus net.fresh) {i seq : ℕ}
    (htakes : s.takes? net i = some seq) : onBus (s.origin net i) := by
  simp only [NetState.origin, htakes, List.getD_eq_getElem?_getD]
  cases hget : (s.logs (net.bus i))[seq]? with
  | none => exact hfresh
  | some origin => exact hinv.logged _ origin (List.mem_of_getElem? hget)

/-- What a bridge that may publish claims has the origin that it keeps. -/
theorem origin_of_publishes (hinv : OriginInv net onBus onLink s) {i : ℕ}
    (hpublishes : (s.phases i).Publishes) : onBus (s.origin net i) := by
  have hnone : s.takes? net i = none := by
    unfold NetState.takes?
    split
    · rename_i hphase
      rw [hphase] at hpublishes
      exact hpublishes.elim
    · rfl
  simp only [NetState.origin, hnone]
  exact hinv.publishing i hpublishes

/-- A step of a bridge keeps the invariant, if the origin of what it takes may go to the link. -/
theorem thread_step (hinv : OriginInv net onBus onLink s) (hfresh : onBus net.fresh) {i : ℕ}
    (htakes : s.takes? net i ≠ none → onBus (s.origin net i) → onLink (s.origin net i))
    {loop : LoopState L2State} {events : List (LoopEvent Found)}
    (hstep : ThreadStep i (net.geometry (net.bus i)) (l2bridge (net.link i)) (s.loop net i) loop
      events) :
    OriginInv net onBus onLink
      ((s.withBus (net.bus i) loop.bus (busEvents events) (s.origin net i)).withBridge net i loop
        (framesWritten events) (s.origin net i)) := by
  have hwf := hinv.receivers i
  have hacks := hinv.acks i
  cases hstep with
  | silent hpending hpublishes =>
    exact (hinv.withBus _ fun hne ↦ absurd rfl hne).withBridge hwf
      (fun frame hmem ↦ hacks frame (hpending frame hmem))
      (fun hpublishing ↦ hinv.publishing i (hpublishes hpublishing)) fun _ hmem ↦ nomatch hmem
  | consumer hconsumer hbus hpending hpublishes =>
    have hclaims := claims_of_consumer hconsumer hbus
    rw [busEvents_map_bus, framesWritten_map_bus]
    refine (hinv.withBus _ fun hne ↦ absurd hclaims hne).withBridge hwf ?_
      (fun hpublishing ↦ absurd hpublishing hpublishes) fun _ hmem ↦ nomatch hmem
    rw [hpending]
    exact fun _ hmem ↦ nomatch hmem
  | @received message bus reported hphase hbus hmessage =>
    have hclaims := claims_of_consumer (by simp) hbus
    obtain ⟨seq, hseq⟩ := returning_of_received hbus hmessage
    have htaken : s.takes? net i = some seq := by
      have hreceiving : s.phases i = .receiving := hphase
      simp only [NetState.takes?, hreceiving]
      exact hseq
    have hlink := htakes (by simp [htaken]) (hinv.origin_of_takes hfresh htaken)
    rw [busEvents_append, busEvents_map_bus, busEvents_map_wrote, List.append_nil,
      framesWritten_append, framesWritten_map_bus, framesWritten_map_wrote, List.nil_append]
    refine (hinv.withBus _ fun hne ↦ absurd hclaims hne).withBridge hwf
      (fun _ hmem ↦ nomatch hmem) False.elim fun frame hmem ↦ Or.inr ⟨?_, hlink⟩
    rw [rttl_of_mem_forward hmem, net.ttl_eq]
  | @send frame rest hphase =>
    have hacting : s.phases i = .acting (.send frame :: rest) := hphase
    rw [hacting] at hacks
    refine (hinv.withBus _ fun hne ↦ absurd rfl hne).withBridge hwf
      (fun other hmem ↦ hacks other (List.mem_cons_of_mem _ hmem)) (fun hpublishing ↦ ?_)
      fun other hmem ↦ Or.inl ?_
    · refine hinv.publishing i ?_
      rw [hacting]
      exact hpublishing
    · obtain rfl := List.mem_singleton.mp hmem
      exact hacks other List.mem_cons_self
  | producer hpublishes hbus hpending =>
    rw [busEvents_map_bus, framesWritten_map_bus]
    exact (hinv.withBus _ fun _ ↦ hinv.origin_of_publishes hpublishes).withBridge hwf
      (fun frame hmem ↦ hacks frame (hpending frame hmem))
      (fun _ ↦ hinv.publishing i hpublishes) fun _ hmem ↦ nomatch hmem

/-- A look at the link keeps the invariant, if what comes over the link may be on a bus. -/
theorem look_step (hinv : OriginInv net onBus onLink s)
    (hcross : ∀ origin, onLink origin → onBus ⟨origin.hops + 1, L2.nextTtl net.ttl⟩) {i : ℕ}
    {found : Option ℕ} {state : L2State} {pending : List Action}
    (hreceive : (l2bridge (net.link i)).receive (s.devices i)
      ((s.finds net i found).map Carried.bytes) = some (state, pending)) :
    OriginInv net onBus onLink
      { s with
        phases := update s.phases i (.acting pending)
        devices := update s.devices i state
        publishing := update s.publishing i
          (((s.finds net i found).map Carried.crossed).getD (s.publishing i)) } := by
  obtain ⟨hwf, hacks, hpublished⟩ := l2bridge_receive (hinv.receivers i) hreceive
  refine ⟨fun j ↦ ?_, fun j ↦ ?_, fun j ↦ ?_, hinv.logged, hinv.written⟩
  · simp only [update_apply]
    split_ifs with hj
    · rw [hj]
      exact hwf
    · exact hinv.receivers j
  · simp only [update_apply]
    split_ifs with hj
    · exact hacks
    · exact hinv.acks j
  · simp only [update_apply]
    split_ifs with hj
    · intro hpublishes
      obtain ⟨frame, hfound, hdata⟩ := hpublished hpublishes
      cases hfinds : s.finds net i found with
      | none => simp [hfinds] at hfound
      | some carried =>
        simp only [hfinds, Option.map_some, Option.some.injEq] at hfound
        subst hfound
        obtain hack | ⟨hrttl, hlink⟩ := hinv.written _ carried (NetState.mem_of_finds hfinds)
        · exact absurd hack hdata
        · simp only [Option.map_some, Option.getD_some, Carried.crossed, hrttl]
          exact hcross _ hlink
    · exact hinv.publishing j

/-- Every step keeps the invariant. -/
theorem step (hinv : OriginInv net onBus onLink s) (hfresh : onBus net.fresh)
    (hcross : ∀ origin, onLink origin → onBus ⟨origin.hops + 1, L2.nextTtl net.ttl⟩)
    {action : NetAction} {events : List (ℕ × Bus.Event)}
    (htakes : ∀ i spurious, action = .own i spurious → s.takes? net i ≠ none →
      onBus (s.origin net i) → onLink (s.origin net i))
    (hstep : NetStep net s action s' events) : OriginInv net onBus onLink s' := by
  cases hstep with
  | app => exact hinv.withBus _ fun _ ↦ hfresh
  | own hthread => exact hinv.thread_step hfresh (htakes _ _ rfl) hthread
  | look hphase hreceive => exact hinv.look_step hcross hreceive

end OriginInv

/-- The invariant holds in every run. -/
theorem originInv_run {net : Network} {onBus onLink : Origin → Prop}
    {guard : Guard NetState NetAction (ℕ × Bus.Event)} (hfresh : onBus net.fresh)
    (hcross : ∀ origin, onLink origin → onBus ⟨origin.hops + 1, L2.nextTtl net.ttl⟩)
    (htakes : ∀ trace s i spurious, guard trace s (.own i spurious) → s.takes? net i ≠ none →
      onBus (s.origin net i) → onLink (s.origin net i))
    {trace : List (ℕ × Bus.Event)} {s : NetState} (hrun : Run (netSystem net) guard trace s) :
    OriginInv net onBus onLink s := by
  refine hrun.invariant (fun _ s ↦ OriginInv net onBus onLink s) (.init net onBus onLink) ?_
  intro trace s action s' events _ hinv hallowed hstep
  refine hinv.step hfresh hcross ?_ (netStep_cases hstep)
  rintro i spurious rfl
  exact htakes trace s i spurious hallowed

/-! ### The limit -/

/-- There is less left than before, unless nothing was left. -/
theorem nextTtl_lt_iff (ttl : UInt8) : L2.nextTtl ttl < ttl ↔ 0 < ttl := by
  unfold L2.nextTtl
  split
  · rename_i hpos
    refine iff_of_true ?_ hpos
    have hone : (1 : UInt8) ≤ ttl := UInt8.le_iff_toNat_le.mpr (UInt8.lt_iff_toNat_lt.mp hpos)
    rw [UInt8.lt_iff_toNat_lt, UInt8.toNat_sub_of_le _ _ hone]
    exact Nat.sub_lt (UInt8.lt_iff_toNat_lt.mp hpos) (by decide)
  · exact Iff.rfl

/-- The hop limit is observed: no message on a bus has crossed more links than the limit, and every
data frame has less ttl than the message in it had when it arrived at the bus of the bridge that
forwards it, so that nothing is forwarded that has arrived with 0. -/
structure HopLimited (net : Network) (s : NetState) : Prop where
  hops_le : ∀ b, ∀ origin ∈ s.logs b, origin.hops ≤ net.ttl.toNat
  rttl_lt : ∀ l, ∀ carried ∈ s.segments l, IsData carried.bytes →
    rttl carried.bytes < carried.origin.ttl
  ttl_ne : ∀ l, ∀ carried ∈ s.segments l, IsData carried.bytes → carried.origin.ttl ≠ 0

/-- What a bridge takes from its bus has been published there by an application, and the limit is
not 0. -/
def TakesFresh (net : Network) (s : NetState) : NetAction → Prop
  | .own i _ => s.takes? net i ≠ none → 0 < net.ttl ∧ (s.origin net i).hops = 0
  | _ => True

instance TakesFresh.decidable (net : Network) (s : NetState) :
    ∀ action : NetAction, Decidable (TakesFresh net s action)
  | .own i _ => inferInstanceAs (Decidable
      (s.takes? net i ≠ none → 0 < net.ttl ∧ (s.origin net i).hops = 0))
  | .app _ _ => isTrue trivial
  | .look _ _ => isTrue trivial

/-- The origins on the buses, in every run: an application's, with the ttl of the command line, or
that of a message that has come over a link, with one less. -/
def FromBridges (net : Network) (origin : Origin) : Prop :=
  origin = net.fresh ∨ 0 < origin.hops ∧ origin.ttl = L2.nextTtl net.ttl

/-- When the hop limit is observed. A data frame has less ttl than its message had when it arrived
at the bus exactly when an application has published the message on this bus and the limit is not 0;
and in every run in which all messages that bridges take are such, the limit is observed. -/
theorem hop_limit (net : Network) :
    (∀ (trace : List (ℕ × Bus.Event)) (s : NetState), Run (netSystem net) unguarded trace s →
      ∀ l, ∀ carried ∈ s.segments l, IsData carried.bytes →
        (rttl carried.bytes < carried.origin.ttl ↔ 0 < net.ttl ∧ carried.origin.hops = 0)) ∧
    ∀ (trace : List (ℕ × Bus.Event)) (s : NetState),
      Run (netSystem net) (fun _ s action ↦ TakesFresh net s action) trace s →
        HopLimited net s := by
  have hstart : FromBridges net net.fresh := .inl rfl
  constructor
  · intro trace s hrun l carried hmem hdata
    have hinv : OriginInv net (FromBridges net) (FromBridges net) s :=
      originInv_run hstart (fun origin _ ↦ .inr ⟨Nat.succ_pos _, rfl⟩)
        (fun _ _ _ _ _ _ hbus ↦ hbus) hrun
    obtain hack | ⟨hrttl, hfresh | ⟨hhops, httl⟩⟩ := hinv.written l carried hmem
    · exact absurd hdata (not_isData_of_isAck hack)
    · rw [hrttl, hfresh, Network.fresh, nextTtl_lt_iff]
      simp
    · rw [hrttl, httl]
      exact iff_of_false (UInt8.lt_irrefl _) fun hzero ↦ hhops.ne' hzero.2
  · intro trace s hrun
    have hinv : OriginInv net
        (fun origin ↦ FromBridges net origin ∧ origin.hops ≤ net.ttl.toNat)
        (fun origin ↦ origin = net.fresh ∧ 0 < net.ttl) s := by
      refine originInv_run ⟨hstart, Nat.zero_le _⟩ ?_ ?_ hrun
      · rintro origin ⟨rfl, hpos⟩
        exact ⟨.inr ⟨Nat.succ_pos _, rfl⟩, hpos⟩
      · rintro trace s i spurious hallowed htakes ⟨hfresh | ⟨hhops, -⟩, -⟩
        · exact ⟨hfresh, (hallowed htakes).1⟩
        · exact absurd (hallowed htakes).2 hhops.ne'
    have hdata : ∀ l, ∀ carried ∈ s.segments l, IsData carried.bytes →
        rttl carried.bytes = L2.nextTtl net.ttl ∧ carried.origin.ttl = net.ttl ∧ 0 < net.ttl := by
      intro l carried hmem hdata
      obtain hack | ⟨hrttl, hfresh, hpos⟩ := hinv.written l carried hmem
      · exact absurd hdata (not_isData_of_isAck hack)
      · exact ⟨hrttl, by rw [hfresh]; rfl, hpos⟩
    refine ⟨fun b origin hmem ↦ (hinv.logged b origin hmem).2, fun l carried hmem hcarried ↦ ?_,
      fun l carried hmem hcarried ↦ ?_⟩
    · obtain ⟨hrttl, httl, hpos⟩ := hdata l carried hmem hcarried
      rw [hrttl, httl]
      exact (nextTtl_lt_iff _).mpr hpos
    · obtain ⟨-, httl, hpos⟩ := hdata l carried hmem hcarried
      rw [httl]
      intro hzero
      exact UInt8.lt_irrefl _ (hzero ▸ hpos)

/-- Two buses, each with one bridge on the same segment, and a limit of one link. -/
def pair : Network where
  bridges := 2
  geometry := fun _ ↦ Bus.tinyGeometry
  bus := fun i ↦ i
  segment := fun _ ↦ 0
  link := fun _ ↦ ⟨⟨0xCAFE, 1, 1, by decide⟩, Vector.replicate 6 2, Vector.replicate 6 0xFF⟩
  ttl := 1
  ttl_eq := fun _ ↦ rfl

/-- The next steps of a bridge. -/
def going (i n : ℕ) : List NetAction := List.replicate n (.own i false)

/-- An application publishes on bus 0 when the bridge there has subscribed, and the bridge forwards
the message. -/
def forwarding : List NetAction :=
  [going 0 6, [.look 0 none], going 0 1, [.app 0 (.producer 2 (.publish [7]))],
    List.replicate 13 (.app 0 (.producer 2 (.next false))), going 0 6].flatten

/-- The bridge of bus 1 finds the frame and publishes the message. -/
def republishing : List NetAction := [going 1 6, [.look 1 (some 0)], going 1 16].flatten

/-- It takes the message from its own bus and forwards it, and the first bridge finds the frame and
publishes the message again. -/
def returning : List NetAction := [going 1 7, [.look 0 (some 2)], going 0 4].flatten

/-- What the frames on a segment say: whether they are data, the ttl, and the origin. -/
def NetState.dataOn (s : NetState) (l : ℕ) : List (Bool × UInt8 × Origin) :=
  (s.segments l).map fun carried ↦
    (decide (IsData carried.bytes), rttl carried.bytes, carried.origin)

/-- A frame of the list that they make. -/
theorem NetState.exists_of_mem_dataOn {s : NetState} {l : ℕ} {ttl : UInt8} {origin : Origin}
    (hmem : (true, ttl, origin) ∈ s.dataOn l) :
    ∃ carried ∈ s.segments l, IsData carried.bytes ∧ rttl carried.bytes = ttl ∧
      carried.origin = origin := by
  obtain ⟨carried, hcarried, heq⟩ := List.mem_map.mp hmem
  simp only [Prod.mk.injEq, decide_eq_true_eq] at heq
  exact ⟨carried, hcarried, heq⟩

/-- A message that crosses the one link it may cross. -/
theorem hop_limit_one : ∃ (trace : List (ℕ × Bus.Event)) (s : NetState),
    Run (netSystem pair) (fun _ s action ↦ TakesFresh pair s action) trace s ∧
    s.logs 1 = [⟨1, 0⟩] ∧ HopLimited pair s ∧
    ∃ carried ∈ s.segments 0, carried.origin = pair.fresh ∧
      rttl carried.bytes < carried.origin.ttl := by
  let system := netSystem pair
  let fresh : Guard NetState NetAction (ℕ × Bus.Event) := fun _ s action ↦ TakesFresh pair s action
  have hexec : (system.exec system.init (forwarding ++ republishing)).map
      (fun result ↦ (result.1.logs 1, result.1.dataOn 0)) =
      some ([⟨1, 0⟩], [(true, 0, ⟨0, 1⟩), (false, 0, ⟨1, 0⟩)]) := by decide +kernel
  have hpermitted : Permitted system fresh [] system.init (forwarding ++ republishing) := by
    decide +kernel
  obtain ⟨⟨s, trace⟩, hfinal, hresult⟩ := Option.map_eq_some_iff.mp hexec
  obtain ⟨hlog, hframes⟩ := Prod.mk.inj hresult
  have hrun : Run system fresh trace s := run_of_permitted hpermitted hfinal
  have hframe : (true, 0, ⟨0, 1⟩) ∈ s.dataOn 0 := by
    rw [hframes]
    simp
  obtain ⟨carried, hmem, hdata, -, horigin⟩ :=
    NetState.exists_of_mem_dataOn hframe
  have hfirst : Run system unguarded trace s := run_of_exec hfinal
  refine ⟨trace, s, hrun, hlog, (hop_limit pair).2 trace s hrun, carried, hmem, horigin, ?_⟩
  exact ((hop_limit pair).1 trace s hfirst 0 carried hmem hdata).mpr
    ⟨by decide, by rw [horigin]⟩

/-- The limit is exceeded. With a limit of one link a message crosses two and is back on the bus
that it came from: the bridge of bus 1 forwards it although it has arrived with ttl 0. -/
theorem hop_limit_exceeded : ∃ (trace : List (ℕ × Bus.Event)) (s : NetState),
    Run (netSystem pair) unguarded trace s ∧ s.logs 0 = [⟨0, 1⟩, ⟨2, 0⟩] ∧
    (∃ carried ∈ s.segments 0, IsData carried.bytes ∧ rttl carried.bytes = 0 ∧
      carried.origin = ⟨1, 0⟩) ∧
    ¬ HopLimited pair s := by
  let system := netSystem pair
  have hexec : (system.exec system.init (forwarding ++ republishing ++ returning)).map
      (fun result ↦ (result.1.logs 0, result.1.dataOn 0)) =
      some ([⟨0, 1⟩, ⟨2, 0⟩], [(true, 0, ⟨0, 1⟩), (false, 0, ⟨1, 0⟩), (true, 0, ⟨1, 0⟩)]) := by
    decide +kernel
  obtain ⟨⟨s, trace⟩, hfinal, hresult⟩ := Option.map_eq_some_iff.mp hexec
  obtain ⟨hlog, hframes⟩ := Prod.mk.inj hresult
  have hframe : (true, 0, ⟨1, 0⟩) ∈ s.dataOn 0 := by
    rw [hframes]
    simp
  refine ⟨trace, s, run_of_exec hfinal, hlog, NetState.exists_of_mem_dataOn hframe,
    fun hlimited ↦ ?_⟩
  have hhops := hlimited.hops_le 0 ⟨2, 0⟩ (by rw [hlog]; simp)
  exact absurd hhops (by decide)

end AarnnNsys.Bridge
