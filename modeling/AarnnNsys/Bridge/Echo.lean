import AarnnNsys.Bridge.Joined
import AarnnNsys.Bus.Delivery

/-!
# What a bridge carries across, and back

A bridge forwards whatever its own subscription takes, and its own messages are on the bus like any
other. `bridged_in_order` says exactly what two bridges do to the buses that they join, and what a
`usbsim_bridge` writes to its endpoint: every entry of the log is carried across at most once and in
order, and where it comes from makes no difference. So a message that a bridge has published because
it came over the link is carried back (`carried_back`).
-/

set_option autoImplicit false
set_option relaxedAutoImplicit false

namespace AarnnNsys.Bridge

open Lib

/-! ### Each entry of the log at most once -/

section Carried

variable {State Input : Type} {g : Bus.Geometry} {slab : ℕ → UInt8} {device : Device State Input}
  {startup : List Action} {trace : List (LoopEvent Input)} {s : LoopState State}

/-- The number that a bridge's subscription starts from, once there is a subscription. -/
def StartsAt (start : ℕ) (trace : List (LoopEvent Input)) (s : LoopState State) : Prop :=
  ∀ id, s.bus.subscribers 0 = .ready id → Bus.Started 0 start (busEvents trace)

/-- The entries of the log that a bridge has taken from its bus: those from the number its
subscription started from up to its cursor. -/
def taken (start : ℕ) (trace : List (LoopEvent Input)) (s : LoopState State) : List Bus.Message :=
  match s.bus.subscribers 0 with
  | .ready id => Bus.messages (Bus.claims (busEvents trace)) start (s.bus.mem.subReadSeq id)
  | _ => []

/-- What a bridge takes is a stretch of the log, whole and in order. -/
theorem took_eq_taken
    (hrun : Run (loopSystem g slab device startup) (busGuard g (Bus.JoinsSafely g)) trace s) :
    ∃ start, StartsAt start trace s ∧ took (bridgeEvents trace) = taken start trace s := by
  have hdelivery := Bus.deliveryInv_run (fun _ _ _ hallowed ↦ hallowed.1.1.keepsHandles)
    (fun _ _ _ hallowed ↦ hallowed.1.2.2) (fun _ _ _ hallowed ↦ hallowed.1.2.1) (run_bus hrun)
  rw [took_bridgeEvents]
  by_cases hready : ∃ id, s.bus.subscribers 0 = .ready id
  · obtain ⟨id, hready⟩ := hready
    obtain ⟨start, hstarted⟩ := hdelivery.ready 0 id hready
    refine ⟨start, fun _ _ ↦ hstarted, ?_⟩
    rw [taken, hready]
    exact (hdelivery.received_eq 0 start id hstarted hready).2
  · have hunready : ∀ id, s.bus.subscribers 0 ≠ .ready id := fun id hid ↦ hready ⟨id, hid⟩
    refine ⟨0, fun id hid ↦ absurd hid (hunready id), ?_⟩
    rw [(hdelivery.unready 0 hunready).1]
    unfold taken
    split
    · exact absurd ‹_› (hunready _)
    · rfl

/-- What a bridge takes fits a slot of its bus. -/
theorem fitsSlot_of_mem_took
    (hrun : Run (loopSystem g slab device startup) (busGuard g (Bus.JoinsSafely g)) trace s)
    {message : Bus.Message} (hmem : message ∈ took (bridgeEvents trace)) :
    Bus.FitsSlot g message := by
  obtain ⟨start, -, htook⟩ := took_eq_taken hrun
  rw [htook] at hmem
  unfold taken at hmem
  split at hmem
  · obtain ⟨claim, hclaim, rfl⟩ := List.mem_map.mp hmem
    exact Bus.fitsSlot_of_claim (run_bus hrun) claim
      (List.mem_of_mem_take (List.mem_of_mem_drop hclaim))
  · cases hmem

/-- The bridge's entries in the log are its publishes. -/
theorem claimsBy_eq_publishes {guard : Bus.State → Bus.Action → Prop}
    (hrun : Run (loopSystem g slab device startup) (busGuard g guard) trace s)
    (hfits : ∀ message ∈ publishes (bridgeEvents trace), Bus.FitsSlot g message) :
    Bus.claimsBy 0 (busEvents trace) = publishes (bridgeEvents trace) := by
  rw [Bus.claimsBy_eq_filter_callsBy (fun _ _ _ hallowed ↦ hallowed.2) (run_bus hrun),
    ← publishes_bridgeEvents]
  exact List.filter_eq_self.mpr fun message hmem ↦ by simpa using hfits message hmem

/-- A run in which nobody joins between the two loads of a capacity check. -/
theorem run_joinsSafely
    (hrun : Run (loopSystem g slab device startup) (busGuard g (Bus.JoinsApart g)) trace s) :
    Run (loopSystem g slab device startup) (busGuard g (Bus.JoinsSafely g)) trace s :=
  hrun.strengthen fun hprevious hallowed _ busAction hbus ↦ (hallowed busAction hbus).joinsSafely
    (Bus.registryInv_run (fun _ _ _ hkept ↦ hkept.1.1) (run_bus hprevious))

end Carried

/-! ### Two bridges -/

section Joined

variable {sides : Side → Installation} {trace : List (Side × LoopEvent Found)} {s : Joined}

/-- The steps under which every bus of a link serves its subscribers. -/
def JoinedSafely (sides : Side → Installation) :
    Guard Joined JoinedAction (Side × LoopEvent Found) :=
  joinedGuard sides fun side ↦ Bus.JoinsSafely (sides side).geometry

/-- A run in which nobody joins a bus between the two loads of a capacity check. -/
theorem run_joinedSafely
    (hrun : Run (joinedSystem sides)
      (joinedGuard sides fun side ↦ Bus.JoinsApart (sides side).geometry) trace s) :
    Run (joinedSystem sides) (JoinedSafely sides) trace s :=
  hrun.strengthen fun hprevious hallowed _ busAction hbus ↦ (hallowed busAction hbus).joinsSafely
    (Bus.registryInv_run (fun _ _ _ hkept ↦ hkept.1.1) (run_bus (run_loop hprevious _)))

/-- What one side has published is what its receiver makes of the frames of the other side. -/
theorem publishes_prefix
    (hether : ∀ side : Side,
      (sides side).link.cfg.ethertype = (sides side.other).link.cfg.ethertype)
    (hcount : ∀ side, (sides side).geometry.slotBytes ≤ 65536 * L2.mtuPayload)
    (hrun : Run (joinedSystem sides) (JoinedSafely sides) trace s) (side : Side) :
    let carried := (took (bridgeEvents (sideEvents side.other trace))).filter
      (L2.Fits (sides side).link.cfg)
    publishes (bridgeEvents (sideEvents side trace)) <+: carried ∧
      (s.queue side = [] → (s.loop side).phase.pending [] = [] →
        publishes (bridgeEvents (sideEvents side trace)) = carried) := by
  have hdiscipline : ∀ side (bus : Bus.State) action,
      Bus.JoinsSafely (sides side).geometry bus action → Bus.Disciplined bus action :=
    fun _ _ _ hallowed ↦ hallowed.1
  have hfar := run_loop hrun side.other
  -- what the other side has written
  obtain ⟨arrivals, hbytes, hdelivers⟩ :=
    (l2bridge_history (run_bridge (hdiscipline side.other) hfar)).frames_eq
  have hwrote : arrivals.map L2.Arrival.bytes = arrived side trace ++ s.queue side :=
    hbytes.trans (wrote_eq hrun side)
  rw [arrived] at hwrote
  obtain ⟨found, left, rfl, hfound, hleft⟩ := List.map_eq_append_iff.mp hwrote
  -- what this side has made of it
  obtain ⟨receptions, hexec, hpublished⟩ :=
    (l2bridge_history (run_bridge (hdiscipline side) (run_loop hrun side))).published_eq
  rw [← hfound] at hexec
  have hmessages : ∀ message ∈ took (bridgeEvents (sideEvents side.other trace)),
      message.length ≤ 65536 * L2.mtuPayload :=
    fun message hmem ↦ (fitsSlot_of_mem_took hfar hmem).2.trans (hcount side.other)
  have hether' : (sides side.other).link.cfg.ethertype = (sides side).link.cfg.ethertype :=
    (hether side).symm
  obtain ⟨hfront, hwhole⟩ := L2.published_prefix hether' hmessages
    (hdelivers (sides side).link.cfg) hexec
  rw [hpublished] at hfront hwhole
  refine ⟨(List.prefix_append _ _).trans hfront, fun hqueue hpending ↦ ?_⟩
  have hnothing : left = [] := List.map_eq_nil_iff.mp (hleft.trans hqueue)
  have hpublishes := hwhole hnothing
  simpa [LoopState.bridge, hpending, published] using hpublishes

/-- The entries of one side's bridge in the log of its bus, in terms of what the other side's bridge
has taken from its own. -/
theorem claimsBy_prefix
    (hether : ∀ side : Side,
      (sides side).link.cfg.ethertype = (sides side.other).link.cfg.ethertype)
    (hmax : ∀ side, (sides side).link.cfg.maxFrame ≤ (sides side).geometry.slotBytes)
    (hcount : ∀ side, (sides side).geometry.slotBytes ≤ 65536 * L2.mtuPayload)
    (hrun : Run (joinedSystem sides) (JoinedSafely sides) trace s) (side : Side) :
    let carried := (took (bridgeEvents (sideEvents side.other trace))).filter
      (L2.Fits (sides side).link.cfg)
    Bus.claimsBy 0 (busEvents (sideEvents side trace)) <+: carried ∧
      (s.queue side = [] → (s.loop side).phase.pending [] = [] →
        Bus.claimsBy 0 (busEvents (sideEvents side trace)) = carried) := by
  have hpublishes := publishes_prefix hether hcount hrun side
  have hfits : ∀ message ∈ publishes (bridgeEvents (sideEvents side trace)),
      Bus.FitsSlot (sides side).geometry message := by
    intro message hmem
    have hfit := (List.mem_filter.mp (hpublishes.1.subset hmem)).2
    obtain ⟨hne, hlength⟩ := of_decide_eq_true hfit
    exact ⟨hne, hlength.trans (hmax side)⟩
  rw [claimsBy_eq_publishes (run_loop hrun side) hfits]
  exact hpublishes

end Joined

/-! ### The law of forwarding -/

/-- What bridges carry. Of the entries of a bus's log, its `l2bridge` has taken the stretch from the
start of its subscription up to its cursor, its own entries included, and what the other side's
`l2bridge` has in the log of its bus is a prefix of those that fit `max_frame`: all of them when no
frame is under way to it and it has nothing left to do. A `usbsim_bridge` takes such a stretch too
and writes one frame on channel 0 for each entry of it. -/
theorem bridged_in_order :
    (∀ (sides : Side → Installation) (trace : List (Side × LoopEvent Found)) (s : Joined),
      (∀ side : Side,
        (sides side).link.cfg.ethertype = (sides side.other).link.cfg.ethertype ∧
        (sides side).link.cfg.maxFrame ≤ (sides side).geometry.slotBytes ∧
        (sides side).geometry.slotBytes ≤ 65536 * L2.mtuPayload) →
      Run (joinedSystem sides) (JoinedSafely sides) trace s →
      ∀ side : Side, ∃ start, StartsAt start (sideEvents side.other trace) (s.loop side.other) ∧
        took (bridgeEvents (sideEvents side.other trace)) =
          taken start (sideEvents side.other trace) (s.loop side.other) ∧
        let carried := (taken start (sideEvents side.other trace) (s.loop side.other)).filter
          (L2.Fits (sides side).link.cfg)
        Bus.claimsBy 0 (busEvents (sideEvents side trace)) <+: carried ∧
          (s.queue side = [] → (s.loop side).phase.pending [] = [] →
            Bus.claimsBy 0 (busEvents (sideEvents side trace)) = carried)) ∧
    ∀ (g : Bus.Geometry) (slab : ℕ → UInt8) (cfg : Usb.Cfg) (trace : List (LoopEvent UsbInput))
      (s : LoopState UsbState),
      Run (loopSystem g slab (usbsimBridge cfg g.slotBytes) []) (busGuard g (Bus.JoinsSafely g))
        trace s →
      ∃ start, StartsAt start trace s ∧ took (bridgeEvents trace) = taken start trace s ∧
        dataFrames (frames (bridgeEvents trace)) = numbered cfg (taken start trace s) := by
  constructor
  · intro sides trace s hsides hrun side
    obtain ⟨start, hstart, htook⟩ := took_eq_taken (run_loop hrun side.other)
    refine ⟨start, hstart, htook, ?_⟩
    rw [← htook]
    exact claimsBy_prefix (fun side ↦ (hsides side).1) (fun side ↦ (hsides side).2.1)
      (fun side ↦ (hsides side).2.2) hrun side
  · intro g slab cfg trace s hrun
    obtain ⟨start, hstart, htook⟩ := took_eq_taken hrun
    refine ⟨start, hstart, htook, ?_⟩
    rw [← htook]
    exact (usbsimBridge_history (run_bridge (fun _ _ hallowed ↦ hallowed.1) hrun)).frames_eq

/-! ### What comes back -/

/-- A bus with a single slot of 4096 bytes, and the default link. -/
def smallest : Installation :=
  ⟨⟨1, 4096, Bus.isPow2_one⟩, fun _ ↦ 0, .defaults (Vector.replicate 6 2)⟩

/-- Two bridges and one application message. The left bridge forwards it, the right one publishes it
and takes it from its own bus, and the left one publishes it again. -/
theorem l2bridge_carries_back : ∃ (trace : List (Side × LoopEvent Found)) (s : Joined),
    Run (joinedSystem fun _ ↦ smallest) (JoinedSafely fun _ ↦ smallest) trace s ∧
      Bus.claims (busEvents (sideEvents .left trace)) = [⟨0, 1, [7]⟩, ⟨1, 0, [7]⟩] ∧
      Bus.claims (busEvents (sideEvents .right trace)) = [⟨0, 0, [7]⟩] := by
  let system := joinedSystem fun _ ↦ smallest
  let own (side : Side) (n : ℕ) : List JoinedAction := List.replicate n (.own side false)
  let actions : List JoinedAction :=
    -- the left bridge subscribes and finds nothing
    own .left 6 ++ .look .left true :: own .left 1 ++
      -- an application publishes, and the left bridge forwards
      .other .left (.producer 1 (.publish [7])) ::
        List.replicate 13 (.other .left (.producer 1 (.next false))) ++ own .left 6 ++
      -- the right bridge subscribes, publishes and acknowledges
      own .right 6 ++ .look .right true :: own .right 16 ++
      -- it forwards its own message
      own .right 7 ++
      -- the left bridge finds the acknowledgement, then the message
      .look .left true :: own .left 3 ++ .look .left true :: own .left 1
  have hexec : (system.exec system.init actions).map
      (fun result ↦ (Bus.claims (busEvents (sideEvents .left result.2)),
        Bus.claims (busEvents (sideEvents .right result.2)))) =
      some ([⟨0, 1, [7]⟩, ⟨1, 0, [7]⟩], [⟨0, 0, [7]⟩]) := by decide +kernel
  have hpermitted : Permitted system
      (joinedGuard (fun _ ↦ smallest) fun _ ↦ Bus.JoinsApart smallest.geometry) [] system.init
      actions := by decide +kernel
  obtain ⟨⟨s, trace⟩, hfinal, hresult⟩ := Option.map_eq_some_iff.mp hexec
  obtain ⟨hleft, hright⟩ := Prod.mk.inj hresult
  exact ⟨trace, s, run_joinedSafely (run_of_permitted hpermitted hfinal), hleft, hright⟩

/-- A `usbsim_bridge` that finds one frame on channel 0, publishes its message, takes it from its
own bus and writes it back on channel 0. -/
theorem usbsimBridge_carries_back : ∃ (trace : List (LoopEvent UsbInput)) (s : LoopState UsbState),
    Run (loopSystem smallest.geometry smallest.slab
        (usbsimBridge ⟨4096, 8⟩ smallest.geometry.slotBytes) [])
      (busGuard smallest.geometry (Bus.JoinsSafely smallest.geometry)) trace s ∧
    (inputs (bridgeEvents trace)).flatMap UsbInput.arrived = Usb.writeFrame 0 8 0 [7] ∧
    Bus.claims (busEvents trace) = [⟨0, 0, [7]⟩] ∧ took (bridgeEvents trace) = [[7]] ∧
    dataFrames (frames (bridgeEvents trace)) = [Usb.writeFrame 0 8 0 [7]] := by
  let system := loopSystem smallest.geometry smallest.slab
    (usbsimBridge ⟨4096, 8⟩ smallest.geometry.slotBytes) []
  let own (n : ℕ) : List (LoopAction UsbInput) := List.replicate n (.own false)
  let actions : List (LoopAction UsbInput) :=
    own 6 ++ .look ⟨Usb.writeFrame 0 8 0 [7], false⟩ :: own 23
  have hexec : (system.exec system.init actions).map (fun result ↦
      ((inputs (bridgeEvents result.2)).flatMap UsbInput.arrived,
        Bus.claims (busEvents result.2), took (bridgeEvents result.2),
        dataFrames (frames (bridgeEvents result.2)))) =
      some (Usb.writeFrame 0 8 0 [7], [⟨0, 0, [7]⟩], [[7]], [Usb.writeFrame 0 8 0 [7]]) := by
    decide +kernel
  have hpermitted : Permitted system
      (busGuard smallest.geometry (Bus.JoinsApart smallest.geometry)) [] system.init actions := by
    decide +kernel
  obtain ⟨⟨s, trace⟩, hfinal, hresult⟩ := Option.map_eq_some_iff.mp hexec
  simp only [Prod.mk.injEq] at hresult
  exact ⟨trace, s, run_joinsSafely (run_of_permitted hpermitted hfinal), hresult⟩

/-- What a bridge has injected is carried back, from one bus to the other and from a bus to its
endpoint. -/
theorem carried_back :
    (∃ (trace : List (Side × LoopEvent Found)) (s : Joined),
      Run (joinedSystem fun _ ↦ smallest) (JoinedSafely fun _ ↦ smallest) trace s ∧
        Bus.claims (busEvents (sideEvents .left trace)) = [⟨0, 1, [7]⟩, ⟨1, 0, [7]⟩] ∧
        Bus.claims (busEvents (sideEvents .right trace)) = [⟨0, 0, [7]⟩]) ∧
    ∃ (trace : List (LoopEvent UsbInput)) (s : LoopState UsbState),
      Run (loopSystem smallest.geometry smallest.slab
          (usbsimBridge ⟨4096, 8⟩ smallest.geometry.slotBytes) [])
        (busGuard smallest.geometry (Bus.JoinsSafely smallest.geometry)) trace s ∧
      (inputs (bridgeEvents trace)).flatMap UsbInput.arrived = Usb.writeFrame 0 8 0 [7] ∧
      Bus.claims (busEvents trace) = [⟨0, 0, [7]⟩] ∧ took (bridgeEvents trace) = [[7]] ∧
      dataFrames (frames (bridgeEvents trace)) = [Usb.writeFrame 0 8 0 [7]] :=
  ⟨l2bridge_carries_back, usbsimBridge_carries_back⟩

/-- The law on these two runs: what the left bridge has injected is the message that came back. -/
theorem bridged_in_order_back :
    (∃ (trace : List (Side × LoopEvent Found)) (s : Joined) (start : ℕ),
      Bus.claimsBy 0 (busEvents (sideEvents .left trace)) = [[7]] ∧
      took (bridgeEvents (sideEvents .right trace)) =
        taken start (sideEvents .right trace) (s.loop .right) ∧
      Bus.claimsBy 0 (busEvents (sideEvents .left trace)) <+:
        (taken start (sideEvents .right trace) (s.loop .right)).filter
          (L2.Fits smallest.link.cfg)) ∧
    ∃ (trace : List (LoopEvent UsbInput)) (s : LoopState UsbState) (start : ℕ),
      dataFrames (frames (bridgeEvents trace)) = [Usb.writeFrame 0 8 0 [7]] ∧
      took (bridgeEvents trace) = taken start trace s ∧
      dataFrames (frames (bridgeEvents trace)) = numbered ⟨4096, 8⟩ (taken start trace s) := by
  constructor
  · obtain ⟨trace, s, hrun, hleft, -⟩ := l2bridge_carries_back
    obtain ⟨start, -, htook, hfront, -⟩ := bridged_in_order.1 (fun _ ↦ smallest) trace s
      (fun _ ↦ ⟨rfl, by decide, by decide⟩) hrun .left
    refine ⟨trace, s, start, ?_, htook, hfront⟩
    rw [Bus.claimsBy, hleft]
    rfl
  · obtain ⟨trace, s, hrun, -, -, -, hwritten⟩ := usbsimBridge_carries_back
    obtain ⟨start, -, htook, hnumbered⟩ := bridged_in_order.2 _ _ ⟨4096, 8⟩ trace s hrun
    exact ⟨trace, s, start, hwritten, htook, hnumbered⟩

end AarnnNsys.Bridge
