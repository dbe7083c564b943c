import AarnnNsys.Bridge.Echo
import AarnnNsys.Bridge.SelfTest
import AarnnNsys.Bridge.SelfWait
import AarnnNsys.Bus.Layout
import AarnnNsys.Cli.Options
import AarnnNsys.L2.Robust

/-!
# The start of a bridge

Before a bridge attaches to its bus it checks its options: `l2Start` and `usbStart`. Among others a
slot has to hold a message of `max_frame` bytes. `started_never_refused` says what this is good for:
in every run of a bridge that has started, the bus it created or opened refuses nothing that the
bridge publishes, but for the empty messages of a `usbsim_bridge`.

The start is modelled with a bus. The probes that the self test puts on the link are left out, as no
`publish` depends on them.
-/

set_option autoImplicit false
set_option relaxedAutoImplicit false

namespace AarnnNsys.Cli

open Lib Bridge

/-! ### The checks -/

/-- How a bridge ends before it starts: with the exit status 2, or in a panic. -/
inductive Exit
  | usage
  | panicked
  deriving DecidableEq

/-- What the loop over the arguments makes of a command line that it does not read. -/
def Misuse.exit : Misuse → Exit
  | .unknown => .usage
  | .missing | .unreadable => .panicked

/-- The checks behind the loop over the arguments: the required option is there, and a slot is not
smaller than `max_frame`. -/
def checkSizes (required : String) (desc slab maxFrame : UInt64) : Except Exit Unit :=
  if required = "" then .error .usage
  -- the division by zero
  else if desc = 0 then .error .panicked
  else if slab / desc < maxFrame then .error .usage
  else .ok ()

/-- `l2bridge` up to its bus. -/
def l2Start (args : List String) : Except Exit L2Options := do
  let options ← (readL2 args).mapError Misuse.exit
  checkSizes options.iface options.desc options.slab options.maxFrame
  return options

/-- `usbsim_bridge` up to its bus. -/
def usbStart (args : List String) : Except Exit UsbOptions := do
  let options ← (readUsb args).mapError Misuse.exit
  checkSizes options.endpoint options.desc options.slab options.maxFrame
  return options

/-- The bus of a bridge: `BusHandle::create`, or else `BusHandle::open`. -/
def createOrOpen
    (createSystem openSystem :
      (len : UInt64) → Except Bus.BusError { region : Bus.Region // region.len = len })
    (words : Bus.Region → UInt64 × UInt64) (desc slab : UInt64) : Except Bus.BusError Bus.Handle :=
  (Bus.Handle.create createSystem desc slab).tryCatch fun _ ↦
    Bus.Handle.openNamed openSystem words desc slab

/-- The link of an `l2bridge`. `generated` is the address of `gen_local_mac`. -/
def L2Options.link (options : L2Options) (generated : L2.Mac) : L2.Link where
  cfg := ⟨options.ethertype, options.maxFrame.toNat, options.ttl, options.maxFrame.toNat_lt⟩
  srcMac := options.srcMac.getD generated
  dstMac := options.dstMac.getD (Vector.replicate 6 0xFF)

/-- What an `l2bridge` publishes before its loop. -/
def L2Options.startup (options : L2Options) : List Action :=
  if options.selfTest then [.publish l2Probe] else []

/-- The configuration of a `usbsim_bridge`. -/
def UsbOptions.cfg (options : UsbOptions) : Usb.Cfg := ⟨options.maxFrame.toNat, options.ttl⟩

/-- What a `usbsim_bridge` with a bus publishes before its loop. -/
def UsbOptions.startup (options : UsbOptions) : List Action :=
  if options.selfTest then [.publish usbProbe] else []

/-- What the checks let pass. -/
theorem checkSizes_eq_ok_iff {required : String} {desc slab maxFrame : UInt64} :
    checkSizes required desc slab maxFrame = .ok () ↔
      required ≠ "" ∧ desc ≠ 0 ∧ maxFrame.toNat ≤ (slab / desc).toNat := by
  rw [checkSizes, ← not_lt, ← UInt64.lt_iff_toNat_lt]
  split_ifs <;> simp_all

/-- A command line starts a bridge if it is read and what is read passes the checks. -/
theorem checked_eq_ok_iff {Options : Type} {read : Except Misuse Options}
    {check : Options → Except Exit Unit} {options : Options} :
    (do
      let options ← read.mapError Misuse.exit
      check options
      return options) = .ok options ↔ read = .ok options ∧ check options = .ok () := by
  cases read with
  | error misuse => simp [Except.mapError, bind, Except.bind]
  | ok given =>
    simp only [Except.mapError, bind, Except.bind, pure, Except.pure, Except.ok.injEq]
    constructor
    · intro hchecked
      split at hchecked
      next => cases hchecked
      next hcheck =>
        cases hchecked
        exact ⟨rfl, hcheck⟩
    · rintro ⟨rfl, hcheck⟩
      rw [hcheck]

/-- Which command lines start an `l2bridge`. -/
theorem l2Start_eq_ok_iff {args : List String} {options : L2Options} :
    l2Start args = .ok options ↔ readL2 args = .ok options ∧ options.iface ≠ "" ∧
      options.desc ≠ 0 ∧ options.maxFrame.toNat ≤ (options.slab / options.desc).toNat :=
  checked_eq_ok_iff.trans (and_congr_right fun _ ↦ checkSizes_eq_ok_iff)

/-- Which command lines start a `usbsim_bridge`. -/
theorem usbStart_eq_ok_iff {args : List String} {options : UsbOptions} :
    usbStart args = .ok options ↔ readUsb args = .ok options ∧ options.endpoint ≠ "" ∧
      options.desc ≠ 0 ∧ options.maxFrame.toNat ≤ (options.slab / options.desc).toNat :=
  checked_eq_ok_iff.trans (and_congr_right fun _ ↦ checkSizes_eq_ok_iff)

/-- The bus of a bridge has the sizes of its command line. -/
theorem sizedBy_of_createOrOpen
    {createSystem openSystem :
      (len : UInt64) → Except Bus.BusError { region : Bus.Region // region.len = len }}
    {words : Bus.Region → UInt64 × UInt64} {desc slab : UInt64} {h : Bus.Handle}
    (hbus : createOrOpen createSystem openSystem words desc slab = .ok h) :
    h.SizedBy desc slab := by
  rw [createOrOpen] at hbus
  cases hcreate : Bus.Handle.create createSystem desc slab with
  | ok created =>
    rw [hcreate] at hbus
    cases hbus
    exact Bus.Handle.sizedBy_of_create hcreate
  | error e =>
    rw [hcreate] at hbus
    exact Bus.Handle.sizedBy_of_openNamed hbus

/-! ### What a bridge publishes -/

section Publishes

variable {State Input : Type} {device : Device State Input} {startup : List Action}

/-- Every message that a bridge publishes is of a kind. Assumes: so are those of its start and those
of every look at the link, as long as the bridge is in good order. -/
theorem publishes_of_run (Good : State → Prop) (Kind : List UInt8 → Prop) (hinit : Good device.init)
    (hstartup : ∀ message ∈ published startup, Kind message)
    (hforward : ∀ state message, Good state → Good (device.forward state message).1)
    (hreceive : ∀ state input after pending, Good state →
      device.receive state input = some (after, pending) →
      Good after ∧ ∀ message ∈ published pending, Kind message)
    {guard : Guard (State × List Action) (BridgeAction Input) (BridgeEvent Input)}
    {trace : List (BridgeEvent Input)} {state : State × List Action}
    (hrun : Run (bridgeSystem device startup) guard trace state) :
    ∀ message ∈ publishes trace, Kind message := by
  have hinv : Good state.1 ∧ (∀ message ∈ published state.2, Kind message) ∧
      ∀ message ∈ publishes trace, Kind message := by
    refine hrun.invariant (fun trace state ↦ Good state.1 ∧
      (∀ message ∈ published state.2, Kind message) ∧ ∀ message ∈ publishes trace, Kind message)
      ⟨hinit, hstartup, fun _ hmem ↦ nomatch hmem⟩ ?_
    intro trace state action state' events _ hinv _ hstep
    obtain ⟨hgood, hpending, hpublishes⟩ := hinv
    cases bridgeSystem_cases hstep with
    | take state message =>
      refine ⟨hforward _ _ hgood, hpending, ?_⟩
      rwa [publishes_append, publishes_take, List.append_nil]
    | look hlook =>
      obtain ⟨hafter, hkind⟩ := hreceive _ _ _ _ hgood hlook
      refine ⟨hafter, hkind, ?_⟩
      rwa [(history_looked trace _).2.1]
    | send state frame rest =>
      refine ⟨hgood, hpending, ?_⟩
      rwa [(history_wrote trace frame).2.1]
    | publish state message rest =>
      obtain ⟨hfirst, hrest⟩ := List.forall_mem_cons.mp hpending
      refine ⟨hgood, hrest, ?_⟩
      rw [(history_published trace message).2.1, List.forall_mem_append]
      exact ⟨hpublishes, by simpa using hfirst⟩
  exact hinv.2.2

/-- Of what a bridge publishes the bus refuses only what does not fit a slot, and all of it is of a
kind if that holds of the bridge on its own. Assumes: every reader thread receives through its own
handle, and at most `MAX_SUBSCRIBERS` calls subscribe. -/
theorem callsBy_fit {g : Bus.Geometry} {slab : ℕ → UInt8} {Kind : List UInt8 → Prop}
    (hkind : ∀ trace state, Run (bridgeSystem device startup) unguarded trace state →
      ∀ message ∈ publishes trace, Kind message)
    {trace : List (LoopEvent Input)} {s : LoopState State}
    (hrun : Run (loopSystem g slab device startup) (busGuard g Bus.Disciplined) trace s) :
    Bus.claimsBy 0 (busEvents trace) = (Bus.callsBy 0 (busEvents trace)).filter (Bus.FitsSlot g) ∧
      ∀ message ∈ Bus.callsBy 0 (busEvents trace), Kind message := by
  refine ⟨Bus.claimsBy_eq_filter_callsBy (fun _ _ _ hallowed ↦ hallowed.2) (run_bus hrun), ?_⟩
  rw [← publishes_bridgeEvents]
  exact hkind _ _ (run_bridge (fun _ _ hallowed ↦ hallowed) hrun)

end Publishes

/-- What a frame makes `l2bridge` publish is not empty and within `max_frame`. -/
theorem receive_publishes {link : L2.Link} {receiver receiver' : L2.Receiver} {frame : List UInt8}
    {reception : L2.Reception} (hwf : receiver.WellFormed link)
    (hreceive : receiver.receive link frame = some (receiver', reception)) :
    receiver'.WellFormed link ∧ ∀ message ∈ published reception.actions,
      message ≠ [] ∧ message.length ≤ link.cfg.maxFrame := by
  obtain ⟨next, done, hdone, hnext⟩ := hwf.receive frame
  obtain ⟨rfl, -⟩ := Prod.mk.inj (Option.some.inj (hdone.symm.trans hreceive))
  refine ⟨hnext, fun message hmem ↦ ?_⟩
  obtain ⟨verdict, hparse⟩ := hwf.parse frame
  by_cases hdata : ∃ fragment, verdict = .accepted fragment ∧ fragment.chan = 0
  · obtain ⟨fragment, rfl, hchan⟩ := hdata
    obtain ⟨reasm, actions, hreasm, -⟩ := hwf.reasm.receive link fragment
    rw [L2.Receiver.receive_data hparse hchan hreasm, Option.some.injEq, Prod.mk.injEq] at hreceive
    rw [← hreceive.2] at hmem
    obtain ⟨hne, hlength, -⟩ := hwf.reasm.publishes hreasm hmem
    exact ⟨hne, hlength⟩
  · rw [L2.Receiver.receive_other hparse fun fragment hverdict hchan ↦
      hdata ⟨fragment, hverdict, hchan⟩, Option.some.injEq, Prod.mk.injEq] at hreceive
    rw [← hreceive.2] at hmem
    cases hmem

/-- What `l2bridge` publishes at a look at the link is not empty and within `max_frame`. -/
theorem l2bridge_publishes {link : L2.Link} {state after : L2State} {input : Option (List UInt8)}
    {pending : List Action} (hwf : state.receiver.WellFormed link)
    (hreceive : (l2bridge link).receive state input = some (after, pending)) :
    after.receiver.WellFormed link ∧
      ∀ message ∈ published pending, message ≠ [] ∧ message.length ≤ link.cfg.maxFrame := by
  cases input with
  | none =>
    obtain ⟨rfl, rfl⟩ : state = after ∧ [] = pending := by simpa [l2bridge] using hreceive
    exact ⟨hwf, fun _ ↦ List.not_mem_nil.elim⟩
  | some frame =>
    simp only [l2bridge, Option.bind_eq_bind, Option.bind_eq_some_iff, Prod.exists] at hreceive
    obtain ⟨receiver, reception, htaken, hresult⟩ := hreceive
    obtain ⟨rfl, rfl⟩ := Prod.mk.inj (Option.some.inj hresult)
    exact receive_publishes hwf htaken

/-- What `usbsim_bridge` publishes at a look at the link is not longer than a slot. -/
theorem usbsimBridge_publishes {cfg : Usb.Cfg} {slotBytes : ℕ} {state after : UsbState}
    {input : UsbInput} {pending : List Action}
    (hreceive : (usbsimBridge cfg slotBytes).receive state input = some (after, pending)) :
    ∀ message ∈ published pending, message.length ≤ slotBytes := by
  intro message hmem
  simp only [usbsimBridge] at hreceive
  split at hreceive
  · split at hreceive
    · obtain ⟨rfl, rfl⟩ := Prod.mk.inj (Option.some.inj hreceive)
      split at hmem
      next hfits =>
        obtain rfl : message = _ := List.mem_singleton.mp hmem
        exact (List.length_take_le _ _).trans hfits
      next => cases hmem
    · obtain ⟨rfl, rfl⟩ := Prod.mk.inj (Option.some.inj hreceive)
      cases hmem
  · split at hreceive
    · cases hreceive
    · obtain ⟨rfl, rfl⟩ := Prod.mk.inj (Option.some.inj hreceive)
      cases hmem
  · obtain ⟨rfl, rfl⟩ := Prod.mk.inj (Option.some.inj hreceive)
    cases hmem

/-- What a bridge publishes before its loop is its probe. -/
theorem mem_startup {selfTest : Bool} {probe message : List UInt8}
    (hmem : message ∈ published (if selfTest then [.publish probe] else [])) :
    selfTest = true ∧ message = probe := by
  split at hmem
  next htest => exact ⟨htest, List.mem_singleton.mp hmem⟩
  next => cases hmem

/-- What an `l2bridge` publishes fits a slot, if messages of `max_frame` bytes and its probe do. -/
theorem L2Options.publishes_fit {options : L2Options} {generated : L2.Mac} {g : Bus.Geometry}
    (hmax : options.maxFrame.toNat ≤ g.slotBytes)
    (hprobe : options.selfTest → l2Probe.length ≤ g.slotBytes)
    {trace : List (BridgeEvent (Option (List UInt8)))} {state : L2State × List Action}
    (hrun : Run (bridgeSystem (l2bridge (options.link generated)) options.startup) unguarded trace
      state) :
    ∀ message ∈ publishes trace, Bus.FitsSlot g message := by
  refine publishes_of_run (fun state ↦ state.receiver.WellFormed (options.link generated)) _
    (L2.Receiver.wellFormed_initial _) ?_ (fun _ _ hwf ↦ hwf) ?_ hrun
  · intro message hmem
    obtain ⟨htest, rfl⟩ := mem_startup hmem
    exact ⟨by decide, hprobe htest⟩
  · intro state input after pending hwf hreceive
    obtain ⟨hafter, hpublishes⟩ := l2bridge_publishes hwf hreceive
    exact ⟨hafter, fun message hmem ↦
      (hpublishes message hmem).imp_right fun hlength ↦ hlength.trans hmax⟩

/-- What a `usbsim_bridge` publishes is not longer than a slot, if its probe is not. -/
theorem UsbOptions.publishes_short {options : UsbOptions} {slotBytes : ℕ}
    (hprobe : options.selfTest → usbProbe.length ≤ slotBytes)
    {trace : List (BridgeEvent UsbInput)} {state : UsbState × List Action}
    (hrun : Run (bridgeSystem (usbsimBridge options.cfg slotBytes) options.startup) unguarded trace
      state) :
    ∀ message ∈ publishes trace, message.length ≤ slotBytes := by
  refine publishes_of_run (fun _ ↦ True) _ trivial ?_ (fun _ _ _ ↦ trivial) ?_ hrun
  · intro message hmem
    obtain ⟨htest, rfl⟩ := mem_startup hmem
    exact hprobe htest
  · exact fun _ _ _ _ _ hreceive ↦ ⟨trivial, usbsimBridge_publishes hreceive⟩

/-! ### The result -/

/-- A bridge that has started is never refused by its bus. Assumes: its probe, if it sends one, fits
a slot; every reader thread receives through its own handle, and at most `MAX_SUBSCRIBERS` calls
subscribe. Whatever the command line that has started it, whatever the bus that it has created or
opened and whatever comes over the link, every `publish` of an `l2bridge` reserves a number of the
log, and so does every `publish` of a `usbsim_bridge` but those of empty messages. -/
theorem started_never_refused
    (createSystem openSystem :
      (len : UInt64) → Except Bus.BusError { region : Bus.Region // region.len = len })
    (words : Bus.Region → UInt64 × UInt64) (args : List String) (h : Bus.Handle) :
    (∀ options generated, l2Start args = .ok options →
      createOrOpen createSystem openSystem words options.desc options.slab = .ok h →
      (options.selfTest → l2Probe.length ≤ h.slotBytes.toNat) →
      ∃ hpow, ∀ (slab : ℕ → UInt8) (trace : List (LoopEvent (Option (List UInt8))))
        (s : LoopState L2State),
        Run (loopSystem (h.geometry hpow) slab (l2bridge (options.link generated)) options.startup)
          (busGuard (h.geometry hpow) Bus.Disciplined) trace s →
        Bus.claimsBy 0 (busEvents trace) = Bus.callsBy 0 (busEvents trace)) ∧
    ∀ options, usbStart args = .ok options →
      createOrOpen createSystem openSystem words options.desc options.slab = .ok h →
      (options.selfTest → usbProbe.length ≤ h.slotBytes.toNat) →
      ∃ hpow, ∀ (slab : ℕ → UInt8) (trace : List (LoopEvent UsbInput)) (s : LoopState UsbState),
        Run (loopSystem (h.geometry hpow) slab
            (usbsimBridge options.cfg (options.slab / options.desc).toNat) options.startup)
          (busGuard (h.geometry hpow) Bus.Disciplined) trace s →
        Bus.claimsBy 0 (busEvents trace) =
          (Bus.callsBy 0 (busEvents trace)).filter (· ≠ []) := by
  constructor
  · intro options generated hstart hbus hprobe
    have hsized := sizedBy_of_createOrOpen hbus
    obtain ⟨hpow, -, -⟩ := hsized.spec
    obtain ⟨-, -, -, hmax⟩ := l2Start_eq_ok_iff.mp hstart
    rw [← hsized.slotBytes_eq] at hmax
    refine ⟨hpow, fun slab trace s hrun ↦ ?_⟩
    have hroom : options.maxFrame.toNat ≤ (h.geometry hpow).slotBytes := hmax
    obtain ⟨hclaims, hfits⟩ :=
      callsBy_fit (fun _ _ hbridge ↦ options.publishes_fit hroom hprobe hbridge) hrun
    rw [hclaims]
    exact List.filter_eq_self.mpr fun message hmem ↦ by simpa using hfits message hmem
  · intro options hstart hbus hprobe
    have hsized := sizedBy_of_createOrOpen hbus
    obtain ⟨hpow, -, -⟩ := hsized.spec
    rw [← hsized.slotBytes_eq]
    refine ⟨hpow, fun slab trace s hrun ↦ ?_⟩
    obtain ⟨hclaims, hfits⟩ :=
      callsBy_fit (fun _ _ hbridge ↦ options.publishes_short hprobe hbridge) hrun
    rw [hclaims]
    refine List.filter_congr fun message hmem ↦ ?_
    have hfit := hfits message hmem
    simp [Bus.FitsSlot, Bus.Handle.geometry, hfit]

/-- Both bridges on a bus with a single slot, each with its probe. A frame without a payload makes
`usbsim_bridge` publish an empty message, which is refused. -/
theorem started_never_refused_probes :
    (∃ (trace : List (LoopEvent (Option (List UInt8)))) (s : LoopState L2State),
      Run (loopSystem oneSlot (fun _ ↦ 0) (l2bridge (.defaults (Vector.replicate 6 2)))
        [.publish l2Probe]) (busGuard oneSlot Bus.Disciplined) trace s ∧
      Bus.callsBy 0 (busEvents trace) = [l2Probe] ∧
      Bus.claimsBy 0 (busEvents trace) = [l2Probe]) ∧
    ∃ (trace : List (LoopEvent UsbInput)) (s : LoopState UsbState),
      Run (loopSystem oneSlot (fun _ ↦ 0) (usbsimBridge ⟨4096, 8⟩ 4096) [.publish usbProbe])
        (busGuard oneSlot Bus.Disciplined) trace s ∧
      Bus.callsBy 0 (busEvents trace) = [usbProbe, []] ∧
      Bus.claimsBy 0 (busEvents trace) = [usbProbe] := by
  let h : Bus.Handle := ⟨⟨4096, 4800, by decide⟩, 1, 4096, 704⟩
  have hbus : createOrOpen (Bus.Region.mapAt 4096) (Bus.Region.mapAt 4096) (fun _ ↦ (0, 0)) 1 4096 =
    .ok h := rfl
  constructor
  · let system := loopSystem oneSlot (fun _ ↦ 0) (l2bridge (.defaults (Vector.replicate 6 2)))
      [.publish l2Probe]
    let actions : List (LoopAction (Option (List UInt8))) := List.replicate 25 (.own false)
    have hexec : (system.exec system.init actions).map (fun result ↦
        Bus.callsBy 0 (busEvents result.2)) = some [l2Probe] := by decide +kernel
    have hpermitted :
        Permitted system (busGuard oneSlot Bus.Disciplined) [] system.init actions := by
      decide +kernel
    obtain ⟨⟨s, trace⟩, hfinal, hcalls⟩ := Option.map_eq_some_iff.mp hexec
    have hrun := run_of_permitted hpermitted hfinal
    obtain ⟨_, hnever⟩ := (started_never_refused (Bus.Region.mapAt 4096) (Bus.Region.mapAt 4096)
      (fun _ ↦ (0, 0)) ["--iface", "veth0", "--desc", "1", "--slab", "4096", "--self-test"] h).1
      { L2Options.defaults with iface := "veth0", desc := 1, slab := 4096, selfTest := true }
      (Vector.replicate 6 2) rfl hbus (fun _ ↦ by decide)
    exact ⟨trace, s, hrun, hcalls, (hnever _ trace s hrun).trans hcalls⟩
  · let system := loopSystem oneSlot (fun _ ↦ 0) (usbsimBridge ⟨4096, 8⟩ 4096) [.publish usbProbe]
    let actions : List (LoopAction UsbInput) :=
      List.replicate 43 (.own false) ++ [.look ⟨Usb.writeFrame 0 8 0 [], false⟩, .own false]
    have hexec : (system.exec system.init actions).map (fun result ↦
        Bus.callsBy 0 (busEvents result.2)) = some [usbProbe, []] := by decide +kernel
    have hpermitted :
        Permitted system (busGuard oneSlot Bus.Disciplined) [] system.init actions := by
      decide +kernel
    obtain ⟨⟨s, trace⟩, hfinal, hcalls⟩ := Option.map_eq_some_iff.mp hexec
    have hrun := run_of_permitted hpermitted hfinal
    obtain ⟨_, hnever⟩ := (started_never_refused (Bus.Region.mapAt 4096) (Bus.Region.mapAt 4096)
      (fun _ ↦ (0, 0))
      ["--self-test", "--slab", "4096", "--endpoint", "pty:/dev/pts/7", "--desc", "1"] h).2
      { UsbOptions.defaults with
        endpoint := "pty:/dev/pts/7", desc := 1, slab := 4096, selfTest := true }
      rfl hbus (fun _ ↦ by decide)
    refine ⟨trace, s, hrun, hcalls, (hnever _ trace s hrun).trans ?_⟩
    rw [hcalls]
    rfl

end AarnnNsys.Cli
