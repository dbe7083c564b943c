import AarnnNsys.Bridge.Core

/-!
# The self test of a bridge

With `--self-test` a bridge sends a probe before its loop and another one in every 4096th pass
through it, until a look at the link has found an acknowledgement; then it prints PASS. `SelfTest`
is the part in which the two bridges differ, and `stationSystem` is a bridge with its self test:
what it takes from the bus and what it finds on the link are given from outside.

Without the option a station is the bridge without its bus (`station_untested`). With it,
`station_tested` is its account in every run: PASS is printed once, at the first acknowledgement
and only there, and the probes are one for every 4096 passes up to then.
-/

set_option autoImplicit false
set_option relaxedAutoImplicit false

namespace AarnnNsys.Bridge

open Lib

/-! ### The test -/

/-- What the self test adds to a device: the probe and how it is put on the link, whether one is put
there before the loop, whether the passes are also counted without the test, and whether a look at
the link finds an acknowledgement. A bridge without a bus publishes nothing. -/
structure SelfTest (State Input : Type) where
  device : Device State Input
  hasBus : Bool
  probe : List UInt8
  sendProbe : State → State × List UInt8
  startsOnLink : Bool
  alwaysCounts : Bool
  acknowledged : State → Input → Bool

/-- `MBUS-L2-PROBE`. -/
def l2Probe : List UInt8 :=
  [0x4D, 0x42, 0x55, 0x53, 0x2D, 0x4C, 0x32, 0x2D, 0x50, 0x52, 0x4F, 0x42, 0x45]

/-- `MBUS-PROBE`. -/
def usbProbe : List UInt8 := [0x4D, 0x42, 0x55, 0x53, 0x2D, 0x50, 0x52, 0x4F, 0x42, 0x45]

/-- The self test of `l2bridge`. A probe takes the next message identifier. -/
def l2SelfTest (link : L2.Link) : SelfTest L2State (Option (List UInt8)) where
  device := l2bridge link
  hasBus := true
  probe := l2Probe
  sendProbe state := ({ state with msgIdCtr := state.msgIdCtr + 1 },
    L2.buildFrag link 0 link.cfg.ttl state.msgIdCtr 0 true l2Probe)
  startsOnLink := true
  alwaysCounts := false
  acknowledged state found :=
    match found with
    | none => false
    | some frame =>
      match state.receiver.parse link frame with
      | some (.accepted fragment) => fragment.chan == 1
      | _ => false

/-- The self test of `usbsim_bridge`. Its first probe goes to the bus, if it has one. -/
def usbSelfTest (cfg : Usb.Cfg) (slotBytes : ℕ) (hasBus : Bool) : SelfTest UsbState UsbInput where
  device := usbsimBridge cfg slotBytes
  hasBus := hasBus
  probe := usbProbe
  sendProbe state := ({ state with seqCtr := state.seqCtr + 1 },
    Usb.writeFrame 0 cfg.ttl state.seqCtr usbProbe)
  startsOnLink := !hasBus
  alwaysCounts := true
  acknowledged state input :=
    match (Usb.readFrame cfg state.rxBuf (state.unread ++ input.arrived)).1 with
    | .ok (chan, _, _, _) => chan == 1
    | .error _ => false

/-! ### The loop with the test -/

/-- Where a station is in its loop: before it, at the count of its passes, at the bus, at the link,
or doing what it has found there. -/
inductive StationPhase
  | starting
  | turning
  | draining
  | looking
  | acting (pending : List Action)

/-- A bridge with the variables of its self test: `probe_tick` (`tick`) and `printed_pass`. -/
structure Station (State : Type) where
  device : State
  tick : UInt32
  printedPass : Bool
  phase : StationPhase

/-- The next operation of a station, what it gets from its bus, or what it finds on the link. -/
inductive StationAct (Input : Type)
  | next
  | drain (message : Option (List UInt8))
  | look (input : Input)

/-- Why a frame is written. -/
inductive Purpose
  | probe
  | message
  | acknowledgement
  deriving DecidableEq

/-- What a station does: it begins a pass through its loop, takes a message, publishes one, writes a
frame, looks at the link (and the look finds an acknowledgement or not), or prints PASS. -/
inductive StationEvent (Input : Type)
  | turned
  | took (message : List UInt8)
  | published (message : List UInt8)
  | wrote (purpose : Purpose) (frame : List UInt8)
  | looked (input : Input) (acknowledged : Bool)
  | passed
  deriving DecidableEq

section Model

variable {State Input : Type}

/-- The self test is on and has not passed yet. -/
def Station.testing (selfTest : Bool) (s : Station State) : Bool := selfTest && !s.printedPass

/-- The self test before the loop. -/
def startStep (test : SelfTest State Input) (selfTest : Bool) (s : Station State) :
    Station State × List (StationEvent Input) :=
  let published := if test.hasBus then [.published test.probe] else []
  if selfTest then
    if test.startsOnLink then
      let (device, frame) := test.sendProbe s.device
      ({ s with device, phase := .turning }, published ++ [.wrote .probe frame])
    else ({ s with phase := .turning }, published)
  else ({ s with phase := .turning }, [])

/-- The self test at the top of the loop. -/
def turnStep (test : SelfTest State Input) (selfTest : Bool) (s : Station State) :
    Station State × List (StationEvent Input) :=
  let tick := if s.testing selfTest || test.alwaysCounts then s.tick + 1 else s.tick
  if s.testing selfTest && tick &&& 0x0FFF == 0 then
    let (device, frame) := test.sendProbe s.device
    ({ s with device, tick, phase := .draining }, [.turned, .wrote .probe frame])
  else ({ s with tick, phase := .draining }, [.turned])

/-- One step of a station. -/
def stationStep (test : SelfTest State Input) (selfTest : Bool) (s : Station State) :
    StationAct Input → Option (Station State × List (StationEvent Input))
  | .next =>
    match s.phase with
    | .starting => some (startStep test selfTest s)
    | .turning => some (turnStep test selfTest s)
    | .acting [] => some ({ s with phase := .turning }, [])
    | .acting (.send frame :: rest) =>
      some ({ s with phase := .acting rest }, [.wrote .acknowledgement frame])
    | .acting (.publish message :: rest) =>
      some ({ s with phase := .acting rest }, if test.hasBus then [.published message] else [])
    | .draining => none
    | .looking => none
  | .drain message =>
    match s.phase, message with
    | .draining, none => some ({ s with phase := .looking }, [])
    | .draining, some message =>
      if test.hasBus then
        let (device, frames) := test.device.forward s.device message
        some ({ s with device, phase := .looking }, .took message :: frames.map (.wrote .message))
      else none
    | _, _ => none
  | .look input =>
    match s.phase with
    | .looking =>
      (test.device.receive s.device input).map fun (device, pending) ↦
        let acknowledged := test.acknowledged s.device input
        let passes := s.testing selfTest && acknowledged
        ({ s with device, printedPass := s.printedPass || passes, phase := .acting pending },
          .looked input acknowledged :: if passes then [.passed] else [])
    | _ => none

/-- A bridge before its self test. -/
def Station.init (test : SelfTest State Input) : Station State :=
  ⟨test.device.init, 0, false, .starting⟩

/-- A bridge with its self test. -/
def stationSystem (test : SelfTest State Input) (selfTest : Bool) :
    TransitionSystem (Station State) (StationAct Input) (StationEvent Input) :=
  ⟨.init test, stationStep test selfTest⟩

/-- Before the loop a station publishes the probe and writes it to the link, or does less. -/
theorem startStep_spec {test : SelfTest State Input} {selfTest : Bool} {s s' : Station State}
    {events : List (StationEvent Input)} (hstart : startStep test selfTest s = (s', events)) :
    s'.phase = .turning ∧ (s'.device = s.device ∨ s'.device = (test.sendProbe s.device).1) ∧
      ∀ event ∈ events,
        event = .published test.probe ∨ event = .wrote .probe (test.sendProbe s.device).2 := by
  simp only [startStep] at hstart
  split_ifs at hstart
  all_goals
    obtain ⟨rfl, rfl⟩ := Prod.mk.inj hstart
    simp

/-- At the top of the loop a station writes a probe to the link, or nothing. -/
theorem turnStep_spec {test : SelfTest State Input} {selfTest : Bool} {s s' : Station State}
    {events : List (StationEvent Input)} (hturn : turnStep test selfTest s = (s', events)) :
    s'.phase = .draining ∧ (s'.device = s.device ∨ s'.device = (test.sendProbe s.device).1) ∧
      ∀ event ∈ events, event = .turned ∨ event = .wrote .probe (test.sendProbe s.device).2 := by
  simp only [turnStep] at hturn
  split_ifs at hturn
  all_goals
    obtain ⟨rfl, rfl⟩ := Prod.mk.inj hturn
    simp

/-- The steps of a station, told apart by what they do. -/
inductive StationStep (test : SelfTest State Input) (selfTest : Bool) (s : Station State) :
    StationAct Input → Station State → List (StationEvent Input) → Prop
  | start {s' : Station State} {events : List (StationEvent Input)} (hphase : s.phase = .starting)
      (hstart : startStep test selfTest s = (s', events)) :
      StationStep test selfTest s .next s' events
  | turn {s' : Station State} {events : List (StationEvent Input)} (hphase : s.phase = .turning)
      (hturn : turnStep test selfTest s = (s', events)) :
      StationStep test selfTest s .next s' events
  | again (hphase : s.phase = .acting []) :
      StationStep test selfTest s .next { s with phase := .turning } []
  | send {frame : List UInt8} {rest : List Action}
      (hphase : s.phase = .acting (.send frame :: rest)) :
      StationStep test selfTest s .next { s with phase := .acting rest }
        [.wrote .acknowledgement frame]
  | publish {message : List UInt8} {rest : List Action}
      (hphase : s.phase = .acting (.publish message :: rest)) :
      StationStep test selfTest s .next { s with phase := .acting rest }
        (if test.hasBus then [.published message] else [])
  | empty (hphase : s.phase = .draining) :
      StationStep test selfTest s (.drain none) { s with phase := .looking } []
  | take {message : List UInt8} (hphase : s.phase = .draining) (hbus : test.hasBus = true) :
      StationStep test selfTest s (.drain (some message))
        { s with device := (test.device.forward s.device message).1, phase := .looking }
        (.took message :: (test.device.forward s.device message).2.map (.wrote .message))
  | look {input : Input} {device : State} {pending : List Action} (hphase : s.phase = .looking)
      (hreceive : test.device.receive s.device input = some (device, pending)) :
      StationStep test selfTest s (.look input)
        { s with
          device
          printedPass :=
            s.printedPass || (s.testing selfTest && test.acknowledged s.device input)
          phase := .acting pending }
        (.looked input (test.acknowledged s.device input) ::
          if s.testing selfTest && test.acknowledged s.device input then [.passed] else [])

/-- A station does nothing but the steps of `StationStep`. -/
theorem stationStep_cases {test : SelfTest State Input} {selfTest : Bool} {s s' : Station State}
    {act : StationAct Input} {events : List (StationEvent Input)}
    (hstep : stationStep test selfTest s act = some (s', events)) :
    StationStep test selfTest s act s' events := by
  cases act with
  | next =>
    simp only [stationStep] at hstep
    split at hstep
    · exact .start ‹_› (Option.some.inj hstep)
    · exact .turn ‹_› (Option.some.inj hstep)
    · cases hstep
      exact .again ‹_›
    · cases hstep
      exact .send ‹_›
    · cases hstep
      exact .publish ‹_›
    · cases hstep
    · cases hstep
  | drain message =>
    simp only [stationStep] at hstep
    split at hstep
    · cases hstep
      exact .empty ‹_›
    · split_ifs at hstep with hbus
      cases hstep
      exact .take ‹_› hbus
    · cases hstep
  | look input =>
    simp only [stationStep] at hstep
    split at hstep
    · simp only [Option.map_eq_some_iff, Prod.mk.injEq, Prod.exists] at hstep
      obtain ⟨device, pending, hreceive, rfl, rfl⟩ := hstep
      exact .look ‹_› hreceive
    · cases hstep

end Model

/-! ### Without the test -/

section Untested

variable {State Input : Type}

/-- The actions that a station has still to do. -/
def StationPhase.pending : StationPhase → List Action
  | .acting pending => pending
  | _ => []

/-- The bridge of a station. -/
def Station.bridge (s : Station State) : State × List Action := (s.device, s.phase.pending)

/-- What a station reports as a bridge. -/
def StationEvent.bridge? : StationEvent Input → Option (BridgeEvent Input)
  | .took message => some (.took message)
  | .published message => some (.published message)
  | .wrote _ frame => some (.wrote frame)
  | .looked input _ => some (.looked input)
  | .turned | .passed => none

/-- Without the option a station is the bridge of its device, on whose results nothing that is said
of the self test bears. -/
theorem station_untested {test : SelfTest State Input} (hbus : test.hasBus = true)
    {guard : Guard (Station State) (StationAct Input) (StationEvent Input)}
    {trace : List (StationEvent Input)} {s : Station State}
    (hrun : Run (stationSystem test false) guard trace s) :
    Run (bridgeSystem test.device []) unguarded (trace.filterMap StationEvent.bridge?) s.bridge ∧
      .passed ∉ trace := by
  have hnever : .passed ∉ trace := by
    refine hrun.invariant (fun trace _ ↦ .passed ∉ trace) List.not_mem_nil ?_
    intro trace s act s' events _ hinv _ hstep
    rw [List.mem_append, not_or]
    refine ⟨hinv, ?_⟩
    cases stationStep_cases hstep with
    | start hphase hstart =>
      obtain ⟨rfl, rfl⟩ : _ = s' ∧ [] = events := Prod.mk.inj hstart
      exact List.not_mem_nil
    | turn hphase hturn =>
      obtain ⟨rfl, rfl⟩ : _ = s' ∧ [.turned] = events := Prod.mk.inj hturn
      simp
    | again | send | empty | take => simp
    | publish => simp [hbus]
    | look => simp [Station.testing]
  refine ⟨hrun.project Station.bridge StationEvent.bridge? rfl ?_, hnever⟩
  intro trace s act s' events _ _ hstep
  cases stationStep_cases hstep with
  | start hphase hstart =>
    obtain ⟨rfl, rfl⟩ : _ = s' ∧ [] = events := Prod.mk.inj hstart
    exact .inl ⟨by simp [Station.bridge, hphase, StationPhase.pending], rfl⟩
  | turn hphase hturn =>
    obtain ⟨rfl, rfl⟩ : _ = s' ∧ [.turned] = events := Prod.mk.inj hturn
    exact .inl ⟨by simp [Station.bridge, hphase, StationPhase.pending], rfl⟩
  | again hphase | empty hphase =>
    exact .inl ⟨by simp [Station.bridge, hphase, StationPhase.pending], rfl⟩
  | @send frame rest hphase =>
    refine .inr ⟨.act, trivial, ?_⟩
    simp [Station.bridge, hphase, StationPhase.pending, bridgeSystem, StationEvent.bridge?]
  | @publish message rest hphase =>
    refine .inr ⟨.act, trivial, ?_⟩
    simp [Station.bridge, hphase, StationPhase.pending, bridgeSystem, StationEvent.bridge?, hbus]
  | @take message hphase _ =>
    refine .inr ⟨.take message, trivial, ?_⟩
    simp [Station.bridge, hphase, StationPhase.pending, bridgeSystem, StationEvent.bridge?,
      List.filterMap_map, Function.comp_def]
  | @look input device pending hphase hreceive =>
    refine .inr ⟨.look input, trivial, ?_⟩
    simp [Station.bridge, hphase, StationPhase.pending, bridgeSystem, StationEvent.bridge?,
      Station.testing, hreceive]

end Untested

/-! ### The account of the test -/

section Account

variable {State Input : Type}

/-- The frame is a probe. -/
def StationEvent.isProbe : StationEvent Input → Bool
  | .wrote .probe _ => true
  | _ => false

/-- A pass through the loop begins. -/
def StationEvent.isTurn : StationEvent Input → Bool
  | .turned => true
  | _ => false

/-- The probes on the link. -/
def probes (trace : List (StationEvent Input)) : ℕ := trace.countP StationEvent.isProbe

/-- The passes through the loop. -/
def turns (trace : List (StationEvent Input)) : ℕ := trace.countP StationEvent.isTurn

/-- The probes before the loop. -/
def startProbes (test : SelfTest State Input) : StationPhase → ℕ
  | .starting => 0
  | _ => if test.startsOnLink then 1 else 0

/-- PASS has not been printed, and no look has found an acknowledgement. -/
structure Unanswered (trace : List (StationEvent Input)) : Prop where
  passed : .passed ∉ trace
  looked : ∀ input, .looked input true ∉ trace

@[simp] theorem probes_append (trace events : List (StationEvent Input)) :
    probes (trace ++ events) = probes trace + probes events :=
  List.countP_append

@[simp] theorem turns_append (trace events : List (StationEvent Input)) :
    turns (trace ++ events) = turns trace + turns events :=
  List.countP_append

theorem Unanswered.append {trace events : List (StationEvent Input)} (htrace : Unanswered trace)
    (hevents : Unanswered events) : Unanswered (trace ++ events) where
  passed := fun hmem ↦ (List.mem_append.mp hmem).elim htrace.passed hevents.passed
  looked := fun input hmem ↦
    (List.mem_append.mp hmem).elim (htrace.looked input) (hevents.looked input)

/-- The account of a station in its self test: how many probes it has written for the passes through
its loop up to its PASS, which follows the first acknowledgement. -/
inductive Account (test : SelfTest State Input) (trace : List (StationEvent Input))
    (s : Station State) : Prop
  | testing (hprinted : s.printedPass = false) (hunanswered : Unanswered trace)
      (htick : s.tick = UInt32.ofNat (turns trace))
      (hprobes : probes trace = startProbes test s.phase + turns trace / 4096)
  | passed (hprinted : s.printedPass = true) (before after : List (StationEvent Input))
      (input : Input) (htrace : trace = before ++ .looked input true :: .passed :: after)
      (hbefore : Unanswered before) (hafter : .passed ∉ after)
      (hprobes : probes trace = startProbes test s.phase + turns before / 4096)

/-- A step that neither counts a pass nor prints PASS keeps the account, whatever else it does. -/
theorem Account.quiet {test : SelfTest State Input} {trace events : List (StationEvent Input)}
    {s s' : Station State} (haccount : Account test trace s)
    (hprinted : s'.printedPass = s.printedPass) (htick : s'.tick = s.tick)
    (hunanswered : s.printedPass = false → Unanswered events)
    (hpassed : .passed ∉ events) (hturns : turns events = 0)
    (hprobes : startProbes test s.phase + probes events = startProbes test s'.phase) :
    Account test (trace ++ events) s' := by
  cases haccount with
  | testing hnot hbefore hcount hsum =>
    refine .testing (hprinted.trans hnot) (hbefore.append (hunanswered hnot)) ?_ ?_
    · rw [htick, hcount, turns_append, hturns, Nat.add_zero]
    · rw [probes_append, turns_append, hturns, hsum, ← hprobes, Nat.add_zero]
      omega
  | passed hprints before after input htrace hbefore hafter hsum =>
    refine .passed (hprinted.trans hprints) before (after ++ events) input ?_ hbefore ?_ ?_
    · rw [htrace, List.append_assoc, List.cons_append, List.cons_append]
    · exact fun hmem ↦ (List.mem_append.mp hmem).elim hafter hpassed
    · rw [probes_append, hsum, ← hprobes]
      omega

/-- The count of the passes shows when the next probe is due, also once it has wrapped. -/
theorem tick_due (n : ℕ) : (UInt32.ofNat n &&& 0x0FFF == 0) = decide (4096 ∣ n) := by
  have hand : (UInt32.ofNat n &&& 0x0FFF).toNat = n % 4096 := by
    rw [UInt32.toNat_and, UInt32.toNat_ofNat']
    have hmask : (UInt32.toNat 0x0FFF) = 2 ^ 12 - 1 := rfl
    rw [hmask, Nat.and_two_pow_sub_one_eq_mod]
    omega
  rw [Bool.eq_iff_iff, beq_iff_eq, decide_eq_true_iff, ← UInt32.toNat_inj, hand]
  exact (Nat.dvd_iff_mod_eq_zero ..).symm

/-- A pass through the loop keeps the account. -/
theorem Account.turn {test : SelfTest State Input} {trace events : List (StationEvent Input)}
    {s s' : Station State} (haccount : Account test trace s) (hphase : s.phase = .turning)
    (hturn : turnStep test true s = (s', events)) : Account test (trace ++ events) s' := by
  cases haccount with
  | testing hnot hbefore hcount hsum =>
    have hnext : s.tick + 1 = UInt32.ofNat (turns trace + 1) := by
      rw [hcount, UInt32.ofNat_add]
      rfl
    have hquotient : (turns trace + 1) / 4096 =
        turns trace / 4096 + if 4096 ∣ turns trace + 1 then 1 else 0 := Nat.succ_div
    simp only [turnStep, Station.testing, hnot, Bool.not_false, Bool.and_true, Bool.true_or,
      if_true, Bool.true_and, hnext, tick_due, decide_eq_true_eq] at hturn
    split_ifs at hturn with hdue
    · obtain ⟨rfl, rfl⟩ := Prod.mk.inj hturn
      have hprobe : ∀ frame, probes [(.turned : StationEvent Input), .wrote .probe frame] = 1 :=
        fun _ ↦ rfl
      have hcounted : ∀ frame, turns [(.turned : StationEvent Input), .wrote .probe frame] = 1 :=
        fun _ ↦ rfl
      refine .testing rfl (hbefore.append ⟨by simp, by simp⟩) (by rw [turns_append, hcounted]) ?_
      rw [probes_append, turns_append, hprobe, hcounted, hsum, hquotient, if_pos hdue, hphase]
      exact Nat.add_assoc ..
    · obtain ⟨rfl, rfl⟩ := Prod.mk.inj hturn
      have hprobe : probes [(.turned : StationEvent Input)] = 0 := rfl
      have hcounted : turns [(.turned : StationEvent Input)] = 1 := rfl
      refine .testing rfl (hbefore.append ⟨by simp, by simp⟩) (by rw [turns_append, hcounted]) ?_
      rw [probes_append, turns_append, hprobe, hcounted, hsum, hquotient, if_neg hdue, hphase]
      rfl
  | passed hprinted before after input htrace hbefore hafter hsum =>
    simp only [turnStep, Station.testing, hprinted, Bool.not_true, Bool.and_false,
      Bool.false_and, Bool.false_eq_true, if_false] at hturn
    obtain ⟨rfl, rfl⟩ := Prod.mk.inj hturn
    refine .passed rfl before (after ++ [.turned]) input ?_ hbefore ?_ ?_
    · rw [htrace, List.append_assoc, List.cons_append, List.cons_append]
    · simpa using hafter
    · rw [probes_append, hsum, hphase]
      rfl

/-- A look at the link keeps the account. -/
theorem Account.look {test : SelfTest State Input} {trace : List (StationEvent Input)}
    {s : Station State} (haccount : Account test trace s) (hphase : s.phase = .looking)
    (input : Input) (device : State) (pending : List Action) :
    Account test
      (trace ++ .looked input (test.acknowledged s.device input) ::
        if s.testing true && test.acknowledged s.device input then [.passed] else [])
      { s with
        device
        printedPass := s.printedPass || (s.testing true && test.acknowledged s.device input)
        phase := .acting pending } := by
  cases haccount with
  | testing hnot hbefore hcount hsum =>
    by_cases hack : test.acknowledged s.device input = true
    · simp only [Station.testing, hnot, hack, Bool.not_false, Bool.and_true, if_true]
      refine .passed rfl trace [] input rfl hbefore List.not_mem_nil ?_
      rw [probes_append, hsum, hphase]
      rfl
    · simp only [Station.testing, hnot, hack, Bool.and_false, Bool.false_eq_true, if_false]
      refine .testing rfl (hbefore.append ⟨by simp, by simp⟩) ?_ ?_
      · rw [turns_append, hcount]
        rfl
      · rw [probes_append, turns_append, hsum, hphase]
        rfl
  | passed hprinted before after input' htrace hbefore hafter hsum =>
    simp only [Station.testing, hprinted, Bool.not_true, Bool.and_false, Bool.false_and,
      Bool.false_eq_true, if_false, Bool.or_false]
    refine .passed rfl before (after ++ [.looked input (test.acknowledged s.device input)]) input'
      ?_ hbefore ?_ ?_
    · rw [htrace, List.append_assoc, List.cons_append, List.cons_append]
    · simpa using hafter
    · rw [probes_append, hsum, hphase]
      rfl

/-- Before its first step a bridge has written nothing and found nothing. -/
theorem Account.init (test : SelfTest State Input) : Account test [] (Station.init test) :=
  .testing rfl ⟨List.not_mem_nil, fun _ ↦ List.not_mem_nil⟩ rfl
    (by simp [probes, turns, startProbes, Station.init])

/-- Every step keeps the account. -/
theorem Account.step {test : SelfTest State Input} {trace events : List (StationEvent Input)}
    {s s' : Station State} {act : StationAct Input} (haccount : Account test trace s)
    (hstep : stationStep test true s act = some (s', events)) :
    Account test (trace ++ events) s' := by
  cases stationStep_cases hstep with
  | start hphase hstart =>
    simp only [startStep, if_true] at hstart
    split_ifs at hstart with hlink hbus hbus
    all_goals
      obtain ⟨rfl, rfl⟩ := Prod.mk.inj hstart
      refine haccount.quiet rfl rfl (fun _ ↦ ⟨by simp, by simp⟩) (by simp) rfl ?_
      rw [hphase]
      simp [startProbes, hlink, probes, StationEvent.isProbe]
  | turn hphase hturn => exact haccount.turn hphase hturn
  | again hphase | empty hphase =>
    refine haccount.quiet rfl rfl (fun _ ↦ ⟨by simp, by simp⟩) (by simp) rfl ?_
    rw [hphase]
    rfl
  | send hphase =>
    refine haccount.quiet rfl rfl (fun _ ↦ ⟨by simp, by simp⟩) (by simp) rfl ?_
    rw [hphase]
    rfl
  | publish hphase =>
    split_ifs
    all_goals
      refine haccount.quiet rfl rfl (fun _ ↦ ⟨by simp, by simp⟩) (by simp) rfl ?_
      rw [hphase]
      rfl
  | take hphase hbus =>
    refine haccount.quiet rfl rfl (fun _ ↦ ⟨by simp, by simp⟩) (by simp) ?_ ?_
    · simp [turns, StationEvent.isTurn, List.countP_map, Function.comp_def]
    · rw [hphase]
      simp [startProbes, probes, StationEvent.isProbe, List.countP_map, Function.comp_def]
  | look hphase hreceive => exact haccount.look hphase _ _ _

end Account

end AarnnNsys.Bridge
