import AarnnNsys.Bridge.Joined
import AarnnNsys.Bus.Shared

/-!
# A network of buses

`netSystem` is any number of buses joined by `l2bridge` processes, in any topology: each bridge uses
the threads of its number on one bus, which it may share with other bridges and with applications,
and its socket is on one segment of the link. A look finds nothing or any frame that another bridge
has written to the segment, so frames may be lost, repeated, reordered and found by many.

Beside what the processes keep, the state has a history that no step depends on: every entry of a
bus's log, every frame and every bridge in its `receive` branch has an `Origin`, the links that the
message has crossed and the ttl it arrived with. `run_busOf` says that every bus of a run is a run
of the bus, and `recorded_of_run` that the origin of what a bridge takes is always known.

The bridges run without the self test.
-/

set_option autoImplicit false
set_option relaxedAutoImplicit false

namespace AarnnNsys.Bridge

open Function Lib

/-! ### A bridge on a bus that it shares -/

section Thread

variable {State Input : Type}

/-- A bridge may yet publish what it has found on the link. -/
def Phase.Publishes : Phase → Prop
  | .acting pending => published pending ≠ []
  | .publishing _ => True
  | _ => False

/-- The steps of a bridge that uses the threads of number `t` and starts without actions, told apart
by what they do to the bus and to the link. -/
inductive ThreadStep (t : ℕ) (g : Bus.Geometry) (device : Device State Input)
    (s : LoopState State) : LoopState State → List (LoopEvent Input) → Prop
  | silent {phase : Phase} (hpending : ∀ frame ∈ sent (phase.pending []),
        frame ∈ sent (s.phase.pending []))
      (hpublishes : phase.Publishes → s.phase.Publishes) :
      ThreadStep t g device s { s with phase } []
  | consumer {action : Bus.Action} {bus : Bus.State} {events : List Bus.Event} {phase : Phase}
      (hconsumer : ∀ p act, action ≠ .producer p act)
      (hbus : Bus.step g s.bus action = some (bus, events)) (hpending : phase.pending [] = [])
      (hpublishes : ¬ phase.Publishes) :
      ThreadStep t g device s { s with bus, phase } (events.map .bus)
  | received {message : List UInt8} {bus : Bus.State} {events : List Bus.Event}
      (hphase : s.phase = .receiving)
      (hbus : Bus.step g s.bus (.reader t .next) = some (bus, events))
      (hmessage : (Bus.received t events).head? = some message) :
      ThreadStep t g device s
        { s with bus, phase := .look, device := (device.forward s.device message).1 }
        (events.map .bus ++ (device.forward s.device message).2.map .wrote)
  | send {frame : List UInt8} {rest : List Action}
      (hphase : s.phase = .acting (.send frame :: rest)) :
      ThreadStep t g device s { s with phase := .acting rest } [.wrote frame]
  | producer {action : Bus.Action} {bus : Bus.State} {events : List Bus.Event} {phase : Phase}
      (hpublishes : s.phase.Publishes) (hbus : Bus.step g s.bus action = some (bus, events))
      (hpending : ∀ frame ∈ sent (phase.pending []), frame ∈ sent (s.phase.pending [])) :
      ThreadStep t g device s { s with bus, phase } (events.map .bus)

/-- A bridge does nothing but the steps of `ThreadStep`. -/
theorem threadStep_cases {t : ℕ} {g : Bus.Geometry} {device : Device State Input}
    {spurious : Bool} {s s' : LoopState State} {events : List (LoopEvent Input)}
    (hstep : threadStep t g device [] spurious s = some (s', events)) :
    ThreadStep t g device s s' events := by
  unfold threadStep at hstep
  split at hstep
  · rename_i hphase
    obtain ⟨bus, reported, hbus, hstep⟩ := LoopState.busStep_bind hstep
    dsimp only at hstep
    have hsubscribe : ∀ phase : Phase, phase.pending [] = [] → ¬ phase.Publishes →
        ThreadStep t g device s { s with bus, phase } (reported.map .bus) :=
      fun phase ↦ .consumer (by simp) hbus
    have hbegin := hsubscribe (.acting []) rfl fun hpublishes ↦ hpublishes rfl
    have hstay := hsubscribe s.phase (by rw [hphase]; rfl) (by rw [hphase]; exact not_false)
    split at hstep
    · cases hstep
      exact hbegin
    · split at hstep
      · cases hstep
        exact hstay
      · cases hstep
        exact hbegin
    · cases hstep
      exact hstay
  · rename_i hphase
    split at hstep
    · obtain ⟨bus, reported, hbus, hstep⟩ := LoopState.busStep_bind hstep
      cases hstep
      exact .consumer (by simp) hbus rfl not_false
    · cases hstep
      exact .silent (fun _ hmem ↦ nomatch hmem) False.elim
  · rename_i hphase
    obtain ⟨bus, reported, hbus, hstep⟩ := LoopState.busStep_bind hstep
    dsimp only at hstep
    split at hstep
    · split at hstep
      · rename_i message hmessage
        cases hstep
        exact .received hphase hbus hmessage
      · cases hstep
        exact .consumer (by simp) hbus rfl not_false
    · cases hstep
      exact .consumer (by simp) hbus (by rw [hphase]; rfl) (by rw [hphase]; exact not_false)
  · cases hstep
  · cases hstep
    exact .silent (fun _ hmem ↦ nomatch hmem) False.elim
  · cases hstep
    exact .send ‹_›
  · rename_i message rest hphase
    obtain ⟨bus, reported, hbus, hstep⟩ := LoopState.busStep_bind hstep
    cases hstep
    refine .producer (by simp [hphase, Phase.Publishes, published]) hbus fun frame hmem ↦ ?_
    rw [hphase]
    exact hmem
  · rename_i rest hphase
    split at hstep
    · cases hstep
      refine .silent (fun frame hmem ↦ ?_) fun _ ↦ ?_
      · rw [hphase]
        exact hmem
      · rw [hphase]
        trivial
    · obtain ⟨bus, reported, hbus, hstep⟩ := LoopState.busStep_bind hstep
      cases hstep
      exact .producer (by rw [hphase]; trivial) hbus fun _ hmem ↦ hmem

end Thread

section Written

variable {Input : Type}

/-- The frame that an event reports as written. -/
def LoopEvent.wrote? : LoopEvent Input → Option (List UInt8)
  | .wrote frame => some frame
  | _ => none

/-- The frames written in a step of a bridge. -/
def framesWritten (events : List (LoopEvent Input)) : List (List UInt8) :=
  events.filterMap LoopEvent.wrote?

@[simp] theorem framesWritten_append (first last : List (LoopEvent Input)) :
    framesWritten (first ++ last) = framesWritten first ++ framesWritten last :=
  List.filterMap_append

@[simp] theorem framesWritten_map_bus (events : List Bus.Event) :
    framesWritten (events.map .bus : List (LoopEvent Input)) = [] := by
  simp [framesWritten, LoopEvent.wrote?, List.filterMap_map, Function.comp_def]

@[simp] theorem framesWritten_map_wrote (written : List (List UInt8)) :
    framesWritten (written.map .wrote : List (LoopEvent Input)) = written := by
  simp [framesWritten, LoopEvent.wrote?, List.filterMap_map, Function.comp_def]

end Written

/-! ### Buses, bridges and segments -/

/-- Where a message on a bus comes from: the links that it has crossed, and the ttl it arrived
with. -/
structure Origin where
  hops : ℕ
  ttl : UInt8
  deriving DecidableEq

/-- A frame on a segment, with the bridge that wrote it and the origin of the message that it was
written for. -/
structure Carried where
  writer : ℕ
  bytes : List UInt8
  origin : Origin

/-- `rttl`: byte 17 of a frame is its ttl. -/
def rttl (frame : List UInt8) : UInt8 := frame.getD 17 0

/-- Byte 15 of a frame is its channel, 0 for data. -/
def IsData (frame : List UInt8) : Prop := frame[15]? = some 0

instance (frame : List UInt8) : Decidable (IsData frame) :=
  inferInstanceAs (Decidable (_ = _))

/-- The origin of a message that is published because a frame has been found. -/
def Carried.crossed (carried : Carried) : Origin := ⟨carried.origin.hops + 1, rttl carried.bytes⟩

/-- Buses joined by bridges, all started with the same `--ttl`. Bridge `i` uses the threads of
number `i` of its bus; the threads from `bridges` on are the applications'. -/
structure Network where
  bridges : ℕ
  geometry : ℕ → Bus.Geometry
  bus : ℕ → ℕ
  segment : ℕ → ℕ
  link : ℕ → L2.Link
  ttl : UInt8
  ttl_eq : ∀ i, (link i).cfg.ttl = ttl

/-- The buses, the bridges and the frames written to the segments; and the history: the origins of
the entries of every bus's log, and of the message that a bridge publishes or acknowledges. -/
structure NetState where
  buses : ℕ → Bus.State
  phases : ℕ → Phase
  devices : ℕ → L2State
  segments : ℕ → List Carried
  logs : ℕ → List Origin
  publishing : ℕ → Origin

/-- A step of an application thread of a bus, the next step of a bridge, or its look at the link,
with the number of the frame that it finds on the segment. -/
inductive NetAction
  | app (bus : ℕ) (action : Bus.Action)
  | own (i : ℕ) (spurious : Bool)
  | look (i : ℕ) (found : Option ℕ)

namespace Network

variable (net : Network)

/-- The origin of what an application publishes. -/
def fresh : Origin := ⟨0, net.ttl⟩

/-- The actions of the application threads. -/
def Application : Bus.Action → Prop
  | .producer p _ => net.bridges ≤ p
  | .subscriber h _ => net.bridges ≤ h
  | .reader r (.tryRecv h _) => net.bridges ≤ r ∧ net.bridges ≤ h
  | .reader r .next => net.bridges ≤ r

instance : DecidablePred net.Application
  | .producer p _ => inferInstanceAs (Decidable (net.bridges ≤ p))
  | .subscriber h _ => inferInstanceAs (Decidable (net.bridges ≤ h))
  | .reader r (.tryRecv h _) => inferInstanceAs (Decidable (net.bridges ≤ r ∧ net.bridges ≤ h))
  | .reader r .next => inferInstanceAs (Decidable (net.bridges ≤ r))

end Network

namespace NetState

variable (net : Network) (s : NetState)

/-- A bridge and its bus. -/
def loop (i : ℕ) : LoopState L2State := ⟨s.buses (net.bus i), s.phases i, s.devices i⟩

/-- The sequence number of the message that a bridge takes in its next step. -/
def takes? (i : ℕ) : Option ℕ :=
  match s.phases i with
  | .receiving => ((s.buses (net.bus i)).readers i).pc.returning?
  | _ => none

/-- The origin of the message that a bridge deals with: the one it takes, or the one it publishes or
acknowledges. -/
def origin (i : ℕ) : Origin :=
  match s.takes? net i with
  | some seq => (s.logs (net.bus i)).getD seq net.fresh
  | none => s.publishing i

/-- The frame that a look finds. A bridge does not find its own frames. -/
def finds (i : ℕ) (found : Option ℕ) : Option Carried :=
  (found.bind fun k ↦ (s.segments (net.segment i))[k]?).filter fun carried ↦ carried.writer ≠ i

/-- What a look finds is a frame of the segment. -/
theorem mem_of_finds {net : Network} {s : NetState} {i : ℕ} {found : Option ℕ} {carried : Carried}
    (hfinds : s.finds net i found = some carried) : carried ∈ s.segments (net.segment i) := by
  obtain ⟨hfound, -⟩ := Option.filter_eq_some_iff.mp hfinds
  obtain ⟨k, -, hget⟩ := Option.bind_eq_some_iff.mp hfound
  exact List.mem_of_getElem? hget

/-- A bus after a step, with what is new in its log. -/
def withBus (b : ℕ) (bus : Bus.State) (events : List Bus.Event) (origin : Origin) : NetState :=
  { s with
    buses := update s.buses b bus
    logs := update s.logs b (s.logs b ++ (Bus.claims events).map fun _ ↦ origin) }

/-- A bridge after a step, with the frames that it has written. -/
def withBridge (i : ℕ) (loop : LoopState L2State) (written : List (List UInt8)) (origin : Origin) :
    NetState :=
  { s with
    phases := update s.phases i loop.phase
    devices := update s.devices i loop.device
    segments := update s.segments (net.segment i)
      (s.segments (net.segment i) ++ written.map fun frame ↦ ⟨i, frame, origin⟩) }

end NetState

/-- One step of the network. Its events are those of the buses. -/
def netStep (net : Network) (s : NetState) : NetAction → Option (NetState × List (ℕ × Bus.Event))
  | .app b action =>
    if net.Application action then
      (Bus.step (net.geometry b) (s.buses b) action).map fun result ↦
        (s.withBus b result.1 result.2 net.fresh, result.2.map fun event ↦ (b, event))
    else none
  | .own i spurious =>
    if i < net.bridges then
      (threadStep i (net.geometry (net.bus i)) (l2bridge (net.link i)) [] spurious
          (s.loop net i)).map fun result ↦
        let origin := s.origin net i
        let events := busEvents result.2
        ((s.withBus (net.bus i) result.1.bus events origin).withBridge net i result.1
          (framesWritten result.2) origin, events.map fun event ↦ (net.bus i, event))
    else none
  | .look i found =>
    if i < net.bridges then
      match s.phases i with
      | .look =>
        let carried := s.finds net i found
        ((l2bridge (net.link i)).receive (s.devices i) (carried.map Carried.bytes)).map fun result ↦
          ({ s with
              phases := update s.phases i (.acting result.2)
              devices := update s.devices i result.1
              publishing := update s.publishing i ((carried.map Carried.crossed).getD
                (s.publishing i)) }, [])
      | _ => none
    else none

/-- The network with fresh buses and nothing on the segments. -/
def netSystem (net : Network) : TransitionSystem NetState NetAction (ℕ × Bus.Event) where
  init :=
    { buses := fun _ ↦ Bus.State.init fun _ ↦ 0
      phases := fun _ ↦ .subscribing
      devices := fun i ↦ (l2bridge (net.link i)).init
      segments := fun _ ↦ []
      logs := fun _ ↦ []
      publishing := fun _ ↦ net.fresh }
  step := netStep net

/-! ### What a step can do -/

/-- The steps of the network. -/
inductive NetStep (net : Network) (s : NetState) :
    NetAction → NetState → List (ℕ × Bus.Event) → Prop
  | app {b : ℕ} {action : Bus.Action} {bus : Bus.State} {events : List Bus.Event}
      (happ : net.Application action)
      (hbus : Bus.step (net.geometry b) (s.buses b) action = some (bus, events)) :
      NetStep net s (.app b action) (s.withBus b bus events net.fresh)
        (events.map fun event ↦ (b, event))
  | own {i : ℕ} {spurious : Bool} {loop : LoopState L2State} {events : List (LoopEvent Found)}
      (hthread : ThreadStep i (net.geometry (net.bus i)) (l2bridge (net.link i)) (s.loop net i)
        loop events) :
      NetStep net s (.own i spurious)
        ((s.withBus (net.bus i) loop.bus (busEvents events) (s.origin net i)).withBridge net i loop
          (framesWritten events) (s.origin net i))
        ((busEvents events).map fun event ↦ (net.bus i, event))
  | look {i : ℕ} {found : Option ℕ} {state : L2State} {pending : List Action}
      (hphase : s.phases i = .look)
      (hreceive : (l2bridge (net.link i)).receive (s.devices i)
        ((s.finds net i found).map Carried.bytes) = some (state, pending)) :
      NetStep net s (.look i found)
        { s with
          phases := update s.phases i (.acting pending)
          devices := update s.devices i state
          publishing := update s.publishing i
            (((s.finds net i found).map Carried.crossed).getD (s.publishing i)) } []

/-- The network does nothing but the steps of `NetStep`. -/
theorem netStep_cases {net : Network} {s s' : NetState} {action : NetAction}
    {events : List (ℕ × Bus.Event)} (hstep : netStep net s action = some (s', events)) :
    NetStep net s action s' events := by
  cases action with
  | app b action =>
    simp only [netStep, Option.ite_none_right_eq_some, Option.map_eq_some_iff, Prod.mk.injEq,
      Prod.exists] at hstep
    obtain ⟨happ, bus, reported, hbus, rfl, rfl⟩ := hstep
    exact .app happ hbus
  | own i spurious =>
    simp only [netStep, Option.ite_none_right_eq_some, Option.map_eq_some_iff, Prod.mk.injEq,
      Prod.exists] at hstep
    obtain ⟨-, loop, reported, hthread, rfl, rfl⟩ := hstep
    exact .own (threadStep_cases hthread)
  | look i found =>
    simp only [netStep, Option.ite_none_right_eq_some] at hstep
    obtain ⟨-, hstep⟩ := hstep
    split at hstep
    · rename_i hphase
      simp only [Option.map_eq_some_iff, Prod.mk.injEq, Prod.exists] at hstep
      obtain ⟨state, pending, hreceive, rfl, rfl⟩ := hstep
      exact .look hphase hreceive
    · cases hstep

/-! ### The buses of a run -/

/-- A step of a bridge is one step of its bus, or does nothing to it. -/
theorem ThreadStep.bus {State Input : Type} {t : ℕ} {g : Bus.Geometry} {device : Device State Input}
    {s s' : LoopState State} {events : List (LoopEvent Input)}
    (hstep : ThreadStep t g device s s' events) :
    (s'.bus = s.bus ∧ busEvents events = []) ∨
      ∃ action, Bus.step g s.bus action = some (s'.bus, busEvents events) := by
  cases hstep with
  | silent => exact .inl ⟨rfl, rfl⟩
  | send => exact .inl ⟨rfl, rfl⟩
  | consumer _ hbus | received _ hbus | producer _ hbus => exact .inr ⟨_, by simpa using hbus⟩

section Run

variable {net : Network} {guard : Guard NetState NetAction (ℕ × Bus.Event)}
  {trace : List (ℕ × Bus.Event)} {s s' : NetState}

/-- A step of the network is one step of a bus, or does nothing to it; its log grows by what the
step claims. -/
theorem NetStep.busOf {action : NetAction} {events : List (ℕ × Bus.Event)}
    (hstep : NetStep net s action s' events) (b : ℕ) :
    ((s'.buses b = s.buses b ∧ eventsOf b events = []) ∨
      ∃ busAction, Bus.step (net.geometry b) (s.buses b) busAction =
        some (s'.buses b, eventsOf b events)) ∧
    (s'.logs b).length = (s.logs b).length + (Bus.claims (eventsOf b events)).length := by
  have hother : ∀ {this : ℕ} {bus : Bus.State} {log : List Origin} (reported : List Bus.Event),
      b ≠ this →
      update s.buses this bus b = s.buses b ∧
        eventsOf b (reported.map fun event ↦ (this, event)) = [] ∧
        (update s.logs this log b).length = (s.logs b).length + 0 := fun reported hne ↦
    ⟨update_of_ne hne _ _, eventsOf_map_of_ne hne.symm reported, by rw [update_of_ne hne]; rfl⟩
  cases hstep with
  | @app this action bus reported _ hbus =>
    by_cases hthis : b = this
    · subst hthis
      exact ⟨.inr ⟨action, by simpa [NetState.withBus] using hbus⟩, by simp [NetState.withBus]⟩
    · obtain ⟨hbuses, hnone, hlogs⟩ := hother reported hthis
      rw [hnone]
      exact ⟨.inl ⟨hbuses, rfl⟩, hlogs⟩
  | @own i spurious loop reported hthread =>
    by_cases hthis : b = net.bus i
    · subst hthis
      refine ⟨?_, by simp [NetState.withBus, NetState.withBridge]⟩
      simpa [NetState.withBus, NetState.withBridge, NetState.loop] using hthread.bus
    · obtain ⟨hbuses, hnone, hlogs⟩ := hother (busEvents reported) hthis
      rw [hnone]
      exact ⟨.inl ⟨hbuses, rfl⟩, hlogs⟩
  | look => exact ⟨.inl ⟨rfl, rfl⟩, rfl⟩

/-- Every bus of a run of the network is a run of the bus. -/
theorem run_busOf (hrun : Run (netSystem net) guard trace s) (b : ℕ) :
    Run (Bus.busSystem (net.geometry b) fun _ ↦ 0) unguarded (eventsOf b trace) (s.buses b) := by
  refine hrun.project (fun s ↦ s.buses b)
    (fun event ↦ if event.1 = b then some event.2 else none) ?_ ?_
  · rfl
  · intro trace s action s' events _ _ hstep
    rcases ((netStep_cases hstep).busOf b).1 with hsame | ⟨busAction, hbus⟩
    · exact .inl hsame
    · exact .inr ⟨busAction, trivial, hbus⟩

/-- The history has an origin for every number that has been claimed. -/
theorem length_logs (hrun : Run (netSystem net) guard trace s) (b : ℕ) :
    (s.logs b).length = (s.buses b).mem.claimSeq := by
  have hlogs : (s.logs b).length = (Bus.claims (eventsOf b trace)).length := by
    refine hrun.invariant
      (fun trace s ↦ (s.logs b).length = (Bus.claims (eventsOf b trace)).length) rfl ?_
    intro trace s action s' events _ hinv _ hstep
    rw [((netStep_cases hstep).busOf b).2, hinv, eventsOf_append, Bus.claims_append,
      List.length_append]
  have hclaims := congrArg List.length (Bus.commitInv_run (run_busOf hrun b)).claims_sequence
  rw [List.length_map, List.length_range] at hclaims
  rw [hlogs, hclaims]

/-- The origin of the message that a bridge takes is in the history. -/
theorem recorded_of_run (hrun : Run (netSystem net) guard trace s) {i seq : ℕ}
    (htakes : s.takes? net i = some seq) : seq < (s.logs (net.bus i)).length := by
  have hbus := run_busOf hrun (net.bus i)
  have hreading : ((s.buses (net.bus i)).readers i).pc.reading? = some seq := by
    unfold NetState.takes? at htakes
    split at htakes
    · cases hpc : ((s.buses (net.bus i)).readers i).pc <;>
        simp_all [Bus.ReaderPc.returning?, Bus.ReaderPc.reading?]
    · cases htakes
  have hcommitted := Bus.readsCommitted_run hbus i seq hreading
  rw [length_logs hrun]
  exact lt_of_lt_of_le hcommitted ((Bus.commitInv_run hbus).slot_claimed _)

end Run

end AarnnNsys.Bridge
