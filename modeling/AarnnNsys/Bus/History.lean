import AarnnNsys.Bus.Inversion

/-!
# What a run of the bus did

The observable history of a run, read off its trace of events: the claims in the order they were
made (`claims`), the sequence numbers committed (`commits`, `commitsTo` for one slot), the calls of
a producer thread in program order (`callsBy`), the messages a handle has received (`received`) and
the read sequence it started from (`Started`). None of these is part of the state.
-/

set_option autoImplicit false
set_option relaxedAutoImplicit false

namespace AarnnNsys.Bus

/-- A sequence number reserved by a call, with the calling thread and the payload of the call. -/
structure Claim where
  sequence : ℕ
  producer : ℕ
  payload : Message
  deriving DecidableEq

/-- The claim an event reports. -/
def Event.claim? : Event → Option Claim
  | .producer p (.claimed sequence payload) => some ⟨sequence, p, payload⟩
  | _ => none

/-- The sequence number of the commit store an event reports. -/
def Event.commit? : Event → Option ℕ
  | .producer _ (.committed sequence) => some sequence
  | _ => none

/-- The payload of the `publish` or `try_publish` call of thread `p` that an event reports. -/
def Event.call? (p : ℕ) : Event → Option Message
  | .producer q (.called payload) => if q = p then some payload else none
  | _ => none

/-- The message that an event reports as received through handle `h`. -/
def Event.received? (h : ℕ) : Event → Option Message
  | .reader h' (.returned (.ok (some message))) => if h' = h then some message else none
  | _ => none

/-- The claims of a run, in the order they were made. -/
def claims (trace : List Event) : List Claim := trace.filterMap Event.claim?

/-- The sequence numbers committed in a run, in the order of the commit stores. -/
def commits (trace : List Event) : List ℕ := trace.filterMap Event.commit?

/-- The sequence numbers committed to slot `i`. -/
def commitsTo (g : Geometry) (i : ℕ) (trace : List Event) : List ℕ :=
  (commits trace).filter fun sequence ↦ g.idx sequence = i

/-- The payloads of the calls of producer thread `p`, in program order. -/
def callsBy (p : ℕ) (trace : List Event) : List Message := trace.filterMap (Event.call? p)

/-- The payloads that calls of producer thread `p` have reserved sequence numbers for, in the order
of the sequence numbers. -/
def claimsBy (p : ℕ) (trace : List Event) : List Message :=
  ((claims trace).filter fun claim ↦ claim.producer = p).map Claim.payload

/-- The messages that `try_recv` calls through handle `h` have returned, in order. -/
def received (h : ℕ) (trace : List Event) : List Message := trace.filterMap (Event.received? h)

/-- Handle `h` is a subscriber whose `subscribe` call returned with read sequence `start`. -/
def Started (h start : ℕ) (trace : List Event) : Prop :=
  ∃ id, Event.subscriber h (.subscribed id start) ∈ trace

/-- The event reports that a `publish` or `try_publish` call begins. -/
def Event.isCall : Event → Bool
  | .producer _ (.called _) => true
  | _ => false

/-- A `publish` or `try_publish` call has begun. -/
def Begun (trace : List Event) : Prop := ∃ event ∈ trace, event.isCall = true

instance (trace : List Event) : Decidable (Begun trace) :=
  inferInstanceAs (Decidable (∃ event ∈ trace, event.isCall = true))

/-! ### How a step extends the history -/

section Append

variable (trace events : List Event)

@[simp] theorem claims_append : claims (trace ++ events) = claims trace ++ claims events :=
  List.filterMap_append

@[simp] theorem commits_append : commits (trace ++ events) = commits trace ++ commits events :=
  List.filterMap_append

@[simp] theorem commitsTo_append (g : Geometry) (i : ℕ) :
    commitsTo g i (trace ++ events) = commitsTo g i trace ++ commitsTo g i events := by
  simp [commitsTo]

@[simp] theorem callsBy_append (p : ℕ) :
    callsBy p (trace ++ events) = callsBy p trace ++ callsBy p events :=
  List.filterMap_append

@[simp] theorem claimsBy_append (p : ℕ) :
    claimsBy p (trace ++ events) = claimsBy p trace ++ claimsBy p events := by
  simp [claimsBy]

@[simp] theorem received_append (h : ℕ) :
    received h (trace ++ events) = received h trace ++ received h events :=
  List.filterMap_append

end Append

/-- Events of handles and readers report no claim. -/
@[simp] theorem claims_map_subscriber (h : ℕ) (events : List SubscriberEvent) :
    claims (events.map (.subscriber h)) = [] := by
  simp [claims, Event.claim?, List.filterMap_map, Function.comp_def]

@[simp] theorem claims_map_reader (h : ℕ) (events : List ReaderEvent) :
    claims (events.map (.reader h)) = [] := by
  simp [claims, Event.claim?, List.filterMap_map, Function.comp_def]

@[simp] theorem commits_map_subscriber (h : ℕ) (events : List SubscriberEvent) :
    commits (events.map (.subscriber h)) = [] := by
  simp [commits, Event.commit?, List.filterMap_map, Function.comp_def]

@[simp] theorem commits_map_reader (h : ℕ) (events : List ReaderEvent) :
    commits (events.map (.reader h)) = [] := by
  simp [commits, Event.commit?, List.filterMap_map, Function.comp_def]

/-- Events of producers and subscribe calls report no reception. -/
@[simp] theorem received_map_producer (h p : ℕ) (events : List ProducerEvent) :
    received h (events.map (.producer p)) = [] := by
  simp [received, Event.received?, List.filterMap_map, Function.comp_def]

@[simp] theorem received_map_subscriber (h h' : ℕ) (events : List SubscriberEvent) :
    received h (events.map (.subscriber h')) = [] := by
  simp [received, Event.received?, List.filterMap_map, Function.comp_def]

/-- Events of other producer threads are no claims and no calls of this one. -/
theorem claimsBy_map_producer_of_ne {p q : ℕ} (hne : q ≠ p) (events : List ProducerEvent) :
    claimsBy p (events.map (.producer q)) = [] := by
  simp only [claimsBy, claims, List.map_eq_nil_iff, List.filter_eq_nil_iff, List.mem_filterMap,
    List.mem_map]
  rintro claim ⟨event, ⟨reported, -, rfl⟩, hclaim⟩
  cases reported <;> simp only [Event.claim?, Option.some.injEq, reduceCtorEq] at hclaim
  rw [← hclaim]
  simpa using hne

theorem callsBy_map_producer_of_ne {p q : ℕ} (hne : q ≠ p) (events : List ProducerEvent) :
    callsBy p (events.map (.producer q)) = [] := by
  simp only [callsBy, List.filterMap_eq_nil_iff, List.mem_map]
  rintro event ⟨reported, -, rfl⟩
  cases reported <;> simp [Event.call?, hne]

/-- Events of handles and readers are no calls. -/
@[simp] theorem callsBy_map_subscriber (p h : ℕ) (events : List SubscriberEvent) :
    callsBy p (events.map (.subscriber h)) = [] := by
  simp [callsBy, Event.call?, List.filterMap_map, Function.comp_def]

@[simp] theorem callsBy_map_reader (p h : ℕ) (events : List ReaderEvent) :
    callsBy p (events.map (.reader h)) = [] := by
  simp [callsBy, Event.call?, List.filterMap_map, Function.comp_def]

end AarnnNsys.Bus
