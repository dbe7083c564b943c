import AarnnNsys.Bus.Delivery

/-!
# Exact delivery

When all subscriptions are complete before the first `publish` or `try_publish` call begins, every
subscriber receives the whole log of claims from its first entry on, and the log orders the messages
of each producer thread as that thread called (`callOrder_run`): `exact_delivery`.
-/

set_option autoImplicit false
set_option relaxedAutoImplicit false

namespace AarnnNsys.Bus

open Function Lib

/-! ### The order of one thread -/

/-- The payload of a `try_publish` in flight that has not reserved a sequence number. -/
def Producer.pending (t : Producer) : Option Message :=
  match t.pc with
  | .loadSubs _ | .loadWrite _ _ | .scan _ _ _ _ => bif t.blocking then none else some t.payload
  | .casClaim _ => some t.payload
  | _ => none

/-- The payloads a thread has reserved sequence numbers for, with the one it may still reserve one
for, are in the order of its calls. -/
def CallOrder (trace : List Event) (p : ℕ) (t : Producer) : Prop :=
  (claimsBy p trace ++ t.pending.toList).Sublist (callsBy p trace)

section CallOrder

variable {trace : List Event} {p : ℕ} {t t' : Producer} {events : List ProducerEvent}

/-- A step that reports no call and no claim, and keeps or drops what is pending. -/
theorem CallOrder.silent (horder : CallOrder trace p t)
    (hclaims : claimsBy p (events.map (.producer p)) = [])
    (hcalls : callsBy p (events.map (.producer p)) = [])
    (hpending : t'.pending = t.pending ∨ t'.pending = none) :
    CallOrder (trace ++ events.map (.producer p)) p t' := by
  rw [CallOrder, claimsBy_append, callsBy_append, hclaims, hcalls, List.append_nil,
    List.append_nil]
  rcases hpending with hsame | hnone
  · rw [hsame]
    exact horder
  · rw [hnone, Option.toList_none, List.append_nil]
    exact (List.sublist_append_left _ _).trans horder

/-- A call begins, and its payload is reserved at once, pending or refused. -/
theorem CallOrder.begin (horder : CallOrder trace p t) (payload : Message)
    (hcalls : callsBy p (events.map (.producer p)) = [payload])
    (hnew : (claimsBy p (events.map (.producer p)) ++ t'.pending.toList).Sublist [payload]) :
    CallOrder (trace ++ events.map (.producer p)) p t' := by
  rw [CallOrder, claimsBy_append, callsBy_append, hcalls, List.append_assoc]
  exact ((List.sublist_append_left _ _).trans horder).append hnew

/-- A step of the thread keeps the order of its calls. -/
theorem ProducerStep.callOrder {g : Geometry} {m m' : Mem} {act : ProducerAct}
    (hstep : ProducerStep g m t act m' t' events) (horder : CallOrder trace p t) :
    CallOrder (trace ++ events.map (.producer p)) p t' := by
  cases hstep with
  | publish payload hpc hne hsize =>
    have hclaims : claims ([.called payload, .claimed m.claimSeq payload].map (Event.producer p)) =
        [⟨m.claimSeq, p, payload⟩] := rfl
    refine horder.begin payload ?_ ?_
    · simp [callsBy, Event.call?]
    · rw [claimsBy, hclaims]
      simp [Producer.pending]
  | tryPublish payload hpc hne hsize | publishRejected payload hpc hsize
  | tryPublishRejected payload hpc hsize =>
    refine horder.begin payload ?_ ?_
    · simp [callsBy, Event.call?]
    · simp [claimsBy, claims, Event.claim?, Producer.pending]
  | claim b claim hpc heq =>
    -- the pending payload is now reserved
    have hclaims : claims ([.claimed claim t.payload].map (Event.producer p)) =
        [⟨claim, p, t.payload⟩] := rfl
    have hcalls : callsBy p ([.claimed claim t.payload].map (Event.producer p)) = [] := rfl
    have hpending : t.pending = some t.payload := by simp [Producer.pending, hpc]
    have hnew : claimsBy p ([.claimed claim t.payload].map (Event.producer p)) = [t.payload] := by
      rw [claimsBy, hclaims]
      simp
    rw [CallOrder, hpending] at horder
    rw [CallOrder, claimsBy_append, callsBy_append, hcalls, hnew, List.append_nil]
    simpa [Producer.pending] using horder
  | advanceStop b w hpc huncommitted =>
    refine horder.silent ?_ ?_ (Or.inr rfl)
    · cases hblocking : t.blocking <;>
        simp [Producer.success, hblocking, claimsBy, claims, Event.claim?]
    · cases hblocking : t.blocking <;> simp [Producer.success, hblocking, callsBy, Event.call?]
  | _ => exact horder.silent rfl rfl (by simp [Producer.pending, *])

/-- The steps of other threads are no calls of this one. -/
theorem CallOrder.other {q : ℕ} (horder : CallOrder trace p t) (hne : q ≠ p) :
    CallOrder (trace ++ events.map (.producer q)) p t := by
  rw [CallOrder, claimsBy_append, callsBy_append, claimsBy_map_producer_of_ne hne,
    callsBy_map_producer_of_ne hne, List.append_nil, List.append_nil]
  exact horder

end CallOrder

/-- In every run of the bus the log orders the messages of each thread as the thread called. -/
theorem callOrder_run {g : Geometry} {slab : ℕ → UInt8} {guard : Guard State Action Event}
    {trace : List Event} {s : State} (hrun : Run (busSystem g slab) guard trace s) (p : ℕ) :
    CallOrder trace p (s.producers p) := by
  refine hrun.invariant (fun trace s ↦ CallOrder trace p (s.producers p)) ?_ ?_
  · exact List.Sublist.refl _
  · intro trace s action s' reported hprevious hinv hallowed hstep
    cases step_cases hstep with
    | @producer q act m t events hthread =>
      by_cases hq : q = p
      · subst hq
        simpa [State.setProducer] using hthread.callOrder hinv
      · simpa [State.setProducer, update_of_ne (Ne.symm hq)] using hinv.other hq
    | subscriber hthread =>
      simpa [CallOrder, claimsBy, callsBy, Event.call?, Function.comp_def, State.setSubscriber,
        List.filterMap_map] using hinv
    | reader hthread =>
      simpa [CallOrder, claimsBy, callsBy, Event.call?, Function.comp_def, State.setReader,
        List.filterMap_map] using hinv

/-! ### Subscriptions that come first -/

/-- A run whose subscriptions come first joins safely. -/
theorem joinsSafely_of_subscribesFirst {g : Geometry} (hslot : g.slotBytes < u32Size)
    {slab : ℕ → UInt8} {trace : List Event} {s : State}
    (hrun : Run (busSystem g slab) SubscribesFirst trace s) :
    Run (busSystem g slab) (fun _ s action ↦ JoinsSafely g s action) trace s :=
  (countsJoined_of_subscribesFirst hrun).strengthen
    fun {_ _ action _ _} _ hallowed _ ↦
      ⟨hallowed.1, narrowCall_of_slotBytes hslot action, hallowed.2⟩

/-- Exact delivery. When all subscriptions are complete before the first call, the log of claims is
numbered `0, 1, 2, …` and orders the messages of each producer thread as the thread called, and what
every subscriber has received is exactly the first `read_seq` messages of the log. -/
theorem exact_delivery (g : Geometry) (hslot : g.slotBytes < u32Size) (slab : ℕ → UInt8)
    (trace : List Event) (s : State) (hrun : Run (busSystem g slab) SubscribesFirst trace s) :
    (claims trace).map Claim.sequence = List.range s.mem.claimSeq ∧
    (∀ p, (claimsBy p trace).Sublist (callsBy p trace)) ∧
    ∀ h id, s.subscribers h = .ready id → s.mem.subReadSeq id ≤ s.mem.claimSeq ∧
      received h trace = ((claims trace).take (s.mem.subReadSeq id)).map Claim.payload := by
  have hsafe := joinsSafely_of_subscribesFirst hslot hrun
  refine ⟨(commitInv_run hrun).claims_sequence, fun p ↦ ?_, fun h id hready ↦ ?_⟩
  · exact (List.sublist_append_left _ _).trans (callOrder_run hrun p)
  · have hdelivery := deliveryInv_run (fun _ _ _ hkept ↦ hkept.1.keepsHandles)
      (fun _ _ _ hkept ↦ hkept.2.2)
      (fun _ _ _ hkept ↦ hkept.2.1) hsafe
    obtain ⟨start, hstarted⟩ := hdelivery.ready h id hready
    obtain rfl := (firstInv_run (fun _ _ _ hkept ↦ hkept.2) hrun).started h start hstarted
    refine ⟨hdelivery.cursor_le h id _ (by rw [hready]; rfl), ?_⟩
    simpa [messages] using (hdelivery.received_eq h 0 id hstarted hready).2

/-- One subscriber and two producers, one of them with `try_publish`, on a ring of one slot. -/
theorem exact_delivery_two_producers : ∃ (trace : List Event) (s : State),
    s.subscribers 0 = .ready 0 ∧ received 0 trace = [[7], [8]] ∧
    received 0 trace = ((claims trace).take (s.mem.subReadSeq 0)).map Claim.payload := by
  let actions : List Action :=
    [.subscriber 0 .subscribe :: List.replicate 2 (.subscriber 0 .next),
      .producer 0 (.publish [7]) :: List.replicate 8 (.producer 0 (.next false)),
      .reader 0 (.tryRecv 0 1) :: List.replicate 5 (.reader 0 .next),
      List.replicate 5 (.producer 0 (.next false)),
      .producer 1 (.tryPublish [8]) :: List.replicate 9 (.producer 1 (.next false)),
      .reader 0 (.tryRecv 0 1) :: List.replicate 5 (.reader 0 .next)].flatten
  have hexec : ((busSystem tinyGeometry fun _ ↦ 0).exec (State.init fun _ ↦ 0) actions).map
      (fun result ↦ (result.1.subscribers 0, received 0 result.2)) =
      some (.ready 0, [[7], [8]]) := by decide +kernel
  have hpermitted : Permitted (busSystem tinyGeometry fun _ ↦ 0) SubscribesFirst []
      (State.init fun _ ↦ 0) actions := by decide +kernel
  obtain ⟨⟨s, trace⟩, hfinal, hresult⟩ := Option.map_eq_some_iff.mp hexec
  obtain ⟨hready, hreceived⟩ := Prod.mk.inj hresult
  have hrun : Run (busSystem tinyGeometry fun _ ↦ 0) SubscribesFirst trace s :=
    run_of_permitted hpermitted hfinal
  exact ⟨trace, s, hready, hreceived,
    ((exact_delivery tinyGeometry (by decide) _ trace s hrun).2.2 0 0 hready).2⟩

end AarnnNsys.Bus
