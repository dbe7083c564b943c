import AarnnNsys.Bus.Payload

/-!
# What numbers are reserved for

A sequence number is only reserved for a message that fits a slot (`fitsSlot_of_claim`). A thread
that only ever calls `publish`, the blocking call, reserves one for each of its messages that fits,
in the order of its calls (`claimsBy_eq_filter_callsBy`): nothing it is given is dropped but what
the size check refuses.
-/

set_option autoImplicit false
set_option relaxedAutoImplicit false

namespace AarnnNsys.Bus

open Function Lib

/-- The message passes the size check. -/
def FitsSlot (g : Geometry) (message : Message) : Prop :=
  message ≠ [] ∧ message.length ≤ g.slotBytes

instance (g : Geometry) : DecidablePred (FitsSlot g) := fun message ↦
  inferInstanceAs (Decidable (message ≠ [] ∧ message.length ≤ g.slotBytes))

/-- A call in flight has passed the size check. -/
def Producer.Checked (g : Geometry) (t : Producer) : Prop := t.pc ≠ .idle → FitsSlot g t.payload

/-- The size check of a call, and what it reserves a number for. -/
theorem ProducerStep.checked {g : Geometry} {m m' : Mem} {t t' : Producer} {act : ProducerAct}
    {events : List ProducerEvent} (hchecked : t.Checked g)
    (hstep : ProducerStep g m t act m' t' events) (p : ℕ) :
    t'.Checked g ∧ ∀ claim ∈ claims (events.map (.producer p)), FitsSlot g claim.payload := by
  cases hstep with
  | publish payload hpc hne hsize =>
    exact ⟨fun _ ↦ ⟨hne, hsize⟩, by simpa [claims, Event.claim?] using ⟨hne, hsize⟩⟩
  | tryPublish payload hpc hne hsize =>
    exact ⟨fun _ ↦ ⟨hne, hsize⟩, by simp [claims, Event.claim?]⟩
  | publishRejected payload hpc hsize | tryPublishRejected payload hpc hsize =>
    exact ⟨fun hactive ↦ absurd rfl hactive, by simp [claims, Event.claim?]⟩
  | claim b claim hpc heq =>
    have hfits := hchecked (by simp [hpc])
    exact ⟨fun _ ↦ hfits, by simpa [claims, Event.claim?] using hfits⟩
  | advanceStop b w hpc huncommitted =>
    refine ⟨fun hactive ↦ absurd rfl hactive, ?_⟩
    cases hblocking : t.blocking <;> simp [Producer.success, hblocking, claims, Event.claim?]
  | _ => exact ⟨fun _ ↦ hchecked (by simp [*]), by simp [claims, Event.claim?]⟩

/-- In every run of the bus a number is only reserved for a message that fits a slot. -/
theorem fitsSlot_of_claim {g : Geometry} {slab : ℕ → UInt8} {guard : Guard State Action Event}
    {trace : List Event} {s : State} (hrun : Run (busSystem g slab) guard trace s) :
    ∀ claim ∈ claims trace, FitsSlot g claim.payload := by
  have hinv : (∀ p, (s.producers p).Checked g) ∧
      ∀ claim ∈ claims trace, FitsSlot g claim.payload := by
    refine hrun.invariant (fun trace s ↦ (∀ p, (s.producers p).Checked g) ∧
      ∀ claim ∈ claims trace, FitsSlot g claim.payload)
      ⟨fun _ hactive ↦ absurd rfl hactive, fun _ hmem ↦ nomatch hmem⟩ ?_
    intro trace s action s' events _ hinv _ hstep
    obtain ⟨hchecked, hclaims⟩ := hinv
    cases step_cases hstep with
    | @producer p act m t own hthread =>
      obtain ⟨hafter, hnew⟩ := hthread.checked (hchecked p) p
      refine ⟨fun q ↦ ?_, fun claim hmem ↦ ?_⟩
      · by_cases hq : q = p
        · subst hq
          simpa [State.setProducer] using hafter
        · simpa [State.setProducer, update_of_ne hq] using hchecked q
      · rw [claims_append, List.mem_append] at hmem
        exact hmem.elim (hclaims claim) (hnew claim)
    | subscriber hthread => exact ⟨hchecked, by simpa using hclaims⟩
    | reader hthread => exact ⟨hchecked, by simpa using hclaims⟩
  exact hinv.2

/-- The thread never calls `try_publish`. -/
def OnlyPublishes (p : ℕ) : Action → Prop
  | .producer q (.tryPublish _) => q ≠ p
  | _ => True

/-- A thread that never calls `try_publish`: its call is blocking, and it has reserved a number for
each of its messages that fits a slot. -/
structure BlockingInv (g : Geometry) (p : ℕ) (trace : List Event) (t : Producer) : Prop where
  blocking : t.pc ≠ .idle → t.blocking = true
  no_cas : ∀ claim, t.pc ≠ .casClaim claim
  claims_eq : claimsBy p trace = (callsBy p trace).filter (FitsSlot g)

/-- A step of the thread. -/
theorem BlockingInv.step {g : Geometry} {p : ℕ} {trace : List Event} {m m' : Mem}
    {t t' : Producer} {act : ProducerAct} {events : List ProducerEvent}
    (hinv : BlockingInv g p trace t) (honly : ∀ payload, act ≠ .tryPublish payload)
    (hstep : ProducerStep g m t act m' t' events) :
    BlockingInv g p (trace ++ events.map (.producer p)) t' := by
  have hsilent : claimsBy p (events.map (.producer p)) = [] →
      callsBy p (events.map (.producer p)) = [] →
        claimsBy p (trace ++ events.map (.producer p)) =
          (callsBy p (trace ++ events.map (.producer p))).filter (FitsSlot g) := by
    intro hclaims hcalls
    rw [claimsBy_append, callsBy_append, hclaims, hcalls, List.append_nil, List.append_nil]
    exact hinv.claims_eq
  cases hstep with
  | publish payload hpc hne hsize =>
    have hfits : FitsSlot g payload := ⟨hne, hsize⟩
    have hclaims : claimsBy p ([.called payload, .claimed m.claimSeq payload].map
        (Event.producer p)) = [payload] := by
      have hlog : claims ([.called payload, .claimed m.claimSeq payload].map (Event.producer p)) =
          [⟨m.claimSeq, p, payload⟩] := rfl
      rw [claimsBy, hlog]
      simp
    have hcalls : callsBy p ([.called payload, .claimed m.claimSeq payload].map
        (Event.producer p)) = [payload] := by
      simp [callsBy, Event.call?]
    refine ⟨fun _ ↦ rfl, by simp, ?_⟩
    rw [claimsBy_append, callsBy_append, List.filter_append, hinv.claims_eq, hclaims, hcalls]
    simp [hfits]
  | publishRejected payload hpc hsize =>
    refine ⟨fun hactive ↦ absurd rfl hactive, by simp, ?_⟩
    have hnot : ¬ FitsSlot g payload := fun hfits ↦ hsize.elim hfits.1 hfits.2.not_gt
    have hcalls : callsBy p ([.called payload, .publishReturned (.error .msgTooLarge)].map
        (Event.producer p)) = [payload] := by
      simp [callsBy, Event.call?]
    rw [claimsBy_append, callsBy_append, List.filter_append, hinv.claims_eq, hcalls]
    simp [hnot, claimsBy, claims, Event.claim?]
  | tryPublish payload | tryPublishRejected payload => exact absurd rfl (honly payload)
  | accept b claim n i minRead hpc hi hblocking hspace =>
    simp [hinv.blocking (by simp [hpc])] at hblocking
  | claim b claim hpc heq => exact absurd hpc (hinv.no_cas claim)
  | advanceStop b w hpc huncommitted =>
    refine ⟨fun hactive ↦ absurd rfl hactive, by simp, hsilent ?_ ?_⟩
    · cases hblocking : t.blocking <;>
        simp [Producer.success, hblocking, claimsBy, claims, Event.claim?]
    · cases hblocking : t.blocking <;> simp [Producer.success, hblocking, callsBy, Event.call?]
  | _ => exact ⟨fun _ ↦ hinv.blocking (by simp [*]), by simp, hsilent rfl rfl⟩

/-- In every run in which a thread only ever calls `publish`, it has reserved numbers for those of
its messages that fit a slot, in the order of its calls. -/
theorem claimsBy_eq_filter_callsBy {g : Geometry} {slab : ℕ → UInt8}
    {guard : Guard State Action Event} {p : ℕ}
    (honly : ∀ trace s action, guard trace s action → OnlyPublishes p action) {trace : List Event}
    {s : State} (hrun : Run (busSystem g slab) guard trace s) :
    claimsBy p trace = (callsBy p trace).filter (FitsSlot g) := by
  refine BlockingInv.claims_eq (hrun.invariant
    (fun trace s ↦ BlockingInv g p trace (s.producers p))
    ⟨fun hactive ↦ absurd rfl hactive, fun _ ↦ by simp [busSystem, State.init, Producer.idle], rfl⟩
    ?_ : BlockingInv g p trace (s.producers p))
  intro trace s action s' events _ hinv hallowed hstep
  cases step_cases hstep with
  | @producer q act m t own hthread =>
    by_cases hq : q = p
    · subst hq
      have hact : ∀ payload, act ≠ .tryPublish payload := by
        rintro payload rfl
        exact honly _ _ _ hallowed rfl
      simpa [State.setProducer] using hinv.step hact hthread
    · refine ⟨?_, ?_, ?_⟩
      · simpa [State.setProducer, update_of_ne (Ne.symm hq)] using hinv.blocking
      · simpa [State.setProducer, update_of_ne (Ne.symm hq)] using hinv.no_cas
      · rw [claimsBy_append, callsBy_append, claimsBy_map_producer_of_ne hq,
          callsBy_map_producer_of_ne hq, List.append_nil, List.append_nil]
        exact hinv.claims_eq
  | subscriber hthread =>
    exact ⟨hinv.blocking, hinv.no_cas, by simpa [claimsBy] using hinv.claims_eq⟩
  | reader hthread =>
    exact ⟨hinv.blocking, hinv.no_cas, by simpa [claimsBy] using hinv.claims_eq⟩

end AarnnNsys.Bus
