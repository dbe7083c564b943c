import AarnnNsys.Bus.Exact
import AarnnNsys.Bus.Sequential

/-!
# Waiting publishers are only held back by somebody who can move

`publish` reserves its sequence number before it knows of space for it, and then waits. `Stalled`
describes the states in which nothing else could be going on: every producer call waits, no receive
or subscribe call is in flight and no subscriber would receive anything. In such a state of a run
whose subscriptions came first, the least claim waiting is the number at `write_seq`
(`Stalled.claim_eq`) and no cursor is behind it (`Stalled.hasSpace`), so that the waiting call
passes its capacity check: `waiting_publish_admitted`.
-/

set_option autoImplicit false
set_option relaxedAutoImplicit false

namespace AarnnNsys.Bus

open Function Lib

/-- A `publish` call in its wait loop. -/
def Producer.Waiting (t : Producer) (claim : ℕ) : Prop :=
  t.blocking = true ∧
    match t.pc with
    | .loadSubs c | .loadWrite c _ | .scan c _ _ _ => c = claim
    | _ => False

/-- A waiting call owns its claim. -/
theorem Producer.Waiting.owned {t : Producer} {claim : ℕ} (hwaiting : t.Waiting claim) :
    t.owned = some claim := by
  obtain ⟨hblocking, hpc⟩ := hwaiting
  unfold Producer.owned
  cases h : t.pc <;> simp_all

/-- A waiting call is not in its advance loop. -/
theorem Producer.Waiting.not_advancing {t : Producer} {claim : ℕ} (hwaiting : t.Waiting claim) :
    ¬ t.Advancing := by
  rintro ⟨w, hpc | hpc | hpc⟩ <;> simp [Producer.Waiting, hpc] at hwaiting

/-- The states in which every producer call in flight waits, no other call is in flight, and no
subscriber would receive anything, with a buffer of `slot_bytes`. -/
structure Stalled (g : Geometry) (s : State) : Prop where
  calls : ∀ p, (s.producers p).pc = .idle ∨ ∃ claim, (s.producers p).Waiting claim
  readers : ∀ r, (s.readers r).pc = .idle
  subscribed : ∀ h, s.subscribers h = .unsubscribed ∨ s.subscribers h = .rejected ∨
    ∃ id, s.subscribers h = .ready id
  drained : ∀ h id, s.subscribers h = .ready id → ∃ final,
    Settles (readerCall g) (s.mem, beginTryRecv s.mem h id g.slotBytes) final [.returned (.ok none)]

namespace Stalled

variable {g : Geometry} {slab : ℕ → UInt8} {trace : List Event} {s : State}

/-- The slot at the cursor of a subscriber that would receive nothing has another stamp. -/
theorem stamp_ne (hstalled : Stalled g s) {h id : ℕ} (hready : s.subscribers h = .ready id) :
    s.mem.slotSeq (g.idx (s.mem.subReadSeq id)) ≠ s.mem.subReadSeq id + 1 := by
  intro hstamp
  obtain ⟨final, hempty⟩ := hstalled.drained h id hready
  rcases Nat.lt_or_ge g.slotBytes (s.mem.descLen (g.idx (s.mem.subReadSeq id))) with hlt | hge
  · have hevents := (hempty.unique (recv_tooLarge hstamp hlt)).2
    simp at hevents
  · have hevents := (hempty.unique (recv_settles hstamp hge)).2
    simp at hevents

/-- No call is in its advance loop. -/
theorem not_advancing (hstalled : Stalled g s) (p : ℕ) : ¬ (s.producers p).Advancing := by
  rcases hstalled.calls p with hidle | ⟨claim, hwaiting⟩
  · rintro ⟨w, hpc | hpc | hpc⟩ <;> simp [hidle] at hpc
  · exact hwaiting.not_advancing

/-- The least claim waiting is the number at `write_seq`. -/
theorem claim_eq (hstalled : Stalled g s) {guard : Guard State Action Event}
    (hrun : Run (busSystem g slab) guard trace s) {p claim : ℕ}
    (hwaiting : (s.producers p).Waiting claim)
    (hleast : ∀ q other, (s.producers q).Waiting other → claim ≤ other) :
    claim = s.mem.writeSeq := by
  have hcommit := commitInv_run hrun
  have howned := hwaiting.owned
  have hge : s.mem.writeSeq ≤ claim := by
    by_contra hlt
    exact hcommit.owned_uncommitted p claim howned (hcommit.write_committed claim (by omega))
  have hclaimed := hcommit.owned_lt p claim howned
  rcases hcommit.claimed_cases s.mem.writeSeq (by omega) with hcommitted | ⟨q, hq⟩
  · exact absurd hcommitted (not_committed_writeSeq hrun hstalled.not_advancing)
  · rcases hstalled.calls q with hidle | ⟨other, hother⟩
    · exact absurd hidle (Producer.ne_idle_of_owned hq)
    · have heq : other = s.mem.writeSeq := Option.some.inj (hother.owned.symm.trans hq)
      have := hleast q other hother
      omega

/-- There is space for the number at `write_seq`: no cursor is behind it. -/
theorem hasSpace (hstalled : Stalled g s)
    (hrun : Run (busSystem g slab) SubscribesFirst trace s) :
    s.mem.HasSpace g s.mem.writeSeq := by
  have hcommit := commitInv_run hrun
  have hregistry := registryInv_run (fun _ _ _ hkept ↦ hkept.1) hrun
  have hcursor := cursorInv_run (fun _ _ _ hkept ↦ hkept.1.keepsHandles) (fun _ _ _ hkept ↦ hkept.2)
    (countsJoined_of_subscribesFirst hrun)
  have hcap := g.descCapacity_pos
  refine ⟨by omega, fun id hid ↦ ?_⟩
  obtain ⟨h, hpc⟩ := hregistry.id_covers id hid
  have hready : s.subscribers h = .ready id := by
    rcases hstalled.subscribed h with hnone | hrejected | ⟨other, hother⟩
    · simp [hnone, SubscriberPc.id?] at hpc
    · simp [hrejected, SubscriberPc.id?] at hpc
    · rw [hother] at hpc ⊢
      rw [Option.some.inj hpc]
  have hentry : (s.subscribers h).cursor? s.mem = some (id, s.mem.subReadSeq id) := by
    rw [hready]
    rfl
  -- a cursor behind `write_seq` would find a committed number with an exact stamp
  have hread : s.mem.writeSeq ≤ s.mem.subReadSeq id := by
    by_contra hlt
    have hcommitted := hcommit.write_committed (s.mem.subReadSeq id) (by omega)
    have hle := hcursor.safe.stamp_le hcommit hentry le_rfl
    simp only [Mem.Committed] at hcommitted
    exact hstalled.stamp_ne hready (by omega)
  omega

end Stalled

/-- Waiting publishers do not deadlock the ring. In every state of a run whose subscriptions came
first, in which every producer call in flight waits, no other call is in flight and no subscriber
would receive anything, the waiting `publish` with the least claim passes its capacity check when it
evaluates it again, and when it goes on from where it is. -/
theorem waiting_publish_admitted (g : Geometry) (slab : ℕ → UInt8) (trace : List Event) (s : State)
    (hrun : Run (busSystem g slab) SubscribesFirst trace s) (hstalled : Stalled g s) (p claim : ℕ)
    (hwaiting : (s.producers p).Waiting claim)
    (hleast : ∀ q other, (s.producers q).Waiting other → claim ≤ other) :
    Leads (producerCall g) (s.mem, (s.producers p).goto (.loadSubs claim))
      (s.mem, (s.producers p).goto (.copy claim 0)) [] ∧
    Leads (producerCall g) (s.mem, s.producers p)
      (s.mem, (s.producers p).goto (.copy claim 0)) [] := by
  have hspace := hstalled.hasSpace hrun
  rw [← hstalled.claim_eq hrun hwaiting hleast] at hspace
  have hmax := (registryInv_run (fun _ _ _ hkept ↦ hkept.1) hrun).nSubs_le
  have hcounted : ∀ n, (s.producers p).counted? = some n → n ≤ maxSubscribers := by
    intro n hn
    rw [(firstInv_run (fun _ _ _ hkept ↦ hkept.2) hrun).counted p n hn]
    exact hmax
  obtain ⟨hblocking, hpc⟩ := hwaiting
  refine ⟨publish_admitted _ hblocking hmax hspace, ?_⟩
  have hself : ∀ pc, (s.producers p).pc = pc → s.producers p = (s.producers p).goto pc := by
    rintro pc rfl
    rfl
  cases h : (s.producers p).pc with
  | loadSubs c =>
    simp only [h] at hpc
    subst hpc
    have hleads := publish_admitted _ hblocking hmax hspace
    rwa [← hself _ h] at hleads
  | loadWrite c n =>
    simp only [h] at hpc
    subst hpc
    have hleads := scan_admitted _ hblocking hmax (hcounted n (by rw [Producer.counted?, h])) hspace
      0 s.mem.writeSeq
    refine .silent ?_ hleads
    simp only [producerCall, producerStep, h]
    rfl
  | scan c n i minRead =>
    simp only [h] at hpc
    subst hpc
    have hleads := scan_admitted _ hblocking hmax (hcounted n (by rw [Producer.counted?, h])) hspace
      i minRead
    rwa [← hself _ h] at hleads
  | _ => simp [h] at hpc

/-- On a ring of one slot, a publisher that waits for a subscriber to read the message before. -/
theorem waiting_publish_admitted_second : ∃ (trace : List Event) (s : State),
    received 0 trace = [[7]] ∧ (s.producers 1).pc = .loadSubs 1 ∧
    Leads (producerCall tinyGeometry) (s.mem, s.producers 1)
      (s.mem, (s.producers 1).goto (.copy 1 0)) [] := by
  let actions : List Action :=
    [.subscriber 0 .subscribe :: List.replicate 2 (.subscriber 0 .next),
      .producer 0 (.publish [7]) :: List.replicate 13 (.producer 0 (.next false)),
      .producer 1 (.publish [8]) :: List.replicate 4 (.producer 1 (.next false)),
      .reader 0 (.tryRecv 0 1) :: List.replicate 5 (.reader 0 .next)].flatten
  have hexec : ((busSystem tinyGeometry fun _ ↦ 0).exec (State.init fun _ ↦ 0) actions).map
      (fun result ↦ ((received 0 result.2, result.1.producers 0, result.1.producers 1),
        result.1.subscribers 0, (result.1.readers 0).pc, result.1.mem.subReadSeq 0,
        result.1.mem.slotSeq 0)) =
      some (([[7]], ⟨true, [7], .idle⟩, ⟨true, [8], .loadSubs 1⟩), .ready 0, .idle, 1, 1) := by
    decide
  have hpermitted : Permitted (busSystem tinyGeometry fun _ ↦ 0) SubscribesFirst []
      (State.init fun _ ↦ 0) actions := by decide
  obtain ⟨⟨s, trace⟩, hfinal, hresult⟩ := Option.map_eq_some_iff.mp hexec
  simp only [Prod.mk.injEq] at hresult
  obtain ⟨⟨hreceived, hzero, hone⟩, hready, hreader, hread, hslot⟩ := hresult
  have hrun : Run (busSystem tinyGeometry fun _ ↦ 0) SubscribesFirst trace s :=
    run_of_permitted hpermitted hfinal
  have hproducers : ∀ p, (s.producers p).pc = .idle ∨ p = 1 := by
    intro p
    by_cases hp0 : p = 0
    · exact Or.inl (by rw [hp0, hzero])
    · by_cases hp1 : p = 1
      · exact Or.inr hp1
      · have hidle : s.producers p = .idle :=
          exec_producers_of_forall_ne (fun act ↦ by simp [actions, hp0, hp1]) hfinal
        exact Or.inl (by rw [hidle]; rfl)
  have hsubscribers : ∀ h, s.subscribers h = .unsubscribed ∨ h = 0 := by
    intro h
    by_cases hh : h = 0
    · exact Or.inr hh
    · exact Or.inl (exec_subscribers_of_forall_ne (fun act ↦ by simp [actions, hh]) hfinal)
  have hwaiting : (s.producers 1).Waiting 1 := by
    rw [hone]
    exact ⟨rfl, rfl⟩
  have hstalled : Stalled tinyGeometry s := by
    constructor
    · intro p
      rcases hproducers p with hidle | rfl
      · exact Or.inl hidle
      · exact Or.inr ⟨1, hwaiting⟩
    · intro r
      by_cases hr : r = 0
      · exact hr ▸ hreader
      · have hidle : s.readers r = .idle :=
          exec_readers_of_forall_ne (fun act ↦ by simp [actions, hr]) hfinal
        rw [hidle]
        rfl
    · intro h
      rcases hsubscribers h with hnone | rfl
      · exact Or.inl hnone
      · exact Or.inr (Or.inr ⟨0, hready⟩)
    · intro h id hid
      rcases hsubscribers h with hnone | rfl
      · rw [hnone] at hid
        cases hid
      · obtain rfl : 0 = id := by simpa [hready] using hid
        refine ⟨_, recv_empty ?_⟩
        rw [hread]
        exact (hslot.trans_lt (by decide)).ne
  have hleast : ∀ q other, (s.producers q).Waiting other → 1 ≤ other := by
    intro q other hother
    rcases hproducers q with hidle | rfl
    · simp [Producer.Waiting, hidle] at hother
    · exact (Option.some.inj (hwaiting.owned.symm.trans hother.owned)).le
  exact ⟨trace, s, hreceived, by rw [hone],
    (waiting_publish_admitted tinyGeometry _ trace s hrun hstalled 1 1 hwaiting hleast).2⟩

end AarnnNsys.Bus
