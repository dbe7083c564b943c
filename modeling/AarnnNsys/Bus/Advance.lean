import AarnnNsys.Bus.Commit
import Mathlib.Order.Bounds.Basic

/-!
# No advance of the write sequence is lost

A producer leaves its advance loop as soon as one slot does not look committed, and the look may be
stale. What never happens is that `write_seq` stops below a committed number with nobody left to
move it: while the number at `write_seq` is committed, some call is in its advance loop and is bound
to see it (`AdvanceInv`). A call gives up only on a slot whose stamp differs from `w + 1`; for the
current `write_seq` that stamp is exact as soon as the number is committed
(`CommitInv.stamp_at_write`), so only a call that loaded an older value can give up.

`writeSeq_isLeast_uncommitted` is the result for the states in which no call is between its commit
store and the end of its advance loop.
-/

set_option autoImplicit false
set_option relaxedAutoImplicit false

namespace AarnnNsys.Bus

open Function Lib

/-- A slot that was ever committed to holds the stamp of a number of its own. -/
theorem CommitInv.slot_stamp {g : Geometry} {trace : List Event} {s : State}
    (hinv : CommitInv g trace s) {i : ℕ} (hi : i < g.descCapacity) (hpos : 0 < s.mem.slotSeq i) :
    ∃ last, s.mem.slotSeq i = last + 1 ∧ last % g.descCapacity = i := by
  obtain ⟨laps, hlaps, -⟩ := hinv.slot_lap i hi
  cases laps with
  | zero =>
    simp only [lapStamp] at hlaps
    omega
  | succ laps =>
    refine ⟨i + laps * g.descCapacity, hlaps, ?_⟩
    rw [Nat.add_mul_mod_self_right, Nat.mod_eq_of_lt hi]

/-- The stamp of a committed number is exact while no number a lap later is committed. -/
theorem CommitInv.stamp_eq {g : Geometry} {trace : List Event} {s : State}
    (hinv : CommitInv g trace s) {sequence : ℕ} (hcommitted : s.mem.Committed g sequence)
    (hwindow : s.mem.slotSeq (g.idx sequence) ≤ sequence + g.descCapacity) :
    s.mem.slotSeq (g.idx sequence) = sequence + 1 := by
  simp only [Mem.Committed, Geometry.idx_eq_mod] at hcommitted hwindow ⊢
  obtain ⟨last, hlast, hcell⟩ := hinv.slot_stamp (g.mod_descCapacity_lt sequence) (by omega)
  have heq := eq_of_mod_eq_of_window hcell (by omega) (by omega)
  rw [hlast, heq]

/-- The stamp of the slot at `write_seq` is exact once the number is committed. -/
theorem CommitInv.stamp_at_write {g : Geometry} {trace : List Event} {s : State}
    (hinv : CommitInv g trace s) (hcommitted : s.mem.Committed g s.mem.writeSeq) :
    s.mem.slotSeq (g.idx s.mem.writeSeq) = s.mem.writeSeq + 1 :=
  hinv.stamp_eq hcommitted (hinv.slot_window _)

/-- A call in its advance loop that will look at the slot of `w`, or has seen it committed. -/
def Producer.AdvancingTo (t : Producer) (w : ℕ) : Prop :=
  t.pc = .advanceLoad ∨ t.pc = .advanceSlot w ∨ t.pc = .advanceCas w

/-- A call between its commit store and the end of its advance loop. -/
def Producer.Advancing (t : Producer) : Prop := ∃ w, t.AdvancingTo w

/-- While the number at `write_seq` is committed, some call is bound to advance over it. -/
def AdvanceInv (g : Geometry) (s : State) : Prop :=
  s.mem.Committed g s.mem.writeSeq → ∃ p, (s.producers p).AdvancingTo s.mem.writeSeq

/-- What a producer step does to the obligation to advance: the step takes it on, or leaves
`write_seq` and the stamps alone and keeps it if its thread had it. -/
theorem ProducerStep.advancing {g : Geometry} {m m' : Mem} {t t' : Producer} {act : ProducerAct}
    {events : List ProducerEvent} (hstep : ProducerStep g m t act m' t' events) :
    t'.AdvancingTo m'.writeSeq ∨
      m'.writeSeq = m.writeSeq ∧ m'.slotSeq = m.slotSeq ∧
        (m.slotSeq (g.idx m.writeSeq) = m.writeSeq + 1 → ¬ t.AdvancingTo m.writeSeq) := by
  cases hstep with
  | storeSeq b claim hpc => exact Or.inl (Or.inl rfl)
  | advanceLoad b hpc => exact Or.inl (Or.inr (Or.inl rfl))
  | advanceSlot b w hpc hcommitted =>
    by_cases hw : w = m.writeSeq
    · exact Or.inl (Or.inr (Or.inr (by rw [hw]; rfl)))
    · exact Or.inr ⟨rfl, rfl, fun _ ↦ by simp [Producer.AdvancingTo, hpc, hw]⟩
  | advanceStop b w hpc huncommitted =>
    refine Or.inr ⟨rfl, rfl, fun hstamp ↦ ?_⟩
    have hw : w ≠ m.writeSeq := by
      rintro rfl
      exact huncommitted hstamp
    simp [Producer.AdvancingTo, hpc, hw]
  | advanceCas b w hpc heq => exact Or.inl (Or.inl rfl)
  | advanceLost b w hpc hne => exact Or.inl (Or.inl rfl)
  | _ => exact Or.inr ⟨rfl, rfl, fun _ ↦ by simp [Producer.AdvancingTo, *]⟩

/-- Every step of the bus keeps somebody bound to advance. -/
theorem AdvanceInv.step {g : Geometry} {trace : List Event} {s s' : State} {action : Action}
    {events : List Event} (hcommit : CommitInv g trace s) (hinv : AdvanceInv g s)
    (hstep : BusStep g s action s' events) : AdvanceInv g s' := by
  cases hstep with
  | @producer p act m t reported hthread =>
    intro hcommitted
    rcases hthread.advancing with htaken | ⟨hwrite, hslot, hkept⟩
    · exact ⟨p, by simpa [State.setProducer] using htaken⟩
    · simp only [State.setProducer, Mem.Committed, hwrite, hslot] at hcommitted ⊢
      obtain ⟨q, hq⟩ := hinv hcommitted
      have hqp : q ≠ p := by
        rintro rfl
        exact hkept (hcommit.stamp_at_write hcommitted) hq
      exact ⟨q, by rwa [update_of_ne hqp]⟩
  | subscriber hthread =>
    obtain ⟨-, hwrite, hslot⟩ := hthread.words
    simpa [AdvanceInv, State.setSubscriber, Mem.Committed, hwrite, hslot] using hinv
  | reader hthread =>
    obtain ⟨-, hwrite, hslot⟩ := hthread.words
    simpa [AdvanceInv, State.setReader, Mem.Committed, hwrite, hslot] using hinv

/-- In every run of the bus somebody is bound to advance over a committed `write_seq`. -/
theorem advanceInv_run {g : Geometry} {slab : ℕ → UInt8} {guard : Guard State Action Event}
    {trace : List Event} {s : State} (hrun : Run (busSystem g slab) guard trace s) :
    AdvanceInv g s := by
  have hpair : CommitInv g trace s ∧ AdvanceInv g s := by
    have hinit : AdvanceInv g (State.init slab) := fun hlt ↦ absurd hlt (Nat.not_lt_zero _)
    refine hrun.invariant (fun trace s ↦ CommitInv g trace s ∧ AdvanceInv g s) ?_ ?_
    · exact ⟨commitInv_init g slab, hinit⟩
    · exact fun _ hinv _ hstep ↦
        ⟨hinv.1.step (step_cases hstep), hinv.2.step hinv.1 (step_cases hstep)⟩
  exact hpair.2

/-- At rest, `write_seq` itself is not committed. -/
theorem not_committed_writeSeq {g : Geometry} {slab : ℕ → UInt8}
    {guard : Guard State Action Event} {trace : List Event} {s : State}
    (hrun : Run (busSystem g slab) guard trace s)
    (hrest : ∀ p, ¬ (s.producers p).Advancing) : ¬ s.mem.Committed g s.mem.writeSeq := by
  intro hcommitted
  obtain ⟨p, hp⟩ := advanceInv_run hrun hcommitted
  exact hrest p ⟨_, hp⟩

/-- No lost advance. In every state of a run in which no call is between its commit store and the
end of its advance loop, `write_seq` is the least sequence number that is not committed; when every
number claimed is committed it equals `claim_seq`. -/
theorem writeSeq_isLeast_uncommitted (g : Geometry) (slab : ℕ → UInt8) (trace : List Event)
    (s : State) (hrun : Run (busSystem g slab) unguarded trace s)
    (hrest : ∀ p, ¬ (s.producers p).Advancing) :
    IsLeast {sequence | sequence ∉ commits trace} s.mem.writeSeq ∧
      ((∀ claim ∈ claims trace, claim.sequence ∈ commits trace) →
        s.mem.writeSeq = s.mem.claimSeq) := by
  have hinv := commitInv_run hrun
  have huncommitted := not_committed_writeSeq hrun hrest
  refine ⟨⟨?_, fun sequence hsequence ↦ ?_⟩, fun hall ↦ ?_⟩
  · rwa [hinv.committed_iff] at huncommitted
  · by_contra hlt
    exact hsequence ((hinv.committed_iff sequence).mp (hinv.write_committed sequence (by omega)))
  · have hclaimed : ∀ sequence < s.mem.claimSeq, s.mem.Committed g sequence := by
      intro sequence hlt
      have hmem : sequence ∈ (claims trace).map Claim.sequence := by
        rw [hinv.claims_sequence]
        exact List.mem_range.mpr hlt
      obtain ⟨claim, hclaim, rfl⟩ := List.mem_map.mp hmem
      exact (hinv.committed_iff _).mpr (hall claim hclaim)
    have hle : s.mem.writeSeq ≤ s.mem.claimSeq := by
      by_contra hgt
      have hcommitted := hinv.write_committed s.mem.claimSeq (by omega)
      exact absurd hcommitted (not_lt.mpr (hinv.slot_claimed _))
    by_contra hne
    exact huncommitted (hclaimed _ (by omega))

/-- Two producers on a ring of two slots. Producer 1 commits its number before producer 0 commits
the one below; when both calls have returned, `write_seq` has passed both. -/
theorem writeSeq_isLeast_uncommitted_published : ∃ (trace : List Event) (s : State),
    commits trace = [1, 0] ∧ s.mem.writeSeq = 2 ∧
      IsLeast {sequence | sequence ∉ commits trace} s.mem.writeSeq := by
  have hrun : ((busSystem ⟨2, 1, rfl⟩ fun _ ↦ 0).exec (State.init fun _ ↦ 0)
      (.producer 0 (.publish [7]) :: .producer 1 (.publish [8]) ::
        (List.replicate 9 (.producer 1 (.next false)) ++
          List.replicate 15 (.producer 0 (.next false))))).map
        (fun result ↦ (commits result.2, result.1.mem.writeSeq, (result.1.producers 0).pc,
          (result.1.producers 1).pc)) =
      some ([1, 0], 2, .idle, .idle) := by decide +kernel
  obtain ⟨⟨s, trace⟩, hexec, hresult⟩ := Option.map_eq_some_iff.mp hrun
  obtain ⟨hcommits, hwrite, hfirst, hsecond⟩ : commits trace = [1, 0] ∧ s.mem.writeSeq = 2 ∧
      (s.producers 0).pc = .idle ∧ (s.producers 1).pc = .idle := by
    simpa using hresult
  have hrest : ∀ p, ¬ (s.producers p).Advancing := by
    intro p
    by_cases hp : p = 0 ∨ p = 1
    · obtain rfl | rfl := hp
      · simp [Producer.Advancing, Producer.AdvancingTo, hfirst]
      · simp [Producer.Advancing, Producer.AdvancingTo, hsecond]
    · obtain ⟨hzero, hone⟩ := not_or.mp hp
      have hidle : s.producers p = .idle :=
        exec_producers_of_forall_ne (fun act ↦ by simp [hzero, hone]) hexec
      simp [Producer.Advancing, Producer.AdvancingTo, hidle, Producer.idle]
  exact ⟨trace, s, hcommits, hwrite,
    (writeSeq_isLeast_uncommitted _ _ trace s (run_of_exec hexec) hrest).1⟩

end AarnnNsys.Bus
