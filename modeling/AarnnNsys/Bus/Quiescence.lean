import AarnnNsys.Bus.Liveness

/-!
# When nothing more is claimed

The loops of a call end only if others let them: `publish` waits for space, and the advance loop
goes around again for every number that is committed meanwhile. In a fair behaviour of the bus in
which no number is claimed any more from some instant on, every call in flight returns
(`calls_return`), and the bus drains: `write_seq` gets to `claim_seq` for good, and every subscriber
has received all there is (`drains`).
-/

set_option autoImplicit false
set_option relaxedAutoImplicit false

namespace AarnnNsys.Bus

open Function Lib

/-- The steps that a call without a claim of its own has left, once `write_seq` stays at `c`: a
`try_publish` call has its one check to make, a call that has committed its message goes at most
once more around the advance loop. -/
def Producer.returnRank (c : ℕ) (t : Producer) : ℕ :=
  match t.pc with
  | .loadSubs _ => maxSubscribers + 4
  | .loadWrite _ n => n + 3
  | .scan _ n i _ => n - i + 2
  | .casClaim _ => 1
  | .advanceLoad => 2
  | .advanceSlot w => if w = c then 1 else 4
  | .advanceCas _ => 3
  | _ => 0

/-- Once everything claimed is committed and `write_seq` is there, a call in flight returns, claims
another number, or gets closer to its end with every step. -/
theorem ProducerStep.returns {g : Geometry} {m m' : Mem} {t t' : Producer} {act : ProducerAct}
    {events : List ProducerEvent} (hstep : ProducerStep g m t act m' t' events)
    (hactive : t.pc ≠ .idle) (hfree : t.owned = none) (hbounded : t.Bounded g m)
    (hmax : m.nSubs ≤ maxSubscribers) (hcounted : ∀ n, t.counted? = some n → n ≤ maxSubscribers)
    (hend : ¬ m.Committed g m.writeSeq) :
    t'.pc = .idle ∨ m.claimSeq < m'.claimSeq ∨
      t'.returnRank m.writeSeq < t.returnRank m.writeSeq := by
  cases hstep with
  | publishRejected payload hpc | publish payload hpc | tryPublishRejected payload hpc
  | tryPublish payload hpc => exact absurd hpc hactive
  | loadSubs b claim hpc =>
    refine .inr (.inr ?_)
    simp only [Producer.returnRank, Producer.goto_pc, hpc]
    omega
  | loadWrite b claim n hpc =>
    refine .inr (.inr ?_)
    simp only [Producer.returnRank, Producer.goto_pc, hpc]
    omega
  | scanRead b claim n i minRead hpc hi hmaxi =>
    refine .inr (.inr ?_)
    simp only [Producer.returnRank, Producer.goto_pc, hpc]
    omega
  | scanPanic b claim n i minRead hpc hi hmaxi =>
    have hn := hcounted n (by simp [Producer.counted?, hpc])
    omega
  | accept b claim n i minRead hpc hi hblocking hspace =>
    refine .inr (.inr ?_)
    simp only [Producer.returnRank, Producer.goto_pc, hpc]
    omega
  | claim b claim hpc heq =>
    subst heq
    exact .inr (.inl (Nat.lt_succ_self _))
  | refuse b claim n i minRead hpc | claimLost b claim hpc | advanceStop b w hpc => exact .inl rfl
  | advanceLoad b hpc =>
    refine .inr (.inr ?_)
    simp only [Producer.returnRank, Producer.goto_pc, hpc, if_true]
    omega
  | advanceSlot b w hpc hcommitted =>
    have hne : w ≠ m.writeSeq := by
      rintro rfl
      rw [Mem.Committed, hcommitted] at hend
      exact hend (Nat.lt_succ_self _)
    refine .inr (.inr ?_)
    simp only [Producer.returnRank, Producer.goto_pc, hpc, if_neg hne]
    omega
  | advanceCas b w hpc heq =>
    obtain ⟨-, hcommitted⟩ : w ≤ m.writeSeq ∧ m.Committed g w := by
      simpa [Producer.Bounded, hpc] using hbounded
    exact absurd (heq ▸ hcommitted) hend
  | advanceLost b w hpc hne =>
    refine .inr (.inr ?_)
    simp only [Producer.returnRank, Producer.goto_pc, hpc]
    omega
  | _ => simp [Producer.owned, *] at hfree

section Live

variable {g : Geometry} {slab : ℕ → UInt8} {b : Behaviour (busSystem g slab)}

/-- Once nothing more is claimed, everything claimed is committed from some instant on, and
`write_seq` and all cursors are past it. -/
theorem drained_for_good (hallowed : b.Allowed fun _ ↦ Serves g) (hfair : Fair b) {n : ℕ}
    (hstop : ∀ m ≥ n, (b.state m).mem.claimSeq = (b.state n).mem.claimSeq) :
    ∃ k ≥ n, ∀ m ≥ k, Clear (b.state m).mem.claimSeq (b.state m) ∧
      ∀ p, ((b.state m).producers p).owned = none := by
  obtain ⟨first, hfirst, hbelow⟩ := commits_below hallowed hfair n
  obtain ⟨k, hk, hclear⟩ := clear_of_committed hallowed hfair (hbelow first le_rfl)
  refine ⟨k, by omega, fun m hm ↦ ⟨hstop m (by omega) ▸ hclear m hm, fun p ↦ ?_⟩⟩
  by_contra howned
  obtain ⟨c, hc⟩ := Option.ne_none_iff_exists'.mp howned
  have hcommit := commitInv_run (Behaviour.run hallowed m)
  have hlt := hcommit.owned_lt p c hc
  rw [hstop m (by omega)] at hlt
  exact hcommit.owned_uncommitted p c hc (hbelow m (by omega) c hlt)

/-- Once nothing more is claimed, every call in flight returns. -/
theorem calls_return (hallowed : b.Allowed fun _ ↦ Serves g) (hfair : Fair b) {n : ℕ}
    (hstop : ∀ m ≥ n, (b.state m).mem.claimSeq = (b.state n).mem.claimSeq) (p : ℕ) :
    ∃ m ≥ n, ((b.state m).producers p).pc = .idle := by
  obtain ⟨k, hk, hdrained⟩ := drained_for_good hallowed hfair hstop
  generalize hc : (b.state n).mem.claimSeq = c at hstop
  by_contra hnever
  push Not at hnever
  have hinv := fun m ↦ servesInv_run (Behaviour.run hallowed m)
  have hwrite : ∀ m ≥ k, (b.state m).mem.writeSeq = c := fun m hm ↦
    ((hinv m).commit.writeSeq_le.antisymm (hdrained m hm).1.write).trans (hstop m (by omega))
  suffices hdone : ∃ m ≥ k, ((b.state m).producers p).pc = .idle ∨ c < (b.state m).mem.claimSeq by
    obtain ⟨m, hm, hidle | hlt⟩ := hdone
    · exact hnever m (by omega) hidle
    · exact absurd (hstop m (by omega)) hlt.ne'
  refine Behaviour.eventually_of_rank hallowed (hfair.producers p)
    (fun s ↦ s.mem.writeSeq = c ∧ s.mem.claimSeq = c ∧ (s.producers p).owned = none)
    (fun s ↦ (s.producers p).Working)
    (fun s ↦ (s.producers p).pc = .idle ∨ c < s.mem.claimSeq)
    (fun s ↦ (s.producers p).returnRank c) (fun _ hwork ↦ hwork) ?_
    (fun m hm ↦ ⟨hwrite m hm, hstop m (by omega), (hdrained m hm).2 p⟩)
    ⟨hnever k hk, (hinv k).registration.not_panicked p⟩
  rintro trace s action s' events hprevious hserves hstep ⟨hwrite, hclaim, hfree⟩ ⟨hactive, halive⟩
  have hbus : BusStep g s action s' events := step_cases hstep
  have hinv := servesInv_run hprevious
  have hregistered := hinv.registration.step hserves.1.1.findsEntry hbus
  by_cases hown : ∃ act, action = .producer p act
  · obtain ⟨act, rfl⟩ := hown
    cases hbus with
    | @producer p act m t events hthread =>
      have hend : ¬ s.mem.Committed g s.mem.writeSeq := fun hcommitted ↦
        absurd (hinv.commit.slot_claimed _) (by
          rw [hclaim, ← hwrite]
          exact not_le.mpr hcommitted)
      have hreturns := hthread.returns hactive hfree (hinv.commit.bounded p)
        hinv.registration.ids.nSubs_le (hinv.registration.counted_le p) hend
      have halive' := hregistered.not_panicked p
      simp only [State.setProducer, update_self, hwrite, hclaim] at hreturns halive' ⊢
      rcases hreturns with hidle | hlt | hrank
      · exact .inl (.inl hidle)
      · exact .inl (.inr hlt)
      · by_cases hidle : t.pc = .idle
        · exact .inl (.inl hidle)
        · exact .inr ⟨⟨hidle, halive'⟩, .inl hrank⟩
  · rw [hbus.producers_eq hown]
    exact .inr ⟨⟨hactive, halive⟩, .inr ⟨rfl, hown⟩⟩

end Live

/-- What is left when nothing more is claimed. Assumes: a behaviour of the bus that treats its
threads fairly, with at most `MAX_SUBSCRIBERS` subscribe calls, one thread for each subscriber that
receives into a whole slot, messages that fit the length word, capacity checks that count who
joined, and an instant from which on no number is claimed. Every call then in flight returns, and
from some instant on `write_seq` is `claim_seq` and every subscriber has received all messages from
its start on. -/
theorem drains (g : Geometry) (slab : ℕ → UInt8) (b : Behaviour (busSystem g slab))
    (hallowed : b.Allowed fun _ ↦ Serves g) (hfair : Fair b) (n : ℕ)
    (hstop : ∀ m ≥ n, (b.state m).mem.claimSeq = (b.state n).mem.claimSeq) :
    (∀ p, ∃ m ≥ n, ((b.state m).producers p).pc = .idle) ∧
    ∃ k ≥ n, ∀ m ≥ k, (b.state m).mem.writeSeq = (b.state m).mem.claimSeq ∧
      ∀ h start, Started h start (b.trace m) →
        received h (b.trace m) = ((claims (b.trace m)).drop start).map Claim.payload := by
  refine ⟨calls_return hallowed hfair hstop, ?_⟩
  obtain ⟨k, hk, hdrained⟩ := drained_for_good hallowed hfair hstop
  refine ⟨k, hk, fun m hm ↦ ?_⟩
  obtain ⟨hclear, -⟩ := hdrained m hm
  have hinv := servesInv_run (Behaviour.run hallowed m)
  refine ⟨hinv.commit.writeSeq_le.antisymm hclear.write, fun h start hstarted ↦ ?_⟩
  obtain ⟨id, hserved⟩ := served hallowed hstarted
  have hid : id < (b.state m).mem.nSubs :=
    hinv.registration.ids.id_lt h id (by rw [hserved.ready]; rfl)
  rw [hserved.received_eq, messages, List.take_of_length_le]
  rw [hinv.commit.length_claims]
  exact hclear.entry id hid

/-- The call that has claimed the one number of the behaviour returns, and the subscriber receives
its message. -/
theorem drains_one : ∃ b : Behaviour (busSystem tinyGeometry fun _ ↦ 0),
    claims (b.trace 4) = [⟨0, 0, [7]⟩] ∧ received 0 (b.trace 4) = [] ∧
    (∃ m ≥ 4, ((b.state m).producers 0).pc = .idle) ∧
    ∃ m ≥ 4, received 0 (b.trace m) = ((claims (b.trace m)).drop 0).map Claim.payload := by
  obtain ⟨b, hallowed, hfair, hclaims, hnone, hstarted, hstop⟩ := exists_fair_one
  obtain ⟨hreturn, k, hk, hdrained⟩ := drains tinyGeometry _ b hallowed hfair 4
    fun m hm ↦ (hstop m hm).trans (hstop 4 le_rfl).symm
  exact ⟨b, hclaims, hnone, hreturn 0, k, hk,
    (hdrained k le_rfl).2 0 0 (started_stable hstarted hk)⟩

end AarnnNsys.Bus
