import AarnnNsys.Bus.Layout
import AarnnNsys.Bus.Sequential

/-!
# The advance loop stops

The loop at the end of `publish` and `try_publish` has no bound of its own: it goes around the ring
for as long as the slot of `write_seq` holds the number after it. A slot holds that of one lap only,
so a loop that runs alone stops within a lap, whatever the slots hold and wherever `write_seq`
stands. `Looping` is the invariant of such a loop, by the number of successful compare-exchanges so
far, and `advanceLoop_stops` the result.

The region of the model has sequence words without a bound. `Handle.advanceLoop` is the loop on
words of 64 bits. It stops within a lap even where `write_seq` wraps (`Handle.exists_endsAfter`),
and below that it stops where the loop of the model does (`Handle.advanceLoop_settles`).
-/

set_option autoImplicit false
set_option relaxedAutoImplicit false

namespace AarnnNsys.Bus

open Function Lib

/-! ### The loop of the model -/

/-- The next step of a producer call is a compare-exchange on `write_seq` that succeeds. -/
def advances (state : Mem × Producer) : Bool :=
  match state.2.pc with
  | .advanceCas w => state.1.writeSeq = w
  | _ => false

section Loop

variable {g : Geometry} {m : Mem} {t : Producer} {n : ℕ}

/-- The states of a loop that passes `n` numbers, with the successful compare-exchanges so far. -/
inductive Looping (m : Mem) (t : Producer) (n : ℕ) : (Mem × Producer) × ℕ → Prop
  | load (k : ℕ) (hk : k ≤ n) :
      Looping m t n (({ m with writeSeq := m.writeSeq + k }, t.goto .advanceLoad), k)
  | slot (k : ℕ) (hk : k ≤ n) :
      Looping m t n
        (({ m with writeSeq := m.writeSeq + k }, t.goto (.advanceSlot (m.writeSeq + k))), k)
  | cas (k : ℕ) (hk : k < n) :
      Looping m t n
        (({ m with writeSeq := m.writeSeq + k }, t.goto (.advanceCas (m.writeSeq + k))), k)
  | done : Looping m t n (({ m with writeSeq := m.writeSeq + n }, t.finish), n)

/-- At every moment of the loop nothing but `write_seq` has changed, by the number of successful
compare-exchanges. -/
theorem Looping.mem_eq {state : Mem × Producer} {count : ℕ} (hloop : Looping m t n (state, count)) :
    count ≤ n ∧ state.1 = { m with writeSeq := m.writeSeq + count } := by
  cases hloop with
  | load k hk => exact ⟨hk, rfl⟩
  | slot k hk => exact ⟨hk, rfl⟩
  | cas k hk => exact ⟨hk.le, rfl⟩
  | done => exact ⟨le_rfl, rfl⟩

/-- Every step of a loop that runs alone stays in the loop, or ends it where the walk over the slots
ends. -/
theorem Looping.step (hends : EndsAfter (· + 1) g.idx m.slotSeq m.writeSeq n)
    {state next : (Mem × Producer) × ℕ} {events : List ProducerEvent} (hloop : Looping m t n state)
    (hstep : tally (producerCall g) advances state = some (next, events)) :
    Looping m t n next := by
  obtain ⟨final, count⟩ := next
  cases hloop with
  | load k hk =>
    obtain ⟨hcall, hcount⟩ := tally_eq_some_iff.mp hstep
    cases hcall
    exact hcount ▸ .slot k hk
  | slot k hk =>
    obtain ⟨hcall, hcount⟩ := tally_eq_some_iff.mp hstep
    simp only [producerCall, producerStep, Producer.goto_pc] at hcall
    rcases hk.lt_or_eq with hlt | heq
    · have hstamp := hends.passed k hlt
      rw [add_one_iterate] at hstamp
      rw [if_pos hstamp] at hcall
      cases hcall
      exact hcount ▸ .cas k hlt
    · have hother := hends.ended
      rw [add_one_iterate, ← heq] at hother
      rw [if_neg hother, heq] at hcall
      cases hcall
      exact hcount ▸ heq ▸ .done
  | cas k hk =>
    obtain ⟨hcall, hcount⟩ := tally_eq_some_iff.mp hstep
    simp only [producerCall, producerStep, Producer.goto_pc, if_true] at hcall
    cases hcall
    have hadvances : (advances ({ m with writeSeq := m.writeSeq + k },
        t.goto (.advanceCas (m.writeSeq + k)))).toNat = 1 := by simp [advances]
    rw [hcount, hadvances]
    exact .load (k + 1) hk
  | done =>
    obtain ⟨hcall, -⟩ := tally_eq_some_iff.mp hstep
    cases hcall

/-- The advance loop always stops. From any region, whatever its slots hold and wherever `write_seq`
stands, the loop of a `publish` or `try_publish` that runs alone ends the call, after at most a lap
of successful compare-exchanges: at the first number from `write_seq` on whose slot does not hold
the number after it. At every moment of the loop nothing but `write_seq` has changed, and that by
the number of these compare-exchanges. -/
theorem advanceLoop_stops (g : Geometry) (m : Mem) (t : Producer) :
    ∃ increments ≤ g.descCapacity,
      IsLeast {w | m.writeSeq ≤ w ∧ m.slotSeq (g.idx w) ≠ w + 1} (m.writeSeq + increments) ∧
      Settles (producerCall g) (m, t.goto .advanceLoad)
        ({ m with writeSeq := m.writeSeq + increments }, t.finish) [t.success] ∧
      Settles (tally (producerCall g) advances) ((m, t.goto .advanceLoad), 0)
        (({ m with writeSeq := m.writeSeq + increments }, t.finish), increments) [t.success] ∧
      ∀ state count events,
        Leads (tally (producerCall g) advances) ((m, t.goto .advanceLoad), 0) (state, count)
            events →
          count ≤ increments ∧ state.1 = { m with writeSeq := m.writeSeq + count } := by
  obtain ⟨n, hle, hwalk⟩ := exists_endsAfter_mod g.descCapacity_pos m.slotSeq m.writeSeq
  have hends : EndsAfter (· + 1) g.idx m.slotSeq m.writeSeq n := by
    simpa only [funext g.idx_eq_mod] using hwalk
  have hsettles : Settles (producerCall g) (m, t.goto .advanceLoad)
      ({ m with writeSeq := m.writeSeq + n }, t.finish) [t.success] := ⟨advance_leads t hends, rfl⟩
  have hkept : ∀ state count events,
      Leads (tally (producerCall g) advances) ((m, t.goto .advanceLoad), 0) (state, count) events →
        count ≤ n ∧ state.1 = { m with writeSeq := m.writeSeq + count } := by
    intro state count events hleads
    have hloop := hleads.invariant (Looping m t n) (Looping.step hends) (.load 0 n.zero_le)
    exact hloop.mem_eq
  refine ⟨n, hle, hends.isLeast, hsettles, ?_, hkept⟩
  obtain ⟨total, htally⟩ := hsettles.tally advances 0
  -- the count at the end is what `write_seq` has moved by
  have hmoved := congrArg Mem.writeSeq (hkept _ _ _ htally.1).2
  obtain rfl : n = total := Nat.add_left_cancel hmoved
  exact htally

end Loop

/-! ### The loop on 64-bit words -/

namespace Handle

variable {h : Handle} {slotSeq : UInt64 → UInt64} {w : UInt64} {n : ℕ}

/-- The loop when nothing interferes, every compare-exchange succeeding, from the value of
`write_seq` to the value at which it stops. Sums wrap, as in a release build. `none` is a loop that
has not stopped after `fuel` passes. -/
def advanceLoop (h : Handle) (slotSeq : UInt64 → UInt64) : ℕ → UInt64 → Option UInt64
  | 0, _ => none
  | fuel + 1, w =>
    if slotSeq (h.idx w) = w + 1 then h.advanceLoop slotSeq fuel (w + 1) else some w

/-- The loop stops where the walk over the slots ends. -/
theorem advanceLoop_eq_some (hends : EndsAfter (· + 1) h.idx slotSeq w n) {fuel : ℕ}
    (hfuel : n < fuel) : h.advanceLoop slotSeq fuel w = some ((· + 1)^[n] w) := by
  induction fuel generalizing w n with
  | zero => exact absurd hfuel (Nat.not_lt_zero n)
  | succ fuel ih =>
    cases n with
    | zero =>
      rw [advanceLoop, if_neg (endsAfter_zero_iff.mp hends)]
      rfl
    | succ n =>
      obtain ⟨hstamp, hrest⟩ := endsAfter_succ_iff.mp hends
      rw [advanceLoop, if_pos hstamp]
      exact ih hrest (by omega)

theorem toNat_add_one_iterate (w : UInt64) (n : ℕ) :
    ((· + 1)^[n] w).toNat = (w.toNat + n) % 2 ^ 64 := by
  induction n with
  | zero => exact (Nat.mod_eq_of_lt w.toNat_lt).symm
  | succ n ih =>
    rw [iterate_succ_apply', UInt64.toNat_add, ih, Nat.mod_add_mod]
    rfl

/-- The walk ends within a lap, also where the numbers wrap: the capacity divides `2 ^ 64`, so that
a lap comes back to its slot, and it is smaller, so that the number is another one. -/
theorem exists_endsAfter (hpow : isPow2 h.descCapacity.toNat = true) (slotSeq : UInt64 → UInt64)
    (w : UInt64) : ∃ n ≤ h.descCapacity.toNat, EndsAfter (· + 1) h.idx slotSeq w n := by
  have hpos : 0 < h.descCapacity.toNat := (h.geometry hpow).descCapacity_pos
  have hlt : h.descCapacity.toNat < 2 ^ 64 := h.descCapacity.toNat_lt
  have hdvd : h.descCapacity.toNat ∣ 2 ^ 64 := by
    obtain ⟨k, hk⟩ := (isPow2_iff _).mp hpow
    rw [hk] at hlt ⊢
    exact Nat.pow_dvd_pow 2 ((Nat.pow_lt_pow_iff_right (by decide)).mp hlt).le
  apply Lib.exists_endsAfter
  · rw [← UInt64.toNat_inj, toNat_idx hpow, toNat_idx hpow, toNat_add_one_iterate,
      Geometry.idx_eq_mod, Geometry.idx_eq_mod]
    show (w.toNat + h.descCapacity.toNat) % 2 ^ 64 % h.descCapacity.toNat =
      w.toNat % h.descCapacity.toNat
    rw [Nat.mod_mod_of_dvd _ hdvd, Nat.add_mod_right]
  · intro hsame
    have hsame' := congrArg UInt64.toNat hsame
    have hword := w.toNat_lt
    rw [UInt64.toNat_add, UInt64.toNat_add, toNat_add_one_iterate] at hsame'
    simp only [UInt64.toNat_one] at hsame'
    omega

end Handle

/-- The sequence words of a region of the model are these 64-bit words. -/
structure Mem.HasWords (m : Mem) (h : Handle) (slotSeq : UInt64 → UInt64) (w : UInt64) : Prop where
  writeSeq_eq : m.writeSeq = w.toNat
  slotSeq_eq : ∀ i < h.descCapacity, m.slotSeq i.toNat = (slotSeq i).toNat

/-- A number that does not wrap is stamped on the words exactly when it is in the model. -/
theorem Mem.HasWords.stamped_iff {m : Mem} {h : Handle} {slotSeq : UInt64 → UInt64} {w : UInt64}
    (hwords : m.HasWords h slotSeq w) (hpow : isPow2 h.descCapacity.toNat = true) {k : ℕ}
    (hroom : w.toNat + k + 1 < 2 ^ 64) :
    slotSeq (h.idx ((· + 1)^[k] w)) = (· + 1)^[k] w + 1 ↔
      m.slotSeq ((h.geometry hpow).idx (m.writeSeq + k)) = m.writeSeq + k + 1 := by
  have hnumber : ((· + 1)^[k] w).toNat = w.toNat + k := by
    rw [Handle.toNat_add_one_iterate, Nat.mod_eq_of_lt (by omega)]
  have hnext : ((· + 1)^[k] w + 1).toNat = w.toNat + k + 1 := by
    rw [UInt64.toNat_add, hnumber, UInt64.toNat_one, Nat.mod_eq_of_lt hroom]
  rw [hwords.writeSeq_eq, ← hnumber, ← Handle.toNat_idx hpow,
    hwords.slotSeq_eq _ (Handle.idx_lt hpow _), hnumber, ← hnext, UInt64.toNat_inj]

/-- The loop on 64-bit words stops within a lap, whatever the words are. Where no sum wraps, the
loop of the model leaves the number at which it stops in `write_seq`. -/
theorem Handle.advanceLoop_settles (h : Handle) (hpow : isPow2 h.descCapacity.toNat = true)
    (slotSeq : UInt64 → UInt64) (w : UInt64) :
    ∃ n ≤ h.descCapacity.toNat, ∃ last,
      h.advanceLoop slotSeq (h.descCapacity.toNat + 1) w = some last ∧
      last.toNat = (w.toNat + n) % 2 ^ 64 ∧
      ∀ (m : Mem) (t : Producer), m.HasWords h slotSeq w → w.toNat + n + 1 < 2 ^ 64 →
        Settles (producerCall (h.geometry hpow)) (m, t.goto .advanceLoad)
          ({ m with writeSeq := last.toNat }, t.finish) [t.success] := by
  obtain ⟨n, hle, hends⟩ := h.exists_endsAfter hpow slotSeq w
  have hlast := Handle.toNat_add_one_iterate w n
  refine ⟨n, hle, _, Handle.advanceLoop_eq_some hends (by omega), hlast, ?_⟩
  intro m t hwords hroom
  have hmodel : EndsAfter (· + 1) (h.geometry hpow).idx m.slotSeq m.writeSeq n := by
    refine ⟨fun k hk ↦ ?_, ?_⟩
    · rw [add_one_iterate]
      exact (hwords.stamped_iff hpow (by omega)).mp (hends.passed k hk)
    · rw [add_one_iterate]
      exact fun hstamp ↦ hends.ended ((hwords.stamped_iff hpow hroom).mpr hstamp)
  rw [hlast, Nat.mod_eq_of_lt (by omega), ← hwords.writeSeq_eq]
  exact ⟨advance_leads t hmodel, rfl⟩

/-- Leftover words let the loop pass once around the ring, here across the wrap. -/
example : (Handle.mk ⟨0, 784, by decide⟩ 2 8 768).advanceLoop (fun i ↦ if i = 0 then 1 else 0) 3
    0xFFFFFFFFFFFFFFFF = some 1 := by decide

end AarnnNsys.Bus
