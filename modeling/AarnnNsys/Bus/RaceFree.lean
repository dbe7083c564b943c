import AarnnNsys.Bus.TouchHistory

/-!
# The bus is free of data races

Payload bytes and descriptors are plain memory: the Rust code is only meaningful if two accesses to
one of them, one of which writes, are always ordered by the acquire loads and release stores of the
header words and slot stamps. `race_free` says so of every run in which each handle stays with its
thread and no subscriber registers between the two loads of a capacity check.

The argument follows what has to have been seen. A publisher that is admitted to a claim has seen
all plain accesses about messages a lap or more before it (`Producer.Requires`): the writes through
`write_seq`, the reads through the cursors that it scanned. A reader that has found its slot stamped
has seen the writes to it, through the stamp (`Reader.Requires`). `Requires` collects these
requirements together with what the words themselves carry, and `RaceInv` says that they are met.
-/

set_option autoImplicit false
set_option relaxedAutoImplicit false

namespace AarnnNsys.Bus

open Function Lib

/-- The accesses of a run as an execution. -/
def execution (accessed : List Touch) : Execution ThreadId Location Cell :=
  accessed.map fun touch ↦ (touch.thread, touch.access)

/-- The accesses of a run are kept one for one. -/
theorem execution_get {accessed : List Touch} {k : ℕ} {entry : ThreadId × Access Location Cell}
    (hentry : (execution accessed)[k]? = some entry) :
    ∃ touch, accessed[k]? = some touch ∧ entry = (touch.thread, touch.access) := by
  rw [execution, List.getElem?_map, Option.map_eq_some_iff] at hentry
  obtain ⟨touch, htouch, rfl⟩ := hentry
  exact ⟨touch, htouch, rfl⟩

/-! ### Requirements -/

/-- The plain accesses that a producer call has to have seen. During a capacity check these are the
writes, and the reads by subscribers that it has scanned or not counted, about numbers below its
minimum; once admitted, everything a lap before its claim. -/
def Producer.Requires (g : Geometry) (handles : ℕ → SubscriberPc) (t : Producer) (touch : Touch) :
    Prop :=
  match t.pc with
  | .scan _ n i minRead => touch.sequence < minRead ∧ (touch.access.IsWrite ∨
      touch.access.IsRead ∧ ∃ r id, touch.thread = .reader r ∧ handles r = .ready id ∧
        (id < i ∨ n ≤ id))
  | .casClaim claim | .copy claim _ | .storeDesc claim | .storeSeq claim =>
    touch.sequence + g.descCapacity ≤ claim
  | .advanceCas w => touch.access.IsWrite ∧ g.idx touch.sequence = g.idx w ∧ touch.sequence ≤ w
  | _ => False

/-- The plain accesses that a receive call has to have seen: the writes to the slot it reads. -/
def Reader.Requires (g : Geometry) (t : Reader) (touch : Touch) : Prop :=
  ∃ seq, t.pc.reading? = some seq ∧ touch.access.IsWrite ∧ g.idx touch.sequence = g.idx seq ∧
    touch.sequence ≤ seq

/-- The plain accesses that a word has to carry: `write_seq` the writes below it, a stamp the writes
to its slot up to it, a cursor the reads of its handle below it. -/
def Location.Requires (g : Geometry) (s : State) (touch : Touch) : Location → Prop
  | .writeSeq => touch.access.IsWrite ∧ touch.sequence < s.mem.writeSeq
  | .slotSeq i => touch.access.IsWrite ∧ g.idx touch.sequence = i ∧
      touch.sequence < s.mem.slotSeq i
  | .subReadSeq id => touch.access.IsRead ∧ ∃ r, touch.thread = .reader r ∧
      s.subscribers r = .ready id ∧ touch.sequence < s.mem.subReadSeq id
  | _ => False

/-- Who has to have seen a plain access. -/
def Requires (g : Geometry) (s : State) (touch : Touch) : Holder ThreadId Location → Prop
  | .thread (.producer p) => (s.producers p).Requires g s.subscribers touch
  | .thread (.reader r) => (s.readers r).Requires g touch
  | .thread (.subscriber _) => False
  | .location location => location.Requires g s touch

/-- The requirements on the plain accesses of a run, by their index. -/
def RequiresAt (g : Geometry) (accessed : List Touch) (s : State)
    (holder : Holder ThreadId Location) (k : ℕ) : Prop :=
  ∃ touch, accessed[k]? = some touch ∧ touch.access.cell? ≠ none ∧ Requires g s touch holder

/-- The accesses of a run are free of races, and everybody has seen what is required. -/
structure RaceInv (g : Geometry) (accessed : List Touch) (s : State) : Prop where
  free : RaceFree (execution accessed)
  informed : Informed (execution accessed) (RequiresAt g accessed s)

/-- Before the first access nothing is required. -/
theorem raceInv_init (g : Geometry) (slab : ℕ → UInt8) : RaceInv g [] (State.init slab) := by
  refine ⟨fun i j first second _ hfirst ↦ absurd hfirst (by simp [execution]),
    fun holder k hrequires ↦ ?_⟩
  obtain ⟨touch, htouch, -⟩ := hrequires
  cases htouch

/-- Where a requirement on an earlier access comes from when a thread makes the next one. -/
inductive Supply (g : Geometry) (s : State) (thread : ThreadId) (access : Access Location Cell)
    (touch : Touch) : Holder ThreadId Location → Prop
  | kept {holder : Holder ThreadId Location} (hrequires : Requires g s touch holder)
      (hstore : ∀ location, holder = .location location → access ≠ .store location) :
      Supply g s thread access touch holder
  | acquired {location : Location} (hrequires : Requires g s touch (.location location))
      (hacquires : access.acquires? = some location) :
      Supply g s thread access touch (.thread thread)
  | released {location : Location} (hrequires : Requires g s touch (.thread thread))
      (hreleases : access.releases? = some location) :
      Supply g s thread access touch (.location location)
  | releasedOwn {location : Location} (hown : touch.thread = thread)
      (hreleases : access.releases? = some location) :
      Supply g s thread access touch (.location location)

namespace RaceInv

variable {g : Geometry} {accessed : List Touch} {s s' : State}

/-- A step that accesses nothing and requires nothing new. -/
theorem silent (hinv : RaceInv g accessed s)
    (hkept : ∀ touch ∈ accessed, touch.access.cell? ≠ none → ∀ holder,
      Requires g s' touch holder → Requires g s touch holder) : RaceInv g accessed s' := by
  refine ⟨hinv.free, fun holder k hrequires ↦ ?_⟩
  obtain ⟨touch, htouch, hplain, hneeded⟩ := hrequires
  exact hinv.informed holder k
    ⟨touch, htouch, hplain, hkept touch (List.mem_of_getElem? htouch) hplain holder hneeded⟩

/-- A step that makes an access. Assumes: its thread has to have seen, or has made, what the access
conflicts with; every requirement on an earlier access is supplied; and nobody but the thread is
required to have seen the access itself. -/
theorem access (hinv : RaceInv g accessed s) {thread : ThreadId} {access : Access Location Cell}
    {n : ℕ} (hconflicts : ∀ touch ∈ accessed, touch.access.Conflicts access →
      Requires g s touch (.thread thread) ∨ touch.thread = thread)
    (hsupply : ∀ touch ∈ accessed, touch.access.cell? ≠ none → ∀ holder,
      Requires g s' touch holder → Supply g s thread access touch holder)
    (hnew : access.cell? ≠ none → ∀ holder, Requires g s' ⟨thread, access, n⟩ holder →
      holder = .thread thread) : RaceInv g (accessed ++ [⟨thread, access, n⟩]) s' := by
  have hsnoc : execution (accessed ++ [⟨thread, access, n⟩]) =
      execution accessed ++ [(thread, access)] := by
    simp [execution]
  have hlength : (execution accessed).length = accessed.length := List.length_map _
  constructor
  · rw [hsnoc]
    refine hinv.free.snoc fun k entry hentry hconflict ↦ ?_
    obtain ⟨touch, htouch, rfl⟩ := execution_get hentry
    rcases hconflicts touch (List.mem_of_getElem? htouch) hconflict with hrequires | hown
    · obtain ⟨cell, hcell, -⟩ := hconflict
      exact hinv.informed (.thread thread) k ⟨touch, htouch, by simp_all, hrequires⟩
    · rw [hown] at hentry
      exact seen_of_own hentry
  · rw [hsnoc]
    refine hinv.informed.snoc ?_ ?_
    · rintro holder k ⟨touch, htouch, hplain, hneeded⟩ hk
      have hold : accessed[k]? = some touch := by
        have hlt := (List.getElem?_eq_some_iff.mp htouch).1
        rw [List.length_append, List.length_singleton] at hlt
        rwa [List.getElem?_append_left (by omega)] at htouch
      cases hsupply touch (List.mem_of_getElem? hold) hplain holder hneeded with
      | kept hrequires hstore => exact .kept ⟨touch, hold, hplain, hrequires⟩ hstore
      | acquired hrequires hacquires =>
        exact .acquired ⟨touch, hold, hplain, hrequires⟩ hacquires
      | released hrequires hreleases =>
        exact .released ⟨touch, hold, hplain, hrequires⟩ hreleases
      | releasedOwn hown hreleases =>
        have hget : (execution accessed)[k]? = some (thread, touch.access) := by
          rw [execution, List.getElem?_map, hold, ← hown]
          rfl
        exact .releasedOwn hget hreleases
    · rintro holder ⟨touch, htouch, hplain, hneeded⟩
      rw [hlength, List.getElem?_concat_length, Option.some.injEq] at htouch
      subst htouch
      exact hnew hplain holder hneeded

/-- A step that makes an atomic access. -/
theorem atomic (hinv : RaceInv g accessed s) {thread : ThreadId} {access : Access Location Cell}
    {n : ℕ} (hatomic : access.cell? = none)
    (hsupply : ∀ touch ∈ accessed, touch.access.cell? ≠ none → ∀ holder,
      Requires g s' touch holder → Supply g s thread access touch holder) :
    RaceInv g (accessed ++ [⟨thread, access, n⟩]) s' := by
  refine hinv.access (fun touch _ hconflict ↦ ?_) hsupply (absurd hatomic)
  obtain ⟨cell, -, hcell, -⟩ := hconflict
  rw [hatomic] at hcell
  cases hcell

end RaceInv

/-! ### Producers -/

section Producers

variable {g : Geometry} {accessed : List Touch} {trace : List Event} {s : State} {p : ℕ} {m : Mem}
  {t : Producer}

/-- What is required after a step of a producer that stores to no word that readers or other
producers rely on. -/
theorem requires_setProducer (hwrite : m.writeSeq = s.mem.writeSeq)
    (hslot : m.slotSeq = s.mem.slotSeq) (hread : m.subReadSeq = s.mem.subReadSeq) {touch : Touch}
    {holder : Holder ThreadId Location}
    (hrequires : Requires g (s.setProducer p m t) touch holder) :
    Requires g s touch holder ∨
      holder = .thread (.producer p) ∧ t.Requires g s.subscribers touch := by
  rcases holder with (q | h | r) | location
  · simp only [Requires, State.setProducer] at hrequires
    by_cases hqp : q = p
    · subst hqp
      rw [update_self] at hrequires
      exact .inr ⟨rfl, hrequires⟩
    · rw [update_of_ne hqp] at hrequires
      exact .inl hrequires
  · exact hrequires.elim
  · exact .inl hrequires
  · refine .inl ?_
    cases location with
    | claimSeq | nSubs => exact hrequires
    | _ =>
      simpa only [Requires, Location.Requires, State.setProducer, hwrite, hslot, hread]
        using hrequires

/-- A step of a producer that accesses nothing. -/
theorem RaceInv.producer_silent (hinv : RaceInv g accessed s)
    (hown : ∀ touch ∈ accessed, touch.access.cell? ≠ none → t.Requires g s.subscribers touch →
      (s.producers p).Requires g s.subscribers touch) :
    RaceInv g accessed (s.setProducer p s.mem t) := by
  refine hinv.silent fun touch hmem hplain holder hrequires ↦ ?_
  rcases requires_setProducer rfl rfl rfl hrequires with hold | ⟨rfl, hnew⟩
  · exact hold
  · exact hown touch hmem hplain hnew

/-- A step of a producer that acquires from a word. -/
theorem RaceInv.producer_acquire (hinv : RaceInv g accessed s)
    {access : Access Location Cell} {location : Location}
    (hacquires : access.acquires? = some location) (hwrite : m.writeSeq = s.mem.writeSeq)
    (hslot : m.slotSeq = s.mem.slotSeq) (hread : m.subReadSeq = s.mem.subReadSeq)
    (hown : ∀ touch ∈ accessed, touch.access.cell? ≠ none → t.Requires g s.subscribers touch →
      (s.producers p).Requires g s.subscribers touch ∨ location.Requires g s touch) :
    RaceInv g (accessed ++ [.by (.producer p) (access, 0)]) (s.setProducer p m t) := by
  have hload : access.cell? = none ∧ ∀ other, access ≠ .store other := by
    cases access <;> simp_all [Access.acquires?, Access.cell?]
  refine hinv.atomic hload.1 fun touch hmem hplain holder hrequires ↦ ?_
  rcases requires_setProducer hwrite hslot hread hrequires with hold | ⟨rfl, hnew⟩
  · exact .kept hold fun other _ ↦ hload.2 other
  · rcases hown touch hmem hplain hnew with hold | hcarried
    · exact .kept hold fun other _ ↦ hload.2 other
    · exact .acquired hcarried hacquires

/-- A committed number in the slot of an uncommitted one is a lap before it. -/
theorem lap_before {first second : ℕ} (hfirst : s.mem.Committed g first)
    (hsecond : ¬ s.mem.Committed g second) (hslot : g.idx first = g.idx second) :
    first + g.descCapacity ≤ second := by
  rw [Mem.Committed] at hfirst hsecond
  rw [hslot] at hfirst
  simp only [Geometry.idx_eq_mod] at hslot
  exact add_le_of_mod_eq hslot (by omega)

/-- What is known of an earlier access to the slot of the claim that a call is admitted to: it was
about a number a lap before, or it is the call's own. -/
theorem Touch.About.before_admitted {touch : Touch} (habout : touch.About g s)
    (hcommit : CommitInv g trace s) {claim : ℕ}
    (hadmitted : (s.producers p).admitted = some claim) (hplain : touch.access.cell? ≠ none)
    (hslot : g.idx touch.sequence = g.idx claim) :
    touch.sequence + g.descCapacity ≤ claim ∨ touch.thread = .producer p := by
  have huncommitted := hcommit.owned_uncommitted p claim (Producer.owned_of_admitted hadmitted)
  rcases Access.isWrite_or_isRead hplain with hwrite | hisRead
  · rcases habout.written hwrite with hdone | ⟨q, hthread, hother⟩
    · exact .inl (lap_before hdone huncommitted hslot)
    · rw [hcommit.slot_exclusive hother hadmitted hslot] at hthread
      exact .inr hthread
  · exact .inl (lap_before (habout.read hisRead).1 huncommitted hslot)

/-- Nobody but the writing call has to have seen a write about a number that is not committed. -/
theorem write_not_required (hkept : KeptInv g trace s) {claim : ℕ} {cell : Cell}
    (huncommitted : ¬ s.mem.Committed g claim) {holder : Holder ThreadId Location}
    (hrequires : Requires g s ⟨.producer p, .write cell, claim⟩ holder) :
    holder = .thread (.producer p) := by
  have hwrite : s.mem.writeSeq ≤ claim := by
    by_contra hlt
    exact huncommitted (hkept.commit.write_committed claim (by omega))
  have hslot : ∀ {sequence}, s.mem.Committed g sequence → g.idx claim = g.idx sequence →
      ¬ claim ≤ sequence := by
    intro sequence hcommitted hsame hle
    rw [Mem.Committed, hsame] at huncommitted
    rw [Mem.Committed] at hcommitted
    omega
  exfalso
  rcases holder with (q | h | r) | location
  · have hbounded := hkept.commit.bounded q
    simp only [Requires, Producer.Requires] at hrequires
    simp only [Producer.Bounded] at hbounded
    cases hpc : (s.producers q).pc <;> simp only [hpc] at hrequires hbounded
    case advanceCas w => exact hslot hbounded.2 hrequires.2.1 hrequires.2.2
    all_goals omega
  · exact hrequires
  · obtain ⟨seq, hreading, -, hsame, hle⟩ := hrequires
    exact hslot (hkept.cursor.reading r seq hreading) hsame hle
  · cases location with
    | writeSeq => exact absurd hrequires.2 (Nat.not_lt.mpr hwrite)
    | slotSeq i =>
      obtain ⟨-, rfl, hlt⟩ := hrequires
      exact huncommitted hlt
    | subReadSeq id =>
      obtain ⟨⟨other, hother⟩, -⟩ := hrequires
      cases hother
    | _ => exact hrequires

/-- A step of a producer that writes to the slot of the claim it is admitted to. -/
theorem RaceInv.producer_write (hinv : RaceInv g accessed s) (hkept : KeptInv g trace s)
    (habout : ∀ touch ∈ accessed, touch.About g s) {claim : ℕ} {cell : Cell}
    (hadmitted : (s.producers p).admitted = some claim) (hcell : cell.InSlot g claim)
    (hbefore : ∀ touch : Touch, touch.sequence + g.descCapacity ≤ claim →
      (s.producers p).Requires g s.subscribers touch) (hwrite : m.writeSeq = s.mem.writeSeq)
    (hslot : m.slotSeq = s.mem.slotSeq) (hread : m.subReadSeq = s.mem.subReadSeq)
    (hown : ∀ touch, t.Requires g s.subscribers touch →
      (s.producers p).Requires g s.subscribers touch) :
    RaceInv g (accessed ++ [.by (.producer p) (.write cell, claim)]) (s.setProducer p m t) := by
  have hsame : ∀ {touch holder}, Requires g (s.setProducer p m t) touch holder →
      Requires g s touch holder := by
    intro touch holder hrequires
    rcases requires_setProducer hwrite hslot hread hrequires with hold | ⟨rfl, hnew⟩
    · exact hold
    · exact hown touch hnew
  refine hinv.access (fun touch hmem hconflict ↦ ?_) (fun touch _ _ holder hrequires ↦ ?_) ?_
  · obtain ⟨other, hother, hsecond, -⟩ := hconflict
    obtain rfl : cell = other := Option.some.inj hsecond
    have hidx := ((habout touch hmem).inSlot cell hother).idx_eq hcell
    rcases (habout touch hmem).before_admitted hkept.commit hadmitted (by simp [hother]) hidx with
      hlap | hthread
    · exact .inl (hbefore touch hlap)
    · exact .inr hthread
  · exact .kept (hsame hrequires) (by simp)
  · intro _ holder hrequires
    exact write_not_required hkept
      (hkept.commit.owned_uncommitted p claim (Producer.owned_of_admitted hadmitted))
      (hsame hrequires)

end Producers

section ProducerStep

variable {g : Geometry} {accessed : List Touch} {trace : List Event} {s : State} {p : ℕ}

/-- The check of a call that is let through has seen everything a lap before its claim. -/
theorem requires_of_check {claim n i minRead : ℕ} {touch : Touch}
    (hpc : (s.producers p).pc = .scan claim n i minRead) (hi : n ≤ i)
    (hspace : claim < minRead + g.descCapacity) (habout : touch.About g s)
    (hplain : touch.access.cell? ≠ none) (hlap : touch.sequence + g.descCapacity ≤ claim) :
    (s.producers p).Requires g s.subscribers touch := by
  simp only [Producer.Requires, hpc]
  refine ⟨by omega, (Access.isWrite_or_isRead hplain).imp_right fun hisRead ↦ ?_⟩
  obtain ⟨-, r, id, hthread, hready, -⟩ := habout.read hisRead
  exact ⟨hisRead, r, id, hthread, hready, by omega⟩

/-- A commit: the stamp carries what the call has seen of the slot and what it wrote there. -/
theorem RaceInv.commit_step (hinv : RaceInv g accessed s) (hkept : KeptInv g trace s)
    (habout : ∀ touch ∈ accessed, touch.About g s) {claim : ℕ}
    (hpc : (s.producers p).pc = .storeSeq claim) :
    RaceInv g (accessed ++ [.by (.producer p) (.store (.slotSeq (g.idx claim)), 0)])
      (s.setProducer p
        { s.mem with slotSeq := update s.mem.slotSeq (g.idx claim) (claim + 1) }
        ((s.producers p).goto .advanceLoad)) := by
  have hadmitted : (s.producers p).admitted = some claim := by rw [Producer.admitted, hpc]
  refine hinv.atomic rfl fun touch hmem hplain holder hrequires ↦ ?_
  rcases holder with (q | h | r) | location
  · simp only [Requires, State.setProducer] at hrequires
    by_cases hqp : q = p
    · subst hqp
      rw [update_self] at hrequires
      exact hrequires.elim
    · rw [update_of_ne hqp] at hrequires
      exact .kept hrequires (by simp)
  · exact hrequires.elim
  · exact .kept hrequires (by simp)
  · cases location with
    | slotSeq i =>
      obtain ⟨hwrite, hidx, hlt⟩ := hrequires
      simp only [State.setProducer, update_apply] at hlt
      split_ifs at hlt with hi
      · subst hi
        rcases (habout touch hmem).before_admitted hkept.commit hadmitted hplain hidx with
          hlap | hthread
        · refine .released ?_ rfl
          simpa only [Requires, Producer.Requires, hpc] using hlap
        · exact .releasedOwn hthread rfl
      · refine .kept ⟨hwrite, hidx, hlt⟩ fun other hother hstore ↦ hi ?_
        cases hother
        cases hstore
        rfl
    | writeSeq | subReadSeq id =>
      refine .kept hrequires fun other hother hstore ↦ ?_
      cases hother
      cases hstore
    | claimSeq | nSubs => exact hrequires.elim

/-- An advance of `write_seq`: it carries what it did and the writes of the message that it moves
over. -/
theorem RaceInv.advance_step (hinv : RaceInv g accessed s) {w : ℕ}
    (hpc : (s.producers p).pc = .advanceCas w) (hw : s.mem.writeSeq = w) :
    RaceInv g (accessed ++ [.by (.producer p) (.update .writeSeq, 0)])
      (s.setProducer p { s.mem with writeSeq := w + 1 }
        ((s.producers p).goto .advanceLoad)) := by
  refine hinv.atomic rfl fun touch _ _ holder hrequires ↦ ?_
  rcases holder with (q | h | r) | location
  · simp only [Requires, State.setProducer] at hrequires
    by_cases hqp : q = p
    · subst hqp
      rw [update_self] at hrequires
      exact hrequires.elim
    · rw [update_of_ne hqp] at hrequires
      exact .kept hrequires (by simp)
  · exact hrequires.elim
  · exact .kept hrequires (by simp)
  · cases location with
    | writeSeq =>
      obtain ⟨hwrite, hlt⟩ := hrequires
      simp only [State.setProducer] at hlt
      rcases Nat.lt_succ_iff_lt_or_eq.mp hlt with hbelow | heq
      · exact .kept ⟨hwrite, hw ▸ hbelow⟩ (by simp)
      · refine .released ?_ rfl
        simp only [Requires, Producer.Requires, hpc]
        exact ⟨hwrite, by rw [heq], heq.le⟩
    | _ => exact .kept hrequires (by simp)

/-- A step of a producer that counts all who registered keeps the bus free of races. -/
theorem RaceInv.producer_step (hinv : RaceInv g accessed s) (hkept : KeptInv g trace s)
    (habout : ∀ touch ∈ accessed, touch.About g s) {act : ProducerAct} {m : Mem} {t : Producer}
    {events : List ProducerEvent} (hcounts : CountsAll s (.producer p act))
    (hstep : ProducerStep g s.mem (s.producers p) act m t events) :
    RaceInv g (accessed ++ touches g s (.producer p act)) (s.setProducer p m t) := by
  have hsilent : ∀ {act : ProducerAct} {t : Producer}, producerAccesses g act s.mem
      (s.producers p) = [] → (∀ touch ∈ accessed, touch.access.cell? ≠ none →
        t.Requires g s.subscribers touch → (s.producers p).Requires g s.subscribers touch) →
      RaceInv g (accessed ++ touches g s (.producer p act)) (s.setProducer p s.mem t) := by
    intro act t hnone hown
    rw [touches, hnone, List.map_nil, List.append_nil]
    exact hinv.producer_silent hown
  have hacquire : ∀ {act : ProducerAct} {m : Mem} {t : Producer} {access : Access Location Cell}
      {location : Location}, producerAccesses g act s.mem (s.producers p) = [(access, 0)] →
      access.acquires? = some location → m.writeSeq = s.mem.writeSeq →
      m.slotSeq = s.mem.slotSeq → m.subReadSeq = s.mem.subReadSeq →
      (∀ touch ∈ accessed, touch.access.cell? ≠ none → t.Requires g s.subscribers touch →
        (s.producers p).Requires g s.subscribers touch ∨ location.Requires g s touch) →
      RaceInv g (accessed ++ touches g s (.producer p act)) (s.setProducer p m t) := by
    intro act m t access location hone hacquires hwrite hslot hread hown
    rw [touches, hone]
    exact hinv.producer_acquire hacquires hwrite hslot hread hown
  -- an admitted call requires what lies a lap before its claim, whatever its program counter
  have hadmitted : ∀ {claim : ℕ} {pc : ProducerPc}, (s.producers p).pc = pc →
      (∀ touch, Producer.Requires g s.subscribers ((s.producers p).goto pc) touch ↔
        touch.sequence + g.descCapacity ≤ claim) →
      ∀ touch : Touch, touch.sequence + g.descCapacity ≤ claim →
        (s.producers p).Requires g s.subscribers touch := by
    rintro claim pc rfl hiff touch hlap
    exact (hiff touch).mpr hlap
  cases hstep with
  | publishRejected payload hpc hsize | tryPublishRejected payload hpc hsize =>
    refine hsilent ?_ fun _ _ _ ↦ False.elim
    rcases hsize with rfl | hlt
    · rfl
    · simp [producerAccesses, hlt]
  | publish payload hpc hne hsize =>
    exact hacquire (by simp [producerAccesses, hne, Nat.not_lt.mpr hsize]; rfl) rfl rfl rfl rfl
      fun _ _ _ ↦ False.elim
  | tryPublish payload hpc hne hsize =>
    exact hacquire (by simp [producerAccesses, hne, Nat.not_lt.mpr hsize]; rfl) rfl rfl rfl rfl
      fun _ _ _ ↦ False.elim
  | loadSubs b claim hpc =>
    exact hacquire (by rw [producerAccesses, Producer.accesses, hpc]) rfl rfl rfl rfl
      fun _ _ _ ↦ False.elim
  | loadWrite b claim n hpc =>
    refine hacquire (by rw [producerAccesses, Producer.accesses, hpc]) rfl rfl rfl rfl ?_
    rintro touch _ _ ⟨hlt, hwrite | ⟨-, r, id, -, hready, hid⟩⟩
    · exact .inr ⟨hwrite, hlt⟩
    · -- every subscriber that has registered has been counted
      simp only [CountsAll, hpc] at hcounts
      have hregistered := hkept.handles.owners.taken.lt r id (by rw [hready]; rfl)
      omega
  | scanRead b claim n i minRead hpc hi hmax =>
    refine hacquire (by rw [producerAccesses, Producer.accesses, hpc]; exact if_pos ⟨hi, hmax⟩)
      rfl rfl rfl rfl ?_
    simp only [Producer.Requires, hpc, Producer.goto_pc, lt_min_iff]
    rintro touch _ _ ⟨⟨hentry, hlt⟩, hwrite | ⟨hisRead, r, id, hthread, hready, hid⟩⟩
    · exact .inl ⟨hlt, .inl hwrite⟩
    · by_cases heq : id = i
      · subst heq
        exact .inr ⟨hisRead, r, hthread, hready, hentry⟩
      · exact .inl ⟨hlt, .inr ⟨hisRead, r, id, hthread, hready, by omega⟩⟩
  | scanPanic b claim n i minRead hpc hi hmax =>
    exact hsilent (by simp [producerAccesses, Producer.accesses, hpc, Nat.not_lt.mpr hmax])
      fun _ _ _ ↦ False.elim
  | pass b claim n i minRead hpc hi hblocking hspace
  | accept b claim n i minRead hpc hi hblocking hspace =>
    exact hsilent (by simp [producerAccesses, Producer.accesses, hpc, Nat.not_lt.mpr hi])
      fun touch hmem hplain hlap ↦ requires_of_check hpc hi hspace (habout touch hmem) hplain hlap
  | retry b claim n i minRead hpc hi hblocking hfull
  | refuse b claim n i minRead hpc hi hblocking hfull =>
    exact hsilent (by simp [producerAccesses, Producer.accesses, hpc, Nat.not_lt.mpr hi])
      fun _ _ _ ↦ False.elim
  | claim b claim hpc heq =>
    have hkeep := hadmitted hpc fun _ ↦ Iff.rfl
    cases b with
    | false =>
      exact hacquire (by simp [producerAccesses, Producer.accesses, hpc, heq]; rfl) rfl rfl rfl rfl
        fun touch _ _ hlap ↦ .inl (hkeep touch hlap)
    | true =>
      exact hacquire (by simp [producerAccesses, Producer.accesses, hpc]; rfl) rfl rfl rfl rfl
        fun touch _ _ hlap ↦ .inl (hkeep touch hlap)
  | claimLost b claim hpc hlost =>
    refine hacquire (?_ : _ = [(.load .claimSeq, 0)]) rfl rfl rfl rfl fun _ _ _ ↦ False.elim
    simp only [producerAccesses, Producer.accesses, hpc]
    exact if_neg fun hwon ↦ by simp_all
  | copyByte b claim k byte hpc hbyte =>
    have hk : k < (s.producers p).payload.length := (List.getElem?_eq_some_iff.mp hbyte).1
    have hsized := hkept.payload.sized p (by simp [hpc])
    simp only [touches, producerAccesses, Producer.accesses, hpc, if_pos hk, List.map_singleton]
    exact hinv.producer_write hkept habout (by rw [Producer.admitted, hpc])
      (.inr ⟨k, hk.trans_le hsized, rfl⟩) (hadmitted hpc fun _ ↦ Iff.rfl) rfl rfl rfl
      (hadmitted hpc fun _ ↦ Iff.rfl)
  | copyDone b claim k hpc hk =>
    exact hsilent (by simp [producerAccesses, Producer.accesses, hpc, Nat.not_lt.mpr hk])
      fun touch _ _ ↦ hadmitted hpc (fun _ ↦ Iff.rfl) touch
  | storeDesc b claim hpc =>
    rw [touches, producerAccesses, Producer.accesses, hpc]
    exact hinv.producer_write hkept habout (by rw [Producer.admitted, hpc]) (.inl rfl)
      (hadmitted hpc fun _ ↦ Iff.rfl) rfl rfl rfl (hadmitted hpc fun _ ↦ Iff.rfl)
  | storeSeq b claim hpc =>
    rw [touches, producerAccesses, Producer.accesses, hpc]
    exact hinv.commit_step hkept habout hpc
  | advanceLoad b hpc =>
    exact hacquire (by rw [producerAccesses, Producer.accesses, hpc]) rfl rfl rfl rfl
      fun _ _ _ ↦ False.elim
  | advanceSlot b w hpc hcommitted =>
    refine hacquire (by rw [producerAccesses, Producer.accesses, hpc]) rfl rfl rfl rfl ?_
    rintro touch _ _ ⟨hwrite, hidx, hle⟩
    exact .inr ⟨hwrite, hidx, by omega⟩
  | advanceStop b w hpc huncommitted =>
    exact hacquire (by rw [producerAccesses, Producer.accesses, hpc]) rfl rfl rfl rfl
      fun _ _ _ ↦ False.elim
  | advanceCas b w hpc heq =>
    rw [touches, producerAccesses, Producer.accesses, hpc]
    simp only [heq, if_true]
    exact hinv.advance_step hpc heq
  | advanceLost b w hpc hne =>
    exact hacquire (by rw [producerAccesses, Producer.accesses, hpc]; exact if_neg hne) rfl rfl rfl
      rfl fun _ _ _ ↦ False.elim

end ProducerStep

/-! ### Subscribers and readers -/

section Others

variable {g : Geometry} {accessed : List Touch} {trace : List Event} {s : State}

/-- A step of a subscribe call keeps the bus free of races: it changes what nobody relies on, and
the entry that it sets is one through which nobody has read. -/
theorem RaceInv.subscriber_step (hinv : RaceInv g accessed s) (hkept : KeptInv g trace s)
    (habout : ∀ touch ∈ accessed, touch.About g s) {h : ℕ} {act : SubscriberAct} {m : Mem}
    {pc : SubscriberPc} {events : List SubscriberEvent}
    (hstep : SubscriberStep s.mem (s.subscribers h) act m pc events) :
    RaceInv g (accessed ++ touches g s (.subscriber h act)) (s.setSubscriber h m pc) := by
  have howners := hkept.handles.owners
  obtain ⟨-, hwrite, hslot⟩ := hstep.words
  -- a handle that somebody has read through is not the one that is subscribing
  have hready : ∀ touch ∈ accessed, touch.access.IsRead → ∀ r id, touch.thread = .reader r →
      update s.subscribers h pc r = .ready id →
        s.subscribers r = .ready id ∧ s.subscribers h ≠ .ready id := by
    intro touch hmem hisRead r id hthread hhandle
    obtain ⟨-, r', id', hthread', hold, -⟩ := (habout touch hmem).read hisRead
    obtain rfl : r = r' := ThreadId.reader.inj (hthread.symm.trans hthread')
    have hne : r ≠ h := by
      rintro rfl
      cases hstep <;> simp_all
    rw [update_of_ne hne] at hhandle
    exact ⟨hhandle, fun hsame ↦ hne (howners.eq_of_ready hhandle hsame)⟩
  have hkeep : ∀ touch ∈ accessed, ∀ holder,
      Requires g (s.setSubscriber h m pc) touch holder → Requires g s touch holder ∧
        ∀ id start, s.subscribers h = .storeStart id start →
          holder ≠ .location (.subReadSeq id) := by
    intro touch hmem holder hrequires
    rcases holder with (q | h' | r) | location
    · refine ⟨?_, by simp⟩
      simp only [Requires, Producer.Requires, State.setSubscriber] at hrequires ⊢
      cases hpc : (s.producers q).pc <;> simp only [hpc] at hrequires ⊢
      case scan claim n i minRead =>
        refine hrequires.imp_right (Or.imp_right fun hwaits ↦ ?_)
        obtain ⟨hisRead, r, id, hthread, hhandle, hid⟩ := hwaits
        exact ⟨hisRead, r, id, hthread, (hready touch hmem hisRead r id hthread hhandle).1, hid⟩
      all_goals exact hrequires
    · exact hrequires.elim
    · exact ⟨hrequires, by simp⟩
    · cases location with
      | writeSeq | slotSeq i =>
        refine ⟨?_, by simp⟩
        simpa only [Requires, Location.Requires, State.setSubscriber, hwrite, hslot] using hrequires
      | claimSeq | nSubs => exact hrequires.elim
      | subReadSeq id =>
        obtain ⟨hisRead, r, hthread, hhandle, hlt⟩ := hrequires
        obtain ⟨hold, -⟩ := hready touch hmem hisRead r id hthread hhandle
        rw [State.setSubscriber, howners.entry_kept hstep hold] at hlt
        refine ⟨⟨hisRead, r, hthread, hold, hlt⟩, fun own start hpc heq ↦ ?_⟩
        cases heq
        have hsame := howners.taken.injective r h id (by rw [hold]; rfl) (by rw [hpc]; rfl)
        rw [hsame, hpc] at hold
        cases hold
  cases hstep with
  | reject hpc hmax | register hpc hmax | loadStart id hpc =>
    simp only [touches, subscriberAccesses, hpc, List.map_singleton]
    refine hinv.atomic rfl fun touch hmem _ holder hrequires ↦ ?_
    exact .kept (hkeep touch hmem holder hrequires).1 (by simp)
  | storeStart id start hpc =>
    simp only [touches, subscriberAccesses, hpc, List.map_singleton]
    refine hinv.atomic rfl fun touch hmem _ holder hrequires ↦ ?_
    obtain ⟨hold, hne⟩ := hkeep touch hmem holder hrequires
    refine .kept hold fun location hholder hstore ↦ hne id start hpc ?_
    cases hstore
    exact hholder

/-- What is required after a step of a reader that stores no cursor. -/
theorem requires_setReader {r : ℕ} {t : Reader} {touch : Touch}
    {holder : Holder ThreadId Location}
    (hrequires : Requires g (s.setReader r s.mem t) touch holder) :
    Requires g s touch holder ∨ holder = .thread (.reader r) ∧ t.Requires g touch := by
  rcases holder with (q | h | r') | location
  · exact .inl hrequires
  · exact hrequires.elim
  · simp only [Requires, State.setReader] at hrequires
    by_cases hr : r' = r
    · subst hr
      rw [update_self] at hrequires
      exact .inr ⟨rfl, hrequires⟩
    · rw [update_of_ne hr] at hrequires
      exact .inl hrequires
  · refine .inl ?_
    cases location <;> exact hrequires

/-- Nobody has to have seen a read of the message that the cursor of the handle stands at. -/
theorem read_not_required (hkept : KeptInv g trace s) (hscan : ScanInv s) {r id seq : ℕ}
    {cell : Cell} (hready : s.subscribers r = .ready id) (hcursor : s.mem.subReadSeq id = seq)
    {holder : Holder ThreadId Location} : ¬ Requires g s ⟨.reader r, .read cell, seq⟩ holder := by
  intro hrequires
  have hid : (s.subscribers r).cursor? s.mem = some (id, seq) := by
    rw [hready, ← hcursor]
    rfl
  have hnoWrite : ¬ (Access.read cell : Access Location Cell).IsWrite := by
    rintro ⟨other, hother⟩
    cases hother
  have hsame : ∀ {r' id'}, ThreadId.reader r = .reader r' → s.subscribers r' = .ready id' →
      id' = id := by
    intro r' id' hthread hhandle
    obtain rfl := ThreadId.reader.inj hthread
    rw [hready] at hhandle
    exact (SubscriberPc.ready.inj hhandle).symm
  rcases holder with (q | h | r') | location
  · have hrespects := hkept.cursor.respects r id seq hid q
    simp only [Requires, Producer.Requires] at hrequires
    simp only [Producer.Respects] at hrespects
    cases hpc : (s.producers q).pc <;> simp only [hpc] at hrequires hrespects
    case scan claim n i minRead =>
      obtain ⟨hlt, hwrite | ⟨-, r', id', hthread, hhandle, hseen⟩⟩ := hrequires
      · exact hnoWrite hwrite
      · obtain rfl := hsame hthread hhandle
        obtain ⟨hscanned, huncounted⟩ := hscan q claim n i minRead hpc
        rcases hseen with hbefore | hlater
        · have := hscanned id' hbefore
          omega
        · have := huncounted r id' seq hid hlater
          omega
    case advanceCas w => exact hnoWrite hrequires.1
    all_goals omega
  · exact hrequires
  · obtain ⟨other, -, hwrite, -⟩ := hrequires
    exact hnoWrite hwrite
  · cases location with
    | writeSeq | slotSeq i => exact hnoWrite hrequires.1
    | subReadSeq id' =>
      obtain ⟨-, r', hthread, hhandle, hlt⟩ := hrequires
      obtain rfl := hsame hthread hhandle
      exact absurd hcursor.le (Nat.not_le.mpr hlt)
    | _ => exact hrequires

/-- A step of a reader that reads from the slot at its cursor. -/
theorem RaceInv.reader_read (hinv : RaceInv g accessed s) (hkept : KeptInv g trace s)
    (hscan : ScanInv s) (habout : ∀ touch ∈ accessed, touch.About g s) {r seq : ℕ} {cell : Cell}
    {t : Reader} (hreading : (s.readers r).pc.reading? = some seq) (hcell : cell.InSlot g seq)
    (hown : ∀ touch, t.Requires g touch → (s.readers r).Requires g touch) :
    RaceInv g (accessed ++ [.by (.reader r) (.read cell, seq)]) (s.setReader r s.mem t) := by
  obtain ⟨hready, hcursor⟩ := hkept.reader_cursor (ReaderPc.seq?_of_reading? hreading)
  have hid : (s.subscribers r).cursor? s.mem = some ((s.readers r).id, seq) := by
    rw [hready, ← hcursor]
    rfl
  have hsame : ∀ {touch holder}, Requires g (s.setReader r s.mem t) touch holder →
      Requires g s touch holder := by
    intro touch holder hrequires
    rcases requires_setReader hrequires with hold | ⟨rfl, hnew⟩
    · exact hold
    · exact hown touch hnew
  refine hinv.access (fun touch hmem hconflict ↦ .inl ?_) (fun touch _ _ holder hrequires ↦ ?_) ?_
  · obtain ⟨other, hother, hsecond, hwrites⟩ := hconflict
    obtain rfl : cell = other := Option.some.inj hsecond
    have hidx := ((habout touch hmem).inSlot cell hother).idx_eq hcell
    have hwrite : touch.access.IsWrite := by
      rcases hwrites with hfirst | ⟨_, hread⟩
      · exact hfirst
      · cases hread
    refine ⟨seq, hreading, hwrite, hidx, ?_⟩
    -- whoever has written to the slot did so up to this number
    rcases (habout touch hmem).written hwrite with hdone | ⟨p, -, hadmitted⟩
    · have hstamp := hkept.cursor.safe.stamp_le hkept.commit hid le_rfl
      rw [Mem.Committed, hidx] at hdone
      omega
    · exact hkept.cursor.safe.admitted_le hid le_rfl hadmitted hidx
  · exact .kept (hsame hrequires) (by simp)
  · intro _ holder hrequires
    exact absurd (hsame hrequires) (read_not_required hkept hscan hready hcursor)

/-- A step of a reader keeps the bus free of races. -/
theorem RaceInv.reader_step (hinv : RaceInv g accessed s) (hkept : KeptInv g trace s)
    (hscan : ScanInv s) (habout : ∀ touch ∈ accessed, touch.About g s) {r : ℕ} {act : ReaderAct}
    {m : Mem} {t : Reader} {events : List ReaderEvent}
    (hstep : ReaderStep g s.subscribers s.mem (s.readers r) act m t events) :
    RaceInv g (accessed ++ touches g s (.reader r act)) (s.setReader r m t) := by
  have hkeep : ∀ {seq : ℕ}, (s.readers r).pc.reading? = some seq → t.pc.reading? = some seq →
      ∀ touch, t.Requires g touch → (s.readers r).Requires g touch := by
    rintro seq hold hnew touch ⟨other, hother, hrest⟩
    exact ⟨other, by rw [hold, ← hnew, hother], hrest⟩
  have hnone : t.pc.reading? = none → ∀ touch, t.Requires g touch → False := by
    rintro hpc touch ⟨other, hother, -⟩
    rw [hpc] at hother
    cases hother
  have hload : ∀ {location : Location},
      (∀ touch, t.Requires g touch → location.Requires g s touch) → m = s.mem →
      RaceInv g (accessed ++ [.by (.reader r) (.load location, 0)]) (s.setReader r m t) := by
    rintro location hown rfl
    refine hinv.atomic rfl fun touch _ _ holder hrequires ↦ ?_
    rcases requires_setReader hrequires with hold | ⟨rfl, hnew⟩
    · exact .kept hold (by simp)
    · exact .acquired (hown touch hnew) rfl
  cases hstep with
  | tryRecv h id outLen hpc hready =>
    simp only [touches, readerAccesses, hready, List.map_singleton]
    exact hload (fun touch hrequires ↦ (hnone rfl touch hrequires).elim) rfl
  | loadSeq seq hpc hcommitted =>
    simp only [touches, readerAccesses, Reader.accesses, hpc, List.map_singleton]
    refine hload (fun touch hrequires ↦ ?_) rfl
    obtain ⟨other, hother, hwrite, hidx, hle⟩ := hrequires
    obtain rfl : seq = other := Option.some.inj hother
    exact ⟨hwrite, hidx, by omega⟩
  | empty seq hpc hother =>
    simp only [touches, readerAccesses, Reader.accesses, hpc, List.map_singleton]
    exact hload (fun touch hrequires ↦ (hnone rfl touch hrequires).elim) rfl
  | loadLen seq hpc hle =>
    simp only [touches, readerAccesses, Reader.accesses, hpc, List.map_singleton]
    have hreading : (s.readers r).pc.reading? = some seq := by rw [hpc]; rfl
    exact hinv.reader_read hkept hscan habout hreading (.inl rfl) (hkeep hreading rfl)
  | tooLarge seq hpc hlt =>
    simp only [touches, readerAccesses, Reader.accesses, hpc, List.map_singleton]
    exact hinv.reader_read hkept hscan habout (by rw [hpc]; rfl) (.inl rfl)
      fun touch hrequires ↦ (hnone rfl touch hrequires).elim
  | copyByte seq len out hpc hlt =>
    simp only [touches, readerAccesses, Reader.accesses, hpc, if_pos hlt, List.map_singleton]
    have hreading : (s.readers r).pc.reading? = some seq := by rw [hpc]; rfl
    obtain ⟨-, -, hslot⟩ := hkept.bounds.len_le r seq len out hpc
    exact hinv.reader_read hkept hscan habout hreading (.inr ⟨_, hlt.trans_le hslot, rfl⟩)
      (hkeep hreading rfl)
  | copyDone seq len out hpc hle =>
    simp only [touches, readerAccesses, Reader.accesses, hpc, if_neg (Nat.not_lt.mpr hle),
      List.map_nil, List.append_nil]
    refine hinv.silent fun touch _ _ holder hrequires ↦ ?_
    rcases requires_setReader hrequires with hold | ⟨rfl, hnew⟩
    · exact hold
    · exact hkeep (by rw [hpc]; rfl) rfl touch hnew
  | storeSeq seq out hpc =>
    simp only [touches, readerAccesses, Reader.accesses, hpc, List.map_singleton]
    have hready := (hkept.reader_cursor (by rw [hpc]; rfl : _ = some seq)).1
    refine hinv.atomic rfl fun touch hmem _ holder hrequires ↦ ?_
    rcases holder with (q | h | r') | location
    · exact .kept hrequires (by simp)
    · exact hrequires.elim
    · simp only [Requires, State.setReader] at hrequires
      by_cases hr : r' = r
      · subst hr
        rw [update_self] at hrequires
        exact (hnone rfl touch hrequires).elim
      · rw [update_of_ne hr] at hrequires
        exact .kept hrequires (by simp)
    · cases location with
      | subReadSeq id =>
        obtain ⟨hisRead, r', hthread, hhandle, hlt⟩ := hrequires
        by_cases hid : id = (s.readers r).id
        · -- the reads through the handle are the reader's own
          subst hid
          rw [hkept.handles.owners.eq_of_ready hhandle hready] at hthread
          exact .releasedOwn hthread rfl
        · simp only [State.setReader, update_of_ne hid] at hlt
          refine .kept ⟨hisRead, r', hthread, hhandle, hlt⟩ fun other hother hstore ↦ hid ?_
          cases hother
          cases hstore
          rfl
      | writeSeq | slotSeq i =>
        refine .kept hrequires fun other hother hstore ↦ ?_
        cases hother
        cases hstore
      | claimSeq | nSubs => exact hrequires.elim

end Others

instance (s : State) : DecidablePred (CountsApart s) := fun action ↦
  inferInstanceAs (Decidable ((OwnThread action ∧ CountFits s action) ∧ CountsAll s action))

/-- A subscriber that registers between the two loads of a capacity check brings a race, even when
it loses nothing: it receives `0` whole and moves on, thread `0`, which has not counted it, loads a
`write_seq` that lets it write `1` to the same byte, and nothing orders that write after the
read. -/
theorem race_of_join : ∃ (trace : List (Event ⊕ Touch)) (s : State),
    Run (touchSystem tinyGeometry fun _ ↦ 0) (fun _ ↦ Disciplined) trace s ∧
    received 0 (trace.filterMap Sum.getLeft?) = [[7]] ∧
    ¬ RaceFree (execution (touched trace)) := by
  let disciplined : Guard State Action (Event ⊕ Touch) := fun _ ↦ Disciplined
  let actions : List Action :=
    [[.producer 1 (.publish [7]), .producer 0 (.publish [8]), .producer 0 (.next false)],
      subscribing, List.replicate 13 (.producer 1 (.next false)), receiving 0 5,
      List.replicate 3 (.producer 0 (.next false))].flatten
  -- what happens after the read: the rest of the receive call
  let after : List ℕ := [20, 21]
  have hpermitted : Permitted (touchSystem tinyGeometry fun _ ↦ 0) disciplined []
      (State.init fun _ ↦ 0) actions := by decide +kernel
  have hexec : ((touchSystem tinyGeometry fun _ ↦ 0).exec (State.init fun _ ↦ 0) actions).map
      (fun result : State × List (Event ⊕ Touch) ↦
        decide (received 0 (result.2.filterMap Sum.getLeft?) = [[7]]) &&
        decide ((execution (touched result.2))[20]? =
          some (.reader 0, .read (.payload 0))) &&
        decide ((execution (touched result.2))[23]? =
          some (.producer 0, .write (.payload 0))) &&
        closedUnder (execution (touched result.2)) after) = some true := by decide +kernel
  obtain ⟨⟨s, trace⟩, hfinal, hresult⟩ := Option.map_eq_some_iff.mp hexec
  simp only [Bool.and_eq_true, decide_eq_true_eq] at hresult
  obtain ⟨⟨⟨hreceived, hread⟩, hwritten⟩, hclosed⟩ := hresult
  refine ⟨trace, s, run_of_permitted hpermitted hfinal, hreceived, fun hfree ↦ ?_⟩
  have hbefore := hfree 20 23 _ _ (by decide) hread hwritten ⟨_, rfl, rfl, .inr ⟨_, rfl⟩⟩
  have hmem : 23 ∈ after := hbefore.mem_of_closedUnder hclosed (by decide)
  exact absurd hmem (by decide)

end AarnnNsys.Bus
