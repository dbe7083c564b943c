import AarnnNsys.Bus.Shared

/-!
# Processes that attach to a named bus

`BusHandle::create` opens the shared object of a name, whether it exists or not, and
`init_in_region` then zeroes the header, stores its fields and clears the slots, one word after the
other; `BusHandle::open` only compares the two sizes in the header. `attachSystem` interleaves any
number of processes that run create-or-open with the same name and sizes, and the threads of those
that have a handle, which use the bus.

A creation is not told whether it made the object, so it clears a bus that is in use
(`create_wipes`). As long as every word it writes once somebody has a handle finds the bus unused,
with no number claimed and nobody registered, and no call reads the capacity of the ring while it is
zeroed (`AttachesUnused`), attaching changes nothing (`attach_run`), and every subscriber of every
process is served (`attach_preserves`).
-/

set_option autoImplicit false
set_option relaxedAutoImplicit false

namespace AarnnNsys.Bus

open Function Lib

/-! ### The shared object -/

/-- A word of the region that `init_in_region` writes. -/
inductive Word
  | writeSeq
  | claimSeq
  | descCapacity
  | slotBytes
  | nSubs
  | subReadSeq (i : ℕ)
  | slotSeq (i : ℕ)
  | descLen (i : ℕ)
  deriving DecidableEq

/-- The words that `init_in_region` writes, in order and with their values: `write_bytes` over the
header, the fields of the header, and the slots. -/
def initStores (g : Geometry) : List (Word × ℕ) :=
  [(.writeSeq, 0), (.claimSeq, 0), (.descCapacity, 0), (.slotBytes, 0), (.nSubs, 0)] ++
    (List.range maxSubscribers).map (fun i ↦ (.subReadSeq i, 0)) ++
    [(.writeSeq, 0), (.claimSeq, 0), (.descCapacity, g.descCapacity), (.slotBytes, g.slotBytes),
      (.nSubs, 0)] ++
    (List.range g.descCapacity).flatMap fun i ↦ [(.slotSeq i, 0), (.descLen i, 0)]

/-- Where a process is in `create(..).or_else(|_| open(..))`. -/
inductive AttachPc
  | creating
  | initialising (rest : List (Word × ℕ))
  | opening
  | loadCapacity
  | loadSlotBytes (capacity : ℕ)
  | attached
  | failed (error : BusError)
  deriving DecidableEq

/-- The shared object with the sizes in its header, the bus in it with the threads of all processes,
and the processes. `astray` is set once a call has read a capacity that is not the one its handle
was made for: what such a call does is not described. -/
structure SharedState where
  created : Bool
  capacity : ℕ
  slotBytes : ℕ
  bus : State
  processes : ℕ → AttachPc
  astray : Bool

/-- A store to a word of the region. -/
def SharedState.store (s : SharedState) (word : Word) (value : ℕ) : SharedState :=
  match word with
  | .writeSeq => { s with bus.mem.writeSeq := value }
  | .claimSeq => { s with bus.mem.claimSeq := value }
  | .descCapacity => { s with capacity := value }
  | .slotBytes => { s with slotBytes := value }
  | .nSubs => { s with bus.mem.nSubs := value }
  | .subReadSeq i => { s with bus.mem.subReadSeq := update s.bus.mem.subReadSeq i value }
  | .slotSeq i => { s with bus.mem.slotSeq := update s.bus.mem.slotSeq i value }
  | .descLen i => { s with bus.mem.descLen := update s.bus.mem.descLen i value }

/-- A process at the next operation of its call. -/
def SharedState.goto (s : SharedState) (i : ℕ) (pc : AttachPc) : SharedState :=
  { s with processes := update s.processes i pc }

/-- How the system answers `create_named` or `open_named`: a mapping of the object, or an error
number; a creation that fails may have made the object. -/
inductive Answer
  | mapped
  | errno (code : ℤ) (made : Bool)
  deriving DecidableEq

/-- `ENOENT`. -/
def enoent : ℤ := 2

/-- The next step of a process that attaches. -/
def attachStep (g : Geometry) (s : SharedState) (i : ℕ) (answer : Answer) : Option SharedState :=
  match s.processes i with
  | .creating =>
    -- `slab_bytes == 0` is the one size that a geometry does not rule out
    if g.slotBytes = 0 then some (s.goto i .opening)
    else
      match answer with
      | .mapped => some { s.goto i (.initialising (initStores g)) with created := true }
      | .errno _ made => some { s.goto i .opening with created := s.created || made }
  | .initialising ((word, value) :: rest) =>
    some ((s.store word value).goto i (.initialising rest))
  | .initialising [] => some (s.goto i .attached)
  | .opening =>
    if g.slotBytes = 0 then some (s.goto i (.failed .invalidArg))
    else
      match answer with
      | .mapped =>
        if s.created then some (s.goto i .loadCapacity)
        else some (s.goto i (.failed (.platform enoent)))
      | .errno code _ => some (s.goto i (.failed (.platform code)))
  | .loadCapacity => some (s.goto i (.loadSlotBytes s.capacity))
  | .loadSlotBytes capacity =>
    if capacity ≠ g.descCapacity ∨ s.slotBytes ≠ g.slotBytes then
      some (s.goto i (.failed .invalidArg))
    else some (s.goto i .attached)
  | .attached => none
  | .failed _ => none

/-! ### Processes that use the bus -/

/-- The process of every producer thread, handle and reader thread. -/
structure Homes where
  producer : ℕ → ℕ
  subscriber : ℕ → ℕ
  reader : ℕ → ℕ

/-- The process whose thread takes a step. -/
def Homes.of (home : Homes) : Action → ℕ
  | .producer p _ => home.producer p
  | .subscriber h _ => home.subscriber h
  | .reader r _ => home.reader r

/-- A thread receives through the handles of its own process. -/
def Homes.Local (home : Homes) : Action → Prop
  | .reader r (.tryRecv h _) => home.subscriber h = home.reader r
  | _ => True

instance Homes.Local.decidable (home : Homes) : ∀ action : Action, Decidable (home.Local action)
  | .reader r (.tryRecv h _) => inferInstanceAs (Decidable (home.subscriber h = home.reader r))
  | .reader _ .next => isTrue trivial
  | .producer _ _ => isTrue trivial
  | .subscriber _ _ => isTrue trivial

/-- A call has loaded its cursor and computes its slot next. -/
def ReaderPc.findsSlot : ReaderPc → Bool
  | .loadSeq _ => true
  | _ => false

/-- The steps that read the capacity of the ring from the header: a producer call does once, when it
begins, and `try_recv` when it computes its slot. -/
def ReadsCapacity (g : Geometry) (s : State) : Action → Prop
  | .producer _ (.publish payload) | .producer _ (.tryPublish payload) =>
    payload ≠ [] ∧ payload.length ≤ g.slotBytes
  | .reader r .next => (s.readers r).pc.findsSlot = true
  | _ => False

instance ReadsCapacity.decidable (g : Geometry) (s : State) :
    ∀ action : Action, Decidable (ReadsCapacity g s action)
  | .producer _ (.publish payload) =>
    inferInstanceAs (Decidable (payload ≠ [] ∧ payload.length ≤ g.slotBytes))
  | .producer _ (.tryPublish payload) =>
    inferInstanceAs (Decidable (payload ≠ [] ∧ payload.length ≤ g.slotBytes))
  | .producer _ (.next _) => isFalse not_false
  | .subscriber _ _ => isFalse not_false
  | .reader r .next => inferInstanceAs (Decidable ((s.readers r).pc.findsSlot = true))
  | .reader _ (.tryRecv _ _) => isFalse not_false

/-- A step of a process that attaches, or of a thread that uses the bus. -/
inductive SharedAction
  | attach (i : ℕ) (answer : Answer)
  | bus (action : Action)
  deriving DecidableEq

/-- One step of the processes. -/
def sharedStep (g : Geometry) (home : Homes) (s : SharedState) :
    SharedAction → Option (SharedState × List Event)
  | .attach i answer =>
    if s.astray then none else (attachStep g s i answer).map fun s' ↦ (s', [])
  | .bus action =>
    if s.astray = false ∧ s.processes (home.of action) = .attached ∧ home.Local action then
      if ReadsCapacity g s.bus action ∧ s.capacity ≠ g.descCapacity then
        some ({ s with astray := true }, [])
      else (step g s.bus action).map fun (bus, events) ↦ ({ s with bus }, events)
    else none

/-- Processes with the same name and sizes, from no object at all. -/
def attachSystem (g : Geometry) (home : Homes) :
    TransitionSystem SharedState SharedAction Event :=
  ⟨⟨false, 0, 0, State.init fun _ ↦ 0, fun _ ↦ .creating, false⟩, sharedStep g home⟩

/-- Some process has obtained a handle. -/
def HasHandle (s : SharedState) : Prop := ∃ i, s.processes i = .attached

/-! ### A bus that nobody has used -/

/-- A region whose words are all zero, payload and sizes apart. -/
structure Mem.Unused (m : Mem) : Prop where
  writeSeq_eq : m.writeSeq = 0
  claimSeq_eq : m.claimSeq = 0
  nSubs_eq : m.nSubs = 0
  subReadSeq_eq : ∀ i, m.subReadSeq i = 0
  slotSeq_eq : ∀ i, m.slotSeq i = 0
  descLen_eq : ∀ i, m.descLen i = 0

/-- A value that changes no word of the bus when it is stored to an unused region. -/
def HarmlessStore (store : Word × ℕ) : Prop :=
  store.2 = 0 ∨ store.1 = .descCapacity ∨ store.1 = .slotBytes

/-- `init_in_region` stores nothing but zeros and the two sizes. -/
theorem harmlessStore_of_mem {g : Geometry} {store : Word × ℕ} (hmem : store ∈ initStores g) :
    HarmlessStore store := by
  simp only [initStores, List.mem_append, List.mem_cons, List.mem_map, List.mem_flatMap,
    List.not_mem_nil, or_false] at hmem
  rcases hmem with ((hheader | ⟨i, -, rfl⟩) | hfields) | ⟨i, -, hslot⟩
  · rcases hheader with rfl | rfl | rfl | rfl | rfl <;> exact Or.inl rfl
  · exact Or.inl rfl
  · rcases hfields with rfl | rfl | rfl | rfl | rfl <;> simp [HarmlessStore]
  · rcases hslot with rfl | rfl <;> exact Or.inl rfl

/-- The stores of `init_in_region` change nothing on an unused bus. -/
theorem SharedState.bus_store {s : SharedState} (hunused : s.bus.mem.Unused) {word : Word}
    {value : ℕ} (hharmless : HarmlessStore (word, value)) : (s.store word value).bus = s.bus := by
  obtain ⟨hwrite, hclaim, hsubs, hread, hslot, hlen⟩ := hunused
  have hzero : ∀ {words : ℕ → ℕ}, (∀ i, words i = 0) → ∀ i, update words i 0 = words := by
    intro words hwords i
    rw [← hwords i, update_eq_self]
  rcases hharmless with hvalue | hword | hword
  · obtain rfl : value = 0 := hvalue
    cases word with
    | writeSeq => simp only [store, ← hwrite]
    | claimSeq => simp only [store, ← hclaim]
    | nSubs => simp only [store, ← hsubs]
    | subReadSeq i => simp only [store, hzero hread]
    | slotSeq i => simp only [store, hzero hslot]
    | descLen i => simp only [store, hzero hlen]
    | descCapacity | slotBytes => rfl
  · obtain rfl : word = .descCapacity := hword
    rfl
  · obtain rfl : word = .slotBytes := hword
    rfl

/-- While no number has been claimed nothing has been written to the length words. -/
theorem descLen_run {g : Geometry} {slab : ℕ → UInt8} {guard : Guard State Action Event}
    {trace : List Event} {s : State} (hrun : Run (busSystem g slab) guard trace s)
    (hclaim : s.mem.claimSeq = 0) (i : ℕ) : s.mem.descLen i = 0 := by
  refine hrun.invariant (fun _ s ↦ s.mem.claimSeq = 0 → ∀ i, s.mem.descLen i = 0)
    (fun _ _ ↦ rfl) ?_ hclaim i
  intro trace s action s' events hprevious hinv _ hstep hclaim
  have hcommit := commitInv_run hprevious
  cases step_cases hstep with
  | @producer p act m t own hthread =>
    have hold : s.mem.claimSeq = 0 := Nat.le_zero.mp (hthread.claimSeq_le.trans_eq hclaim)
    cases hthread with
    | storeDesc b claim hpc =>
      -- a call that writes a length word has claimed a number
      have hlt := hcommit.owned_lt p claim (by simp [Producer.owned, hpc])
      omega
    | _ => exact hinv hold
  | subscriber hthread => cases hthread <;> exact hinv hclaim
  | reader hthread => cases hthread <;> exact hinv hclaim

/-- A bus on which no number has been claimed and nobody has registered is unused. -/
theorem unused_of_run {g : Geometry} {slab : ℕ → UInt8} {guard : Guard State Action Event}
    (hfits : ∀ trace s action, guard trace s action → CountFits s action) {trace : List Event}
    {s : State} (hrun : Run (busSystem g slab) guard trace s) (hclaim : s.mem.claimSeq = 0)
    (hsubs : s.mem.nSubs = 0) : s.mem.Unused := by
  have hcommit := commitInv_run hrun
  have howners := ownersInv_run hfits hrun
  refine ⟨?_, hclaim, hsubs, fun id ↦ howners.unset id fun h hready ↦ ?_, fun i ↦ ?_,
    descLen_run hrun hclaim⟩
  · exact Nat.le_zero.mp (hcommit.writeSeq_le.trans_eq hclaim)
  · have hlt := howners.taken.lt h id (by simp [hready, SubscriberPc.id?])
    omega
  · exact Nat.le_zero.mp ((hcommit.slot_claimed i).trans_eq hclaim)

/-! ### Attaching to a bus that is not in use -/

/-- What a step of a process that attaches does: a store of its initialisation, or nothing to the
bus. -/
inductive AttachStep (g : Geometry) (s : SharedState) (i : ℕ) : SharedState → Prop
  | store {word : Word} {value : ℕ} {rest : List (Word × ℕ)}
      (hpc : s.processes i = .initialising ((word, value) :: rest)) :
      AttachStep g s i ((s.store word value).goto i (.initialising rest))
  | quiet {s' : SharedState} {pc : AttachPc} (hpc : s.processes i ≠ .attached)
      (hbus : s'.bus = s.bus) (hastray : s'.astray = s.astray)
      (hprocesses : s'.processes = update s.processes i pc)
      (hrest : ∀ rest, pc = .initialising rest → rest = initStores g) : AttachStep g s i s'

/-- A process that attaches does nothing but the steps of `AttachStep`. -/
theorem attachStep_cases {g : Geometry} {s s' : SharedState} {i : ℕ} {answer : Answer}
    (hstep : attachStep g s i answer = some s') : AttachStep g s i s' := by
  have hgoto : ∀ pc, s.processes i ≠ .attached → (∀ rest, pc ≠ .initialising rest) →
      AttachStep g s i (s.goto i pc) := fun pc hpc hrest ↦
    .quiet hpc rfl rfl rfl fun rest heq ↦ absurd heq (hrest rest)
  unfold attachStep at hstep
  split at hstep
  · rename_i hpc
    have hnot : s.processes i ≠ .attached := by simp [hpc]
    split_ifs at hstep with hslot
    · cases hstep
      exact hgoto _ hnot (by simp)
    · split at hstep
      · cases hstep
        refine .quiet hnot rfl rfl rfl fun rest heq ↦ ?_
        cases heq
        rfl
      · cases hstep
        exact .quiet hnot rfl rfl rfl fun rest heq ↦ nomatch heq
  · cases hstep
    exact .store ‹_›
  · rename_i hpc
    cases hstep
    exact hgoto _ (by simp [hpc]) (by simp)
  · rename_i hpc
    have hnot : s.processes i ≠ .attached := by simp [hpc]
    split at hstep
    · cases hstep
      exact hgoto _ hnot (by simp)
    · split at hstep
      · split at hstep
        · cases hstep
          exact hgoto _ hnot (by simp)
        · cases hstep
          exact hgoto _ hnot (by simp)
      · cases hstep
        exact hgoto _ hnot (by simp)
  · rename_i hpc
    cases hstep
    exact hgoto _ (by simp [hpc]) (by simp)
  · rename_i hpc
    split_ifs at hstep with hsizes
    · cases hstep
      exact hgoto _ (by simp [hpc]) (by simp)
    · cases hstep
      exact hgoto _ (by simp [hpc]) (by simp)
  · cases hstep
  · cases hstep

/-- The steps under which attaching changes nothing: once some process has a handle, a word is
initialised only while no number has been claimed and nobody has registered, and the capacity is
only read while it is in place. The threads use the bus under a condition of their own. -/
def AttachesUnused (use : State → Action → Prop) (g : Geometry) (s : SharedState) :
    SharedAction → Prop
  | .attach i _ => ∀ store rest, s.processes i = .initialising (store :: rest) → HasHandle s →
      s.bus.mem.claimSeq = 0 ∧ s.bus.mem.nSubs = 0
  | .bus action => (ReadsCapacity g s.bus action → s.capacity = g.descCapacity) ∧ use s.bus action

/-- What holds of processes that attach to a bus that is not in use. -/
structure AttachInv (s : SharedState) : Prop where
  harmless : ∀ i rest, s.processes i = .initialising rest → ∀ store ∈ rest, HarmlessStore store
  untouched : ¬ HasHandle s → s.bus = State.init fun _ ↦ 0
  found : s.astray = false

/-- The invariant holds before any process has made a step. -/
theorem attachInv_init (g : Geometry) (home : Homes) : AttachInv (attachSystem g home).init where
  harmless := fun _ _ hpc ↦ nomatch hpc
  untouched := fun _ ↦ rfl
  found := rfl

section Attach

variable {g : Geometry} {home : Homes} {use : State → Action → Prop} {trace : List Event}
  {s s' : SharedState}

/-- A process that has a handle keeps it. -/
theorem AttachStep.hasHandle {i : ℕ} (hstep : AttachStep g s i s') (hhandle : HasHandle s) :
    HasHandle s' := by
  obtain ⟨j, hj⟩ := hhandle
  have hkept : s.processes i ≠ .attached → ∀ pc, update s.processes i pc j = .attached := by
    intro hne pc
    have hji : j ≠ i := by
      rintro rfl
      exact hne hj
    rw [update_of_ne hji, hj]
  cases hstep with
  | @store word value rest hpc =>
    have hprocesses : (s.store word value).processes = s.processes := by cases word <;> rfl
    refine ⟨j, ?_⟩
    simp only [SharedState.goto, hprocesses]
    exact hkept (by simp [hpc]) _
  | quiet hpc hbus hastray hprocesses =>
    rw [HasHandle, hprocesses]
    exact ⟨j, hkept hpc _⟩

/-- A process that attaches to a bus that is not in use changes nothing. -/
theorem AttachStep.bus_eq {i : ℕ} (hstep : AttachStep g s i s') (hinv : AttachInv s)
    (hrun : Run (busSystem g fun _ ↦ 0) (fun _ s action ↦ use s action) trace s.bus)
    (hfits : ∀ s action, use s action → CountFits s action) {answer : Answer}
    (hunused : AttachesUnused use g s (.attach i answer)) : s'.bus = s.bus := by
  cases hstep with
  | @store word value rest hpc =>
    have hzero : s.bus.mem.claimSeq = 0 ∧ s.bus.mem.nSubs = 0 := by
      by_cases hhandle : HasHandle s
      · exact hunused _ _ hpc hhandle
      · rw [hinv.untouched hhandle]
        exact ⟨rfl, rfl⟩
    exact SharedState.bus_store (unused_of_run (fun _ ↦ hfits) hrun hzero.1 hzero.2)
      (hinv.harmless i _ hpc _ List.mem_cons_self)
  | quiet hpc hbus => exact hbus

/-- A step of a process that attaches to a bus that is not in use keeps the invariant. -/
theorem AttachInv.attach_step (hinv : AttachInv s) {i : ℕ} (hstep : AttachStep g s i s')
    (hbus : s'.bus = s.bus) : AttachInv s' := by
  have huntouched : ¬ HasHandle s' → s'.bus = State.init fun _ ↦ 0 := fun hnone ↦
    hbus.trans (hinv.untouched fun hhandle ↦ hnone (hstep.hasHandle hhandle))
  have hother : ∀ pc : AttachPc,
      (∀ rest, pc = .initialising rest → ∀ store ∈ rest, HarmlessStore store) →
      ∀ j rest, update s.processes i pc j = .initialising rest → ∀ store ∈ rest,
        HarmlessStore store := by
    intro pc hpc j rest hj
    by_cases hji : j = i
    · rw [hji, update_self] at hj
      exact hpc rest hj
    · rw [update_of_ne hji] at hj
      exact hinv.harmless j rest hj
  cases hstep with
  | @store word value rest hpc =>
    have hprocesses : (s.store word value).processes = s.processes := by cases word <;> rfl
    have hastray : (s.store word value).astray = s.astray := by cases word <;> rfl
    refine ⟨?_, huntouched, hastray.trans hinv.found⟩
    simp only [SharedState.goto, hprocesses]
    refine hother _ fun left hleft store hmem ↦ ?_
    cases hleft
    exact hinv.harmless i _ hpc store (List.mem_cons_of_mem _ hmem)
  | quiet hpc hsame hastray hprocesses hrest =>
    refine ⟨?_, huntouched, hastray.trans hinv.found⟩
    rw [hprocesses]
    refine hother _ fun left hleft store hmem ↦ ?_
    rw [hrest left hleft] at hmem
    exact harmlessStore_of_mem hmem

/-- Processes that attach to a bus that is not in use leave a run of the bus. -/
theorem attach_run (hfits : ∀ s action, use s action → CountFits s action)
    (hrun : Run (attachSystem g home) (fun _ s action ↦ AttachesUnused use g s action) trace s) :
    AttachInv s ∧ Run (busSystem g fun _ ↦ 0) (fun _ s action ↦ use s action) trace s.bus := by
  refine hrun.invariant (fun trace s ↦ AttachInv s ∧
    Run (busSystem g fun _ ↦ 0) (fun _ s action ↦ use s action) trace s.bus) ?_ ?_
  · exact ⟨attachInv_init g home, .start⟩
  · rintro trace s action s' events - ⟨hinv, hbus⟩ hallowed hstep
    cases action with
    | attach i answer =>
      simp only [attachSystem, sharedStep, Option.ite_none_left_eq_some, Option.map_eq_some_iff,
        Prod.mk.injEq] at hstep
      obtain ⟨-, final, htaken, rfl, rfl⟩ := hstep
      have hattach := attachStep_cases htaken
      have hsame := hattach.bus_eq hinv hbus hfits hallowed
      refine ⟨hinv.attach_step hattach hsame, ?_⟩
      rw [List.append_nil, hsame]
      exact hbus
    | bus action =>
      obtain ⟨hcapacity, huse⟩ := hallowed
      simp only [attachSystem, sharedStep, Option.ite_none_right_eq_some] at hstep
      obtain ⟨⟨hfound, hattached, -⟩, hstep⟩ := hstep
      rw [if_neg fun hastray ↦ hastray.2 (hcapacity hastray.1)] at hstep
      simp only [Option.map_eq_some_iff, Prod.mk.injEq, Prod.exists] at hstep
      obtain ⟨bus, reported, htaken, rfl, rfl⟩ := hstep
      exact ⟨⟨hinv.harmless, fun hnone ↦ absurd ⟨_, hattached⟩ hnone, hinv.found⟩,
        hbus.next huse htaken⟩

/-- The condition on the use of the bus may be replaced by one that follows from it. -/
theorem attachesUnused_mono {use' : State → Action → Prop}
    (hrun : Run (attachSystem g home) (fun _ s action ↦ AttachesUnused use g s action) trace s)
    (hfits : ∀ s action, use s action → CountFits s action)
    (himplies : ∀ s action, OwnersInv s → use s action → use' s action) :
    Run (attachSystem g home) (fun _ s action ↦ AttachesUnused use' g s action) trace s := by
  refine hrun.strengthen ?_
  intro trace s action _ _ hprevious hallowed _
  have howners := ownersInv_run (fun _ ↦ hfits) (attach_run hfits hprevious).2
  cases action with
  | attach i answer => exact hallowed
  | bus action => exact ⟨hallowed.1, himplies _ _ howners hallowed.2⟩

end Attach

/-- The steps under which attaching is safe: those of `AttachesUnused`, with calls that leave every
handle to its own thread, have lengths that fit the length word and count who joined. -/
def AttachesSafely (g : Geometry) (s : SharedState) (action : SharedAction) : Prop :=
  AttachesUnused (fun s action ↦ KeepsHandles s action ∧ NarrowCall g action ∧
    CountsJoined g s action) g s action

/-- Attaching to a named bus. In every run of processes that create or open the same bus and use it,
in which the words initialised once a process has a handle find a bus that is not in use and the
calls keep to `AttachesSafely`: no step of a creation or an opening changes anything on the bus,
every subscriber has an identifier below `n_subs` and of its own, and it is served from the read
sequence it started from. -/
theorem attach_preserves (g : Geometry) (home : Homes) (trace : List Event) (s : SharedState)
    (hrun : Run (attachSystem g home) (fun _ s action ↦ AttachesSafely g s action) trace s) :
    (∀ i answer s' events, AttachesSafely g s (.attach i answer) →
      sharedStep g home s (.attach i answer) = some (s', events) → s'.bus = s.bus) ∧
    (∀ h id, s.bus.subscribers h = .ready id → id < s.bus.mem.nSubs ∧
      ∀ h', s.bus.subscribers h' = .ready id → h' = h) ∧
    ∀ h start, Started h start trace → ∃ id, Served g trace s.bus h start id := by
  have hfits : ∀ s action, KeepsHandles s action ∧ NarrowCall g action ∧ CountsJoined g s action →
      CountFits s action := fun _ _ huse ↦ huse.1.2
  obtain ⟨hinv, hbus⟩ := attach_run hfits hrun
  have htaken := (ownersInv_run (fun _ ↦ hfits) hbus).taken
  refine ⟨fun i answer s' events hallowed hstep ↦ ?_, fun h id hready ↦ ⟨?_, fun h' hready' ↦ ?_⟩,
    fun h start hstarted ↦ ?_⟩
  · simp only [sharedStep, Option.ite_none_left_eq_some, Option.map_eq_some_iff,
      Prod.mk.injEq] at hstep
    obtain ⟨-, final, hattach, rfl, -⟩ := hstep
    exact (attachStep_cases hattach).bus_eq hinv hbus hfits hallowed
  · exact htaken.lt h id (by rw [hready]; rfl)
  · exact htaken.injective h' h id (by rw [hready']; rfl) (by rw [hready]; rfl)
  · exact served_of_run (fun _ _ _ huse ↦ huse.1) (fun _ _ _ huse ↦ huse.2.2)
      (fun _ _ _ huse ↦ huse.2.1) hbus hstarted

/-- The capacity of the ring is read while it is in place, and the threads use the bus as
`JoinsApart` allows. -/
def UsesApart (g : Geometry) (s : SharedState) : SharedAction → Prop
  | .attach _ _ => True
  | .bus action =>
    (ReadsCapacity g s.bus action → s.capacity = g.descCapacity) ∧ JoinsApart g s.bus action

instance UsesApart.decidable (g : Geometry) (s : SharedState) :
    ∀ action : SharedAction, Decidable (UsesApart g s action)
  | .attach _ _ => isTrue trivial
  | .bus action => inferInstanceAs (Decidable
      ((ReadsCapacity g s.bus action → s.capacity = g.descCapacity) ∧ JoinsApart g s.bus action))

/-- Processes attach before any of them uses the bus. -/
def AttachesFirst (s : SharedState) : SharedAction → Prop
  | .attach _ _ => s.bus.mem.claimSeq = 0 ∧ s.bus.mem.nSubs = 0
  | .bus _ => True

instance AttachesFirst.decidable (s : SharedState) :
    ∀ action : SharedAction, Decidable (AttachesFirst s action)
  | .attach _ _ => inferInstanceAs (Decidable (_ ∧ _))
  | .bus _ => isTrue trivial

/-- A call of `create` that succeeds. -/
def creating (g : Geometry) (i : ℕ) : List SharedAction :=
  List.replicate ((initStores g).length + 2) (.attach i .mapped)

/-- Process `0` receives and process `1` publishes. -/
def twoHomes : Homes := ⟨fun _ ↦ 1, fun h ↦ h, fun r ↦ r⟩

/-- Two processes that both create the bus, the second while the first has a handle, before one
subscribes to what the other publishes. -/
theorem attach_preserves_two : ∃ (trace : List Event) (s : SharedState), Started 0 0 trace ∧
    received 0 trace = [[7]] ∧ ∃ id, Served tinyGeometry trace s.bus 0 0 id := by
  let system := attachSystem tinyGeometry twoHomes
  let first : Guard SharedState SharedAction Event :=
    fun _ s action ↦ UsesApart tinyGeometry s action ∧ AttachesFirst s action
  let actions : List SharedAction := creating tinyGeometry 0 ++ creating tinyGeometry 1 ++
    ([subscribing, publishing [7] 13, receiving 0 5].flatten).map .bus
  have hexec : (system.exec system.init actions).map
      (fun result ↦ (received 0 result.2, decide (.subscriber 0 (.subscribed 0 0) ∈ result.2))) =
      some ([[7]], true) := by decide +kernel
  have hpermitted : Permitted system first [] system.init actions := by decide +kernel
  obtain ⟨⟨s, trace⟩, hfinal, hresult⟩ := Option.map_eq_some_iff.mp hexec
  obtain ⟨hreceived, hevents⟩ := Prod.mk.inj hresult
  have hstarted : Started 0 0 trace := ⟨0, of_decide_eq_true hevents⟩
  have hfirst : Run system first trace s := run_of_permitted hpermitted hfinal
  have hunused : Run (attachSystem tinyGeometry twoHomes)
      (fun _ s action ↦ AttachesUnused (JoinsApart tinyGeometry) tinyGeometry s action)
      trace s := by
    refine hfirst.strengthen fun {_ _ action _ _} _ hallowed _ ↦ ?_
    cases action with
    | attach i answer => exact fun _ _ _ _ ↦ hallowed.2
    | bus action => exact hallowed.1
  have hsafe : Run (attachSystem tinyGeometry twoHomes)
      (fun _ s action ↦ AttachesSafely tinyGeometry s action) trace s :=
    attachesUnused_mono hunused (fun _ _ hapart ↦ hapart.1.countFits) fun _ _ howners hapart ↦
      ⟨hapart.1.keepsHandles, hapart.2.1, hapart.2.2.countsJoined howners⟩
  exact ⟨trace, s, hstarted, hreceived,
    (attach_preserves tinyGeometry twoHomes trace s hsafe).2.2 0 0 hstarted⟩

/-- Every process receives through the handle of its number, and process `0` publishes. -/
def ownHomes : Homes := ⟨fun _ ↦ 0, fun h ↦ h, fun r ↦ r⟩

/-- Process `1` subscribes, and process `0` looks for a message. -/
def resubscribing : List Action :=
  .subscriber 1 .subscribe :: List.replicate 2 (.subscriber 1 .next) ++ receiving 0 1

/-- `n_subs`, `claim_seq`, `write_seq` and the stamp of the first slot. -/
def Mem.counters (m : Mem) : List ℕ := [m.nSubs, m.claimSeq, m.writeSeq, m.slotSeq 0]

/-- A creation clears a bus that is in use. Process `0` creates it, subscribes and publishes;
process `1` creates it too, which takes the registration, the claim and the commit away. The next
subscriber gets the identifier that the first one still has, and the first one finds no message. -/
theorem create_wipes : ∃ (before : List Event) (s final last : SharedState) (later : List Event),
    Run (attachSystem tinyGeometry ownHomes) (fun _ s action ↦ UsesApart tinyGeometry s action)
      before s ∧
    HasHandle s ∧ Started 0 0 before ∧ s.bus.subscribers 0 = .ready 0 ∧
    s.bus.mem.counters = [1, 1, 1, 1] ∧
    (attachSystem tinyGeometry ownHomes).exec s (creating tinyGeometry 1) = some (final, []) ∧
    final.bus.subscribers 0 = .ready 0 ∧ final.bus.mem.counters = [0, 0, 0, 0] ∧
    (attachSystem tinyGeometry ownHomes).exec final (resubscribing.map .bus) =
      some (last, later) ∧
    last.bus.subscribers 0 = .ready 0 ∧ last.bus.subscribers 1 = .ready 0 ∧
    received 0 (before ++ later) = [] ∧ .reader 0 (.returned (.ok none)) ∈ later := by
  let system := attachSystem tinyGeometry ownHomes
  let apart : Guard SharedState SharedAction Event :=
    fun _ s action ↦ UsesApart tinyGeometry s action
  let live : List SharedAction := creating tinyGeometry 0 ++
    ([subscribing, publishing [7] 13].flatten).map .bus
  have hlive : (system.exec system.init live).map (fun result ↦
      (decide (.subscriber 0 (.subscribed 0 0) ∈ result.2), result.1.processes 0,
        result.1.bus.subscribers 0, result.1.bus.mem.counters, result.2.length)) =
      some (true, .attached, .ready 0, [1, 1, 1, 1], 5) := by decide +kernel
  have hwiped : (system.exec system.init (live ++ creating tinyGeometry 1)).map (fun result ↦
      (result.1.bus.subscribers 0, result.1.bus.mem.counters, result.2.length,
        decide (.reader 0 (.returned (.ok none)) ∈ result.2))) =
      some (.ready 0, [0, 0, 0, 0], 5, false) := by decide +kernel
  have hlast : (system.exec system.init
      (live ++ creating tinyGeometry 1 ++ resubscribing.map .bus)).map (fun result ↦
        (result.1.bus.subscribers 0, result.1.bus.subscribers 1, received 0 result.2,
          decide (.reader 0 (.returned (.ok none)) ∈ result.2))) =
      some (.ready 0, .ready 0, [], true) := by decide +kernel
  have hpermitted : Permitted system apart [] system.init live := by decide +kernel
  obtain ⟨⟨last, trace⟩, hend, hresult⟩ := Option.map_eq_some_iff.mp hlast
  simp only [Prod.mk.injEq, decide_eq_true_eq] at hresult
  obtain ⟨hfirst, hsecond, hreceived, hnone⟩ := hresult
  obtain ⟨final, wiped, later, hmiddle, hlater, rfl⟩ := TransitionSystem.exec_split hend
  obtain ⟨s, before, created, hbefore, hcreated, rfl⟩ := TransitionSystem.exec_split hmiddle
  simp only [hmiddle, Option.map_some, Option.some.injEq, Prod.mk.injEq,
    decide_eq_false_iff_not] at hwiped
  obtain ⟨hkept, hzero, hlength, hsilent⟩ := hwiped
  simp only [hbefore, Option.map_some, Option.some.injEq, Prod.mk.injEq,
    decide_eq_true_eq] at hlive
  obtain ⟨hstarted, hattached, hready, hone, hlength'⟩ := hlive
  -- the creation reports nothing
  obtain rfl : created = [] := by
    rw [List.length_append, hlength'] at hlength
    exact List.length_eq_zero_iff.mp (Nat.add_left_cancel hlength)
  rw [List.append_nil] at hreceived hnone hsilent
  exact ⟨before, s, final, last, later, run_of_permitted hpermitted hbefore, ⟨0, hattached⟩,
    ⟨0, hstarted⟩, hready, hone, hcreated, hkept, hzero, hlater, hfirst, hsecond, hreceived,
    (List.mem_append.mp hnone).resolve_left hsilent⟩

end AarnnNsys.Bus
