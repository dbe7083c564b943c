import Mathlib.Data.List.Basic

/-!
# Data races under acquire and release

The order that acquire loads and release stores impose on an interleaving. An `Execution` is the
list of the accesses of all threads, in the order in which they took place: atomic loads, stores and
read-modify-writes of locations, all of them acquiring and releasing, and plain reads and writes of
cells. `HappensBefore` is the least order that contains the program order of every thread and the
step from the last store to a location to a load of it. Two plain accesses to one cell conflict when
one of them writes, and `RaceFree` says that conflicting accesses are ordered.

The rules follow one access at a time. `Seen` is what happens before anything that a thread does
next, `Carried` what happens before anything that acquires from a location. A thread acquires what
the location carries (`Carried.seen`), a location carries what the storing thread has seen
(`Seen.carried`), and an execution stays free of races when the next access has seen what it
conflicts with (`RaceFree.snoc`).
-/

set_option autoImplicit false
set_option relaxedAutoImplicit false

namespace AarnnNsys.Lib

/-- An access to shared memory: atomic to a location, plain to a cell. Loads acquire, stores release
and read-modify-writes do both. -/
inductive Access (Location Cell : Type*)
  | load (location : Location)
  | store (location : Location)
  | update (location : Location)
  | read (cell : Cell)
  | write (cell : Cell)
  deriving DecidableEq

variable {Thread Location Cell : Type*}

namespace Access

/-- The location that an access acquires from. -/
def acquires? : Access Location Cell → Option Location
  | .load location | .update location => some location
  | _ => none

/-- The location that an access releases to. -/
def releases? : Access Location Cell → Option Location
  | .store location | .update location => some location
  | _ => none

/-- The cell of a plain access. -/
def cell? : Access Location Cell → Option Cell
  | .read cell | .write cell => some cell
  | _ => none

/-- What an access is to. -/
def target : Access Location Cell → Location ⊕ Cell
  | .load location | .store location | .update location => .inl location
  | .read cell | .write cell => .inr cell

/-- The access is a plain write. -/
def IsWrite (access : Access Location Cell) : Prop := ∃ cell, access = .write cell

/-- The access is a plain read. -/
def IsRead (access : Access Location Cell) : Prop := ∃ cell, access = .read cell

/-- A plain access is a write or a read. -/
theorem isWrite_or_isRead {access : Access Location Cell} (hplain : access.cell? ≠ none) :
    access.IsWrite ∨ access.IsRead := by
  cases access with
  | write cell => exact .inl ⟨cell, rfl⟩
  | read cell => exact .inr ⟨cell, rfl⟩
  | _ => exact absurd rfl hplain

/-- Two plain accesses to one cell, one of them a write. -/
def Conflicts (first second : Access Location Cell) : Prop :=
  ∃ cell, first.cell? = some cell ∧ second.cell? = some cell ∧ (first.IsWrite ∨ second.IsWrite)

end Access

/-- The accesses of all threads, in the order in which they took place. -/
abbrev Execution (Thread Location Cell : Type*) := List (Thread × Access Location Cell)

/-- Access `i` happens before access `j`: program order, and the last store to a location before a
load of it. -/
inductive HappensBefore (execution : Execution Thread Location Cell) : ℕ → ℕ → Prop
  | program {i j : ℕ} {thread : Thread} {first second : Access Location Cell} (hlt : i < j)
      (hfirst : execution[i]? = some (thread, first))
      (hsecond : execution[j]? = some (thread, second)) : HappensBefore execution i j
  | synchronizes {i j : ℕ} {releasing acquiring : Thread} {first second : Access Location Cell}
      {location : Location} (hlt : i < j) (hfirst : execution[i]? = some (releasing, first))
      (hreleases : first.releases? = some location)
      (hsecond : execution[j]? = some (acquiring, second))
      (hacquires : second.acquires? = some location)
      (hlast : ∀ k, i < k → k < j → ∀ entry, execution[k]? = some entry →
        entry.2.releases? ≠ some location) : HappensBefore execution i j
  | trans {i j k : ℕ} (hfirst : HappensBefore execution i j)
      (hsecond : HappensBefore execution j k) : HappensBefore execution i k

/-- Conflicting accesses are ordered. -/
def RaceFree (execution : Execution Thread Location Cell) : Prop :=
  ∀ i j first second, i < j → execution[i]? = some first → execution[j]? = some second →
    first.2.Conflicts second.2 → HappensBefore execution i j

/-- What happens before everything that a thread does from now on. -/
def Seen (execution : Execution Thread Location Cell) (thread : Thread) (k : ℕ) : Prop :=
  ∃ j access, execution[j]? = some (thread, access) ∧ (k = j ∨ HappensBefore execution k j)

/-- What happens before everything that acquires from a location, up to the next store to it. -/
def Carried (execution : Execution Thread Location Cell) (location : Location) (k : ℕ) : Prop :=
  ∃ j entry, execution[j]? = some entry ∧ entry.2.releases? = some location ∧
    (∀ later, j < later → ∀ other, execution[later]? = some other →
      other.2.releases? ≠ some location) ∧
    (k = j ∨ HappensBefore execution k j)

section Rules

variable {execution : Execution Thread Location Cell} {thread : Thread}
  {access : Access Location Cell} {location : Location} {i j k : ℕ}

/-- The accesses made so far stay where they are. -/
theorem getElem?_snoc_of_some {entry next : Thread × Access Location Cell}
    (hentry : execution[k]? = some entry) : (execution ++ [next])[k]? = some entry := by
  rw [List.getElem?_append_left (List.getElem?_eq_some_iff.mp hentry).1]
  exact hentry

/-- An access of an execution with one more is that one or an earlier one. -/
theorem getElem?_snoc_cases {entry next : Thread × Access Location Cell}
    (hentry : (execution ++ [next])[k]? = some entry) :
    execution[k]? = some entry ∨ k = execution.length ∧ entry = next := by
  rcases Nat.lt_trichotomy k execution.length with hlt | heq | hgt
  · rw [List.getElem?_append_left hlt] at hentry
    exact .inl hentry
  · rw [heq, List.getElem?_concat_length] at hentry
    exact .inr ⟨heq, (Option.some.inj hentry).symm⟩
  · rw [List.getElem?_eq_none (by simp; omega)] at hentry
    cases hentry

/-- What is ordered stays ordered. -/
theorem HappensBefore.snoc (hbefore : HappensBefore execution i j)
    (next : Thread × Access Location Cell) : HappensBefore (execution ++ [next]) i j := by
  induction hbefore with
  | program hlt hfirst hsecond =>
    exact .program hlt (getElem?_snoc_of_some hfirst) (getElem?_snoc_of_some hsecond)
  | synchronizes hlt hfirst hreleases hsecond hacquires hlast =>
    refine .synchronizes hlt (getElem?_snoc_of_some hfirst) hreleases
      (getElem?_snoc_of_some hsecond) hacquires fun k hafter hbefore entry hentry ↦ ?_
    refine hlast k hafter hbefore entry ?_
    have hend := (List.getElem?_eq_some_iff.mp hsecond).1
    rwa [List.getElem?_append_left (Nat.lt_trans hbefore hend)] at hentry
  | trans _ _ ihfirst ihsecond => exact ihfirst.trans ihsecond

/-- Nothing that happens before an access of the execution lies outside it. -/
theorem Seen.snoc (hseen : Seen execution thread k) (next : Thread × Access Location Cell) :
    Seen (execution ++ [next]) thread k := by
  obtain ⟨j, own, hown, hbefore⟩ := hseen
  exact ⟨j, own, getElem?_snoc_of_some hown, hbefore.imp_right (·.snoc next)⟩

/-- A thread has seen its own accesses. -/
theorem seen_of_own (hown : execution[k]? = some (thread, access)) : Seen execution thread k :=
  ⟨k, access, hown, .inl rfl⟩

/-- A thread has seen the access that it has just made. -/
theorem seen_last : Seen (execution ++ [(thread, access)]) thread execution.length :=
  seen_of_own List.getElem?_concat_length

/-- What a thread has seen happens before its next access. -/
theorem Seen.before (hseen : Seen execution thread k) :
    HappensBefore (execution ++ [(thread, access)]) k execution.length := by
  obtain ⟨j, own, hown, hbefore⟩ := hseen
  have hlast : HappensBefore (execution ++ [(thread, access)]) j execution.length :=
    .program (List.getElem?_eq_some_iff.mp hown).1 (getElem?_snoc_of_some hown)
      List.getElem?_concat_length
  rcases hbefore with rfl | hbefore
  · exact hlast
  · exact (hbefore.snoc _).trans hlast

/-- A location carries what it did as long as nothing is stored to it. -/
theorem Carried.snoc (hcarried : Carried execution location k)
    {next : Thread × Access Location Cell} (hother : next.2.releases? ≠ some location) :
    Carried (execution ++ [next]) location k := by
  obtain ⟨j, entry, hentry, hreleases, hlast, hbefore⟩ := hcarried
  refine ⟨j, entry, getElem?_snoc_of_some hentry, hreleases, ?_, hbefore.imp_right (·.snoc next)⟩
  intro later hlater other hget
  rcases getElem?_snoc_cases hget with hold | ⟨-, rfl⟩
  · exact hlast later hlater other hold
  · exact hother

/-- What a location carries happens before an access that acquires from it. -/
theorem Carried.before (hcarried : Carried execution location k)
    (hacquires : access.acquires? = some location) :
    HappensBefore (execution ++ [(thread, access)]) k execution.length := by
  obtain ⟨j, ⟨releasing, first⟩, hentry, hreleases, hlast, hbefore⟩ := hcarried
  have hsynchronizes : HappensBefore (execution ++ [(thread, access)]) j execution.length := by
    refine .synchronizes (List.getElem?_eq_some_iff.mp hentry).1 (getElem?_snoc_of_some hentry)
      hreleases List.getElem?_concat_length hacquires fun between hafter hlt entry hget ↦ ?_
    rw [List.getElem?_append_left hlt] at hget
    exact hlast between hafter entry hget
  rcases hbefore with rfl | hbefore
  · exact hsynchronizes
  · exact (hbefore.snoc _).trans hsynchronizes

/-- A thread that acquires from a location has seen what the location carries. -/
theorem Carried.seen (hcarried : Carried execution location k)
    (hacquires : access.acquires? = some location) :
    Seen (execution ++ [(thread, access)]) thread k :=
  ⟨execution.length, access, List.getElem?_concat_length, .inr (hcarried.before hacquires)⟩

/-- A location carries what happens before the access that has just released to it. -/
theorem carried_of_before (hreleases : access.releases? = some location)
    (hbefore : HappensBefore (execution ++ [(thread, access)]) k execution.length) :
    Carried (execution ++ [(thread, access)]) location k := by
  refine ⟨execution.length, _, List.getElem?_concat_length, hreleases, ?_, .inr hbefore⟩
  intro later hlater other hget
  rw [List.getElem?_eq_none (by simp; omega)] at hget
  cases hget

/-- A location carries what the thread that stores to it has seen. -/
theorem Seen.carried (hseen : Seen execution thread k)
    (hreleases : access.releases? = some location) :
    Carried (execution ++ [(thread, access)]) location k :=
  carried_of_before hreleases hseen.before

/-- A read-modify-write leaves a location with what it carried. -/
theorem Carried.update (hcarried : Carried execution location k) :
    Carried (execution ++ [(thread, .update location)]) location k :=
  carried_of_before rfl (hcarried.before rfl)

/-- An execution stays free of races when the next access has seen everything it conflicts with. -/
theorem RaceFree.snoc (hfree : RaceFree execution)
    (hseen : ∀ k entry, execution[k]? = some entry → entry.2.Conflicts access →
      Seen execution thread k) : RaceFree (execution ++ [(thread, access)]) := by
  intro i j first second hlt hfirst hsecond hconflicts
  rcases getElem?_snoc_cases hsecond with hsecond | ⟨rfl, rfl⟩
  · have hend := (List.getElem?_eq_some_iff.mp hsecond).1
    rw [List.getElem?_append_left (Nat.lt_trans hlt hend)] at hfirst
    exact (hfree i j first second hlt hfirst hsecond hconflicts).snoc _
  · rw [List.getElem?_append_left hlt] at hfirst
    exact (hseen i first hfirst hconflicts).before

end Rules

/-! ### Accesses that are not ordered -/

section Closed

variable [DecidableEq Thread] [DecidableEq Location] {execution : Execution Thread Location Cell}

/-- One step of the order as a test: two accesses of one thread, or a release and an acquire of one
location with no release to it in between. -/
def precedes (execution : Execution Thread Location Cell) (i j : ℕ) : Bool :=
  match execution[i]?, execution[j]? with
  | some first, some second => decide (i < j) && (decide (first.1 = second.1) ||
      first.2.releases?.isSome && decide (first.2.releases? = second.2.acquires?) &&
        (List.range j).all fun k ↦ decide (k ≤ i) ||
          decide ((execution[k]?.bind fun entry ↦ entry.2.releases?) ≠ first.2.releases?))
  | _, _ => false

/-- A set of accesses is closed under single steps of the order. -/
def closedUnder (execution : Execution Thread Location Cell) (accesses : List ℕ) : Bool :=
  (List.range execution.length).all fun i ↦ (List.range execution.length).all fun j ↦
    !precedes execution i j || !accesses.contains i || accesses.contains j

/-- What happens after an access lies in every closed set that contains the access. -/
theorem HappensBefore.mem_of_closedUnder {accesses : List ℕ}
    (hclosed : closedUnder execution accesses = true) {i j : ℕ}
    (hbefore : HappensBefore execution i j) (hi : i ∈ accesses) : j ∈ accesses := by
  have hstep : ∀ i < execution.length, ∀ j < execution.length, precedes execution i j = true →
      i ∈ accesses → j ∈ accesses := by
    simp only [closedUnder, List.all_eq_true, List.mem_range, Bool.or_eq_true, Bool.not_eq_true',
      List.contains_iff_mem] at hclosed
    intro i hi j hj hprecedes hmem
    rcases hclosed i hi j hj with (hnot | hnot) | hmem'
    · rw [hprecedes] at hnot
      cases hnot
    · rw [← Bool.not_eq_true, List.contains_iff_mem] at hnot
      exact absurd hmem hnot
    · exact hmem'
  induction hbefore with
  | program hlt hfirst hsecond =>
    refine hstep _ (List.getElem?_eq_some_iff.mp hfirst).1 _
      (List.getElem?_eq_some_iff.mp hsecond).1 ?_ hi
    simp [precedes, hfirst, hsecond, hlt]
  | @synchronizes i j releasing acquiring first second location hlt hfirst hreleases hsecond
      hacquires hlast =>
    refine hstep _ (List.getElem?_eq_some_iff.mp hfirst).1 _
      (List.getElem?_eq_some_iff.mp hsecond).1 ?_ hi
    have hbetween : ∀ k < j, k ≤ i ∨
        (execution[k]?.bind fun entry ↦ entry.2.releases?) ≠ some location := by
      intro k hk
      refine (Nat.lt_or_ge i k).symm.imp_right fun hafter heq ↦ ?_
      obtain ⟨entry, hentry, hsame⟩ := Option.bind_eq_some_iff.mp heq
      exact hlast k hafter hk entry hentry hsame
    simpa [precedes, hfirst, hsecond, hlt, hreleases, hacquires] using Or.inr hbetween
  | trans _ _ ihfirst ihsecond => exact ihsecond (ihfirst hi)

end Closed

/-! ### Who has to have seen what -/

/-- Who can have seen an access: a thread, or a location for those that will acquire from it. -/
inductive Holder (Thread Location : Type*)
  | thread (thread : Thread)
  | location (location : Location)

/-- A holder has seen an access. -/
def Has (execution : Execution Thread Location Cell) : Holder Thread Location → ℕ → Prop
  | .thread thread, k => Seen execution thread k
  | .location location, k => Carried execution location k

/-- Every holder has seen the accesses that it is required to have seen. -/
def Informed (execution : Execution Thread Location Cell)
    (requires : Holder Thread Location → ℕ → Prop) : Prop :=
  ∀ holder k, requires holder k → Has execution holder k

/-- Where a requirement after the next access can come from: it stood before, unless the access
stores to that location; the thread acquires it from a location; or a location has it from the
thread, which has seen it or made it. -/
inductive Supplied (execution : Execution Thread Location Cell)
    (requires : Holder Thread Location → ℕ → Prop) (thread : Thread)
    (access : Access Location Cell) : Holder Thread Location → ℕ → Prop
  | kept {holder : Holder Thread Location} {k : ℕ} (hrequires : requires holder k)
      (hstore : ∀ location, holder = .location location → access ≠ .store location) :
      Supplied execution requires thread access holder k
  | acquired {location : Location} {k : ℕ} (hrequires : requires (.location location) k)
      (hacquires : access.acquires? = some location) :
      Supplied execution requires thread access (.thread thread) k
  | released {location : Location} {k : ℕ} (hrequires : requires (.thread thread) k)
      (hreleases : access.releases? = some location) :
      Supplied execution requires thread access (.location location) k
  | releasedOwn {location : Location} {k : ℕ} {own : Access Location Cell}
      (hown : execution[k]? = some (thread, own)) (hreleases : access.releases? = some location) :
      Supplied execution requires thread access (.location location) k

/-- The step rule. Assumes: every requirement on an earlier access is supplied by the next one, and
only the thread of the next access is required to have seen it. -/
theorem Informed.snoc {execution : Execution Thread Location Cell}
    {requires requires' : Holder Thread Location → ℕ → Prop} {thread : Thread}
    {access : Access Location Cell} (hinformed : Informed execution requires)
    (hearlier : ∀ holder k, requires' holder k → k ≠ execution.length →
      Supplied execution requires thread access holder k)
    (hlast : ∀ holder, requires' holder execution.length → holder = .thread thread) :
    Informed (execution ++ [(thread, access)]) requires' := by
  intro holder k hrequires
  by_cases hk : k = execution.length
  · subst hk
    obtain rfl := hlast holder hrequires
    exact seen_last
  · cases hearlier holder k hrequires hk with
    | kept hbefore hstore =>
      have hhas := hinformed holder k hbefore
      cases holder with
      | thread other => exact hhas.snoc _
      | location location =>
        by_cases hupdate : access = .update location
        · rw [hupdate]
          exact hhas.update
        · refine hhas.snoc fun hreleases ↦ ?_
          have hother := hstore location rfl
          cases access <;> simp_all [Access.releases?]
    | acquired hbefore hacquires => exact (hinformed _ k hbefore).seen hacquires
    | released hbefore hreleases => exact (hinformed _ k hbefore).carried hreleases
    | releasedOwn hown hreleases => exact (seen_of_own hown).carried hreleases

end AarnnNsys.Lib
