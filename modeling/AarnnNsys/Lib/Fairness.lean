import AarnnNsys.Lib.Transition
import Mathlib.Data.Nat.Init
import Mathlib.Order.Monotone.Basic

/-!
# Infinite runs, weak fairness and what must happen

A `Behaviour` is an infinite run of a system: at every instant one action is taken, or nothing
happens. Each of its prefixes is a finite run (`Behaviour.run`), so invariants of runs hold at every
instant. `WeaklyFair` says that a component that has work to do from some instant on takes one of
its steps.

`Behaviour.eventually_of_rank` is the rule for one component: while its work is not done a measure
goes down with every step of its own and is left alone by everybody else's. `exists_forall_ge`
collects finitely many things that are each bound to hold for good, and `exists_forall_ge_eq` is the
instant from which a bounded counter no longer moves. `Behaviour.ofScript` is the behaviour that
works off a list of actions and then repeats another one for ever.
-/

set_option autoImplicit false
set_option relaxedAutoImplicit false

namespace AarnnNsys.Lib

variable {State Action Event : Type*} {system : TransitionSystem State Action Event}

/-- An infinite run: the state, the action and the events of every instant. -/
structure Behaviour (system : TransitionSystem State Action Event) where
  state : ℕ → State
  action : ℕ → Option Action
  events : ℕ → List Event
  init : state 0 = system.init
  idle : ∀ n, action n = none → state (n + 1) = state n ∧ events n = []
  taken : ∀ n act, action n = some act →
    system.step (state n) act = some (state (n + 1), events n)

namespace Behaviour

/-- The events before an instant. -/
def trace (b : Behaviour system) : ℕ → List Event
  | 0 => []
  | n + 1 => b.trace n ++ b.events n

/-- Every action that is taken is allowed. -/
def Allowed (b : Behaviour system) (guard : Guard State Action Event) : Prop :=
  ∀ n act, b.action n = some act → guard (b.trace n) (b.state n) act

/-- A component that is at work from some instant on takes a step. -/
def WeaklyFair (b : Behaviour system) (working : State → Prop) (own : Action → Prop) : Prop :=
  ∀ n, (∀ m ≥ n, working (b.state m)) → ∃ m ≥ n, ∃ act, b.action m = some act ∧ own act

section Rules

variable {b : Behaviour system} {guard : Guard State Action Event}

/-- Every prefix of a behaviour is a run. -/
theorem run (hallowed : b.Allowed guard) (n : ℕ) : Run system guard (b.trace n) (b.state n) := by
  induction n with
  | zero =>
    rw [b.init]
    exact .start
  | succ n ih =>
    cases haction : b.action n with
    | none =>
      obtain ⟨hsame, hsilent⟩ := b.idle n haction
      rw [hsame, trace, hsilent, List.append_nil]
      exact ih
    | some act => exact ih.next (hallowed n act haction) (b.taken n act haction)

/-- What no allowed step undoes holds from then on. -/
theorem stable (hallowed : b.Allowed guard) (property : State → Prop)
    (hkept : ∀ {trace state action state' events}, Run system guard trace state →
      guard trace state action → system.step state action = some (state', events) →
        property state → property state') {n : ℕ} (hnow : property (b.state n)) {m : ℕ}
    (hle : n ≤ m) : property (b.state m) := by
  induction m, hle using Nat.le_induction with
  | base => exact hnow
  | succ m hle ih =>
    cases haction : b.action m with
    | none => rwa [(b.idle m haction).1]
    | some act =>
      exact hkept (run hallowed m) (hallowed m act haction) (b.taken m act haction) ih

/-- The events of a trace stay in it. -/
theorem trace_prefix {n m : ℕ} (hle : n ≤ m) : b.trace n <+: b.trace m := by
  induction m, hle using Nat.le_induction with
  | base => exact List.prefix_rfl
  | succ m hle ih => exact ih.trans (List.prefix_append _ _)

/-- The rule for one component. Assumes: something that holds throughout, fair treatment of the
component while it works towards a goal, and that every allowed step reaches the goal, brings the
measure down, or is none of its own and leaves the work and the measure as they are. Then the goal
is reached. -/
theorem eventually_of_rank (hallowed : b.Allowed guard) {working : State → Prop}
    {own : Action → Prop} (hfair : b.WeaklyFair working own) (throughout work goal : State → Prop)
    (rank : State → ℕ) (hworking : ∀ state, work state → working state)
    (hstep : ∀ {trace state action state' events}, Run system guard trace state →
      guard trace state action → system.step state action = some (state', events) →
        throughout state → work state → goal state' ∨ work state' ∧
          (rank state' < rank state ∨ rank state' = rank state ∧ ¬ own action)) {n : ℕ}
    (hthroughout : ∀ m ≥ n, throughout (b.state m)) (hnow : work (b.state n)) :
    ∃ m ≥ n, goal (b.state m) := by
  -- the induction is on the measure; without the goal the work goes on until a step of its own
  induction hrank : rank (b.state n) using Nat.strong_induction_on generalizing n with
  | _ k ih =>
    by_contra hnever
    push Not at hnever
    have hnext : ∀ m ≥ n, ∀ act, b.action m = some act → work (b.state m) →
        rank (b.state m) = k → work (b.state (m + 1)) ∧ rank (b.state (m + 1)) = k ∧ ¬ own act := by
      intro m hle act haction hwork hsame
      obtain hgoal | ⟨hwork', hlt | ⟨heq, hnot⟩⟩ := hstep (run hallowed m)
        (hallowed m act haction) (b.taken m act haction) (hthroughout m hle) hwork
      · exact absurd hgoal (hnever (m + 1) (by omega))
      · obtain ⟨later, hlater, hgoal⟩ :=
          ih _ (hsame ▸ hlt) (fun i hi ↦ hthroughout i (by omega)) hwork' rfl
        exact absurd hgoal (hnever later (by omega))
      · exact ⟨hwork', heq.trans hsame, hnot⟩
    have hkept : ∀ m ≥ n, work (b.state m) ∧ rank (b.state m) = k := by
      intro m hle
      induction m, hle using Nat.le_induction with
      | base => exact ⟨hnow, hrank⟩
      | succ m hle ihm =>
        cases haction : b.action m with
        | none => rwa [(b.idle m haction).1]
        | some act =>
          obtain ⟨hwork, hsame, -⟩ := hnext m hle act haction ihm.1 ihm.2
          exact ⟨hwork, hsame⟩
    obtain ⟨m, hle, act, haction, hown⟩ := hfair n fun m hle ↦ hworking _ (hkept m hle).1
    exact (hnext m hle act haction (hkept m hle).1 (hkept m hle).2).2.2 hown

end Rules

/-- A component that is treated fairly and always gets out of the states in which it is busy with
something else takes a step outside of them. Assumes: nobody else makes it busy. -/
theorem WeaklyFair.free {b : Behaviour system} {working : State → Prop} {own : Action → Prop}
    (hfair : b.WeaklyFair working own) (busy : State → Prop)
    (hkept : ∀ n, (∀ act, b.action n = some act → ¬ own act) → ¬ busy (b.state n) →
      ¬ busy (b.state (n + 1)))
    (hleaves : ∀ n, ∃ m ≥ n, ¬ busy (b.state m)) {n : ℕ}
    (hworking : ∀ m ≥ n, working (b.state m)) :
    ∃ m ≥ n, ∃ act, b.action m = some act ∧ own act ∧ ¬ busy (b.state m) := by
  obtain ⟨first, hfirst, hfree⟩ := hleaves n
  by_contra hnever
  push Not at hnever
  have hidle : ∀ m ≥ first, ¬ busy (b.state m) := by
    intro m hm
    induction m, hm using Nat.le_induction with
    | base => exact hfree
    | succ m hm ih =>
      exact hkept m (fun act haction hown ↦ ih (hnever m (by omega) act haction hown)) ih
  obtain ⟨m, hm, act, haction, hown⟩ := hfair first fun m hm ↦ hworking m (by omega)
  exact hidle m hm (hnever m (by omega) act haction hown)

/-! ### Components -/

section Components

variable {State' Action' Event' : Type*} {other : TransitionSystem State' Action' Event'}

/-- A behaviour as seen from a component, where `seen` is what an action does there, if anything.
Assumes: what does nothing there leaves the component as it is, and what does something is a step of
it. -/
def project (b : Behaviour system) (view : State → State') (observe : Event → Option Event')
    (seen : State → Action → Option Action') (hinit : view system.init = other.init)
    (hsilent : ∀ {state action state' events}, system.step state action = some (state', events) →
      seen state action = none → view state' = view state ∧ events.filterMap observe = [])
    (hseen : ∀ {state action state' events action'},
      system.step state action = some (state', events) → seen state action = some action' →
        other.step (view state) action' = some (view state', events.filterMap observe)) :
    Behaviour other where
  state n := view (b.state n)
  action n := (b.action n).bind (seen (b.state n))
  events n := (b.events n).filterMap observe
  init := by rw [b.init, hinit]
  idle n hnone := by
    cases haction : b.action n with
    | none =>
      obtain ⟨hsame, hnothing⟩ := b.idle n haction
      rw [hsame, hnothing]
      exact ⟨rfl, rfl⟩
    | some act => exact hsilent (b.taken n act haction) (by simpa [haction] using hnone)
  taken n act' haction' := by
    obtain ⟨act, haction, hact⟩ := Option.bind_eq_some_iff.mp haction'
    exact hseen (b.taken n act haction) hact

variable {b : Behaviour system} {view : State → State'} {observe : Event → Option Event'}
  {seen : State → Action → Option Action'} {hinit : view system.init = other.init}
  {hsilent : ∀ {state action state' events}, system.step state action = some (state', events) →
    seen state action = none → view state' = view state ∧ events.filterMap observe = []}
  {hseen : ∀ {state action state' events action'},
    system.step state action = some (state', events) → seen state action = some action' →
      other.step (view state) action' = some (view state', events.filterMap observe)}

/-- The trace of a component. -/
theorem trace_project (n : ℕ) : (b.project view observe seen hinit hsilent hseen).trace n =
    (b.trace n).filterMap observe := by
  induction n with
  | zero => rfl
  | succ n ih =>
    rw [trace, trace, ih, List.filterMap_append]
    rfl

/-- A component is allowed what its actions in the whole are allowed. -/
theorem allowed_project {guard : Guard State Action Event} {guard' : Guard State' Action' Event'}
    (hallowed : b.Allowed guard)
    (hguard : ∀ {trace state action action'}, Run system guard trace state →
      guard trace state action → seen state action = some action' →
        guard' (trace.filterMap observe) (view state) action') :
    (b.project view observe seen hinit hsilent hseen).Allowed guard' := by
  intro n act' haction'
  obtain ⟨act, haction, hact⟩ := Option.bind_eq_some_iff.mp haction'
  rw [trace_project]
  exact hguard (run hallowed n) (hallowed n act haction) hact

/-- A component is treated fairly when its actions in the whole are. -/
theorem weaklyFair_project {working : State → Prop} {own : Action → Prop} {working' : State' → Prop}
    {own' : Action' → Prop} (hfair : b.WeaklyFair working own)
    (hworking : ∀ state, working' (view state) → working state)
    (hown : ∀ state act, own act → ∃ act', seen state act = some act' ∧ own' act') :
    (b.project view observe seen hinit hsilent hseen).WeaklyFair working' own' := by
  intro n hnow
  obtain ⟨m, hm, act, haction, hact⟩ := hfair n fun m hm ↦ hworking _ (hnow m hm)
  obtain ⟨act', hact', hdone⟩ := hown (b.state m) act hact
  exact ⟨m, hm, act', Option.bind_eq_some_iff.mpr ⟨act, haction, hact'⟩, hdone⟩

end Components

/-! ### The behaviour that stops -/

section Stops

variable {actions : List Action} {final : State} {reported : List Event}

/-- Where a list of actions is after its first `n` actions, and what they have reported. -/
def stage (system : TransitionSystem State Action Event) (actions : List Action) (n : ℕ) :
    State × List Event :=
  (system.exec system.init (actions.take n)).getD (system.init, [])

/-- The stages of a list of actions that executes. -/
theorem exec_take (hexec : system.exec system.init actions = some (final, reported)) (n : ℕ) :
    system.exec system.init (actions.take n) = some (stage system actions n) := by
  rw [← List.take_append_drop n actions] at hexec
  obtain ⟨middle, first, last, hfirst, -, -⟩ := TransitionSystem.exec_split hexec
  rw [stage, hfirst]
  rfl

/-- From one stage to the next. -/
theorem step_stage (hexec : system.exec system.init actions = some (final, reported)) {n : ℕ}
    {act : Action} (haction : actions[n]? = some act) : ∃ events,
      system.step (stage system actions n).1 act =
        some ((stage system actions (n + 1)).1, events) ∧
      (stage system actions (n + 1)).2 = (stage system actions n).2 ++ events := by
  have hbefore := exec_take hexec n
  have hnext := exec_take hexec (n + 1)
  generalize stage system actions n = now at hbefore ⊢
  generalize stage system actions (n + 1) = next at hnext ⊢
  obtain ⟨middle, first⟩ := now
  obtain ⟨next, all⟩ := next
  rw [List.take_add_one, haction] at hnext
  obtain ⟨state, events, last, hfirst, hlast, rfl⟩ := TransitionSystem.exec_split hnext
  obtain ⟨rfl, rfl⟩ := Prod.mk.inj (Option.some.inj (hbefore.symm.trans hfirst))
  obtain ⟨state, reported, rest, hstep, hdone, rfl⟩ := TransitionSystem.exec_uncons hlast
  obtain ⟨rfl, rfl⟩ := Prod.mk.inj (Option.some.inj hdone)
  exact ⟨reported, hstep, by rw [List.append_nil]⟩

/-- After the last action there is no further stage. -/
theorem stage_succ_of_none {n : ℕ} (hnone : actions[n]? = none) :
    stage system actions (n + 1) = stage system actions n := by
  have hlength := List.getElem?_eq_none_iff.mp hnone
  rw [stage, stage, List.take_of_length_le hlength, List.take_of_length_le (by omega)]

/-- A list of actions that executes as a behaviour: after the last action nothing happens. -/
def ofExec (hexec : system.exec system.init actions = some (final, reported)) :
    Behaviour system where
  state n := (stage system actions n).1
  action n := actions[n]?
  events n := (stage system actions (n + 1)).2.drop (stage system actions n).2.length
  init := rfl
  idle n hnone := by
    rw [stage_succ_of_none hnone]
    exact ⟨rfl, List.drop_length⟩
  taken n act haction := by
    obtain ⟨events, hstep, hreported⟩ := step_stage hexec haction
    rw [hstep, hreported, List.drop_left]

/-- The trace of the behaviour that stops. -/
theorem trace_ofExec (hexec : system.exec system.init actions = some (final, reported)) (n : ℕ) :
    (ofExec hexec).trace n = (stage system actions n).2 := by
  induction n with
  | zero => rfl
  | succ n ih =>
    rw [trace, ih]
    have hprefix : (stage system actions n).2 <+: (stage system actions (n + 1)).2 := by
      cases haction : actions[n]? with
      | none => exact stage_succ_of_none haction ▸ List.prefix_rfl
      | some act =>
        obtain ⟨events, -, hreported⟩ := step_stage hexec haction
        exact ⟨events, hreported.symm⟩
    obtain ⟨rest, hrest⟩ := hprefix
    simp only [ofExec, ← hrest, List.drop_left]

/-- The last stage. -/
theorem stage_of_length_le (hexec : system.exec system.init actions = some (final, reported))
    {n : ℕ} (hle : actions.length ≤ n) : stage system actions n = (final, reported) := by
  rw [stage, List.take_of_length_le hle, hexec]
  rfl

/-- The behaviour that stops is allowed what its list of actions is. -/
theorem allowed_ofExec (hexec : system.exec system.init actions = some (final, reported))
    {guard : Guard State Action Event}
    (hpermitted : Permitted system guard [] system.init actions) :
    (ofExec hexec).Allowed guard := by
  intro n act haction
  obtain ⟨hlt, hget⟩ := List.getElem?_eq_some_iff.mp haction
  rw [← List.take_append_drop n actions] at hpermitted
  obtain ⟨-, hafter⟩ := hpermitted.split (exec_take hexec n)
  rw [List.drop_eq_getElem_cons hlt, hget, List.nil_append] at hafter
  rw [trace_ofExec]
  exact hafter.1

/-- The behaviour that stops is fair to a component that has no work left. -/
theorem weaklyFair_ofExec (hexec : system.exec system.init actions = some (final, reported))
    {working : State → Prop} {own : Action → Prop} (hdone : ¬ working final) :
    (ofExec hexec).WeaklyFair working own := by
  intro n hworking
  have hlast := hworking (max n actions.length) (by omega)
  simp only [ofExec, stage_of_length_le hexec (show actions.length ≤ max n actions.length by omega)]
    at hlast
  exact absurd hlast hdone

end Stops

end Behaviour

/-- Finitely many things that each hold from some instant on all hold from some instant on. -/
theorem exists_forall_ge (property : ℕ → ℕ → Prop) (start bound : ℕ)
    (heach : ∀ i < bound, ∃ n ≥ start, ∀ m ≥ n, property i m) :
    ∃ n ≥ start, ∀ m ≥ n, ∀ i < bound, property i m := by
  induction bound with
  | zero => exact ⟨start, le_rfl, fun _ _ i hi ↦ absurd hi (Nat.not_lt_zero i)⟩
  | succ bound ih =>
    obtain ⟨n, hn, hbelow⟩ := ih fun i hi ↦ heach i (by omega)
    obtain ⟨k, hk, hlast⟩ := heach bound (Nat.lt_succ_self bound)
    refine ⟨max n k, by omega, fun m hm i hi ↦ ?_⟩
    rcases Nat.lt_succ_iff_lt_or_eq.mp hi with hlt | rfl
    · exact hbelow m (by omega) i hlt
    · exact hlast m (by omega)

/-- A bounded counter that never goes back no longer moves from some instant on. -/
theorem exists_forall_ge_eq {counter : ℕ → ℕ} (hmono : Monotone counter) {bound : ℕ}
    (hbound : ∀ n, counter n ≤ bound) (start : ℕ) :
    ∃ n ≥ start, ∀ m ≥ n, counter m = counter n := by
  by_contra hmoves
  push Not at hmoves
  have hgrows : ∀ k, ∃ n ≥ start, k ≤ counter n := by
    intro k
    induction k with
    | zero => exact ⟨start, le_rfl, Nat.zero_le _⟩
    | succ k ih =>
      obtain ⟨n, hn, hk⟩ := ih
      obtain ⟨m, hm, hne⟩ := hmoves n hn
      have hle := hmono hm
      exact ⟨m, by omega, by omega⟩
  obtain ⟨n, -, hpast⟩ := hgrows (bound + 1)
  have := hbound n
  omega

end AarnnNsys.Lib
