import Mathlib.Data.List.Basic

/-!
# Command lines

A command line is read word by word: a word is a flag, or announces a value that is read from the
word behind it, and each of them assigns a field of a record of options. `readArguments` is that
loop. `readArguments_eq_ok_iff` says which command lines are read, and as what: those that spell a
list of assignments, and every field has the value that was assigned to it last, or else its value
from before. So only the last use of an option counts, and options for different fields may stand in
any order: `readArguments_flatMap` reads a record back from any command line that spells each of its
fields at least once.
-/

set_option autoImplicit false
set_option relaxedAutoImplicit false

namespace AarnnNsys.Lib

/-! ### Records -/

/-- A record whose fields are told apart by keys. -/
structure Record (Conf Key : Type) (Value : Key → Type) where
  get : Conf → (key : Key) → Value key
  set : Conf → (key : Key) → Value key → Conf
  get_set_self : ∀ conf key value, get (set conf key value) key = value
  get_set_ne : ∀ conf key value other, other ≠ key → get (set conf key value) other = get conf other
  ext : ∀ conf conf', (∀ key, get conf key = get conf' key) → conf = conf'

/-- The assignment of a value to a field. -/
abbrev Assignment {Key : Type} (Value : Key → Type) := (key : Key) × Value key

section Record

variable {Conf Key : Type} {Value : Key → Type} [DecidableEq Key]

/-- The value that was assigned to a field last. -/
def lastValue (key : Key) : List (Assignment Value) → Option (Value key)
  | [] => none
  | use :: rest =>
    (lastValue key rest).or (if heq : use.1 = key then some (heq ▸ use.2) else none)

/-- One assignment after the other. -/
def Record.assign (record : Record Conf Key Value) (conf : Conf) (uses : List (Assignment Value)) :
    Conf :=
  uses.foldl (fun conf use ↦ record.set conf use.1 use.2) conf

/-- After assignments a field has the last value. -/
theorem Record.get_assign (record : Record Conf Key Value) (conf : Conf)
    (uses : List (Assignment Value)) (key : Key) :
    record.get (record.assign conf uses) key =
      (lastValue key uses).getD (record.get conf key) := by
  induction uses generalizing conf with
  | nil => rfl
  | cons use rest ih =>
    rw [Record.assign, List.foldl_cons, ← Record.assign, ih, lastValue]
    rcases lastValue key rest with _ | value
    · obtain ⟨used, value⟩ := use
      by_cases heq : used = key
      · subst heq
        simp [record.get_set_self]
      · simp [heq, record.get_set_ne conf used value key (Ne.symm heq)]
    · rfl

/-- The last value of a field is one of those assigned to it. -/
theorem mem_of_lastValue {key : Key} {uses : List (Assignment Value)} {value : Value key}
    (hlast : lastValue key uses = some value) : ⟨key, value⟩ ∈ uses := by
  induction uses with
  | nil => cases hlast
  | cons use rest ih =>
    rw [lastValue] at hlast
    rcases hrest : lastValue key rest with _ | later
    · obtain ⟨used, first⟩ := use
      rw [hrest, Option.none_or] at hlast
      split at hlast
      next heq =>
        subst heq
        cases hlast
        exact List.mem_cons_self
      next => cases hlast
    · rw [hrest, Option.some_or] at hlast
      exact List.mem_cons_of_mem _ (ih (hrest.trans hlast))

/-- A field that no value was assigned to is not used. -/
theorem lastValue_eq_none {key : Key} {uses : List (Assignment Value)}
    (hlast : lastValue key uses = none) {value : Value key} : ⟨key, value⟩ ∉ uses := by
  induction uses with
  | nil => exact List.not_mem_nil
  | cons use rest ih =>
    obtain ⟨hrest, hfirst⟩ := Option.or_eq_none_iff.mp hlast
    rintro (_ | ⟨_, hmem⟩)
    · simp at hfirst
    · exact ih hrest hmem

end Record

/-! ### Reading -/

/-- What a word asks for: an assignment, or one with the value that the next word is read as. -/
inductive Argument (Word Use : Type)
  | flag (use : Use)
  | value (read : Word → Option Use)

/-- Why a command line is not read: a word that is not known, an option without its value, or a
value that cannot be read. -/
inductive Misuse
  | unknown
  | missing
  | unreadable
  deriving DecidableEq

section Read

variable {Word Conf Key : Type} {Value : Key → Type}

/-- The loop over the words of a command line. -/
def readArguments (argument? : Word → Option (Argument Word (Assignment Value)))
    (record : Record Conf Key Value) (conf : Conf) : List Word → Except Misuse Conf
  | [] => .ok conf
  | word :: rest =>
    match argument? word with
    | none => .error .unknown
    | some (.flag use) => readArguments argument? record (record.set conf use.1 use.2) rest
    | some (.value read) =>
      match rest with
      | [] => .error .missing
      | text :: rest =>
        match read text with
        | none => .error .unreadable
        | some use => readArguments argument? record (record.set conf use.1 use.2) rest

/-- The words spell the assignments. -/
inductive Spells (argument? : Word → Option (Argument Word (Assignment Value))) :
    List Word → List (Assignment Value) → Prop
  | nil : Spells argument? [] []
  | flag {word : Word} {use : Assignment Value} {rest : List Word}
      {uses : List (Assignment Value)} (hflag : argument? word = some (.flag use))
      (hrest : Spells argument? rest uses) : Spells argument? (word :: rest) (use :: uses)
  | value {word text : Word} {read : Word → Option (Assignment Value)} {use : Assignment Value}
      {rest : List Word} {uses : List (Assignment Value)}
      (hvalue : argument? word = some (.value read)) (hread : read text = some use)
      (hrest : Spells argument? rest uses) : Spells argument? (word :: text :: rest) (use :: uses)

variable {argument? : Word → Option (Argument Word (Assignment Value))}
  {record : Record Conf Key Value}

/-- One command line behind the other. -/
theorem Spells.append {words words' : List Word} {uses uses' : List (Assignment Value)}
    (hfirst : Spells argument? words uses) (hlast : Spells argument? words' uses') :
    Spells argument? (words ++ words') (uses ++ uses') := by
  induction hfirst with
  | nil => exact hlast
  | flag hflag _ ih => exact .flag hflag ih
  | value hvalue hread _ ih => exact .value hvalue hread ih

/-- A command line is read if it spells something, and then as that. -/
theorem readArguments_eq_ok_iff_spells {conf conf' : Conf} {words : List Word} :
    readArguments argument? record conf words = .ok conf' ↔
      ∃ uses, Spells argument? words uses ∧ conf' = record.assign conf uses := by
  constructor
  · intro hread
    fun_induction readArguments argument? record conf words with
    | case1 conf =>
      cases hread
      exact ⟨[], .nil, rfl⟩
    | case2 => cases hread
    | case3 conf word rest use hflag ih =>
      obtain ⟨uses, hspells, hconf⟩ := ih hread
      exact ⟨use :: uses, .flag hflag hspells, hconf⟩
    | case4 => cases hread
    | case5 => cases hread
    | case6 conf word read hvalue text rest use hused ih =>
      obtain ⟨uses, hspells, hconf⟩ := ih hread
      exact ⟨use :: uses, .value hvalue hused hspells, hconf⟩
  · rintro ⟨uses, hspells, rfl⟩
    induction hspells generalizing conf with
    | nil => rfl
    | flag hflag _ ih =>
      rw [readArguments, hflag]
      exact ih
    | value hvalue hread _ ih =>
      simp only [readArguments, hvalue, hread]
      exact ih

/-- The fields of a record, each written as the words that spell it or as nothing if it is as
before, spell values of these fields and leave out only what is as before. -/
theorem spells_flatMap {conf conf' : Conf} {spell : Key → List Word}
    (hspell : ∀ key, Spells argument? (spell key) [⟨key, record.get conf' key⟩] ∨
      spell key = [] ∧ record.get conf' key = record.get conf key) (order : List Key) :
    ∃ uses, Spells argument? (order.flatMap spell) uses ∧
      (∀ use ∈ uses, use.2 = record.get conf' use.1) ∧
      ∀ key ∈ order, ⟨key, record.get conf' key⟩ ∈ uses ∨
        record.get conf' key = record.get conf key := by
  induction order with
  | nil => exact ⟨[], .nil, by simp, by simp⟩
  | cons key rest ih =>
    obtain ⟨uses, huses, hvalues, hcovers⟩ := ih
    rcases hspell key with hwords | ⟨hwords, hsame⟩
    · refine ⟨⟨key, record.get conf' key⟩ :: uses, hwords.append huses, ?_, ?_⟩
      · rintro use (_ | ⟨_, hmem⟩)
        · rfl
        · exact hvalues use hmem
      · rintro other (_ | ⟨_, hmem⟩)
        · exact .inl List.mem_cons_self
        · exact (hcovers other hmem).imp_left (List.mem_cons_of_mem _)
    · refine ⟨uses, by rwa [List.flatMap_cons, hwords], hvalues, ?_⟩
      rintro other (_ | ⟨_, hmem⟩)
      · exact .inr hsame
      · exact hcovers other hmem

variable [DecidableEq Key]

/-- A command line is read if it spells something, and every field has the value that was assigned
to it last. -/
theorem readArguments_eq_ok_iff {conf conf' : Conf} {words : List Word} :
    readArguments argument? record conf words = .ok conf' ↔
      ∃ uses, Spells argument? words uses ∧
        ∀ key, record.get conf' key = (lastValue key uses).getD (record.get conf key) := by
  rw [readArguments_eq_ok_iff_spells]
  constructor
  · rintro ⟨uses, hspells, rfl⟩
    exact ⟨uses, hspells, record.get_assign conf uses⟩
  · rintro ⟨uses, hspells, hlast⟩
    exact ⟨uses, hspells, record.ext _ _ fun key ↦
      (hlast key).trans (record.get_assign conf uses key).symm⟩

/-- A record is read back from its fields, in any order and any number of times. Assumes: a field is
written as the words that spell it, or as nothing if it is as before. -/
theorem readArguments_flatMap {conf conf' : Conf} {spell : Key → List Word}
    (hspell : ∀ key, Spells argument? (spell key) [⟨key, record.get conf' key⟩] ∨
      spell key = [] ∧ record.get conf' key = record.get conf key)
    {order : List Key} (hall : ∀ key, key ∈ order) :
    readArguments argument? record conf (order.flatMap spell) = .ok conf' := by
  obtain ⟨uses, huses, hvalues, hcovers⟩ := spells_flatMap hspell order
  refine readArguments_eq_ok_iff.mpr ⟨uses, huses, fun key ↦ ?_⟩
  rcases hlast : lastValue key uses with _ | value
  · exact (hcovers key (hall key)).resolve_left (lastValue_eq_none hlast)
  · exact (hvalues _ (mem_of_lastValue hlast)).symm

end Read

end AarnnNsys.Lib
