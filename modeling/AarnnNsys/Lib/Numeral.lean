import Mathlib.Data.List.Forall2
import Mathlib.Tactic.SplitIfs

/-!
# Numbers written in digits

`readDigits` reads a number digit by digit, most significant first, and gives up at a symbol that is
no digit and at a multiplication or addition that leaves the range of the type it reads into. The
digits only ever make the number larger, so it gives up for the range exactly if the number itself
is out of it: `readDigits_eq_some_iff`. `forall₂_toDigits` says that the digits that a number is
written with stand for it, and `digitsValue_zeros` that zeros in front of them change nothing.
-/

set_option autoImplicit false
set_option relaxedAutoImplicit false

namespace AarnnNsys.Lib

/-- The number that digits stand for behind `acc`. -/
def digitsValue (radix : ℕ) (acc : ℕ) (digits : List ℕ) : ℕ :=
  digits.foldl (fun acc digit ↦ acc * radix + digit) acc

/-- Arithmetic that fails from a limit on. -/
def below (limit n : ℕ) : Option ℕ := if n < limit then some n else none

/-- Reads a number behind `acc`, with every operation checked against a limit. -/
def readDigits {Symbol : Type*} (digit? : Symbol → Option ℕ) (radix limit : ℕ) :
    ℕ → List Symbol → Option ℕ
  | acc, [] => some acc
  | acc, symbol :: rest => do
    let shifted ← below limit (acc * radix)
    let digit ← digit? symbol
    let sum ← below limit (shifted + digit)
    readDigits digit? radix limit sum rest

/-- The symbols are digits. -/
def AreDigits {Symbol : Type*} (digit? : Symbol → Option ℕ) : List Symbol → List ℕ → Prop :=
  List.Forall₂ fun symbol digit ↦ digit? symbol = some digit

@[simp] theorem below_eq_some_iff {limit n m : ℕ} : below limit n = some m ↔ n < limit ∧ n = m := by
  simp [below]

section Value

variable {radix acc : ℕ} {digits rest : List ℕ}

@[simp] theorem digitsValue_nil (radix acc : ℕ) : digitsValue radix acc [] = acc := rfl

@[simp] theorem digitsValue_cons (radix acc digit : ℕ) (rest : List ℕ) :
    digitsValue radix acc (digit :: rest) = digitsValue radix (acc * radix + digit) rest := rfl

@[simp] theorem digitsValue_append (radix acc : ℕ) (digits rest : List ℕ) :
    digitsValue radix acc (digits ++ rest) =
      digitsValue radix (digitsValue radix acc digits) rest :=
  List.foldl_append

/-- Digits never make a number smaller. -/
theorem le_digitsValue (hradix : 0 < radix) : acc ≤ digitsValue radix acc digits := by
  induction digits generalizing acc with
  | nil => exact Nat.le_refl acc
  | cons digit rest ih =>
    have hshift : acc ≤ acc * radix := Nat.le_mul_of_pos_right acc hradix
    exact Nat.le_trans (Nat.le_trans hshift (Nat.le_add_right _ digit)) ih

/-- Zeros in front of a number change nothing. -/
theorem digitsValue_zeros (radix n : ℕ) (digits : List ℕ) :
    digitsValue radix 0 (List.replicate n 0 ++ digits) = digitsValue radix 0 digits := by
  induction n with
  | zero => rfl
  | succ n ih =>
    rw [List.replicate_succ, List.cons_append, digitsValue_cons, Nat.zero_mul, Nat.add_zero, ih]

end Value

section Read

variable {Symbol : Type*} {digit? : Symbol → Option ℕ} {radix limit : ℕ}

/-- What is read: the number that the symbols stand for, if they are digits and the number is below
the limit. -/
theorem readDigits_eq_some_iff (hradix : 0 < radix) {acc n : ℕ} (hacc : acc < limit)
    {symbols : List Symbol} :
    readDigits digit? radix limit acc symbols = some n ↔
      ∃ digits, AreDigits digit? symbols digits ∧ digitsValue radix acc digits = n ∧ n < limit := by
  induction symbols generalizing acc with
  | nil =>
    simp only [readDigits, Option.some.injEq, AreDigits, List.forall₂_nil_left_iff, exists_eq_left,
      digitsValue_nil]
    exact ⟨fun heq ↦ ⟨heq, heq ▸ hacc⟩, fun hread ↦ hread.1⟩
  | cons symbol rest ih =>
    simp only [readDigits, Option.bind_eq_bind, Option.bind_eq_some_iff, below_eq_some_iff]
    constructor
    · rintro ⟨shifted, ⟨-, rfl⟩, digit, hdigit, sum, ⟨hsum, rfl⟩, hrest⟩
      obtain ⟨digits, hdigits, hvalue⟩ := (ih hsum).mp hrest
      exact ⟨digit :: digits, .cons hdigit hdigits, hvalue⟩
    · rintro ⟨_ | ⟨digit, digits⟩, hdigits, hvalue, hlimit⟩
      · cases hdigits
      · obtain ⟨hdigit, hrest⟩ := List.forall₂_cons.mp hdigits
        -- no check fails, as the number only grows on
        have hsum : acc * radix + digit < limit := by
          have hgrows : acc * radix + digit ≤ digitsValue radix (acc * radix + digit) digits :=
            le_digitsValue hradix
          rw [digitsValue_cons] at hvalue
          omega
        exact ⟨_, ⟨by omega, rfl⟩, digit, hdigit, _, ⟨hsum, rfl⟩,
          (ih hsum).mpr ⟨digits, hrest, hvalue, hlimit⟩⟩

/-- Each of the symbols is a digit. -/
theorem AreDigits.digit_of_mem {symbols : List Symbol} {digits : List ℕ}
    (hdigits : AreDigits digit? symbols digits) {symbol : Symbol} (hmem : symbol ∈ symbols) :
    ∃ digit, digit? symbol = some digit := by
  obtain ⟨i, hi, rfl⟩ := List.getElem_of_mem hmem
  exact ⟨_, hdigits.get hi (hdigits.length_eq ▸ hi)⟩

/-- Symbols for zero are digits. -/
theorem areDigits_zeros {symbol : Symbol} (hzero : digit? symbol = some 0) (n : ℕ) :
    AreDigits digit? (List.replicate n symbol) (List.replicate n 0) := by
  induction n with
  | zero => exact .nil
  | succ n ih => exact .cons hzero ih

end Read

/-- The digits that a number is written with stand for the number. -/
theorem forall₂_toDigits {digit? : Char → Option ℕ} {radix : ℕ} (hradix : 1 < radix)
    (hdigit : ∀ d, d < radix → digit? d.digitChar = some d) (n : ℕ) :
    ∃ digits, AreDigits digit? (Nat.toDigits radix n) digits ∧ digitsValue radix 0 digits = n := by
  induction n using Nat.strongRecOn with
  | ind n ih =>
    rw [Nat.toDigits_eq_if hradix]
    split_ifs with hsmall
    · exact ⟨[n], .cons (hdigit n hsmall) .nil, by simp⟩
    · have hpos : 0 < n := by omega
      obtain ⟨digits, hdigits, hvalue⟩ := ih (n / radix) (Nat.div_lt_self hpos hradix)
      have hlast := hdigit (n % radix) (Nat.mod_lt n (by omega))
      refine ⟨digits ++ [n % radix], List.rel_append hdigits (.cons hlast .nil), ?_⟩
      rw [digitsValue_append, hvalue, digitsValue_cons, digitsValue_nil, Nat.mul_comm]
      exact Nat.div_add_mod n radix

end AarnnNsys.Lib
