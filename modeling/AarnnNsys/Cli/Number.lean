import AarnnNsys.Lib.Numeral

/-!
# Numbers on the command line

`fromStrRadix` is how the programs read an unsigned number, `parse` the same in base ten. The texts
that are read are characterised by `fromStrRadix_eq_some_iff`: one plus sign may stand in front,
then at least one digit, in either case, with any zeros in front, and the number is in the range of
its type. `fromStrRadix_toDigits` and `fromStrRadix_hexByte` read back what the programs print.
-/

set_option autoImplicit false
set_option relaxedAutoImplicit false

namespace AarnnNsys.Cli

open Lib

/-- A text, character by character. -/
abbrev Text := List Char

/-- `char::to_digit`. -/
def toDigit (radix : ℕ) (c : Char) : Option ℕ :=
  let value :=
    if '0' ≤ c ∧ c ≤ '9' then some (c.toNat - '0'.toNat)
    else if 'a' ≤ c ∧ c ≤ 'z' then some (c.toNat - 'a'.toNat + 10)
    else if 'A' ≤ c ∧ c ≤ 'Z' then some (c.toNat - 'A'.toNat + 10)
    else none
  value.filter (· < radix)

/-- `from_str_radix` of an unsigned type with the values below `limit`. `none` is any of its
errors. -/
def fromStrRadix (radix limit : ℕ) : Text → Option ℕ
  | [] => none
  | ['+'] => none
  | ['-'] => none
  | '+' :: digits => readDigits (toDigit radix) radix limit 0 digits
  | digits => readDigits (toDigit radix) radix limit 0 digits

/-- `str::parse` to an unsigned type. -/
def parse (limit : ℕ) (text : Text) : Option ℕ := fromStrRadix 10 limit text

/-- `{:02x}` of a byte. -/
def hexByte (byte : UInt8) : Text := (Nat.toDigits 16 byte.toNat).leftpad 2 '0'

/-- The text stands for the number: digits, perhaps behind a plus sign. -/
def StandsFor (radix limit : ℕ) (text : Text) (n : ℕ) : Prop :=
  ∃ symbols digits, (text = symbols ∨ text = '+' :: symbols) ∧ symbols ≠ [] ∧
    AreDigits (toDigit radix) symbols digits ∧ digitsValue radix 0 digits = n ∧ n < limit

section Digits

variable {radix limit n : ℕ}

/-- The programs print the digits that they read. -/
theorem toDigit_digitChar (hradix : radix ≤ 16) {d : ℕ} (hd : d < radix) :
    toDigit radix d.digitChar = some d := by
  have hall : ∀ d : Fin 16, toDigit 16 (d : ℕ).digitChar = some (d : ℕ) := by decide
  have hvalue := hall ⟨d, by omega⟩
  obtain ⟨hvalue, -⟩ := Option.filter_eq_some_iff.mp hvalue
  exact Option.filter_eq_some_iff.mpr ⟨hvalue, decide_eq_true hd⟩

/-- A text that does not begin with a sign is read as digits. -/
theorem fromStrRadix_digits {symbols : Text} (hne : symbols ≠ [])
    (hplus : symbols.head? ≠ some '+') (hminus : symbols ≠ ['-']) :
    fromStrRadix radix limit symbols = readDigits (toDigit radix) radix limit 0 symbols := by
  unfold fromStrRadix
  split
  · exact absurd rfl hne
  · exact absurd rfl hplus
  · exact absurd rfl hminus
  · exact absurd rfl hplus
  · rfl

/-- What is read: exactly the texts that stand for a number of the type. -/
theorem fromStrRadix_eq_some_iff (hradix : 0 < radix) (hlimit : 0 < limit) {text : Text} :
    fromStrRadix radix limit text = some n ↔ StandsFor radix limit text n := by
  have hread : ∀ {symbols : Text}, readDigits (toDigit radix) radix limit 0 symbols = some n ↔
      ∃ digits, AreDigits (toDigit radix) symbols digits ∧ digitsValue radix 0 digits = n ∧
        n < limit := readDigits_eq_some_iff hradix hlimit
  constructor
  · intro htext
    unfold fromStrRadix at htext
    split at htext
    · cases htext
    · cases htext
    · cases htext
    · rename_i symbols hplus
      obtain ⟨digits, hdigits, hvalue⟩ := hread.mp htext
      exact ⟨symbols, digits, .inr rfl, fun hnil ↦ hplus (by rw [hnil]), hdigits, hvalue⟩
    · rename_i hne _ _ _
      obtain ⟨digits, hdigits, hvalue⟩ := hread.mp htext
      exact ⟨text, digits, .inl rfl, hne, hdigits, hvalue⟩
  · rintro ⟨symbols, digits, htext, hne, hdigits, hvalue⟩
    obtain ⟨first, rest, rfl⟩ := List.exists_cons_of_ne_nil hne
    obtain ⟨digit, _, hdigit, -, -⟩ := List.forall₂_cons_left_iff.mp hdigits
    have hplus : first ≠ '+' := by
      rintro rfl
      cases hdigit
    have hminus : first ≠ '-' := by
      rintro rfl
      cases hdigit
    have hsymbols := hread.mpr ⟨digits, hdigits, hvalue⟩
    rcases htext with rfl | rfl
    · rwa [fromStrRadix_digits hne (by simpa using hplus) (by simp [hminus])]
    · exact hsymbols

/-- What a program prints in a base is read back. -/
theorem fromStrRadix_toDigits (hradix : 1 < radix) (hsmall : radix ≤ 16) (hn : n < limit) :
    fromStrRadix radix limit (Nat.toDigits radix n) = some n := by
  obtain ⟨digits, hdigits, hvalue⟩ := forall₂_toDigits hradix
    (fun d hd ↦ toDigit_digitChar hsmall hd) n
  exact (fromStrRadix_eq_some_iff (by omega) (by omega)).mpr
    ⟨_, digits, .inl rfl, Nat.toDigits_ne_nil, hdigits, hvalue, hn⟩

/-- A byte that is printed as two hexadecimal digits is read back. -/
theorem fromStrRadix_hexByte (byte : UInt8) :
    fromStrRadix 16 256 (hexByte byte) = some byte.toNat := by
  obtain ⟨digits, hdigits, hvalue⟩ := forall₂_toDigits (by decide : 1 < 16)
    (fun d hd ↦ toDigit_digitChar (Nat.le_refl 16) hd) byte.toNat
  let zeros := 2 - (Nat.toDigits 16 byte.toNat).length
  have hzero : toDigit 16 '0' = some 0 := rfl
  have hzeros : AreDigits (toDigit 16) (List.replicate zeros '0') (List.replicate zeros 0) :=
    areDigits_zeros hzero zeros
  refine (fromStrRadix_eq_some_iff (by decide) (by decide)).mpr ⟨hexByte byte,
    List.replicate zeros 0 ++ digits, .inl rfl, ?_, List.rel_append hzeros hdigits, ?_,
    byte.toNat_lt⟩
  · simp [hexByte, List.leftpad]
  · rw [digitsValue_zeros, hvalue]

end Digits

end AarnnNsys.Cli
