import AarnnNsys.Cli.Number
import AarnnNsys.L2.Frame

/-!
# Hardware addresses on the command line

`parseMac` reads an address from six texts between colons, `macToString` prints one.
`parseMac_eq_some_iff` says exactly which texts are read, and as what: those made of six hexadecimal
numbers below 256, of any number of digits, each perhaps behind a plus sign. What is printed is read
back (`parseMac_macToString`).
-/

set_option autoImplicit false
set_option relaxedAutoImplicit false

namespace AarnnNsys.Cli

open Lib L2

/-- `u8::from_str_radix` in base sixteen. -/
def hexOctet (part : Text) : Option UInt8 := (fromStrRadix 16 256 part).map UInt8.ofNat

/-- `parse_mac`. -/
def parseMac (s : Text) : Option Mac :=
  let parts := s.splitOn ':'
  if hlen : parts.length = 6 then (Vector.mk parts.toArray hlen).mapM hexOctet else none

/-- `mac_to_string`. -/
def macToString (mac : Mac) : Text := [':'].intercalate (mac.toList.map hexByte)

/-- A loop over a list ends well if every element is read. -/
theorem mapM_forall₂ {α β : Type} {f : α → Option β} {xs : List α} {ys : List β} :
    xs.mapM f = some ys ↔ List.Forall₂ (fun x y ↦ f x = some y) xs ys := by
  induction xs generalizing ys with
  | nil => simp [List.forall₂_nil_left_iff, eq_comm]
  | cons x rest ih =>
    simp only [List.mapM_cons, Option.bind_eq_bind, Option.bind_eq_some_iff, Option.pure_def,
      Option.some.injEq, List.forall₂_cons_left_iff, ih]
    constructor
    · rintro ⟨y, hy, rest', hrest, rfl⟩
      exact ⟨y, rest', hy, hrest, rfl⟩
    · rintro ⟨y, rest', hy, hrest, rfl⟩
      exact ⟨y, hy, rest', hrest, rfl⟩

/-- The same of a vector, element by element. -/
theorem mapM_vector {α β : Type} {f : α → Option β} {n : ℕ} {xs : Vector α n} {ys : Vector β n} :
    xs.mapM f = some ys ↔ ∀ i (hi : i < n), f xs[i] = some ys[i] := by
  have hlist : (xs.mapM f).map Vector.toList = xs.toList.mapM f := by
    calc (xs.mapM f).map Vector.toList
      _ = Array.toList <$> (Vector.toArray <$> xs.mapM f) := by rw [← comp_map]; rfl
      _ = xs.toList.mapM f := by rw [Vector.toArray_mapM, Array.toList_mapM]; rfl
  have hinj : Function.Injective (Option.map (Vector.toList (α := β) (n := n))) :=
    Option.map_injective fun _ _ heq ↦ Vector.toList_inj.mp heq
  rw [← hinj.eq_iff, hlist, Option.map_some, mapM_forall₂, List.forall₂_iff_get]
  simp

/-- An octet that is read is the number that the text stands for. -/
theorem hexOctet_eq_some_iff {part : Text} {octet : UInt8} :
    hexOctet part = some octet ↔ StandsFor 16 256 part octet.toNat := by
  rw [hexOctet, Option.map_eq_some_iff, ← fromStrRadix_eq_some_iff (by decide) (by decide)]
  constructor
  · rintro ⟨n, hread, rfl⟩
    obtain ⟨-, -, -, -, -, -, hn⟩ := (fromStrRadix_eq_some_iff (by decide) (by decide)).mp hread
    rw [hread, UInt8.toNat_ofNat_of_lt' hn]
  · intro hread
    exact ⟨_, hread, UInt8.ofNat_toNat⟩

/-- What stands for a number has no colon in it. -/
theorem StandsFor.colon {radix limit n : ℕ} {part : Text} (hpart : StandsFor radix limit part n) :
    ':' ∉ part := by
  obtain ⟨symbols, digits, htext, -, hdigits, -⟩ := hpart
  have hsymbols : ':' ∉ symbols := by
    intro hcolon
    obtain ⟨digit, hdigit⟩ := hdigits.digit_of_mem hcolon
    cases hdigit
  rcases htext with rfl | rfl
  · exact hsymbols
  · simp [hsymbols]

/-- What is read: six numbers between colons. -/
theorem parseMac_eq_some_iff {s : Text} {mac : Mac} :
    parseMac s = some mac ↔ ∃ parts : Vector Text 6, s = [':'].intercalate parts.toList ∧
      ∀ i (hi : i < 6), StandsFor 16 256 parts[i] mac[i].toNat := by
  constructor
  · intro hread
    simp only [parseMac] at hread
    split at hread
    next hlen =>
      refine ⟨Vector.mk (s.splitOn ':').toArray hlen, (List.intercalate_splitOn ':').symm,
        fun i hi ↦ ?_⟩
      exact hexOctet_eq_some_iff.mp (mapM_vector.mp hread i hi)
    next => cases hread
  · rintro ⟨parts, rfl, hparts⟩
    have hsplit : ([':'].intercalate parts.toList).splitOn ':' = parts.toList := by
      refine List.splitOn_intercalate ':' (fun part hpart ↦ ?_) ?_
      · obtain ⟨i, hi, rfl⟩ := List.getElem_of_mem hpart
        exact (hparts i (by simpa using hi)).colon
      · exact List.ne_nil_of_length_pos (by simp)
    have hlen : (([':'].intercalate parts.toList).splitOn ':').length = 6 := by
      rw [hsplit, Vector.length_toList]
    have hvector : Vector.mk (([':'].intercalate parts.toList).splitOn ':').toArray hlen = parts :=
      Vector.toList_inj.mp hsplit
    simp only [parseMac, hlen, ↓reduceDIte, hvector]
    exact mapM_vector.mpr fun i hi ↦ hexOctet_eq_some_iff.mpr (hparts i hi)

/-- What is printed is read back. -/
theorem parseMac_macToString (mac : Mac) : parseMac (macToString mac) = some mac := by
  refine parseMac_eq_some_iff.mpr ⟨mac.map hexByte, ?_, fun i hi ↦ ?_⟩
  · rw [macToString, Vector.toList_map]
  · rw [Vector.getElem_map]
    exact (fromStrRadix_eq_some_iff (by decide) (by decide)).mp (fromStrRadix_hexByte _)

/-- The hardware addresses of a command line. Exactly the texts made of six hexadecimal numbers
below 256 with colons between them are read, each part as the number it stands for, and an address
that is printed is read back. -/
theorem mac_format :
    (∀ s mac, parseMac s = some mac ↔ ∃ parts : Vector Text 6,
      s = [':'].intercalate parts.toList ∧
        ∀ i (hi : i < 6), StandsFor 16 256 parts[i] mac[i].toNat) ∧
    ∀ mac, parseMac (macToString mac) = some mac :=
  ⟨fun _ _ ↦ parseMac_eq_some_iff, parseMac_macToString⟩

/-- Leading zeros and a plus sign are read, and a seventh part is not. -/
example : parseMac "2:0:+000:0:0:fE".toList = some #v[2, 0, 0, 0, 0, 254] ∧
    parseMac "02:00:00:00:00:02:00".toList = none := by decide +kernel

end AarnnNsys.Cli
