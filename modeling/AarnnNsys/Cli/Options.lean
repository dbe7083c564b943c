import AarnnNsys.Cli.Mac
import AarnnNsys.Lib.CommandLine
import AarnnNsys.Usb.Frame

/-!
# The options of the two bridges

`L2Options` and `UsbOptions` are the variables that the bridges read their command lines into,
`readL2` and `readUsb` the loops that do. `command_lines` says of both which command lines are read,
and as what, and that all options can be read back from a command line that gives each of them, in
any order.
-/

set_option autoImplicit false
set_option relaxedAutoImplicit false

namespace AarnnNsys.Cli

open Lib L2

/-! ### Values -/

/-- `value.parse()` to a `usize`. -/
def readUsize (value : String) : Option UInt64 := (parse (2 ^ 64) value.toList).map UInt64.ofNat

/-- `value.parse()` to a `u8`. -/
def readU8 (value : String) : Option UInt8 := (parse 256 value.toList).map UInt8.ofNat

/-- The value of `--ethertype`: hexadecimal behind `0x` or `0X`, else decimal. -/
def readEthertype (value : String) : Option UInt16 :=
  let number :=
    match value.toList with
    | '0' :: 'x' :: digits | '0' :: 'X' :: digits => fromStrRadix 16 65536 digits
    | digits => parse 65536 digits
  number.map UInt16.ofNat

/-- `to_string` of an unsigned number. -/
def decimal (n : ℕ) : String := .ofList (Nat.toDigits 10 n)

theorem parse_decimal {n limit : ℕ} (hn : n < limit) : parse limit (decimal n).toList = some n := by
  rw [decimal, String.toList_ofList]
  exact fromStrRadix_toDigits (by decide) (by decide) hn

theorem readUsize_decimal (n : UInt64) : readUsize (decimal n.toNat) = some n := by
  rw [readUsize, parse_decimal n.toNat_lt, Option.map_some, UInt64.ofNat_toNat]

theorem readU8_decimal (n : UInt8) : readU8 (decimal n.toNat) = some n := by
  rw [readU8, parse_decimal n.toNat_lt, Option.map_some, UInt8.ofNat_toNat]

/-- `0x` and the hexadecimal digits. -/
def hexadecimal (n : ℕ) : String := .ofList ('0' :: 'x' :: Nat.toDigits 16 n)

theorem readEthertype_hexadecimal (n : UInt16) : readEthertype (hexadecimal n.toNat) = some n := by
  have hread : fromStrRadix 16 65536 (Nat.toDigits 16 n.toNat) = some n.toNat :=
    fromStrRadix_toDigits (by decide) (by decide) n.toNat_lt
  simp [readEthertype, hexadecimal, hread]

theorem parseMac_printed (mac : Mac) :
    parseMac (String.ofList (macToString mac)).toList = some mac := by
  rw [String.toList_ofList, parseMac_macToString]

/-! ### l2bridge -/

/-- The options of `l2bridge`. -/
@[ext] structure L2Options where
  iface : String
  name : String
  desc : UInt64
  slab : UInt64
  ethertype : UInt16
  dstMac : Option Mac
  srcMac : Option Mac
  maxFrame : UInt64
  ttl : UInt8
  selfTest : Bool
  trace : Bool
  deriving DecidableEq

/-- The options of `l2bridge` that are not given. -/
def L2Options.defaults : L2Options :=
  ⟨"", "/demo", 16384, (64 : UInt64) <<< 20, 0xCAFE, none, none, 4096, 8, false, false⟩

/-- The fields of `L2Options`. -/
inductive L2Key
  | iface
  | name
  | desc
  | slab
  | ethertype
  | dstMac
  | srcMac
  | maxFrame
  | ttl
  | selfTest
  | trace
  deriving DecidableEq

/-- The types of the fields of `L2Options`. -/
def L2Key.Value : L2Key → Type
  | iface | name => String
  | desc | slab | maxFrame => UInt64
  | ethertype => UInt16
  | dstMac | srcMac => Option Mac
  | ttl => UInt8
  | selfTest | trace => Bool

/-- `L2Options` as a record. -/
def l2Record : Record L2Options L2Key L2Key.Value where
  get options
    | .iface => options.iface
    | .name => options.name
    | .desc => options.desc
    | .slab => options.slab
    | .ethertype => options.ethertype
    | .dstMac => options.dstMac
    | .srcMac => options.srcMac
    | .maxFrame => options.maxFrame
    | .ttl => options.ttl
    | .selfTest => options.selfTest
    | .trace => options.trace
  set options
    | .iface, iface => { options with iface }
    | .name, name => { options with name }
    | .desc, desc => { options with desc }
    | .slab, slab => { options with slab }
    | .ethertype, ethertype => { options with ethertype }
    | .dstMac, dstMac => { options with dstMac }
    | .srcMac, srcMac => { options with srcMac }
    | .maxFrame, maxFrame => { options with maxFrame }
    | .ttl, ttl => { options with ttl }
    | .selfTest, selfTest => { options with selfTest }
    | .trace, trace => { options with trace }
  get_set_self _ key _ := by cases key <;> rfl
  get_set_ne _ key _ other hne := by
    cases key <;> cases other <;> first | rfl | exact absurd rfl hne
  ext _ _ heq := L2Options.ext (heq .iface) (heq .name) (heq .desc) (heq .slab) (heq .ethertype)
    (heq .dstMac) (heq .srcMac) (heq .maxFrame) (heq .ttl) (heq .selfTest) (heq .trace)

/-- What a word of the command line of `l2bridge` asks for. A hardware address that cannot be read
counts as none. -/
def l2Argument : String → Option (Argument String (Assignment L2Key.Value))
  | "--iface" => some (.value fun value ↦ some ⟨.iface, value⟩)
  | "--name" => some (.value fun value ↦ some ⟨.name, value⟩)
  | "--desc" => some (.value fun value ↦ (readUsize value).map (⟨.desc, ·⟩))
  | "--slab" => some (.value fun value ↦ (readUsize value).map (⟨.slab, ·⟩))
  | "--ethertype" => some (.value fun value ↦ (readEthertype value).map (⟨.ethertype, ·⟩))
  | "--dst-mac" => some (.value fun value ↦ some ⟨.dstMac, parseMac value.toList⟩)
  | "--src-mac" => some (.value fun value ↦ some ⟨.srcMac, parseMac value.toList⟩)
  | "--max-frame" => some (.value fun value ↦ (readUsize value).map (⟨.maxFrame, ·⟩))
  | "--ttl" => some (.value fun value ↦ (readU8 value).map (⟨.ttl, ·⟩))
  | "--self-test" => some (.flag ⟨.selfTest, true⟩)
  | "--trace" => some (.flag ⟨.trace, true⟩)
  | _ => none

/-- The loop over the arguments of `l2bridge`. -/
def readL2 (args : List String) : Except Misuse L2Options :=
  readArguments l2Argument l2Record .defaults args

/-- The words for an option of `l2bridge`, if it needs any. -/
def spellL2 (options : L2Options) : L2Key → List String
  | .iface => ["--iface", options.iface]
  | .name => ["--name", options.name]
  | .desc => ["--desc", decimal options.desc.toNat]
  | .slab => ["--slab", decimal options.slab.toNat]
  | .ethertype => ["--ethertype", hexadecimal options.ethertype.toNat]
  | .dstMac => options.dstMac.toList.flatMap fun mac ↦ ["--dst-mac", .ofList (macToString mac)]
  | .srcMac => options.srcMac.toList.flatMap fun mac ↦ ["--src-mac", .ofList (macToString mac)]
  | .maxFrame => ["--max-frame", decimal options.maxFrame.toNat]
  | .ttl => ["--ttl", decimal options.ttl.toNat]
  | .selfTest => if options.selfTest then ["--self-test"] else []
  | .trace => if options.trace then ["--trace"] else []

/-- The words for an option say what it is. -/
theorem spells_spellL2 (options : L2Options) (key : L2Key) :
    Spells l2Argument (spellL2 options key) [⟨key, l2Record.get options key⟩] ∨
      spellL2 options key = [] ∧ l2Record.get options key = l2Record.get .defaults key := by
  cases key with
  | iface | name => exact .inl (.value rfl rfl .nil)
  | desc | slab | maxFrame => exact .inl (.value rfl (by rw [readUsize_decimal]; rfl) .nil)
  | ttl => exact .inl (.value rfl (by rw [readU8_decimal]; rfl) .nil)
  | ethertype => exact .inl (.value rfl (by rw [readEthertype_hexadecimal]; rfl) .nil)
  | dstMac =>
    rcases hmac : options.dstMac with _ | mac
    · exact .inr ⟨by simp [spellL2, hmac], hmac⟩
    · simp only [spellL2, l2Record, hmac]
      exact .inl (.value rfl (by rw [parseMac_printed]) .nil)
  | srcMac =>
    rcases hmac : options.srcMac with _ | mac
    · exact .inr ⟨by simp [spellL2, hmac], hmac⟩
    · simp only [spellL2, l2Record, hmac]
      exact .inl (.value rfl (by rw [parseMac_printed]) .nil)
  | selfTest =>
    cases htest : options.selfTest with
    | false => exact .inr ⟨by simp [spellL2, htest], htest⟩
    | true =>
      simp only [spellL2, l2Record, htest]
      exact .inl (.flag rfl .nil)
  | trace =>
    cases htrace : options.trace with
    | false => exact .inr ⟨by simp [spellL2, htrace], htrace⟩
    | true =>
      simp only [spellL2, l2Record, htrace]
      exact .inl (.flag rfl .nil)

/-! ### usbsim_bridge -/

/-- The options of `usbsim_bridge`. -/
@[ext] structure UsbOptions where
  name : String
  desc : UInt64
  slab : UInt64
  endpoint : String
  maxFrame : UInt64
  ttl : UInt8
  selfTest : Bool
  deriving DecidableEq

/-- The options of `usbsim_bridge` that are not given. -/
def UsbOptions.defaults : UsbOptions :=
  ⟨"/demo", 16384, (64 : UInt64) <<< 20, "", 4096, 8, false⟩

/-- The fields of `UsbOptions`. -/
inductive UsbKey
  | name
  | desc
  | slab
  | endpoint
  | maxFrame
  | ttl
  | selfTest
  deriving DecidableEq

/-- The types of the fields of `UsbOptions`. -/
def UsbKey.Value : UsbKey → Type
  | name | endpoint => String
  | desc | slab | maxFrame => UInt64
  | ttl => UInt8
  | selfTest => Bool

/-- `UsbOptions` as a record. -/
def usbRecord : Record UsbOptions UsbKey UsbKey.Value where
  get options
    | .name => options.name
    | .desc => options.desc
    | .slab => options.slab
    | .endpoint => options.endpoint
    | .maxFrame => options.maxFrame
    | .ttl => options.ttl
    | .selfTest => options.selfTest
  set options
    | .name, name => { options with name }
    | .desc, desc => { options with desc }
    | .slab, slab => { options with slab }
    | .endpoint, endpoint => { options with endpoint }
    | .maxFrame, maxFrame => { options with maxFrame }
    | .ttl, ttl => { options with ttl }
    | .selfTest, selfTest => { options with selfTest }
  get_set_self _ key _ := by cases key <;> rfl
  get_set_ne _ key _ other hne := by
    cases key <;> cases other <;> first | rfl | exact absurd rfl hne
  ext _ _ heq := UsbOptions.ext (heq .name) (heq .desc) (heq .slab) (heq .endpoint) (heq .maxFrame)
    (heq .ttl) (heq .selfTest)

/-- What a word of the command line of `usbsim_bridge` asks for. -/
def usbArgument : String → Option (Argument String (Assignment UsbKey.Value))
  | "--name" => some (.value fun value ↦ some ⟨.name, value⟩)
  | "--desc" => some (.value fun value ↦ (readUsize value).map (⟨.desc, ·⟩))
  | "--slab" => some (.value fun value ↦ (readUsize value).map (⟨.slab, ·⟩))
  | "--endpoint" => some (.value fun value ↦ some ⟨.endpoint, value⟩)
  | "--max-frame" => some (.value fun value ↦ (readUsize value).map (⟨.maxFrame, ·⟩))
  | "--ttl" => some (.value fun value ↦ (readU8 value).map (⟨.ttl, ·⟩))
  | "--self-test" => some (.flag ⟨.selfTest, true⟩)
  | _ => none

/-- The loop over the arguments of `usbsim_bridge`. -/
def readUsb (args : List String) : Except Misuse UsbOptions :=
  readArguments usbArgument usbRecord .defaults args

/-- The words for an option of `usbsim_bridge`, if it needs any. -/
def spellUsb (options : UsbOptions) : UsbKey → List String
  | .name => ["--name", options.name]
  | .desc => ["--desc", decimal options.desc.toNat]
  | .slab => ["--slab", decimal options.slab.toNat]
  | .endpoint => ["--endpoint", options.endpoint]
  | .maxFrame => ["--max-frame", decimal options.maxFrame.toNat]
  | .ttl => ["--ttl", decimal options.ttl.toNat]
  | .selfTest => if options.selfTest then ["--self-test"] else []

/-- The words for an option say what it is. -/
theorem spells_spellUsb (options : UsbOptions) (key : UsbKey) :
    Spells usbArgument (spellUsb options key) [⟨key, usbRecord.get options key⟩] ∨
      spellUsb options key = [] ∧ usbRecord.get options key = usbRecord.get .defaults key := by
  cases key with
  | name | endpoint => exact .inl (.value rfl rfl .nil)
  | desc | slab | maxFrame => exact .inl (.value rfl (by rw [readUsize_decimal]; rfl) .nil)
  | ttl => exact .inl (.value rfl (by rw [readU8_decimal]; rfl) .nil)
  | selfTest =>
    cases htest : options.selfTest with
    | false => exact .inr ⟨by simp [spellUsb, htest], htest⟩
    | true =>
      simp only [spellUsb, usbRecord, htest]
      exact .inl (.flag rfl .nil)

/-! ### Both -/

/-- The command lines of the bridges. Exactly those are read that spell a list of assignments, and
every option has the value that was assigned to it last, or else its default. Whatever the options
are, they are read back from a command line that gives each of them, in any order and any number of
times. -/
theorem command_lines :
    (∀ args options, readL2 args = .ok options ↔ ∃ uses, Spells l2Argument args uses ∧
      ∀ key, l2Record.get options key =
        (lastValue key uses).getD (l2Record.get .defaults key)) ∧
    (∀ args options, readUsb args = .ok options ↔ ∃ uses, Spells usbArgument args uses ∧
      ∀ key, usbRecord.get options key =
        (lastValue key uses).getD (usbRecord.get .defaults key)) ∧
    (∀ options (order : List L2Key), (∀ key, key ∈ order) →
      readL2 (order.flatMap (spellL2 options)) = .ok options) ∧
    ∀ options (order : List UsbKey), (∀ key, key ∈ order) →
      readUsb (order.flatMap (spellUsb options)) = .ok options :=
  ⟨fun _ _ ↦ readArguments_eq_ok_iff, fun _ _ ↦ readArguments_eq_ok_iff,
    fun options _ hall ↦ readArguments_flatMap (spells_spellL2 options) hall,
    fun options _ hall ↦ readArguments_flatMap (spells_spellUsb options) hall⟩

/-- The last use of an option counts, and a hardware address that cannot be read counts as none. -/
example : readL2 ["--ttl", "3", "--dst-mac", "02:00", "--iface", "veth0", "--ttl", "+05"] =
    .ok { L2Options.defaults with iface := "veth0", ttl := 5 } := rfl

end AarnnNsys.Cli
