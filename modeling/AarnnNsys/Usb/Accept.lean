import AarnnNsys.Usb.Stream

/-!
# What the usb-sim reader accepts

`readFrame_eq_ok_iff` is the reader from the other side: a call succeeds exactly when the scan stops
in front of a header, the payload that the call returns, and the CRC of both, the payload being
within the limit and the length word. Two bytes of the header are free, the version, for which the
check in the source has an empty body, and the reserved byte. So what is accepted is what
`writeFrame` writes if and only if these two bytes are those of `writeFrame`
(`accepted_written_iff`).

A bridge takes messages of up to `slot_bytes` bytes from the bus and only checks that a slot is no
smaller than the limit of the reader. `forwarded_readable_iff` says which of them can be read back.
-/

set_option autoImplicit false
set_option relaxedAutoImplicit false

namespace AarnnNsys.Usb

open Wire

/-! ### Reading a header -/

/-- Ten bytes are a header: the fields that the reader takes from them give the bytes back. -/
theorem eq_rawHeader {hdr : List UInt8} (hlength : hdr.length = 10) :
    hdr = rawHeader (hdr.getD 0 0) (hdr.getD 3 0) (hdr.getD 1 0) (hdr.getD 2 0)
      (le32 (hdr.getD 6 0) (hdr.getD 7 0) (hdr.getD 8 0) (hdr.getD 9 0))
      (le16 (hdr.getD 4 0) (hdr.getD 5 0)).toNat := by
  match hdr, hlength with
  | [version, chan, ttl, reserved, lo, hi, b0, b1, b2, b3], _ =>
    obtain ⟨hlo, hhi⟩ := bytes_le16 lo hi
    obtain ⟨h0, h1, h2, h3⟩ := seqByte_le32 b0 b1 b2 b3
    simp [rawHeader, UInt16.ofNat_toNat, hlo, hhi, h0, h1, h2, h3]

/-- Two bytes are the bytes of their word. -/
theorem eq_putU16 {bytes : List UInt8} (hlength : bytes.length = 2) :
    bytes = putU16 (le16 (bytes.getD 0 0) (bytes.getD 1 0)) := by
  match bytes, hlength with
  | [lo, hi], _ =>
    obtain ⟨hlo, hhi⟩ := bytes_le16 lo hi
    simp [putU16, hlo, hhi]

/-- What `read_frame` accepts. -/
theorem readFrame_eq_ok_iff {cfg : Cfg} {work stream payload rest : List UInt8} {chan ttl : UInt8}
    {seq : UInt32} {len : ℕ} :
    readFrame cfg work stream = (.ok (chan, ttl, seq, len), payload, rest) ↔
      len = payload.length ∧ payload.length ≤ cfg.maxFrame ∧ payload.length < 65536 ∧
        ∃ version reserved, skipToMagic stream =
          some (rawBody version reserved chan ttl seq payload ++ rest) := by
  constructor
  · intro hread
    have hcases := readFrame_cases cfg work stream
    rw [hread] at hcases
    cases hcases with
    | @accepted hdr _ crcb _ hskip hhdr hfits hpayload hcrcb hcrc =>
      refine ⟨hpayload.symm, hpayload ▸ hfits, hpayload ▸ UInt16.toNat_lt _, hdr.getD 0 0,
        hdr.getD 3 0, ?_⟩
      have hheader := eq_rawHeader hhdr
      rw [← lenField, ← hpayload] at hheader
      rw [rawBody, ← hheader, hcrc, ← eq_putU16 hcrcb, hskip]
      simp only [List.append_assoc]
  · rintro ⟨rfl, hfits, hword, version, reserved, hskip⟩
    exact readFrame_rawBody hskip hfits hword work

/-! ### What is accepted is what is written -/

/-- The header that the scan stops at has the current version and a reserved byte of `0`. -/
def CurrentHeader (stream : List UInt8) : Prop :=
  ∃ behind ∈ skipToMagic stream, behind[0]? = some ver ∧ behind[3]? = some 0

instance (stream : List UInt8) : Decidable (CurrentHeader stream) :=
  inferInstanceAs (Decidable (∃ behind ∈ skipToMagic stream, _))

/-- A frame that `read_frame` accepts is within the limit and has, behind what was skipped, exactly
the bytes that `write_frame` writes for it, if and only if its version is the current one and its
reserved byte is `0`. -/
theorem accepted_written_iff {cfg : Cfg} {work stream payload rest : List UInt8} {chan ttl : UInt8}
    {seq : UInt32} {len : ℕ}
    (hread : readFrame cfg work stream = (.ok (chan, ttl, seq, len), payload, rest)) :
    (len = payload.length ∧ len ≤ cfg.maxFrame ∧
      ∃ skipped, stream = skipped ++ (writeFrame chan ttl seq payload ++ rest)) ↔
        CurrentHeader stream := by
  obtain ⟨rfl, hfits, -, version, reserved, hskip⟩ := readFrame_eq_ok_iff.mp hread
  have hcurrent : CurrentHeader stream ↔ version = ver ∧ reserved = 0 := by
    simp [CurrentHeader, hskip, rawBody, rawHeader]
  rw [hcurrent]
  obtain ⟨before, hbefore⟩ := exists_of_skipToMagic hskip
  constructor
  · rintro ⟨-, -, skipped, hwritten⟩
    rw [hbefore, writeFrame_eq, ← List.append_assoc (putU16 magic)] at hwritten
    have hbytes := (List.append_inj' hwritten (by simp [length_rawBody])).2
    simp only [rawBody, rawHeader, List.append_assoc, List.cons_append, putU16_magic,
      List.cons.injEq, List.nil_append] at hbytes
    exact ⟨hbytes.2.2.1, hbytes.2.2.2.2.2.1⟩
  · rintro ⟨rfl, rfl⟩
    refine ⟨rfl, hfits, before, ?_⟩
    rw [hbefore, writeFrame_eq, List.append_assoc]

/-- A frame behind a stray byte. -/
theorem accepted_written_stray :
    readFrame ⟨1400, 8⟩ [] ([0x41] ++ (writeFrame 3 7 1 [5] ++ [0x42])) =
      (.ok (3, 7, 1, 1), [5], [0x42]) ∧
    ∃ skipped, [0x41] ++ (writeFrame 3 7 1 [5] ++ [0x42]) =
      skipped ++ (writeFrame 3 7 1 [5] ++ [0x42]) := by
  have hread : readFrame ⟨1400, 8⟩ [] ([0x41] ++ (writeFrame 3 7 1 [5] ++ [0x42])) =
      (.ok (3, 7, 1, 1), [5], [0x42]) := by decide +kernel
  exact ⟨hread, ((accepted_written_iff hread).mpr (by decide +kernel)).2.2⟩

/-- A frame of version `2` is accepted, and no frame that is written has its bytes. -/
theorem accepted_other_version :
    readFrame ⟨1400, 8⟩ [] (putU16 magic ++ rawBody 2 0 0 7 1 [5]) = (.ok (0, 7, 1, 1), [5], []) ∧
    ¬ ∃ skipped,
      putU16 magic ++ rawBody 2 0 0 7 1 [5] = skipped ++ (writeFrame 0 7 1 [5] ++ []) := by
  have hread : readFrame ⟨1400, 8⟩ [] (putU16 magic ++ rawBody 2 0 0 7 1 [5]) =
      (.ok (0, 7, 1, 1), [5], []) := by decide +kernel
  refine ⟨hread, ?_⟩
  rintro ⟨skipped, hwritten⟩
  have hnone : skipped = [] := by
    have hlength := congrArg List.length hwritten
    simpa [length_rawBody, writeFrame_eq] using hlength
  rw [hnone] at hwritten
  revert hwritten
  decide +kernel

/-! ### Messages of the bus -/

/-- The arguments of the bridge: the sizes of the bus and what the frames are read and written
with. -/
structure Options where
  desc : ℕ
  slab : ℕ
  cfg : Cfg

/-- `slot_bytes`. -/
def Options.slotBytes (options : Options) : ℕ := options.slab / options.desc

/-- The arguments with which the bridge goes on: the division does not panic and
`slot_bytes < max_frame` does not hold. -/
def Options.Accepted (options : Options) : Prop :=
  options.desc ≠ 0 ∧ options.cfg.maxFrame ≤ options.slotBytes

instance (options : Options) : Decidable options.Accepted :=
  inferInstanceAs (Decidable (_ ∧ _))

/-- A message that the bridge can take from the bus. -/
def Options.Taken (options : Options) (message : List UInt8) : Prop :=
  1 ≤ message.length ∧ message.length ≤ options.slotBytes

/-- The bytes that the bridge writes for a message are read back with the same arguments as exactly
this message, with nothing left over. -/
def Options.ReadsBack (options : Options) (seq : UInt32) (work message : List UInt8) : Prop :=
  readFrame options.cfg work (writeFrame 0 options.cfg.ttl seq message) =
    (.ok (0, options.cfg.ttl, seq, message.length), message, [])

/-- A message is read back exactly when it is within the limit of the reader and its length fits the
length word. -/
theorem Options.readsBack_iff (options : Options) (seq : UInt32) (work message : List UInt8) :
    options.ReadsBack seq work message ↔
      message.length ≤ options.cfg.maxFrame ∧ message.length < 65536 := by
  constructor
  · intro hread
    obtain ⟨-, hfits, hword, -⟩ := readFrame_eq_ok_iff.mp hread
    exact ⟨hfits, hword⟩
  · rintro ⟨hfits, hword⟩
    simpa [ReadsBack] using readFrame_writeFrame hfits hword work []

/-- Which messages of the bus can be read back. Assumes: the bridge accepts its arguments. Among the
messages that it can take they are those within the limit of the reader whose length fits the length
word, so they are all of them if and only if a slot is exactly as large as the limit and smaller
than the length word can say. -/
theorem forwarded_readable_iff (options : Options) (haccepted : options.Accepted) (seq : UInt32)
    (work : List UInt8) :
    (∀ message, options.Taken message → (options.ReadsBack seq work message ↔
      message.length ≤ options.cfg.maxFrame ∧ message.length < 65536)) ∧
    ((∀ message, options.Taken message → options.ReadsBack seq work message) ↔
      options.slotBytes = options.cfg.maxFrame ∧ options.slotBytes < 65536) := by
  refine ⟨fun message _ ↦ options.readsBack_iff seq work message, ?_, ?_⟩
  · intro hall
    have hmax : options.cfg.maxFrame ≤ options.slotBytes := haccepted.2
    rcases Nat.eq_zero_or_pos options.slotBytes with hzero | hpos
    · omega
    · -- the longest message decides
      have htaken : options.Taken (List.replicate options.slotBytes 0) := by
        rw [Options.Taken, List.length_replicate]
        exact ⟨hpos, le_rfl⟩
      have hlongest := (options.readsBack_iff seq work _).mp (hall _ htaken)
      rw [List.length_replicate] at hlongest
      omega
  · rintro ⟨hmax, hword⟩ message ⟨-, hslot⟩
    exact (options.readsBack_iff seq work message).mpr (by omega)

/-- A message of two bytes on a bus of four slots, with the default hop limit and a limit of a
slot. -/
theorem forwarded_readable_four : Options.ReadsBack ⟨4, 64, ⟨16, 8⟩⟩ 0 [] [5, 6] := by
  have htaken : Options.Taken ⟨4, 64, ⟨16, 8⟩⟩ [5, 6] := ⟨by decide, by decide⟩
  exact (forwarded_readable_iff ⟨4, 64, ⟨16, 8⟩⟩ (by decide) 0 []).2.mpr (by decide) _ htaken

/-- A message that fits a slot but not the limit of the reader: its bytes are refused, and those
behind its header are left to be scanned. -/
theorem forwarded_too_long : Options.Accepted ⟨1, 2, ⟨1, 8⟩⟩ ∧
    Options.Taken ⟨1, 2, ⟨1, 8⟩⟩ [5, 6] ∧ ¬ Options.ReadsBack ⟨1, 2, ⟨1, 8⟩⟩ 0 [] [5, 6] ∧
    readFrame ⟨1, 8⟩ [] (writeFrame 0 8 0 [5, 6]) =
      (.error .lenTooBig, [], (writeFrame 0 8 0 [5, 6]).drop 12) := by
  have hread : readFrame ⟨1, 8⟩ [] (writeFrame 0 8 0 [5, 6]) =
      (.error .lenTooBig, [], (writeFrame 0 8 0 [5, 6]).drop 12) := by decide +kernel
  refine ⟨by decide, ⟨by decide, by decide⟩, fun hback ↦ ?_, hread⟩
  rw [Options.ReadsBack, hread] at hback
  cases hback

end AarnnNsys.Usb
