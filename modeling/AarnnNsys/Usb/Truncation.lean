import AarnnNsys.Usb.Accept
import AarnnNsys.Usb.Arrival
import Mathlib.Algebra.Order.BigOperators.Group.List
import Mathlib.Algebra.Order.Group.Nat
import Mathlib.Data.List.GetD

/-!
# Writes that fail half-way

The descriptor is non-blocking for writes too: `write_all` may write a proper prefix of a frame and
fail, and the loop of the bridge goes on with the next message as if nothing had been sent. What was
written stays on the stream, and the reader takes the bytes it is missing from the next frame.

`onStream` is what a list of attempts leaves on the stream and `succeeded` the frames whose write
returned `Ok`. `writes_returned` says that the peer returns these frames when no write succeeds
after one that failed with some bytes written, and that this cannot be relaxed: behind a single
write that failed with some bytes written, whatever surrounds it, there is a next message with which
the peer does not return every frame.
-/

set_option autoImplicit false
set_option relaxedAutoImplicit false

namespace AarnnNsys.Usb

open Wire

/-! ### The writing loop -/

/-- A message that the loop takes from the bus, and how its `write_frame` ends: `none` when it
returns `Ok`, and the number of bytes written when it fails with an error that the loop goes on
after. -/
structure Write where
  message : List UInt8
  failedAfter : Option ℕ
  deriving DecidableEq

/-- The `write_frame` call for a message. -/
structure Attempt where
  frame : Frame
  failedAfter : Option ℕ
  deriving DecidableEq

/-- The bus-to-usb loop from sequence counter `seq`: the counter moves on whether or not a call
fails. -/
def attempts (ttl : UInt8) : UInt32 → List Write → List Attempt
  | _, [] => []
  | seq, write :: writes =>
    ⟨⟨0, ttl, seq, write.message⟩, write.failedAfter⟩ :: attempts ttl (seq + 1) writes

/-- What a call leaves on the stream. -/
def Attempt.bytes (attempt : Attempt) : List UInt8 :=
  match attempt.failedAfter with
  | none => attempt.frame.bytes
  | some count => attempt.frame.bytes.take count

/-- The frame, if the call succeeds. -/
def Attempt.succeeded? (attempt : Attempt) : Option Frame :=
  if attempt.failedAfter = none then some attempt.frame else none

/-- The stream that a list of calls produces. -/
def onStream (calls : List Attempt) : List UInt8 := calls.flatMap Attempt.bytes

/-- The frames whose calls returned `Ok`. -/
def succeeded (calls : List Attempt) : List Frame := calls.filterMap Attempt.succeeded?

/-- A peer that calls `read_frame` often enough returns the frames, in this order. -/
def Returns (cfg : Cfg) (work stream : List UInt8) (frames : List Frame) : Prop :=
  ∃ calls, (frames.map Frame.received).Sublist (readFrames cfg calls work stream).1

/-- The call fails with some bytes written. -/
def Write.Tears (write : Write) : Prop := ∃ count, write.failedAfter = some (count + 1)

/-- The call succeeds with a message within the limit of the reader, or it writes nothing. -/
def Write.Clean (cfg : Cfg) (write : Write) : Prop :=
  write.failedAfter = none ∧ write.message.length ≤ min cfg.maxFrame 65535 ∨
    write.failedAfter = some 0

section Loop

variable {cfg : Cfg} {ttl : UInt8}

/-- A clean call that succeeds has a message within the limit. -/
theorem Write.Clean.fits {write : Write} (hclean : write.Clean cfg)
    (hdone : write.failedAfter = none) : write.message.length ≤ min cfg.maxFrame 65535 := by
  rcases hclean with ⟨-, hfits⟩ | hnothing
  · exact hfits
  · simp [hdone] at hnothing

theorem attempts_append (seq : UInt32) (first second : List Write) :
    attempts ttl seq (first ++ second) =
      attempts ttl seq first ++ attempts ttl (seq + UInt32.ofNat first.length) second := by
  induction first generalizing seq with
  | nil => simp [attempts]
  | cons write writes ih =>
    have hcount : seq + 1 + UInt32.ofNat writes.length =
        seq + UInt32.ofNat (write :: writes).length := by
      rw [List.length_cons, UInt32.ofNat_add, UInt32.add_assoc, UInt32.add_comm 1]
      rfl
    rw [List.cons_append, attempts, ih, attempts, hcount, List.cons_append]

theorem onStream_append (first second : List Attempt) :
    onStream (first ++ second) = onStream first ++ onStream second :=
  List.flatMap_append

theorem succeeded_append (first second : List Attempt) :
    succeeded (first ++ second) = succeeded first ++ succeeded second :=
  List.filterMap_append

/-- Clean calls leave exactly the frames of the successful ones on the stream. -/
theorem onStream_clean {writes : List Write} (hclean : ∀ write ∈ writes, write.Clean cfg)
    (seq : UInt32) : onStream (attempts ttl seq writes) =
      (succeeded (attempts ttl seq writes)).flatMap Frame.bytes := by
  induction writes generalizing seq with
  | nil => rfl
  | cons write writes ih =>
    have hrest := ih (fun other hmem ↦ hclean other (List.mem_cons_of_mem _ hmem)) (seq + 1)
    simp only [onStream, succeeded] at hrest
    rcases hclean write List.mem_cons_self with ⟨hdone, -⟩ | hnothing
    · simp [attempts, onStream, succeeded, Attempt.bytes, Attempt.succeeded?, hdone, hrest]
    · simp [attempts, onStream, succeeded, Attempt.bytes, Attempt.succeeded?, hnothing, hrest]

/-- A successful call in front. -/
theorem succeeded_done {write : Write} (hdone : write.failedAfter = none) {seq : UInt32}
    {writes : List Write} : succeeded (attempts ttl seq (write :: writes)) =
      ⟨0, ttl, seq, write.message⟩ :: succeeded (attempts ttl (seq + 1) writes) := by
  have hhead : Attempt.succeeded? ⟨⟨0, ttl, seq, write.message⟩, write.failedAfter⟩ =
      some ⟨0, ttl, seq, write.message⟩ := if_pos hdone
  rw [attempts, succeeded, List.filterMap_cons_some hhead, succeeded]

/-- A failed call in front. -/
theorem succeeded_failed {write : Write} (hfailed : write.failedAfter ≠ none) {seq : UInt32}
    {writes : List Write} : succeeded (attempts ttl seq (write :: writes)) =
      succeeded (attempts ttl (seq + 1) writes) := by
  have hhead : Attempt.succeeded? ⟨⟨0, ttl, seq, write.message⟩, write.failedAfter⟩ = none :=
    if_neg hfailed
  rw [attempts, succeeded, List.filterMap_cons_none hhead, succeeded]

/-- Failed calls have no successful frames. -/
theorem succeeded_eq_nil {writes : List Write}
    (hfailed : ∀ write ∈ writes, write.failedAfter ≠ none) {seq : UInt32} :
    succeeded (attempts ttl seq writes) = [] := by
  induction writes generalizing seq with
  | nil => rfl
  | cons write writes ih =>
    rw [succeeded_failed (hfailed write List.mem_cons_self)]
    exact ih fun other hmem ↦ hfailed other (List.mem_cons_of_mem _ hmem)

/-- The successful frames are within the limit when their messages are. -/
theorem fits_of_succeeded {writes : List Write} (hfits : ∀ write ∈ writes,
      write.failedAfter = none → write.message.length ≤ min cfg.maxFrame 65535) (seq : UInt32) :
    ∀ frame ∈ succeeded (attempts ttl seq writes), frame.Fits cfg := by
  induction writes generalizing seq with
  | nil => exact fun _ hmem ↦ nomatch hmem
  | cons write writes ih =>
    have hrest := ih (fun other hmem ↦ hfits other (List.mem_cons_of_mem _ hmem)) (seq + 1)
    by_cases hdone : write.failedAfter = none
    · rw [succeeded_done hdone]
      intro frame hmem
      rcases List.mem_cons.mp hmem with rfl | hlater
      · exact hfits write List.mem_cons_self hdone
      · exact hrest frame hlater
    · rw [succeeded_failed hdone]
      exact hrest

/-- Behind a call that fails with some bytes written no call succeeds: the stream begins with the
successful frames. -/
theorem onStream_of_pairwise {writes : List Write}
    (hlast : writes.Pairwise fun early late ↦ early.Tears → late.failedAfter ≠ none)
    (seq : UInt32) : ∃ tail, onStream (attempts ttl seq writes) =
      (succeeded (attempts ttl seq writes)).flatMap Frame.bytes ++ tail := by
  induction writes generalizing seq with
  | nil => exact ⟨[], rfl⟩
  | cons write writes ih =>
    obtain ⟨hlater, hrest⟩ := List.pairwise_cons.mp hlast
    obtain ⟨tail, htail⟩ := ih hrest (seq + 1)
    match hfailed : write.failedAfter with
    | none =>
      refine ⟨tail, ?_⟩
      rw [succeeded_done hfailed, List.flatMap_cons, List.append_assoc, ← htail]
      simp [attempts, onStream, Attempt.bytes, hfailed]
    | some 0 =>
      refine ⟨tail, ?_⟩
      rw [succeeded_failed (by simp [hfailed]), ← htail]
      simp [attempts, onStream, Attempt.bytes, hfailed]
    | some (count + 1) =>
      have hnone : succeeded (attempts ttl (seq + 1) writes) = [] :=
        succeeded_eq_nil fun other hmem ↦ hlater other hmem ⟨count, hfailed⟩
      rw [succeeded_failed (by simp [hfailed]), hnone]
      exact ⟨_, rfl⟩

end Loop

/-! ### The call that meets a torn frame -/

/-- What a call leaves unread when the scan stops in front of `behind`: it consumes at least the
header, and the payload and the CRC too when the length is within the limit. -/
theorem length_unread (cfg : Cfg) (work : List UInt8) {stream behind : List UInt8}
    (hskip : skipToMagic stream = some behind) :
    (readFrame cfg work stream).2.2.length ≤ behind.length - 10 ∧
      ((le16 (behind.getD 4 0) (behind.getD 5 0)).toNat ≤ cfg.maxFrame →
        (readFrame cfg work stream).2.2.length ≤
          behind.length - (12 + (le16 (behind.getD 4 0) (behind.getD 5 0)).toNat)) := by
  have hword : ∀ {hdr rest : List UInt8}, hdr.length = 10 →
      (le16 ((hdr ++ rest).getD 4 0) ((hdr ++ rest).getD 5 0)).toNat = lenField hdr := by
    intro hdr rest hhdr
    rw [List.getD_append _ _ _ _ (by omega), List.getD_append _ _ _ _ (by omega), lenField]
  have hcases := readFrame_cases cfg work stream
  generalize readFrame cfg work stream = result at hcases ⊢
  cases hcases with
  | noMagic hnone => simp [hskip] at hnone
  | shortHeader _ hshort => simp
  | lenTooBig hfound hhdr hbig | shortPayload hfound hhdr hfits hshort
  | shortCrc hfound hhdr hfits hpayload hshort | badCrc hfound hhdr hfits hpayload hcrcb hbad
  | accepted hfound hhdr hfits hpayload hcrcb hcrc =>
    obtain rfl := Option.some.inj (hskip.symm.trans hfound)
    simp only [hword hhdr, List.length_append, List.length_nil]
    omega

/-- The scan of a frame that is torn behind its magic bytes. -/
theorem skipToMagic_torn (frame : Frame) (cut : ℕ) (rest : List UInt8) :
    skipToMagic (frame.bytes.take (cut + 2) ++ rest) =
      some ((rawBody ver 0 frame.chan frame.ttl frame.seq frame.payload).take cut ++ rest) := by
  rw [Frame.bytes, writeFrame_eq]
  rfl

/-- A call that meets a torn frame within the limit consumes more than the frame has left on the
stream. Assumes: what follows begins like a frame. -/
theorem length_unread_torn {cfg : Cfg} {frame : Frame} (hfits : frame.Fits cfg) {cut : ℕ}
    (hcut : cut + 2 < frame.bytes.length) (work : List UInt8) {rest : List UInt8}
    (hrest : rest ≠ []) :
    (readFrame cfg work (frame.bytes.take (cut + 2) ++ rest)).2.2.length < rest.length := by
  have hbound : frame.payload.length ≤ min cfg.maxFrame 65535 := hfits
  have hsize := frame.length_bytes
  have hpos := List.length_pos_iff.mpr hrest
  set body := rawBody ver 0 frame.chan frame.ttl frame.seq frame.payload with hbody
  have hlength : body.length = frame.payload.length + 12 := length_rawBody ..
  obtain ⟨hheader, hwhole⟩ := length_unread cfg work (skipToMagic_torn frame cut rest)
  rw [← hbody, List.length_append, List.length_take_of_le (by omega)] at hheader hwhole
  rcases Nat.lt_or_ge cut 10 with hshort | hlong
  · omega
  · -- the length word is that of the torn frame
    have hword : (le16 ((body.take cut ++ rest).getD 4 0)
        ((body.take cut ++ rest).getD 5 0)).toNat = frame.payload.length := by
      have hbytes : ∀ k < 10, (body.take cut ++ rest).getD k 0 = body.getD k 0 := by
        intro k hk
        rw [List.getD_append _ _ _ _ (by rw [List.length_take]; omega), List.getD_eq_getElem?_getD,
          List.getElem?_take_of_lt (by omega), List.getD_eq_getElem?_getD]
      rw [hbytes 4 (by decide), hbytes 5 (by decide)]
      have hsmall : frame.payload.length < 65536 := by omega
      exact (congrArg UInt16.toNat (le16_loByte_hiByte _)).trans (UInt16.toNat_ofNat_of_lt' hsmall)
    rw [hword] at hwhole
    omega

/-- The payload byte of the next message is none of those that a torn frame in front of it could
turn up in its place. -/
structure Unmistakable (ttl : UInt8) (seq : UInt32) (byte : UInt8) : Prop where
  ne_zero : byte ≠ 0
  ne_ver : byte ≠ ver
  ne_magic : byte ≠ 0xAB
  ne_ttl : byte ≠ ttl
  ne_seq : byte ≠ seqByte seq 0

/-- There is such a byte. -/
theorem exists_unmistakable (ttl : UInt8) (seq : UInt32) : ∃ byte, Unmistakable ttl seq byte := by
  have hchoice : ∃ byte ∈ ([2, 3, 4] : List UInt8), byte ≠ ttl ∧ byte ≠ seqByte seq 0 := by
    generalize seqByte seq 0 = other
    by_contra hnone
    push Not at hnone
    have h2 := hnone 2 (by decide)
    have h3 := hnone 3 (by decide)
    have h4 := hnone 4 (by decide)
    grind
  obtain ⟨byte, hmem, httl, hseq⟩ := hchoice
  simp only [List.mem_cons, List.not_mem_nil, or_false] at hmem
  rcases hmem with rfl | rfl | rfl <;>
    exact ⟨_, by decide, by decide, by decide, httl, hseq⟩

/-- A torn frame in front of the next one does not read as the next one. -/
theorem torn_ne_received {cfg : Cfg} {ttl byte : UInt8} {seq : UInt32} {message : List UInt8}
    (hbyte : Unmistakable ttl (seq + 1) byte) {cut : ℕ} (work rest unread : List UInt8) :
    readFrame cfg work ((Frame.bytes ⟨0, ttl, seq, message⟩).take (cut + 2) ++
        (Frame.bytes ⟨0, ttl, seq + 1, [byte]⟩ ++ rest)) ≠
      (.ok (0, ttl, seq + 1, 1), [byte], unread) := by
  intro hread
  obtain ⟨-, -, -, version, reserved, hskip⟩ := readFrame_eq_ok_iff.mp hread
  rw [skipToMagic_torn, Option.some.injEq] at hskip
  have hget (k : ℕ) := congrArg (·[k]?) hskip
  rw [Frame.bytes, writeFrame_eq] at hget
  -- a header field or the payload byte differs, depending on where the frame is torn
  rcases cut with _ | _ | _ | _ | _ | _ | _ | _ | _ | _ | cut
  · exact absurd (Option.some.inj (hget 1) : (0xAB : UInt8) = 0) (by decide)
  · exact absurd (Option.some.inj (hget 1) : firstMagic = 0) (by decide)
  · exact hbyte.ne_seq (Option.some.inj (hget 10)).symm
  · exact absurd (Option.some.inj (hget 4) : 0xAB = loByte (UInt16.ofNat 1)) (by decide)
  · exact absurd (Option.some.inj (hget 4) : firstMagic = loByte (UInt16.ofNat 1)) (by decide)
  · exact absurd (Option.some.inj (hget 5) : firstMagic = hiByte (UInt16.ofNat 1)) (by decide)
  · exact hbyte.ne_ttl (Option.some.inj (hget 10)).symm
  · exact hbyte.ne_zero (Option.some.inj (hget 10)).symm
  · exact hbyte.ne_ver (Option.some.inj (hget 10)).symm
  · exact hbyte.ne_magic (Option.some.inj (hget 10)).symm
  · have h0 : seqByte seq 0 = seqByte (seq + 1) 0 := Option.some.inj (hget 6)
    have h1 : seqByte seq 1 = seqByte (seq + 1) 1 := Option.some.inj (hget 7)
    have h2 : seqByte seq 2 = seqByte (seq + 1) 2 := Option.some.inj (hget 8)
    have h3 : seqByte seq 3 = seqByte (seq + 1) 3 := Option.some.inj (hget 9)
    have hsame := le32_seqByte (seq + 1)
    rw [← h0, ← h1, ← h2, ← h3, le32_seqByte] at hsame
    exact absurd hsame (by grind)

/-! ### Counting bytes -/

/-- The bytes of the frames that calls have returned. -/
def totalSize (outcomes : List (RxResult × List UInt8)) : ℕ :=
  (outcomes.map fun outcome ↦ frameSize outcome.1).sum

theorem readFrames_succ (cfg : Cfg) (calls : ℕ) (work stream : List UInt8) :
    (readFrames cfg (calls + 1) work stream).1 =
      ((readFrame cfg work stream).1, (readFrame cfg work stream).2.1) ::
        (readFrames cfg calls (readFrame cfg work stream).2.1 (readFrame cfg work stream).2.2).1 :=
  rfl

/-- The bytes of the frames that calls return were on the stream. -/
theorem totalSize_readFrames_le (cfg : Cfg) (calls : ℕ) (work stream : List UInt8) :
    totalSize (readFrames cfg calls work stream).1 ≤ stream.length := by
  induction calls generalizing work stream with
  | zero => exact Nat.zero_le _
  | succ calls ih =>
    have hcall := (length_readFrame cfg work stream).1
    have hlater := ih (readFrame cfg work stream).2.1 (readFrame cfg work stream).2.2
    rw [readFrames_succ, totalSize, List.map_cons, List.sum_cons, ← totalSize]
    dsimp only
    omega

theorem totalSize_le_of_sublist {some all : List (RxResult × List UInt8)}
    (hsublist : some.Sublist all) : totalSize some ≤ totalSize all :=
  (hsublist.map _).sum_le_sum fun _ _ ↦ Nat.zero_le _

/-- Where frames are returned in order from an unread stream, it has at least their bytes. -/
theorem length_le_of_returned {cfg : Cfg} {calls : ℕ} {work stream : List UInt8}
    {frames : List Frame}
    (hreturned : (frames.map Frame.received).Sublist (readFrames cfg calls work stream).1) :
    (frames.flatMap Frame.bytes).length ≤ stream.length := by
  rw [← sum_frameSize_received]
  exact (totalSize_le_of_sublist hreturned).trans (totalSize_readFrames_le cfg calls work stream)

/-- The first call on a torn frame within the limit and the frames behind it consumes more than the
torn frame, and the next frame as well if it returns that one. -/
theorem readFrame_torn {cfg : Cfg} {ttl byte : UInt8} {seq : UInt32} {message : List UInt8}
    (hfits : Frame.Fits cfg ⟨0, ttl, seq, message⟩) (hbyte : Unmistakable ttl (seq + 1) byte)
    {cut : ℕ} (hpos : 0 < cut) (hcut : cut < (Frame.bytes ⟨0, ttl, seq, message⟩).length)
    {next : Frame} (hnext : next = ⟨0, ttl, seq + 1, [byte]⟩) (later : List Frame)
    (work : List UInt8) {stream : List UInt8}
    (hstream : stream = (Frame.bytes ⟨0, ttl, seq, message⟩).take cut ++
      (next :: later).flatMap Frame.bytes) :
    (readFrame cfg work stream).2.2.length < ((next :: later).flatMap Frame.bytes).length ∧
      (((readFrame cfg work stream).1, (readFrame cfg work stream).2.1) = next.received →
        (readFrame cfg work stream).2.2.length < (later.flatMap Frame.bytes).length) := by
  have hsplit : (next :: later).flatMap Frame.bytes =
      next.bytes ++ later.flatMap Frame.bytes := List.flatMap_cons
  obtain ⟨more, hmore⟩ : ∃ more, (next :: later).flatMap Frame.bytes = firstMagic :: more :=
    ⟨_, rfl⟩
  match cut, hpos, hcut with
  | 1, _, _ =>
    have hpair : skipToMagic stream = skipToMagic more := by
      rw [hstream, hmore]
      exact skipToMagic_pair (show firstMagic ≠ 0xAB by decide) more
    have hcall := (length_readFrame cfg work more).1
    rw [← readFrame_congr hpair] at hcall
    have hlength := congrArg List.length hmore
    rw [List.length_cons] at hlength
    refine ⟨by omega, fun hreceived ↦ ?_⟩
    have hsize : frameSize (readFrame cfg work stream).1 = next.bytes.length := by
      rw [← frameSize_received, ← hreceived]
    rw [hsplit, List.length_append] at hlength
    omega
  | cut + 2, _, hcut =>
    have hsome : (next :: later).flatMap Frame.bytes ≠ [] := hmore ▸ List.cons_ne_nil _ _
    refine ⟨hstream ▸ length_unread_torn hfits hcut work hsome, fun hreceived ↦ ?_⟩
    rw [hnext] at hreceived hsplit
    have hread : readFrame cfg work stream =
        (.ok (0, ttl, seq + 1, 1), [byte], (readFrame cfg work stream).2.2) := by
      obtain ⟨hone, htwo⟩ := Prod.mk.inj hreceived
      exact Prod.ext hone (Prod.ext htwo rfl)
    rw [hstream, hnext, hsplit] at hread
    exact absurd hread (torn_ne_received hbyte work _ _)

/-- Behind a torn frame within the limit the next frame, or one of those after it, is not
returned. -/
theorem torn_not_returned {cfg : Cfg} {ttl byte : UInt8} {seq : UInt32} {message : List UInt8}
    (hfits : Frame.Fits cfg ⟨0, ttl, seq, message⟩) (hbyte : Unmistakable ttl (seq + 1) byte)
    {cut : ℕ} (hpos : 0 < cut) (hcut : cut < (Frame.bytes ⟨0, ttl, seq, message⟩).length)
    (later : List Frame) (work : List UInt8) :
    ¬ Returns cfg work ((Frame.bytes ⟨0, ttl, seq, message⟩).take cut ++
        (⟨0, ttl, seq + 1, [byte]⟩ :: later).flatMap Frame.bytes)
      (⟨0, ttl, seq + 1, [byte]⟩ :: later) := by
  have hfirst := readFrame_torn hfits hbyte hpos hcut rfl later work rfl
  rintro ⟨calls, hreturned⟩
  match calls with
  | 0 => exact absurd hreturned.length_le (by simp [readFrames])
  | calls + 1 =>
    rw [readFrames_succ, List.map_cons, List.sublist_cons_iff] at hreturned
    rcases hreturned with hlater | ⟨rest, heq, hlater⟩
    · rw [← List.map_cons] at hlater
      have hroom := length_le_of_returned hlater
      omega
    · obtain ⟨hreceived, rfl⟩ := List.cons.inj heq
      have hroom := length_le_of_returned hlater
      have hless := hfirst.2 hreceived.symm
      omega

/-- Frames within the limit in front of a stream are returned first. -/
theorem Returns.of_append {cfg : Cfg} {frames later : List Frame} {stream : List UInt8}
    (hfits : ∀ frame ∈ frames, frame.Fits cfg) :
    ∀ {work : List UInt8}, Returns cfg work (frames.flatMap Frame.bytes ++ stream)
      (frames ++ later) → ∃ work', Returns cfg work' stream later := by
  induction frames with
  | nil => exact fun {work} hreturns ↦ ⟨work, hreturns⟩
  | cons frame frames ih =>
    rintro work ⟨calls, hreturned⟩
    match calls with
    | 0 => exact absurd hreturned.length_le (by simp [readFrames])
    | calls + 1 =>
      rw [readFrames_succ, List.flatMap_cons, List.append_assoc,
        (hfits frame List.mem_cons_self).readFrame_bytes, List.cons_append,
        List.map_cons] at hreturned
      exact ih (fun other hmem ↦ hfits other (List.mem_cons_of_mem _ hmem))
        ⟨calls, List.cons_sublist_cons.mp hreturned⟩

/-! ### The result for every list of writes -/

/-- When the successful frames are returned. A peer returns every frame whose write succeeded, in
order, if their messages are within its limit and no write succeeds after one that failed with some
bytes written. The last part cannot be dropped: wherever in a list of clean writes one fails with
some bytes of a frame within the limit written, there is a next message with which the peer does
not return every frame, whatever clean writes come after it. -/
theorem writes_returned (peer : Cfg) (ttl : UInt8) (work : List UInt8) :
    (∀ (seq : UInt32) (writes : List Write),
      (∀ write ∈ writes, write.failedAfter = none →
        write.message.length ≤ min peer.maxFrame 65535) →
      writes.Pairwise (fun early late ↦ early.Tears → late.failedAfter ≠ none) →
      Returns peer work (onStream (attempts ttl seq writes))
        (succeeded (attempts ttl seq writes))) ∧
    ∀ (seq : UInt32) (before : List Write) (message : List UInt8) (cut : ℕ),
      (∀ write ∈ before, write.Clean peer) → message.length ≤ min peer.maxFrame 65535 →
      0 < cut → cut < message.length + 14 →
      ∃ byte, ∀ after : List Write, (∀ write ∈ after, write.Clean peer) →
        ¬ Returns peer work
          (onStream (attempts ttl seq (before ++ ⟨message, some cut⟩ :: ⟨[byte], none⟩ :: after)))
          (succeeded
            (attempts ttl seq (before ++ ⟨message, some cut⟩ :: ⟨[byte], none⟩ :: after))) := by
  constructor
  · intro seq writes hfits hlast
    obtain ⟨tail, htail⟩ : ∃ tail, onStream (attempts ttl seq writes) =
        (succeeded (attempts ttl seq writes)).flatMap Frame.bytes ++ tail :=
      onStream_of_pairwise hlast seq
    refine ⟨(succeeded (attempts ttl seq writes)).length, ?_⟩
    obtain ⟨work', hall⟩ := readFrames_append (fits_of_succeeded hfits seq) 0 work tail
    rw [Nat.add_zero] at hall
    rw [htail, hall]
    exact List.sublist_append_left _ _
  · intro seq before message cut hbefore hfits hpos hcut
    set torn := seq + UInt32.ofNat before.length with htorn
    obtain ⟨byte, hbyte⟩ := exists_unmistakable ttl (torn + 1)
    refine ⟨byte, fun after hafter hreturns ↦ ?_⟩
    have hstream : onStream (attempts ttl torn (⟨message, some cut⟩ :: ⟨[byte], none⟩ :: after)) =
        (Frame.bytes ⟨0, ttl, torn, message⟩).take cut ++ (⟨0, ttl, torn + 1, [byte]⟩ ::
          succeeded (attempts ttl (torn + 1 + 1) after)).flatMap Frame.bytes := by
      rw [List.flatMap_cons, ← onStream_clean hafter]
      rfl
    rw [attempts_append, onStream_append, succeeded_append, onStream_clean hbefore, ← htorn,
      hstream, succeeded_failed (by simp), succeeded_done rfl] at hreturns
    have hfront : ∀ frame ∈ succeeded (attempts ttl seq before), frame.Fits peer :=
      fits_of_succeeded (fun write hmem hdone ↦ (hbefore write hmem).fits hdone) seq
    obtain ⟨work', hlater⟩ := hreturns.of_append hfront
    exact torn_not_returned hfits hbyte hpos (by rwa [Frame.length_bytes]) _ work' hlater

/-- A last frame that is torn does no harm, and one that is torn after its first byte does, with
some next message. -/
theorem writes_returned_torn_last :
    Returns ⟨1400, 8⟩ [] (onStream (attempts 8 0 [⟨[5], none⟩, ⟨[6], some 3⟩]))
      (succeeded (attempts 8 0 [⟨[5], none⟩, ⟨[6], some 3⟩])) ∧
    ∃ byte, ¬ Returns ⟨1400, 8⟩ []
      (onStream (attempts 8 0 [⟨[5], none⟩, ⟨[6], some 1⟩, ⟨[byte], none⟩]))
      (succeeded (attempts 8 0 [⟨[5], none⟩, ⟨[6], some 1⟩, ⟨[byte], none⟩])) := by
  obtain ⟨byte, hlost⟩ := (writes_returned ⟨1400, 8⟩ 8 []).2 0 [⟨[5], none⟩] [6] 1
    (by simp [Write.Clean]) (by decide) (by decide) (by decide)
  refine ⟨(writes_returned ⟨1400, 8⟩ 8 []).1 0 _ (by simp) (by simp [Write.Tears]), byte, ?_⟩
  exact hlost [] (by simp)

/-- A frame of which only the first byte is written, and one that is written in full: every call of
the peer fails. -/
theorem torn_frame_loses_next :
    succeeded (attempts 8 0 [⟨[5], some 1⟩, ⟨[6], none⟩]) = [⟨0, 8, 1, [6]⟩] ∧
    (∀ calls, (readFrames ⟨1400, 8⟩ calls []
        (onStream (attempts 8 0 [⟨[5], some 1⟩, ⟨[6], none⟩]))).1 =
      List.replicate calls (.error .io, [])) ∧
    ¬ Returns ⟨1400, 8⟩ [] (onStream (attempts 8 0 [⟨[5], some 1⟩, ⟨[6], none⟩]))
      (succeeded (attempts 8 0 [⟨[5], some 1⟩, ⟨[6], none⟩])) := by
  have hfirst : readFrame ⟨1400, 8⟩ [] (onStream (attempts 8 0 [⟨[5], some 1⟩, ⟨[6], none⟩])) =
      (.error .io, [], []) := by decide +kernel
  have hidle (calls : ℕ) :
      (readFrames ⟨1400, 8⟩ calls [] []).1 = List.replicate calls (.error .io, []) := by
    induction calls with
    | zero => rfl
    | succ calls ih => rw [readFrames_succ, List.replicate_succ, ← ih]; rfl
  have hall (calls : ℕ) : (readFrames ⟨1400, 8⟩ calls []
      (onStream (attempts 8 0 [⟨[5], some 1⟩, ⟨[6], none⟩]))).1 =
        List.replicate calls (.error .io, []) := by
    cases calls with
    | zero => rfl
    | succ calls => rw [readFrames_succ, hfirst, hidle, List.replicate_succ]
  refine ⟨rfl, hall, ?_⟩
  rintro ⟨calls, hreturned⟩
  rw [hall] at hreturned
  have hmem : Frame.received ⟨0, 8, 1, [6]⟩ ∈ List.replicate calls (.error .io, []) :=
    hreturned.subset List.mem_cons_self
  cases (List.mem_replicate.mp hmem).2

end AarnnNsys.Usb
