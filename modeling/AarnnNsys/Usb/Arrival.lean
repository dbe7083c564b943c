import AarnnNsys.Usb.Stream
import Mathlib.Algebra.Ring.Nat

/-!
# Frames that arrive in pieces

The descriptor of the usb-sim link is non-blocking: `read_exact` consumes what has arrived and fails
when that is not enough, and the receive loop ignores the failure and calls `read_frame` again. The
next call starts over at the scan for the magic bytes, so what a failed call consumed is lost.

`polls` is the receive loop over a schedule of arrivals, one chunk before each call. When the bytes
of a list of frames arrive in chunks, the loop returns these frames exactly when every call finds
either nothing or the next frame in full (`returned_polls_iff`), a condition on the lengths of the
frames and of the chunks alone (`ArrivesWhole`).
-/

set_option autoImplicit false
set_option relaxedAutoImplicit false

namespace AarnnNsys.Usb

/-- The receive loop: each chunk becomes available and `read_frame` is called. Lists the outcome of
every call with the work buffer it leaves. -/
def polls (cfg : Cfg) : List UInt8 → List UInt8 → List (List UInt8) → List (RxResult × List UInt8)
  | _, _, [] => []
  | work, unread, chunk :: chunks =>
    let (outcome, work, unread) := readFrame cfg work (unread ++ chunk)
    (outcome, work) :: polls cfg work unread chunks

/-- Whether a call returned a frame. -/
def isFrame (outcome : RxResult × List UInt8) : Bool := outcome.1.isOk

/-- What the calls returned that did not fail. -/
def returned (outcomes : List (RxResult × List UInt8)) : List (RxResult × List UInt8) :=
  outcomes.filter isFrame

/-- Every call finds nothing or the next frame in full: `pending` bytes are unread, `sizes` are the
lengths of the frames still to come and `arrivals` those of the chunks. -/
def ArrivesWhole : ℕ → List ℕ → List ℕ → Prop
  | _, _, [] => True
  | pending, [], arrived :: arrivals => pending + arrived = 0 ∧ ArrivesWhole 0 [] arrivals
  | pending, size :: sizes, arrived :: arrivals =>
    if pending + arrived = 0 then ArrivesWhole 0 (size :: sizes) arrivals
    else size ≤ pending + arrived ∧ ArrivesWhole (pending + arrived - size) sizes arrivals

/-- The bytes of the frames that the calls return have all arrived. -/
theorem sum_frameSize_returned_le (cfg : Cfg) (work unread : List UInt8)
    (chunks : List (List UInt8)) :
    ((returned (polls cfg work unread chunks)).map fun outcome ↦ frameSize outcome.1).sum ≤
      unread.length + chunks.flatten.length := by
  induction chunks generalizing work unread with
  | nil => exact Nat.zero_le _
  | cons chunk chunks hrest =>
    rw [polls, List.flatten_cons]
    have hcall := (length_readFrame cfg work (unread ++ chunk)).1
    revert hcall
    generalize readFrame cfg work (unread ++ chunk) = result
    obtain ⟨outcome, work', unread'⟩ := result
    intro hcall
    have hlater := hrest work' unread'
    simp only [List.length_append] at hcall ⊢
    simp only [returned, List.filter_cons]
    split
    · simp only [List.map_cons, List.sum_cons]
      simp only [returned] at hlater
      omega
    · simp only [returned] at hlater
      omega

theorem frameSize_received (frame : Frame) : frameSize frame.received.1 = frame.bytes.length :=
  frame.length_bytes.symm

theorem sum_frameSize_received (frames : List Frame) :
    ((frames.map Frame.received).map fun outcome ↦ frameSize outcome.1).sum =
      (frames.flatMap Frame.bytes).length := by
  simp only [List.length_flatMap, List.map_map]
  congr 1
  exact List.map_congr_left fun frame _ ↦ frameSize_received frame

/-- A call that finds nothing returns nothing and leaves everything as it was. -/
theorem returned_polls_idle (cfg : Cfg) (work : List UInt8) (chunks : List (List UInt8)) :
    returned (polls cfg work [] ([] :: chunks)) = returned (polls cfg work [] chunks) :=
  rfl

/-- A call that finds the next frame in full returns it. -/
theorem returned_polls_whole {cfg : Cfg} {frame : Frame} (hfits : frame.Fits cfg)
    {unread chunk more : List UInt8} (hwhole : unread ++ chunk = frame.bytes ++ more)
    (work : List UInt8) (chunks : List (List UInt8)) :
    returned (polls cfg work unread (chunk :: chunks)) =
      frame.received :: returned (polls cfg frame.payload more chunks) := by
  rw [polls, hwhole, hfits.readFrame_bytes]
  rfl

/-- When all bytes have arrived, as many calls as there are frames return them all, and further
calls return nothing. -/
theorem returned_polls_arrived {cfg : Cfg} {frames : List Frame}
    (hfits : ∀ frame ∈ frames, frame.Fits cfg) (work : List UInt8) {calls : ℕ}
    (hcalls : frames.length ≤ calls) :
    returned (polls cfg work (frames.flatMap Frame.bytes) (List.replicate calls [])) =
      frames.map Frame.received := by
  induction calls generalizing frames work with
  | zero =>
    rw [List.length_eq_zero_iff.mp (Nat.le_zero.mp hcalls)]
    rfl
  | succ calls hlater =>
    cases frames with
    | nil => exact hlater (fun _ hnone ↦ absurd hnone List.not_mem_nil) work (Nat.zero_le _)
    | cons frame frames =>
      have hrest : ∀ later ∈ frames, later.Fits cfg := fun later hmem ↦
        hfits later (List.mem_cons_of_mem _ hmem)
      have hwhole : (frame :: frames).flatMap Frame.bytes ++ [] =
          frame.bytes ++ frames.flatMap Frame.bytes := List.append_nil _
      rw [List.replicate_succ, returned_polls_whole (hfits frame List.mem_cons_self) hwhole,
        hlater hrest frame.payload (Nat.le_of_succ_le_succ hcalls)]
      rfl

/-- A call that finds a part of the next frame loses it: not all frames will be returned. -/
theorem returned_polls_part {cfg : Cfg} {frame : Frame} {frames : List Frame}
    {work unread chunk : List UInt8} {chunks : List (List UInt8)}
    (hbytes : (unread ++ chunk).length + chunks.flatten.length =
      ((frame :: frames).flatMap Frame.bytes).length)
    (hsome : unread ++ chunk ≠ []) (hpart : (unread ++ chunk).length < frame.bytes.length) :
    returned (polls cfg work unread (chunk :: chunks)) ≠ (frame :: frames).map Frame.received := by
  have hcall := length_readFrame cfg work (unread ++ chunk)
  rw [polls]
  revert hcall
  generalize readFrame cfg work (unread ++ chunk) = result
  obtain ⟨outcome, work', unread'⟩ := result
  rintro ⟨hsize, hless⟩ hall
  simp only [returned, List.filter_cons] at hall
  split at hall
  · -- a frame of this size has not arrived
    have hhead : (outcome, work') = frame.received := (List.cons.inj hall).1
    have hwhole : frameSize outcome = frame.bytes.length := by
      rw [← frameSize_received frame, ← hhead]
    dsimp only at hsize
    omega
  · -- what the call consumed is missing for the frames still to be returned
    have hlater := sum_frameSize_returned_le cfg work' unread' chunks
    rw [returned, hall, sum_frameSize_received] at hlater
    have hlost := hless hsome
    dsimp only at hlost
    omega

theorem returned_polls_append_iff {cfg : Cfg} {frames : List Frame}
    (hfits : ∀ frame ∈ frames, frame.Fits cfg) {unread : List UInt8} {chunks : List (List UInt8)}
    (hbytes : unread ++ chunks.flatten = frames.flatMap Frame.bytes) (work : List UInt8)
    {calls : ℕ} (hcalls : frames.length ≤ calls) :
    returned (polls cfg work unread (chunks ++ List.replicate calls [])) =
        frames.map Frame.received ↔
      ArrivesWhole unread.length (frames.map fun frame ↦ frame.bytes.length)
        (chunks.map List.length) := by
  induction chunks generalizing frames unread work with
  | nil =>
    rw [List.flatten_nil, List.append_nil] at hbytes
    rw [hbytes]
    exact iff_of_true (returned_polls_arrived hfits work hcalls) trivial
  | cons chunk chunks hlater =>
    rw [List.flatten_cons, ← List.append_assoc] at hbytes
    rw [List.cons_append, List.map_cons]
    by_cases hnone : unread ++ chunk = []
    · rw [hnone] at hbytes
      obtain ⟨rfl, rfl⟩ := List.append_eq_nil_iff.mp hnone
      rw [returned_polls_idle, hlater hfits hbytes work hcalls]
      cases frames with
      | nil => simp [ArrivesWhole]
      | cons frame frames => simp [ArrivesWhole]
    · cases frames with
      | nil => exact absurd (List.append_eq_nil_iff.mp hbytes).1 hnone
      | cons frame frames =>
        have hsizes : ArrivesWhole unread.length
              ((frame :: frames).map fun frame ↦ frame.bytes.length)
              (chunk.length :: chunks.map List.length) ↔
            frame.bytes.length ≤ (unread ++ chunk).length ∧
              ArrivesWhole ((unread ++ chunk).length - frame.bytes.length)
                (frames.map fun frame ↦ frame.bytes.length) (chunks.map List.length) := by
          rw [List.map_cons, ArrivesWhole, ← List.length_append,
            if_neg (mt List.length_eq_zero_iff.mp hnone)]
        have hrest : ∀ later ∈ frames, later.Fits cfg := fun later hmem ↦
          hfits later (List.mem_cons_of_mem _ hmem)
        by_cases hwhole : frame.bytes.length ≤ (unread ++ chunk).length
        · obtain ⟨more, hmore⟩ : frame.bytes <+: unread ++ chunk :=
            List.prefix_of_prefix_length_le (List.prefix_append _ _)
              ⟨chunks.flatten, hbytes⟩ hwhole
          have hleft : more ++ chunks.flatten = frames.flatMap Frame.bytes := by
            rw [← hmore, List.append_assoc] at hbytes
            exact List.append_cancel_left hbytes
          rw [hsizes, and_iff_right hwhole, ← hmore, List.length_append, Nat.add_sub_cancel_left,
            ← hlater hrest hleft frame.payload (Nat.le_of_succ_le hcalls),
            returned_polls_whole (hfits frame List.mem_cons_self) hmore.symm, List.map_cons]
          exact ⟨fun hall ↦ (List.cons.inj hall).2, fun hall ↦ hall ▸ rfl⟩
        · refine iff_of_false (returned_polls_part ?_ hnone (Nat.lt_of_not_le hwhole)) ?_
          · rw [List.flatten_append, List.flatten_replicate_nil, List.append_nil,
              ← List.length_append, hbytes]
          · rw [hsizes]
            exact fun harrives ↦ hwhole harrives.1

/-- The bytes of the frames, cut into chunks in any way, are read as the same frames as when they
are available at once exactly when every call finds nothing or the next frame in full. Assumes: the
frames are within the limit, and after the last arrival `read_frame` is called at least as often as
there are frames. -/
theorem returned_polls_iff {cfg : Cfg} {frames : List Frame}
    (hfits : ∀ frame ∈ frames, frame.Fits cfg) {chunks : List (List UInt8)}
    (hsplit : chunks.flatten = frames.flatMap Frame.bytes) (work : List UInt8)
    {calls : ℕ} (hcalls : frames.length ≤ calls) :
    returned (polls cfg work [] (chunks ++ List.replicate calls [])) =
        returned (polls cfg work [] (frames.flatMap Frame.bytes :: List.replicate calls [])) ↔
      ArrivesWhole 0 (frames.map fun frame ↦ frame.bytes.length) (chunks.map List.length) := by
  have hatOnce : returned (polls cfg work []
      (frames.flatMap Frame.bytes :: List.replicate calls [])) = frames.map Frame.received := by
    rw [← returned_polls_arrived hfits work (Nat.le_succ_of_le hcalls), List.replicate_succ, polls,
      polls, List.nil_append, List.append_nil]
  rw [hatOnce]
  exact returned_polls_append_iff hfits hsplit work hcalls

/-- Two frames, cut between them, are both read. -/
theorem returned_polls_between_frames :
    returned (polls ⟨1400, 8⟩ [] []
        ([Frame.bytes ⟨0, 7, 1, [5]⟩, Frame.bytes ⟨0, 7, 2, []⟩] ++ List.replicate 2 [])) =
      returned (polls ⟨1400, 8⟩ [] []
        ([⟨0, 7, 1, [5]⟩, ⟨0, 7, 2, []⟩].flatMap Frame.bytes :: List.replicate 2 [])) := by
  have hfits : ∀ frame ∈ [⟨0, 7, 1, [5]⟩, ⟨0, 7, 2, []⟩], Frame.Fits ⟨1400, 8⟩ frame := by decide
  have hsplit : [Frame.bytes ⟨0, 7, 1, [5]⟩, Frame.bytes ⟨0, 7, 2, []⟩].flatten =
      [⟨0, 7, 1, [5]⟩, ⟨0, 7, 2, []⟩].flatMap Frame.bytes := by simp
  refine (returned_polls_iff hfits hsplit [] le_rfl).mpr ?_
  simp [ArrivesWhole, Frame.length_bytes]

/-- A frame whose first byte arrives one call before the others is lost, however often `read_frame`
is called afterwards; available at once, it is returned. -/
theorem returned_polls_split_frame :
    (∀ calls, returned (polls ⟨1400, 8⟩ [] []
        ([(Frame.bytes ⟨0, 7, 1, [5]⟩).take 1, (Frame.bytes ⟨0, 7, 1, [5]⟩).drop 1] ++
          List.replicate calls [])) = []) ∧
      ∀ calls, returned (polls ⟨1400, 8⟩ [] []
        ([Frame.bytes ⟨0, 7, 1, [5]⟩] ++ List.replicate calls [])) =
          [Frame.received ⟨0, 7, 1, [5]⟩] := by
  have hidle (work : List UInt8) (calls : ℕ) :
      returned (polls ⟨1400, 8⟩ work [] (List.replicate calls [])) = [] :=
    have hnone : ∀ frame ∈ ([] : List Frame), frame.Fits ⟨1400, 8⟩ := by simp
    returned_polls_arrived hnone work (Nat.zero_le calls)
  have hfirst : readFrame ⟨1400, 8⟩ [] ([] ++ (Frame.bytes ⟨0, 7, 1, [5]⟩).take 1) =
      (.error .io, [], []) := by decide +kernel
  have hsecond : readFrame ⟨1400, 8⟩ [] ([] ++ (Frame.bytes ⟨0, 7, 1, [5]⟩).drop 1) =
      (.error .io, [], []) := by decide +kernel
  have hwhole : readFrame ⟨1400, 8⟩ [] ([] ++ Frame.bytes ⟨0, 7, 1, [5]⟩) =
      (.ok (0, 7, 1, 1), [5], []) := by decide +kernel
  constructor
  · intro calls
    rw [List.cons_append, List.cons_append, polls, hfirst]
    dsimp only
    rw [polls, hsecond]
    exact hidle [] calls
  · intro calls
    rw [List.cons_append, polls, hwhole]
    exact congrArg _ (hidle [5] calls)

end AarnnNsys.Usb
