import AarnnNsys.L2.Stream
import Mathlib.Data.List.Nodup

/-!
# When the fragment index wraps

The fragment index is a counter of sixteen bits that sender and receiver count alike, but the
receiver takes an index of `0` for the start of a message. So a message of more than 65536 fragments
starts over in the middle: `lastLap` is what comes behind the last index `0`, and it is all that the
receiver publishes when every frame arrives in order (`handles_lastLap`).

`numbering_iff` says when the numbering is right: exactly for the messages of up to 65536 fragments,
whatever `max_frame` the command line allows.
-/

set_option autoImplicit false
set_option relaxedAutoImplicit false

namespace AarnnNsys.L2

open Bridge Wire Lib

/-! ### Laps of the counter -/

section Laps

variable {message : List UInt8} {i : ℕ}

/-- The number of the last fragment with the index `0`. -/
def lastLapStart (message : List UInt8) : ℕ := (fragmentCount message - 1) / 65536 * 65536

/-- The bytes from there on. -/
def lastLap (message : List UInt8) : List UInt8 :=
  message.drop (lastLapStart message * mtuPayload)

theorem lastLapStart_lt (hmessage : message ≠ []) :
    lastLapStart message < fragmentCount message := by
  have hpos := fragmentCount_pos hmessage
  rw [lastLapStart]
  omega

theorem fragmentCount_lastLap (message : List UInt8) :
    fragmentCount (lastLap message) = fragmentCount message - lastLapStart message := by
  rw [fragmentCount, lastLap, List.length_drop, chunkCount_sub _ mtuPayload_pos, fragmentCount]

/-- No index of the last lap wraps. -/
theorem fragmentCount_lastLap_le (message : List UInt8) :
    fragmentCount (lastLap message) ≤ 65536 := by
  rw [fragmentCount_lastLap, lastLapStart]
  omega

/-- The fragments of the last lap are those that a message of its bytes has. -/
theorem fragment_lastLap (hmessage : message ≠ []) :
    fragment message (lastLapStart message + i) = fragment (lastLap message) i := by
  have hstart := lastLapStart_lt hmessage
  have hidx : UInt16.ofNat (lastLapStart message + i) = UInt16.ofNat i := by
    rw [ofNat_eq_iff, lastLapStart]
    omega
  rw [fragment, fragment, hidx, lastLap, chunk_drop, ← lastLap, fragmentCount_lastLap]
  simp only [Piece.mk.injEq, decide_eq_decide, and_true, true_and]
  omega

/-- The last lap is the whole message when the index does not wrap. -/
theorem lastLap_eq_iff (hmessage : message ≠ []) :
    lastLap message = message ↔ fragmentCount message ≤ 65536 := by
  have hpos := fragmentCount_pos hmessage
  constructor
  · intro hwhole
    have hcount := fragmentCount_lastLap_le message
    rwa [hwhole] at hcount
  · intro hcount
    have hzero : lastLapStart message = 0 := by
      rw [lastLapStart]
      omega
    rw [lastLap, hzero, Nat.zero_mul, List.drop_zero]

/-- The indices of the fragments are different exactly when there are no more of them than
indices. -/
theorem nodup_fragIdx_iff :
    ((fragments message).map Piece.fragIdx).Nodup ↔ fragmentCount message ≤ 65536 := by
  have hmap : (fragments message).map Piece.fragIdx =
      (List.range (fragmentCount message)).map UInt16.ofNat := by
    rw [fragments_eq, List.map_map]
    rfl
  rw [hmap]
  constructor
  · intro hnodup
    by_contra hmany
    have hsame := List.inj_on_of_nodup_map hnodup (List.mem_range.mpr (by omega : 0 < _))
      (List.mem_range.mpr (by omega : 65536 < _)) (ofNat_eq_iff.mpr rfl)
    exact absurd hsame (by decide)
  · intro hcount
    refine List.Nodup.map_on (fun i hi j hj hsame ↦ ?_) List.nodup_range
    rw [List.mem_range] at hi hj
    rw [ofNat_eq_iff] at hsame
    omega

/-- Only the first fragment has the index `0` exactly when there are no more fragments than
indices. -/
theorem first_fragIdx_iff :
    (∀ (i : ℕ) (piece : Piece), (fragments message)[i]? = some piece → piece.fragIdx = 0 → i = 0) ↔
      fragmentCount message ≤ 65536 := by
  have hpiece (i : ℕ) (hi : i < fragmentCount message) :
      (fragments message)[i]? = some (fragment message i) := by
    rw [fragments_eq, List.getElem?_map, List.getElem?_range hi, Option.map_some]
  constructor
  · intro hfirst
    by_contra hmany
    exact absurd (hfirst 65536 _ (hpiece _ (not_le.mp hmany)) rfl) (by decide)
  · intro hcount i piece hi hzero
    have hlt : i < fragmentCount message := by
      have hlength := (List.getElem?_eq_some_iff.mp hi).1
      rwa [fragments_eq, List.length_map, List.length_range] at hlength
    obtain rfl : fragment message i = piece := Option.some.inj ((hpiece i hlt).symm.trans hi)
    by_contra hne
    exact ofNat_ne_zero hne (hlt.trans_le hcount) hzero

end Laps

/-! ### Delivery in order -/

section Delivery

variable {sender receiver : Link} {state : Receiver} {msgId : UInt16} {message : List UInt8}

/-- The run over all fragments of a message, however many: it ends with the delivery of the last
lap. -/
theorem handles_lastLap (hether : sender.cfg.ethertype = receiver.cfg.ethertype)
    (hmessage : message ≠ []) (hfits : message.length ≤ receiver.cfg.maxFrame)
    {arrivals : List Arrival} (hwf : state.WellFormed receiver)
    (hdelivers : Delivers receiver.cfg (framesFrom sender msgId message 0) arrivals) :
    ∃ final, final.WellFormed receiver ∧ Handles receiver state arrivals final
      (delivery receiver (nextTtl sender.cfg.ttl) msgId (lastLap message)) := by
  set lap := lastLap message with hlap
  set start := lastLapStart message with hstart
  have hbehind : start < fragmentCount message := lastLapStart_lt hmessage
  have hcount : fragmentCount lap = fragmentCount message - start := fragmentCount_lastLap message
  have hlength : lap.length ≤ receiver.cfg.maxFrame := by
    rw [hlap, lastLap, List.length_drop]
    omega
  let outcome (i : ℕ) : List Action :=
    if i < fragmentCount message then delivery receiver (nextTtl sender.cfg.ttl) msgId lap else []
  obtain ⟨final, actions, hfinal, hhandles, rfl⟩ :=
    handles_of_step (fun reasm i ↦ start ≤ i → InProgress reasm msgId lap (i - start))
      (fun i actions ↦ actions = outcome i) hether (fun i hend ↦ (if_neg (not_lt.mpr hend)).symm)
      (fun reasm i hwf hprogress hi ↦ by
        rcases Nat.lt_or_ge i start with hearly | hlate
        · -- a fragment of an earlier lap is not the last one
          have hmore : i + 1 < fragmentCount message := by omega
          have hlast : ¬ ((fragment message i).onWire 0 (nextTtl sender.cfg.ttl) msgId).last := by
            rw [Piece.last_onWire]
            exact mt of_decide_eq_true hmore.ne
          obtain ⟨reasm', hreceive, hwf'⟩ := hwf.receive_of_not_last receiver hlast
          refine ⟨reasm', [], hreceive, hwf', fun hreached hpos ↦ by omega, ?_⟩
          rintro later rfl
          simp [outcome, hi, hmore]
        · have hfragment : fragment message i = fragment lap (i - start) := by
            rw [hlap, ← fragment_lastLap hmessage, Nat.add_sub_cancel' hlate]
          have hi' : i - start < fragmentCount lap := by omega
          obtain ⟨reasm', hreceive, hwf', hprogress'⟩ := (hprogress hlate).receive hwf hi'
            (fragmentCount_lastLap_le message) hlength (nextTtl sender.cfg.ttl)
          have hnext : i - start + 1 = i + 1 - start := by omega
          rw [← hfragment, hnext] at hreceive
          refine ⟨reasm', _, hreceive, hwf', fun _ ↦ hnext ▸ hprogress', ?_⟩
          rintro later rfl
          have hle : i + 1 ≤ fragmentCount message := hi
          rcases hle.eq_or_lt with hend | hmore
          · simp [outcome, hcount, ← hend]
          · have hnot : i + 1 - start ≠ fragmentCount lap := by omega
            simp [outcome, hi, hmore, hnot]) hwf (fun _ hpos ↦ by omega) hdelivers
  rw [show outcome 0 = delivery receiver (nextTtl sender.cfg.ttl) msgId lap from
    if_pos (fragmentCount_pos hmessage)] at hhandles
  exact ⟨final, hfinal, hhandles⟩

/-- What the receiver publishes for a message whose frames all arrive, in order. -/
theorem published_lastLap (hether : sender.cfg.ethertype = receiver.cfg.ethertype)
    (hmessage : message ≠ []) (hfits : message.length ≤ receiver.cfg.maxFrame)
    {arrivals : List Arrival} (hreach : Reachable receiver state)
    (hdelivers : Delivers receiver.cfg (forward sender msgId message).2 arrivals) :
    ∃ final receptions, (receiverSystem receiver).exec state (arrivals.map Arrival.bytes) =
        some (final, receptions) ∧
      published (receptions.flatMap Reception.actions) = [lastLap message] := by
  rw [forward_eq] at hdelivers
  obtain ⟨final, -, receptions, hexec, hactions, -⟩ :=
    handles_lastLap hether hmessage hfits hreach.wellFormed hdelivers
  exact ⟨final, receptions, hexec, by rw [hactions, published_delivery]⟩

/-- When the numbering of the fragments is right. Assumes: both ends have one EtherType and one
`max_frame`, which is as large as the message. The indices differ, and only the first of them is
`0`, exactly for the messages of up to 65536 full frames. What the receiver publishes when all
frames arrive in order, in any state, is the last lap, so it is the message for these messages
only. -/
theorem numbering_iff (hether : sender.cfg.ethertype = receiver.cfg.ethertype)
    (hmax : receiver.cfg.maxFrame = sender.cfg.maxFrame) (hpos : 1 ≤ message.length)
    (hfits : message.length ≤ sender.cfg.maxFrame) :
    (((fragments message).map Piece.fragIdx).Nodup ↔ message.length ≤ 65536 * mtuPayload) ∧
    ((∀ (i : ℕ) (piece : Piece), (fragments message)[i]? = some piece → piece.fragIdx = 0 →
      i = 0) ↔ message.length ≤ 65536 * mtuPayload) ∧
    ∀ {msgIdCtr : UInt16} {state : Receiver} {arrivals : List Arrival}, Reachable receiver state →
      Delivers receiver.cfg (forward sender msgIdCtr message).2 arrivals →
      ∃ final receptions, (receiverSystem receiver).exec state (arrivals.map Arrival.bytes) =
          some (final, receptions) ∧
        published (receptions.flatMap Reception.actions) = [lastLap message] ∧
        (published (receptions.flatMap Reception.actions) = [message] ↔
          message.length ≤ 65536 * mtuPayload) := by
  have hmessage : message ≠ [] := List.ne_nil_of_length_pos hpos
  have hcount : fragmentCount message ≤ 65536 ↔ message.length ≤ 65536 * mtuPayload :=
    chunkCount_le_iff mtuPayload_pos
  refine ⟨nodup_fragIdx_iff.trans hcount, first_fragIdx_iff.trans hcount, ?_⟩
  intro msgIdCtr state arrivals hreach hdelivers
  obtain ⟨final, receptions, hexec, hpublished⟩ :=
    published_lastLap hether hmessage (hmax ▸ hfits) hreach hdelivers
  refine ⟨final, receptions, hexec, hpublished, ?_⟩
  rw [hpublished, ← hcount, ← lastLap_eq_iff hmessage, List.cons.injEq, and_iff_left rfl]

/-- A message of two fragments. -/
theorem numbering_iff_two :
    let sender : Link := .defaults (Vector.replicate 6 1)
    let receiver : Link := .defaults (Vector.replicate 6 2)
    ((fragments (twoFragments 5)).map Piece.fragIdx).Nodup ∧
    ∃ final receptions, (receiverSystem receiver).exec (.initial receiver.cfg)
        (((forward sender 0 (twoFragments 5)).2.map (Arrival.data · [])).map Arrival.bytes) =
          some (final, receptions) ∧
      published (receptions.flatMap Reception.actions) = [twoFragments 5] := by
  intro sender receiver
  have hether : sender.cfg.ethertype = receiver.cfg.ethertype := rfl
  have hmax : receiver.cfg.maxFrame = sender.cfg.maxFrame := rfl
  have hlength := length_twoFragments 5
  have hbound : (twoFragments 5).length ≤ 65536 * mtuPayload := by
    rw [hlength]
    decide
  obtain ⟨hnodup, -, hdelivered⟩ :=
    numbering_iff hether hmax (by omega) (twoFragments_fits (Vector.replicate 6 1) 5)
  obtain ⟨final, receptions, hexec, -, hwhole⟩ :=
    hdelivered ⟨[], .start⟩ (delivers_forward receiver.cfg sender 0 (twoFragments 5))
  exact ⟨hnodup.mpr hbound, final, receptions, hexec, hwhole.mpr hbound⟩

/-- The longest message of a bridge whose `max_frame` is one byte more than 65536 full frames. Its
last fragment has the index `0`, and of all its bytes only that one is published. -/
theorem numbering_wraps :
    let cfg : Cfg := ⟨0xCAFE, 65536 * mtuPayload + 1, 8, by decide⟩
    let link : Link := ⟨cfg, Vector.replicate 6 1, Vector.replicate 6 0xFF⟩
    let message : List UInt8 := List.replicate (65536 * mtuPayload + 1) 0
    message.length ≤ cfg.maxFrame ∧ ¬ ((fragments message).map Piece.fragIdx).Nodup ∧
    ¬ (∀ (i : ℕ) (piece : Piece), (fragments message)[i]? = some piece → piece.fragIdx = 0 →
      i = 0) ∧
    ∃ final receptions, (receiverSystem link).exec (.initial cfg)
        (((forward link 0 message).2.map (Arrival.data · [])).map Arrival.bytes) =
          some (final, receptions) ∧
      published (receptions.flatMap Reception.actions) = [[0]] ∧ [[0]] ≠ [message] := by
  intro cfg link message
  have hlength : message.length = 65536 * mtuPayload + 1 := List.length_replicate
  have hcount : fragmentCount message = 65537 := by
    rw [fragmentCount, hlength]
    rfl
  have hmany : ¬ fragmentCount message ≤ 65536 := by omega
  have hlap : lastLap message = [0] := by
    rw [lastLap, lastLapStart, hcount, List.drop_replicate]
    rfl
  have hmessage : message ≠ [] := List.ne_nil_of_length_pos (by omega)
  refine ⟨hlength.le, mt nodup_fragIdx_iff.mp hmany, mt first_fragIdx_iff.mp hmany, ?_⟩
  have hether : link.cfg.ethertype = link.cfg.ethertype := rfl
  have hreach : Reachable link (.initial cfg) := ⟨[], .start⟩
  obtain ⟨final, receptions, hexec, hpublished⟩ :=
    published_lastLap hether hmessage hlength.le hreach (delivers_forward cfg link 0 message)
  refine ⟨final, receptions, hexec, hlap ▸ hpublished, fun hsame ↦ ?_⟩
  have hone := congrArg List.length (List.cons.inj hsame).1
  rw [hlength, List.length_singleton] at hone
  exact absurd hone (by decide)

end Delivery

end AarnnNsys.L2
