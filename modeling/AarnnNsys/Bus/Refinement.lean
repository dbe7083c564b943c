import AarnnNsys.Bus.Sequential
import AarnnNsys.Lib.CursorLog

/-!
# The bus as a log with cursors

The purpose of the bus, for operations that do not overlap: a log of payloads with one cursor for
each subscriber, bounded only in that no subscriber may have `desc_capacity` unread messages when
one is published (`perform`). `Performs` is what an operation does on the region when it runs alone,
read off from the events it reports.

The ring keeps only the payloads of the last lap. `Simulates` relates a region at rest to the log it
stands for: the sequence words are the length of the log, no stamp is later, and the slots of the
last `desc_capacity` messages hold them. Every operation has the same outcome on the region and on
the log and keeps the relation (`Simulates.performs`, `Simulates.perform_of_performs`), and a
`publish` that the log cannot take never returns (`Simulates.publish_diverges_iff`).
`ring_refines_log` puts this together for every list of operations on a fresh region.
-/

set_option autoImplicit false
set_option relaxedAutoImplicit false

namespace AarnnNsys.Bus

open Function Lib

/-- An operation on the bus. Subscribers are numbered by their `sub_id`. -/
inductive Operation
  | subscribe
  | publish (payload : Message)
  | tryPublish (payload : Message)
  | tryRecv (id outLen : ℕ)
  deriving DecidableEq

/-- What an operation returns. -/
inductive Outcome
  | subscribed (id start : ℕ)
  | published (result : Except BusError Unit)
  | tryPublished (result : Except BusError Bool)
  | received (result : Except BusError (Option Message))
  deriving DecidableEq

/-! ### The log -/

/-- The operations on the log. A `publish` on a full log has no outcome: it waits for ever. -/
def perform (g : Geometry) (a : CursorLog Message) :
    Operation → Option (CursorLog Message × Outcome)
  | .subscribe => some (a.join, .subscribed a.cursors.length a.log.length)
  | .publish payload =>
    if payload.isEmpty || g.slotBytes < payload.length then
      some (a, .published (.error .msgTooLarge))
    else if a.Full g.descCapacity then none
    else some (a.append payload, .published (.ok ()))
  | .tryPublish payload =>
    if payload.isEmpty || g.slotBytes < payload.length then
      some (a, .tryPublished (.error .msgTooLarge))
    else if a.Full g.descCapacity then some (a, .tryPublished (.ok false))
    else some (a.append payload, .tryPublished (.ok true))
  | .tryRecv id outLen =>
    if id < a.cursors.length then
      match a.read? id with
      | none => some (a, .received (.ok none))
      | some (message, a') =>
        if outLen < message.length then some (a, .received (.error .msgTooLarge))
        else some (a', .received (.ok (some message)))
    else none

/-- A list of operations on the log, one after the other. -/
def performAll (g : Geometry) : CursorLog Message → List Operation →
    Option (CursorLog Message × List Outcome)
  | a, [] => some (a, [])
  | a, operation :: rest =>
    match perform g a operation with
    | none => none
    | some (a', outcome) =>
      (performAll g a' rest).map fun result ↦ (result.1, outcome :: result.2)

/-! ### The region -/

/-- An operation that runs alone to its end on a region at rest, with what it returns. -/
inductive Performs (g : Geometry) (m : Mem) : Operation → Mem → Outcome → Prop
  | subscribe {m' : Mem} {pc : SubscriberPc} {events : List SubscriberEvent} {id start : ℕ}
      (hsettles : Settles subscriberCall ((beginSubscribe m).1, (beginSubscribe m).2.1) (m', pc)
        events)
      (hresult : ((beginSubscribe m).2.2 ++ events).getLast? = some (.subscribed id start)) :
      Performs g m .subscribe m' (.subscribed id start)
  | publish {payload : Message} {m' : Mem} {t : Producer} {events : List ProducerEvent}
      {result : Except BusError Unit}
      (hsettles : Settles (producerCall g)
        ((beginPublish g m payload).1, (beginPublish g m payload).2.1) (m', t) events)
      (hresult : ((beginPublish g m payload).2.2 ++ events).getLast? =
        some (.publishReturned result)) :
      Performs g m (.publish payload) m' (.published result)
  | tryPublish {payload : Message} {m' : Mem} {t : Producer} {events : List ProducerEvent}
      {result : Except BusError Bool}
      (hsettles : Settles (producerCall g)
        ((beginTryPublish g m payload).1, (beginTryPublish g m payload).2.1) (m', t) events)
      (hresult : ((beginTryPublish g m payload).2.2 ++ events).getLast? =
        some (.tryPublishReturned result)) :
      Performs g m (.tryPublish payload) m' (.tryPublished result)
  | tryRecv {id outLen : ℕ} {m' : Mem} {t : Reader} {events : List ReaderEvent}
      {result : Except BusError (Option Message)} (hid : id < m.nSubs)
      (hsettles : Settles (readerCall g) (m, beginTryRecv m id id outLen) (m', t) events)
      (hresult : events.getLast? = some (.returned result)) :
      Performs g m (.tryRecv id outLen) m' (.received result)

/-- A list of operations on the region, one after the other. -/
inductive PerformsAll (g : Geometry) : Mem → List Operation → Mem → List Outcome → Prop
  | nil (m : Mem) : PerformsAll g m [] m []
  | cons {m middle final : Mem} {operation : Operation} {rest : List Operation}
      {outcome : Outcome} {outcomes : List Outcome} (hfirst : Performs g m operation middle outcome)
      (hrest : PerformsAll g middle rest final outcomes) :
      PerformsAll g m (operation :: rest) final (outcome :: outcomes)

/-- An operation has one outcome. -/
theorem Performs.unique {g : Geometry} {m first second : Mem} {operation : Operation}
    {outcome outcome' : Outcome} (hfirst : Performs g m operation first outcome)
    (hsecond : Performs g m operation second outcome') : first = second ∧ outcome = outcome' := by
  cases hfirst with
  | subscribe hsettles hresult =>
    cases hsecond with
    | subscribe hsettles' hresult' =>
      obtain ⟨hstate, rfl⟩ := hsettles.unique hsettles'
      rw [hresult] at hresult'
      simp_all
  | publish hsettles hresult =>
    cases hsecond with
    | publish hsettles' hresult' =>
      obtain ⟨hstate, rfl⟩ := hsettles.unique hsettles'
      rw [hresult] at hresult'
      simp_all
  | tryPublish hsettles hresult =>
    cases hsecond with
    | tryPublish hsettles' hresult' =>
      obtain ⟨hstate, rfl⟩ := hsettles.unique hsettles'
      rw [hresult] at hresult'
      simp_all
  | tryRecv hid hsettles hresult =>
    cases hsecond with
    | tryRecv hid' hsettles' hresult' =>
      obtain ⟨hstate, rfl⟩ := hsettles.unique hsettles'
      rw [hresult] at hresult'
      simp_all

/-! ### The simulation -/

/-- A region at rest stands for a log with cursors. -/
structure Simulates (g : Geometry) (m : Mem) (a : CursorLog Message) : Prop where
  claimSeq_eq : m.claimSeq = a.log.length
  writeSeq_eq : m.writeSeq = a.log.length
  nSubs_eq : m.nSubs = a.cursors.length
  nSubs_le : m.nSubs ≤ maxSubscribers
  cursor_eq : ∀ id cursor, a.cursors[id]? = some cursor → m.subReadSeq id = cursor
  space : ∀ cursor ∈ a.cursors, a.log.length ≤ cursor + g.descCapacity
  stamp_le : ∀ i, m.slotSeq i ≤ a.log.length
  recent : ∀ sequence message, a.log[sequence]? = some message →
    a.log.length ≤ sequence + g.descCapacity →
      m.slotSeq (g.idx sequence) = sequence + 1 ∧ m.Stores g (g.idx sequence) message ∧
        message.length ≤ g.slotBytes

/-- A fresh region stands for the empty log. -/
theorem simulates_init (g : Geometry) (slab : ℕ → UInt8) :
    Simulates g (Mem.init slab) CursorLog.empty where
  claimSeq_eq := rfl
  writeSeq_eq := rfl
  nSubs_eq := rfl
  nSubs_le := Nat.zero_le _
  cursor_eq := fun _ _ hcursor ↦ nomatch hcursor
  space := fun _ hmem ↦ nomatch hmem
  stamp_le := fun _ ↦ le_rfl
  recent := fun _ _ hlog ↦ nomatch hlog

namespace Simulates

variable {g : Geometry} {m : Mem} {a : CursorLog Message}

/-- The capacity check finds space exactly when the log is not full. -/
theorem hasSpace_iff (hsim : Simulates g m a) :
    m.HasSpace g a.log.length ↔ ¬ a.Full g.descCapacity := by
  have hcap := g.descCapacity_pos
  rw [CursorLog.not_full_iff, Mem.HasSpace, hsim.writeSeq_eq, hsim.nSubs_eq]
  constructor
  · rintro ⟨-, hall⟩ cursor hmem
    obtain ⟨id, hid, rfl⟩ := List.getElem_of_mem hmem
    have hspace := hall id hid
    rwa [hsim.cursor_eq id _ (List.getElem?_eq_getElem hid)] at hspace
  · refine fun hall ↦ ⟨by omega, fun id hid ↦ ?_⟩
    rw [hsim.cursor_eq id _ (List.getElem?_eq_getElem hid)]
    exact hall _ (List.getElem_mem hid)

/-- A message published on a log that is not full is appended. -/
theorem append (hsim : Simulates g m a) {payload : Message} (hsize : payload.length ≤ g.slotBytes)
    (hspace : ¬ a.Full g.descCapacity) {claimed m' : Mem}
    (hclaimed : claimed = { m with claimSeq := a.log.length + 1 })
    (hpublished : claimed.Published g a.log.length payload m') :
    Simulates g m' (a.append payload) := by
  subst hclaimed
  rw [CursorLog.not_full_iff] at hspace
  have hlength : (a.append payload).log.length = a.log.length + 1 := List.length_append
  constructor
  · rw [hpublished.claimSeq_eq, hlength]
  · rw [hpublished.writeSeq_eq, hlength]
  · rw [hpublished.nSubs_eq]
    exact hsim.nSubs_eq
  · rw [hpublished.nSubs_eq]
    exact hsim.nSubs_le
  · rw [hpublished.subReadSeq_eq]
    exact hsim.cursor_eq
  · intro cursor hmem
    rw [hlength]
    exact hspace cursor hmem
  · intro i
    have hold := hsim.stamp_le i
    rw [hpublished.slotSeq_eq, hlength, update_apply]
    split_ifs
    · exact le_rfl
    · exact hold.trans (Nat.le_succ _)
  · intro sequence message hlog hrecent
    rw [hlength] at hrecent
    simp only [CursorLog.append] at hlog
    rcases Nat.lt_trichotomy sequence a.log.length with hlt | heq | hgt
    · rw [List.getElem?_append_left hlt] at hlog
      obtain ⟨hstamp, hstores, hfits⟩ := hsim.recent sequence message hlog (by omega)
      have hslot : g.idx sequence ≠ g.idx a.log.length := by
        rw [Geometry.idx_eq_mod, Geometry.idx_eq_mod]
        intro hmod
        have hlap := add_le_of_mod_eq hmod hlt
        omega
      have hsame := hpublished.other _ hslot
      exact ⟨hsame.slotSeq_eq.trans hstamp, hsame.stores hfits hstores, hfits⟩
    · subst heq
      rw [List.getElem?_append_right le_rfl, Nat.sub_self] at hlog
      obtain rfl : payload = message := Option.some.inj hlog
      refine ⟨?_, hpublished.stores, hsize⟩
      rw [hpublished.slotSeq_eq, update_self]
    · have hnone : (a.log ++ [payload])[sequence]? = none := by
        rw [List.getElem?_eq_none_iff, List.length_append, List.length_singleton]
        exact hgt
      rw [hnone] at hlog
      cases hlog

/-- A subscribe call adds a cursor at the end of the log. -/
theorem join (hsim : Simulates g m a) (hmax : a.cursors.length < maxSubscribers) :
    Simulates g { m with
      nSubs := m.nSubs + 1
      subReadSeq := update m.subReadSeq m.nSubs m.writeSeq } a.join := by
  have hnSubs := hsim.nSubs_eq
  constructor
  · exact hsim.claimSeq_eq
  · exact hsim.writeSeq_eq
  · simp [CursorLog.join, hnSubs]
  · simp only
    omega
  · intro id cursor hcursor
    simp only [CursorLog.join] at hcursor
    rcases Nat.lt_trichotomy id a.cursors.length with hlt | heq | hgt
    · rw [List.getElem?_append_left hlt] at hcursor
      simp only [update_of_ne (show id ≠ m.nSubs by omega)]
      exact hsim.cursor_eq id cursor hcursor
    · rw [heq, List.getElem?_append_right le_rfl, Nat.sub_self] at hcursor
      simp only [heq, ← hnSubs, update_self]
      rw [hsim.writeSeq_eq]
      exact Option.some.inj hcursor
    · have hnone : (a.cursors ++ [a.log.length])[id]? = none := by
        rw [List.getElem?_eq_none_iff, List.length_append, List.length_singleton]
        exact hgt
      rw [hnone] at hcursor
      cases hcursor
  · intro cursor hmem
    simp only [CursorLog.join, List.mem_append, List.mem_singleton] at hmem ⊢
    rcases hmem with hold | rfl
    · exact hsim.space cursor hold
    · omega
  · exact hsim.stamp_le
  · exact hsim.recent

/-- A cursor of the region moves as the cursor of the log. -/
theorem move (hsim : Simulates g m a) {id cursor : ℕ} (hid : a.cursors[id]? = some cursor)
    (hlt : cursor < a.log.length) :
    Simulates g { m with subReadSeq := update m.subReadSeq id (cursor + 1) }
      (a.move id (cursor + 1) hlt) := by
  obtain ⟨hbound, hget⟩ := List.getElem?_eq_some_iff.mp hid
  constructor
  · exact hsim.claimSeq_eq
  · exact hsim.writeSeq_eq
  · simpa [CursorLog.move] using hsim.nSubs_eq
  · exact hsim.nSubs_le
  · intro other place hplace
    simp only [CursorLog.move] at hplace
    by_cases hother : other = id
    · subst hother
      rw [List.getElem?_set_self hbound] at hplace
      simp only [update_self]
      exact Option.some.inj hplace
    · rw [List.getElem?_set_ne (Ne.symm hother)] at hplace
      simp only [update_of_ne hother]
      exact hsim.cursor_eq other place hplace
  · intro place hmem
    simp only [CursorLog.move] at hmem ⊢
    rcases List.mem_or_eq_of_mem_set hmem with hold | rfl
    · exact hsim.space place hold
    · have := hsim.space cursor (List.mem_of_getElem? hid)
      omega
  · exact hsim.stamp_le
  · exact hsim.recent

/-- A message that fits, on a log that is not full, is published and appended, by `publish` and by
`try_publish` alike. -/
theorem publishes (hsim : Simulates g m a) {payload : Message}
    (hsize : payload.length ≤ g.slotBytes) (hspace : ¬ a.Full g.descCapacity) (blocking : Bool) :
    ∃ m', Settles (producerCall g)
        ({ m with claimSeq := a.log.length + 1 }, ⟨blocking, payload, .copy a.log.length 0⟩)
        (m', ⟨blocking, payload, .idle⟩)
        [.committed a.log.length, Producer.success ⟨blocking, payload, .idle⟩] ∧
      Simulates g m' (a.append payload) := by
  obtain ⟨m', hsettles, hpublished⟩ := commit_settles { m with claimSeq := a.log.length + 1 }
    ⟨blocking, payload, .idle⟩ hsize hsim.writeSeq_eq hsim.stamp_le
  exact ⟨m', hsettles, hsim.append hsize hspace rfl hpublished⟩

/-- `subscribe` on the region and on the log. -/
theorem performs_subscribe (hsim : Simulates g m a) (hmax : a.cursors.length < maxSubscribers) :
    ∃ m', Performs g m .subscribe m' (.subscribed a.cursors.length a.log.length) ∧
      Simulates g m' a.join := by
  have hbegin := beginSubscribe_of_lt (hsim.nSubs_eq ▸ hmax)
  refine ⟨_, ?_, hsim.join hmax⟩
  rw [← hsim.nSubs_eq, ← hsim.writeSeq_eq]
  refine .subscribe (by rw [hbegin]; exact subscribe_settles _ _) ?_
  rw [hbegin]
  rfl

/-- `publish` on the region and on the log. -/
theorem performs_publish (hsim : Simulates g m a) {payload : Message} {a' : CursorLog Message}
    {outcome : Outcome} (hperform : perform g a (.publish payload) = some (a', outcome)) :
    ∃ m', Performs g m (.publish payload) m' outcome ∧ Simulates g m' a' := by
  simp only [perform] at hperform
  split_ifs at hperform with hsize hfull
  · obtain ⟨rfl, rfl⟩ := Prod.mk.inj (Option.some.inj hperform)
    have hbegin : beginPublish g m payload = (m, ⟨true, payload, .idle⟩,
        [.called payload, .publishReturned (.error .msgTooLarge)]) := if_pos hsize
    exact ⟨m, .publish (by rw [hbegin]; exact ⟨.refl _, rfl⟩) (by rw [hbegin]; rfl), hsim⟩
  · obtain ⟨rfl, rfl⟩ := Prod.mk.inj (Option.some.inj hperform)
    have hbegin : beginPublish g m payload = ({ m with claimSeq := m.claimSeq + 1 },
        ⟨true, payload, .loadSubs m.claimSeq⟩, [.called payload, .claimed m.claimSeq payload]) :=
      if_neg hsize
    simp only [Bool.or_eq_true, decide_eq_true_eq, not_or, not_lt] at hsize
    obtain ⟨m', hsettles, hsim'⟩ := hsim.publishes hsize.2 hfull true
    have hspace := hsim.hasSpace_iff.mpr hfull
    rw [← hsim.claimSeq_eq] at hsettles hspace
    have hadmitted : Leads (producerCall g)
        ({ m with claimSeq := m.claimSeq + 1 }, ⟨true, payload, .loadSubs m.claimSeq⟩)
        ({ m with claimSeq := m.claimSeq + 1 }, ⟨true, payload, .copy m.claimSeq 0⟩) [] :=
      publish_admitted ⟨true, payload, .idle⟩ rfl hsim.nSubs_le hspace
    exact ⟨m', .publish (by rw [hbegin]; exact hadmitted.settles hsettles) (by rw [hbegin]; rfl),
      hsim'⟩

/-- `try_publish` on the region and on the log. -/
theorem performs_tryPublish (hsim : Simulates g m a) {payload : Message} {a' : CursorLog Message}
    {outcome : Outcome} (hperform : perform g a (.tryPublish payload) = some (a', outcome)) :
    ∃ m', Performs g m (.tryPublish payload) m' outcome ∧ Simulates g m' a' := by
  simp only [perform] at hperform
  split_ifs at hperform with hsize hfull
  · obtain ⟨rfl, rfl⟩ := Prod.mk.inj (Option.some.inj hperform)
    have hbegin : beginTryPublish g m payload = (m, ⟨false, payload, .idle⟩,
        [.called payload, .tryPublishReturned (.error .msgTooLarge)]) := if_pos hsize
    exact ⟨m, .tryPublish (by rw [hbegin]; exact ⟨.refl _, rfl⟩) (by rw [hbegin]; rfl), hsim⟩
  all_goals
    obtain ⟨rfl, rfl⟩ := Prod.mk.inj (Option.some.inj hperform)
    have hbegin : beginTryPublish g m payload = (m, ⟨false, payload, .loadSubs m.claimSeq⟩,
        [.called payload]) := if_neg hsize
  · have hspace : ¬ m.HasSpace g m.claimSeq := by
      rw [hsim.claimSeq_eq, hsim.hasSpace_iff]
      exact not_not.mpr hfull
    have hrefused : Settles (producerCall g) (m, ⟨false, payload, .loadSubs m.claimSeq⟩)
        (m, ⟨false, payload, .idle⟩) [.tryPublishReturned (.ok false)] :=
      tryPublish_refused ⟨false, payload, .idle⟩ rfl hsim.nSubs_le hspace
    exact ⟨m, .tryPublish (by rw [hbegin]; exact hrefused) (by rw [hbegin]; rfl), hsim⟩
  · simp only [Bool.or_eq_true, decide_eq_true_eq, not_or, not_lt] at hsize
    obtain ⟨m', hsettles, hsim'⟩ := hsim.publishes hsize.2 hfull false
    have hspace := hsim.hasSpace_iff.mpr hfull
    rw [← hsim.claimSeq_eq] at hsettles hspace
    have hadmitted : Leads (producerCall g) (m, ⟨false, payload, .loadSubs m.claimSeq⟩)
        ({ m with claimSeq := m.claimSeq + 1 }, ⟨false, payload, .copy m.claimSeq 0⟩)
        [.claimed m.claimSeq payload] :=
      tryPublish_admitted ⟨false, payload, .idle⟩ rfl hsim.nSubs_le hspace
    exact ⟨m', .tryPublish (by rw [hbegin]; exact hadmitted.settles hsettles) (by rw [hbegin]; rfl),
      hsim'⟩

/-- The slot of the entry at a cursor holds that entry. -/
theorem stored (hsim : Simulates g m a) (hslot : g.slotBytes < u32Size) {cursor : ℕ}
    (hmem : cursor ∈ a.cursors) (hlt : cursor < a.log.length) :
    m.slotSeq (g.idx cursor) = cursor + 1 ∧ m.descLen (g.idx cursor) = a.log[cursor].length ∧
      m.bytes g (g.idx cursor) (m.descLen (g.idx cursor)) = a.log[cursor] := by
  obtain ⟨hstamp, ⟨hholds, hlen⟩, hfits⟩ :=
    hsim.recent cursor _ (List.getElem?_eq_getElem hlt) (hsim.space cursor hmem)
  rw [Nat.mod_eq_of_lt (hfits.trans_lt hslot)] at hlen
  refine ⟨hstamp, hlen, ?_⟩
  rw [hlen]
  exact hholds.bytes_eq

/-- `try_recv` on the region and on the log. -/
theorem performs_tryRecv (hsim : Simulates g m a) (hslot : g.slotBytes < u32Size) {id outLen : ℕ}
    {a' : CursorLog Message} {outcome : Outcome}
    (hperform : perform g a (.tryRecv id outLen) = some (a', outcome)) :
    ∃ m', Performs g m (.tryRecv id outLen) m' outcome ∧ Simulates g m' a' := by
  simp only [perform] at hperform
  split_ifs at hperform with hid
  have hcursor := List.getElem?_eq_getElem hid
  have hmem := List.getElem_mem hid
  have hread := hsim.cursor_eq id _ hcursor
  generalize a.cursors[id] = cursor at hcursor hmem hread
  have hexists : id < m.nSubs := hsim.nSubs_eq ▸ hid
  have hbegin : beginTryRecv m id id outLen = ⟨id, id, outLen, .loadSeq cursor⟩ := by
    rw [beginTryRecv, hread]
  rcases Nat.lt_or_eq_of_le (a.cursors_le cursor hmem) with hlt | hend
  · obtain ⟨hstamp, hlen, hbytes⟩ := hsim.stored hslot hmem hlt
    rw [CursorLog.read?_of_lt hcursor hlt] at hperform
    simp only at hperform
    split_ifs at hperform with hsmall
    · obtain ⟨rfl, rfl⟩ := Prod.mk.inj (Option.some.inj hperform)
      have hsettles : Settles (readerCall g) (m, beginTryRecv m id id outLen)
          (m, ⟨id, id, outLen, .idle⟩) [.returned (.error .msgTooLarge)] := by
        rw [hbegin]
        exact recv_tooLarge hstamp (hlen ▸ hsmall)
      exact ⟨m, .tryRecv hexists hsettles rfl, hsim⟩
    · obtain ⟨rfl, rfl⟩ := Prod.mk.inj (Option.some.inj hperform)
      have hsettles : Settles (readerCall g) (m, beginTryRecv m id id outLen)
          ({ m with subReadSeq := update m.subReadSeq id (cursor + 1) }, ⟨id, id, outLen, .idle⟩)
          [.returned (.ok (some a.log[cursor]))] := by
        rw [hbegin, ← hbytes]
        exact recv_settles hstamp (by omega)
      exact ⟨_, .tryRecv hexists hsettles rfl, hsim.move hcursor hlt⟩
  · rw [CursorLog.read?_of_eq hcursor hend] at hperform
    obtain ⟨rfl, rfl⟩ := Prod.mk.inj (Option.some.inj hperform)
    have hstamp : m.slotSeq (g.idx cursor) ≠ cursor + 1 := by
      have := hsim.stamp_le (g.idx cursor)
      omega
    have hsettles : Settles (readerCall g) (m, beginTryRecv m id id outLen)
        (m, ⟨id, id, outLen, .idle⟩) [.returned (.ok none)] := by
      rw [hbegin]
      exact recv_empty hstamp
    exact ⟨m, .tryRecv hexists hsettles rfl, hsim⟩

/-- Every operation of the log is an operation of the region, with the same outcome. -/
theorem performs (hsim : Simulates g m a) (hslot : g.slotBytes < u32Size) {operation : Operation}
    (hmax : operation = .subscribe → a.cursors.length < maxSubscribers) {a' : CursorLog Message}
    {outcome : Outcome} (hperform : perform g a operation = some (a', outcome)) :
    ∃ m', Performs g m operation m' outcome ∧ Simulates g m' a' := by
  cases operation with
  | subscribe =>
    obtain ⟨rfl, rfl⟩ := Prod.mk.inj (Option.some.inj hperform)
    exact hsim.performs_subscribe (hmax rfl)
  | publish payload => exact hsim.performs_publish hperform
  | tryPublish payload => exact hsim.performs_tryPublish hperform
  | tryRecv id outLen => exact hsim.performs_tryRecv hslot hperform

/-- A `publish` that the log cannot take never returns. -/
theorem publish_diverges (hsim : Simulates g m a) {payload : Message}
    (hnone : perform g a (.publish payload) = none) :
    Diverges (producerCall g) ((beginPublish g m payload).1, (beginPublish g m payload).2.1) := by
  simp only [perform] at hnone
  split_ifs at hnone with hsize hfull
  have hbegin : beginPublish g m payload = ({ m with claimSeq := m.claimSeq + 1 },
      ⟨true, payload, .loadSubs m.claimSeq⟩, [.called payload, .claimed m.claimSeq payload]) :=
    if_neg hsize
  have hspace : ¬ m.HasSpace g m.claimSeq := by
    rw [hsim.claimSeq_eq, hsim.hasSpace_iff]
    exact not_not.mpr hfull
  rw [hbegin]
  exact Bus.publish_diverges ⟨true, payload, .idle⟩ rfl hsim.nSubs_le hspace

/-- Every operation of the region is an operation of the log, with the same outcome. -/
theorem perform_of_performs (hsim : Simulates g m a) (hslot : g.slotBytes < u32Size)
    {operation : Operation} (hmax : operation = .subscribe → a.cursors.length < maxSubscribers)
    {m' : Mem} {outcome : Outcome} (hperforms : Performs g m operation m' outcome) :
    ∃ a', perform g a operation = some (a', outcome) ∧ Simulates g m' a' := by
  cases hlog : perform g a operation with
  | some result =>
    obtain ⟨a', expected⟩ := result
    obtain ⟨other, hother, hsim'⟩ := hsim.performs hslot hmax hlog
    obtain ⟨rfl, rfl⟩ := hperforms.unique hother
    exact ⟨a', rfl, hsim'⟩
  | none =>
    -- the log has no outcome only for a `publish` that waits, or without such a subscriber
    cases hperforms with
    | publish hsettles _ => exact absurd hsettles (hsim.publish_diverges hlog _ _)
    | tryRecv hid _ _ =>
      rw [perform, if_pos (hsim.nSubs_eq ▸ hid)] at hlog
      split at hlog
      · cases hlog
      · split_ifs at hlog
    | subscribe _ _ => simp [perform] at hlog
    | tryPublish _ _ =>
      simp only [perform] at hlog
      split_ifs at hlog

/-- A `publish` waits for ever exactly where `try_publish` would be refused for lack of space. -/
theorem publish_diverges_iff (hsim : Simulates g m a) (payload : Message) :
    Diverges (producerCall g) ((beginPublish g m payload).1, (beginPublish g m payload).2.1) ↔
      ∃ m', Performs g m (.tryPublish payload) m' (.tryPublished (.ok false)) := by
  constructor
  · intro hdiverges
    cases hlog : perform g a (.publish payload) with
    | some result =>
      obtain ⟨a', outcome⟩ := result
      obtain ⟨m', hperforms, -⟩ := hsim.performs_publish hlog
      cases hperforms with
      | publish hsettles _ => exact absurd hsettles (hdiverges _ _)
    | none =>
      simp only [perform] at hlog
      split_ifs at hlog with hsize hfull
      have htry : perform g a (.tryPublish payload) = some (a, .tryPublished (.ok false)) := by
        rw [perform, if_neg hsize, if_pos hfull]
      obtain ⟨m', hperforms, -⟩ := hsim.performs_tryPublish htry
      exact ⟨m', hperforms⟩
  · rintro ⟨m', hperforms⟩
    refine hsim.publish_diverges ?_
    by_cases hsize : (payload.isEmpty || decide (g.slotBytes < payload.length)) = true
    · have htry : perform g a (.tryPublish payload) =
          some (a, .tryPublished (.error .msgTooLarge)) := if_pos hsize
      obtain ⟨other, hother, -⟩ := hsim.performs_tryPublish htry
      cases (hperforms.unique hother).2
    · by_cases hfull : a.Full g.descCapacity
      · rw [perform, if_neg hsize, if_pos hfull]
      · have htry : perform g a (.tryPublish payload) =
            some (a.append payload, .tryPublished (.ok true)) := by
          rw [perform, if_neg hsize, if_neg hfull]
        obtain ⟨other, hother, -⟩ := hsim.performs_tryPublish htry
        cases (hperforms.unique hother).2

/-- A list of operations with room for its subscribe calls has room for the first. -/
theorem cursors_lt {operation : Operation} {rest : List Operation}
    (hmax : a.cursors.length + (rest.count .subscribe + if operation == .subscribe then 1 else 0) ≤
      maxSubscribers) : operation = .subscribe → a.cursors.length < maxSubscribers := by
  rintro rfl
  rw [beq_self_eq_true, if_pos rfl] at hmax
  omega

/-- An operation of the log adds a cursor only if it is a subscribe call, and the others still have
room. -/
theorem cursors_le {operation : Operation} {rest : List Operation} {a' : CursorLog Message}
    {outcome : Outcome} (hperform : perform g a operation = some (a', outcome))
    (hmax : a.cursors.length + (rest.count .subscribe + if operation == .subscribe then 1 else 0) ≤
      maxSubscribers) : a'.cursors.length + rest.count .subscribe ≤ maxSubscribers := by
  cases operation with
  | subscribe =>
    obtain ⟨rfl, -⟩ := Prod.mk.inj (Option.some.inj hperform)
    rw [beq_self_eq_true, if_pos rfl] at hmax
    simp only [CursorLog.join, List.length_append, List.length_singleton]
    omega
  | publish payload | tryPublish payload =>
    have hsame : a'.cursors = a.cursors := by
      simp only [perform] at hperform
      split_ifs at hperform <;> obtain ⟨rfl, -⟩ := Prod.mk.inj (Option.some.inj hperform) <;> rfl
    rw [hsame]
    omega
  | tryRecv id outLen =>
    simp only [perform] at hperform
    split_ifs at hperform with hid
    have hcursor := List.getElem?_eq_getElem hid
    have hsame : a'.cursors.length = a.cursors.length := by
      rcases Nat.lt_or_eq_of_le (a.cursors_le _ (List.getElem_mem hid)) with hlt | hend
      · rw [CursorLog.read?_of_lt hcursor hlt] at hperform
        simp only at hperform
        split_ifs at hperform <;> obtain ⟨rfl, -⟩ := Prod.mk.inj (Option.some.inj hperform)
        · rfl
        · exact List.length_set
      · rw [CursorLog.read?_of_eq hcursor hend] at hperform
        obtain ⟨rfl, -⟩ := Prod.mk.inj (Option.some.inj hperform)
        rfl
    omega

/-- A list of operations of the log is one of the region, with the same outcomes. -/
theorem performsAll (hslot : g.slotBytes < u32Size) {operations : List Operation} :
    ∀ {m : Mem} {a : CursorLog Message}, Simulates g m a →
      a.cursors.length + operations.count .subscribe ≤ maxSubscribers →
      ∀ {a' : CursorLog Message} {outcomes : List Outcome},
        performAll g a operations = some (a', outcomes) →
          ∃ m', PerformsAll g m operations m' outcomes ∧ Simulates g m' a' := by
  induction operations with
  | nil =>
    intro m a hsim hmax a' outcomes hperform
    obtain ⟨rfl, rfl⟩ := Prod.mk.inj (Option.some.inj hperform)
    exact ⟨m, .nil m, hsim⟩
  | cons operation rest ih =>
    intro m a hsim hmax a' outcomes hperform
    rw [List.count_cons] at hmax
    simp only [performAll] at hperform
    cases hfirst : perform g a operation with
    | none => simp [hfirst] at hperform
    | some result =>
      obtain ⟨next, outcome⟩ := result
      simp only [hfirst, Option.map_eq_some_iff, Prod.mk.injEq, Prod.exists] at hperform
      obtain ⟨final, others, hrest, rfl, rfl⟩ := hperform
      obtain ⟨middle, hperforms, hsim'⟩ := hsim.performs hslot (cursors_lt hmax) hfirst
      obtain ⟨m', hall, hfinal⟩ := ih hsim' (cursors_le hfirst hmax) hrest
      exact ⟨m', .cons hperforms hall, hfinal⟩

/-- A list of operations of the region is one of the log, with the same outcomes. -/
theorem performAll_of_performsAll (hslot : g.slotBytes < u32Size) {operations : List Operation}
    {m m' : Mem} {outcomes : List Outcome} (hperforms : PerformsAll g m operations m' outcomes) :
    ∀ {a : CursorLog Message}, Simulates g m a →
      a.cursors.length + operations.count .subscribe ≤ maxSubscribers →
        ∃ a', performAll g a operations = some (a', outcomes) ∧ Simulates g m' a' := by
  induction hperforms with
  | nil m => exact fun hsim _ ↦ ⟨_, rfl, hsim⟩
  | @cons m middle final operation rest outcome outcomes hfirst hrest ih =>
    intro a hsim hmax
    rw [List.count_cons] at hmax
    obtain ⟨next, hlog, hsim'⟩ := hsim.perform_of_performs hslot (cursors_lt hmax) hfirst
    obtain ⟨a', hall, hfinal⟩ := ih hsim' (cursors_le hlog hmax)
    exact ⟨a', by simp [performAll, hlog, hall], hfinal⟩

end Simulates

/-- The bus refines a log with cursors. From a fresh region, a list of operations without overlap
and with at most `MAX_SUBSCRIBERS` subscribe calls can be done on the ring exactly when it can be
done on the log, with the same outcomes; and after any such list a `publish` waits for ever exactly
where `try_publish` would return `Ok(false)`. -/
theorem ring_refines_log (g : Geometry) (hslot : g.slotBytes < u32Size) (slab : ℕ → UInt8)
    (operations : List Operation) (hsubs : operations.count .subscribe ≤ maxSubscribers) :
    (∀ outcomes, (∃ m, PerformsAll g (Mem.init slab) operations m outcomes) ↔
      ∃ a, performAll g CursorLog.empty operations = some (a, outcomes)) ∧
    ∀ m outcomes, PerformsAll g (Mem.init slab) operations m outcomes → ∀ payload,
      (Diverges (producerCall g) ((beginPublish g m payload).1, (beginPublish g m payload).2.1) ↔
        ∃ m', Performs g m (.tryPublish payload) m' (.tryPublished (.ok false))) := by
  have hinit := simulates_init g slab
  have hmax : (CursorLog.empty : CursorLog Message).cursors.length + operations.count .subscribe ≤
      maxSubscribers := by
    simpa [CursorLog.empty] using hsubs
  refine ⟨fun outcomes ↦ ⟨?_, ?_⟩, fun m outcomes hperforms payload ↦ ?_⟩
  · rintro ⟨m, hperforms⟩
    obtain ⟨a, hlog, -⟩ := Simulates.performAll_of_performsAll hslot hperforms hinit hmax
    exact ⟨a, hlog⟩
  · rintro ⟨a, hlog⟩
    obtain ⟨m, hperforms, -⟩ := Simulates.performsAll hslot hinit hmax hlog
    exact ⟨m, hperforms⟩
  · obtain ⟨a, -, hsim⟩ := Simulates.performAll_of_performsAll hslot hperforms hinit hmax
    exact hsim.publish_diverges_iff payload

/-- Two laps of a ring of one slot, with a refused publication and a subscriber that joins late. -/
theorem ring_refines_log_two_laps : ∃ m, PerformsAll tinyGeometry (Mem.init fun _ ↦ 0)
    [.publish [5], .subscribe, .tryRecv 0 1, .tryPublish [6], .tryPublish [7], .tryRecv 0 0,
      .tryRecv 0 1, .publish [8], .tryPublish []] m
    [.published (.ok ()), .subscribed 0 1, .received (.ok none), .tryPublished (.ok true),
      .tryPublished (.ok false), .received (.error .msgTooLarge), .received (.ok (some [6])),
      .published (.ok ()), .tryPublished (.error .msgTooLarge)] := by
  refine ((ring_refines_log tinyGeometry (by decide) _ _ (by decide)).1 _).mpr ?_
  exact ⟨_, rfl⟩

end AarnnNsys.Bus
