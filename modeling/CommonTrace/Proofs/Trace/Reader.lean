import CommonTrace.Proofs.Trace.Merge
import CommonTrace.Trace.Reader

/-!
# A reader merges its files

A `TraceReader` sees no more of its files than their heads.  What each file is still going to give is
`FileReader.pending`, and these lists are the queues of the reader.  Moving the reader on takes one
result out of the queues in the sense of `Queue.Takes` (`TraceReader.takes_of_next?`), so all that a
reader gives until it has come to its end is a merge of its queues (`TraceReader.Drains.merges`).

For this the heads have to tell the truth: where a head is empty the file must be at its end.  That
is so in every state that a reader gets into, by whatever sequence of moving on, taking events and
seeking (`TraceReader.Reachable.sound`).
-/

namespace CommonTrace

/-! ## Heads that tell the truth -/

namespace FileReader

variable {trace : Trace} {c : FileReader}

/-- The head of a reader is empty only if the file is at its end. -/
def Settled (trace : Trace) (c : FileReader) : Prop :=
  c.head = .exhausted → c.upcoming trace = []

lemma head_of_readPacket? {file : StreamFile} {next : ℕ} {packet : PacketReader}
    (h : readPacket? trace file next packet = some c) : c.head ≠ .exhausted := by
  unfold readPacket? at h
  split at h
  · cases h
    exact FileHead.noConfusion
  · cases h
    exact FileHead.noConfusion
  · cases h

lemma settled_openPackets {file : StreamFile} {next : ℕ} {packets : PacketIndex}
    (h : file.packets.drop next = packets) : (openPackets trace file next packets).Settled trace := by
  induction packets generalizing next with
  | nil =>
    intro _
    rw [upcoming_of_closed rfl]
    simp only [openPackets, Trace.eventsFrom, h]
    rfl
  | cons entry packets ih =>
    have hrest : file.packets.drop (next + 1) = packets := by
      rw [← List.drop_drop, h]
      rfl
    unfold openPackets
    split
    · rename_i heq
      cases heq
    · exact FileHead.noConfusion
    · rename_i packet rest heq
      cases heq
      split
      · exact FileHead.noConfusion
      · rename_i reader _
        cases hread : readPacket? trace file (next + 1) reader with
        | some c => exact fun hhead => absurd hhead (head_of_readPacket? hread)
        | none => exact ih hrest

lemma settled_fill (trace : Trace) (c : FileReader) : (c.fill trace).Settled trace := by
  unfold fill
  cases hread : c.packet.bind (readPacket? trace c.file c.next) with
  | none => exact settled_openPackets rfl
  | some c' =>
    obtain ⟨packet, -, hread⟩ := Option.bind_eq_some_iff.mp hread
    exact fun hhead => absurd hhead (head_of_readPacket? hread)

/-- Skipping keeps what every filling establishes and every reader at hand has. -/
lemma skipBelow_induction {P : FileReader → Prop} (nanoseconds : ℕ)
    (hfill : ∀ c, P c → P (c.fill trace)) (hc : P c) : P (c.skipBelow trace nanoseconds) := by
  fun_induction skipBelow trace nanoseconds c with
  | case1 c event _ _ ih => exact ih (hfill c hc)
  | case2 => exact hc
  | case3 => exact hc
  | case4 => exact hc

lemma settled_seek (trace : Trace) (nanoseconds : ℕ) (c : FileReader) :
    (c.seek trace nanoseconds).Settled trace :=
  skipBelow_induction nanoseconds (fun c _ => settled_fill trace c) (settled_fill trace _)

lemma file_seek (trace : Trace) (nanoseconds : ℕ) (c : FileReader) :
    (c.seek trace nanoseconds).file = c.file :=
  skipBelow_induction (P := fun c' => c'.file = c.file) nanoseconds
    (fun c' hc' => (file_fill trace c').trans hc') (file_restart trace c _)

lemma pending_of_exhausted (hc : c.Settled trace) (h : c.head = .exhausted) :
    c.pending trace = [] := by
  rw [pending, h, hc h]
  rfl

/-- What comes first is in the head. -/
lemma head_of_pending (hc : c.Settled trace) {result : Except TraceError Event}
    {rest : List (Except TraceError Event)} (h : c.pending trace = result :: rest) :
    c.head.result? = some result := by
  cases hhead : c.head with
  | event event =>
    rw [pending_of_event hhead] at h
    cases h
    rfl
  | failed error =>
    rw [pending_of_failed hhead] at h
    cases h
    rfl
  | exhausted =>
    rw [pending_of_exhausted hc hhead] at h
    cases h

lemma pending_of_result? {result : Except TraceError Event} (h : c.head.result? = some result) :
    c.pending trace = result :: c.upcoming trace := by
  rw [pending, h]
  rfl

end FileReader

/-! ## What goes out next -/

/-- Only among no events there is no earliest. -/
lemma earliest?_eq_none {candidates : List (Event × ℕ)} (h : earliest? candidates = none) :
    candidates = [] := by
  cases candidates with
  | nil => rfl
  | cons candidate others =>
    unfold earliest? at h
    split at h
    · cases h
    · split at h <;> cases h

lemma earliest?_mem {candidates : List (Event × ℕ)} {first : Event × ℕ}
    (h : earliest? candidates = some first) : first ∈ candidates := by
  induction candidates generalizing first with
  | nil => cases h
  | cons candidate others ih =>
    unfold earliest? at h
    split at h
    · cases h
      exact List.mem_cons_self
    · rename_i other hother
      split at h
      · cases h
        exact List.mem_cons_self
      · cases h
        exact List.mem_cons_of_mem _ (ih hother)

/-- The earliest event has the least time stamp, and of those that have it the least number, if the
numbers increase. -/
lemma earliest?_least {candidates : List (Event × ℕ)} {first : Event × ℕ}
    (h : earliest? candidates = some first) (hnumbers : candidates.Pairwise (·.2 < ·.2)) :
    ∀ other ∈ candidates, first.1.timestamp < other.1.timestamp ∨
      first.1.timestamp = other.1.timestamp ∧ first.2 ≤ other.2 := by
  induction candidates generalizing first with
  | nil => cases h
  | cons candidate others ih =>
    obtain ⟨hbefore, hothers⟩ := List.pairwise_cons.mp hnumbers
    unfold earliest? at h
    split at h
    · rename_i hnone
      cases h
      rw [earliest?_eq_none hnone]
      simp
    · rename_i second hsecond
      have hleast := ih hsecond hothers
      have hlt := hbefore second (earliest?_mem hsecond)
      split at h
      · cases h
        refine List.forall_mem_cons.mpr ⟨.inr ⟨rfl, Nat.le_refl _⟩, fun other hmem => ?_⟩
        have hother := hleast other hmem
        have := hbefore other hmem
        omega
      · cases h
        refine List.forall_mem_cons.mpr ⟨?_, hleast⟩
        omega

namespace TraceReader

variable {trace : Trace} {r r' : TraceReader}

/-- What each file is still going to give. -/
def queues (r : TraceReader) : List (Queue TraceError Event) :=
  r.files.map (FileReader.pending r.trace)

/-- No file has an empty head before its end. -/
def Settled (r : TraceReader) : Prop :=
  ∀ c ∈ r.files, c.Settled r.trace

/-- What stands at the head of a queue is offered by the file. -/
lemma Settled.head_of_queue (hr : r.Settled) {i : ℕ} {result : Except TraceError Event}
    {rest : Queue TraceError Event} (h : r.queues[i]? = some (result :: rest)) :
    ∃ c, r.files[i]? = some c ∧ c.head.result? = some result := by
  rw [queues, List.getElem?_map] at h
  obtain ⟨c, hc, hpending⟩ := Option.map_eq_some_iff.mp h
  have hsettled := hr c (List.mem_of_getElem? hc)
  exact ⟨c, hc, FileReader.head_of_pending hsettled hpending⟩

lemma queue_of_head {c : FileReader} {i : ℕ} {result : Except TraceError Event}
    (hc : r.files[i]? = some c) (h : c.head.result? = some result) :
    r.queues[i]? = some (result :: c.upcoming r.trace) := by
  rw [queues, List.getElem?_map, hc, Option.map_some, FileReader.pending_of_result? h]

/-- Filling the head of a file takes the first result out of its queue. -/
lemma queues_modify {c : FileReader} {i : ℕ} (hc : r.files[i]? = some c) :
    (r.files.modify i (FileReader.fill r.trace)).map (FileReader.pending r.trace) =
      r.queues.set i (c.upcoming r.trace) := by
  refine List.ext_getElem? fun j => ?_
  rw [List.getElem?_map, List.getElem?_modify, List.getElem?_set, queues, List.length_map,
    List.getElem?_map]
  by_cases hij : i = j
  · subst hij
    obtain ⟨hlt, rfl⟩ := List.getElem?_eq_some_iff.mp hc
    simp [hlt, FileReader.pending_fill]
  · simp [hij]

/-! ### Errors -/

lemma fault?_eq_none (h : r.fault? = none) {c : FileReader} {i : ℕ} (hc : r.files[i]? = some c)
    (error : TraceError) : c.head ≠ .failed error := by
  intro hhead
  have := List.findSome?_eq_none_iff.mp h (c, i) (List.mem_zipIdx_iff_getElem?.mpr hc)
  simp [hhead] at this

/-- The error that goes out first is that of the first file that offers one. -/
lemma fault?_eq_some {error : TraceError} {i : ℕ} (h : r.fault? = some (error, i)) :
    ∃ c, r.files[i]? = some c ∧ c.head = .failed error ∧
      ∀ j < i, ∀ c', r.files[j]? = some c' → ∀ error', c'.head ≠ .failed error' := by
  obtain ⟨before, ⟨c, k⟩, after, hsplit, hfound, hbefore⟩ := List.findSome?_eq_some_iff.mp h
  have hget : r.files.zipIdx[before.length]? = some (c, k) := by
    rw [hsplit]
    simp
  cases hhead : c.head with
  | event | exhausted => simp [hhead] at hfound
  | failed error' =>
    obtain ⟨rfl, rfl⟩ : error' = error ∧ k = i := by simpa [hhead] using hfound
    have hk : r.files[k]? = some c ∧ before.length = k := by
      rw [List.getElem?_zipIdx, Nat.zero_add] at hget
      obtain ⟨c₀, hc₀, hpair⟩ := Option.map_eq_some_iff.mp hget
      cases hpair
      exact ⟨hc₀, rfl⟩
    refine ⟨c, hk.1, hhead, fun j hj c' hc' error'' hhead' => ?_⟩
    have hmem : (c', j) ∈ before := by
      have hj' : r.files.zipIdx[j]? = some (c', j) := by
        rw [List.getElem?_zipIdx, hc', Option.map_some, Nat.zero_add]
      rw [hsplit, List.getElem?_append_left (by omega)] at hj'
      exact List.mem_of_getElem? hj'
    simpa [hhead'] using hbefore _ hmem

/-! ### Events -/

lemma mem_candidates {event : Event} {i : ℕ} :
    (event, i) ∈ r.candidates ↔ ∃ c, r.files[i]? = some c ∧ c.head = .event event := by
  unfold candidates
  rw [List.mem_filterMap]
  constructor
  · rintro ⟨⟨c, j⟩, hmem, hout⟩
    cases hhead : c.head with
    | event event' =>
      obtain ⟨rfl, rfl⟩ : event' = event ∧ j = i := by simpa [hhead] using hout
      exact ⟨c, List.mem_zipIdx_iff_getElem?.mp hmem, hhead⟩
    | failed | exhausted => simp [hhead] at hout
  · rintro ⟨c, hc, hhead⟩
    exact ⟨(c, i), List.mem_zipIdx_iff_getElem?.mpr hc, by simp [hhead]⟩

lemma candidates_pairwise (r : TraceReader) : r.candidates.Pairwise (·.2 < ·.2) := by
  have hnumbers : r.files.zipIdx.Pairwise (·.2 < ·.2) := by
    rw [← List.pairwise_map (f := Prod.snd) (R := (· < ·)), List.zipIdx_map_snd]
    exact List.pairwise_lt_range'
  refine hnumbers.filterMap _ fun a b hlt x hx y hy => ?_
  obtain ⟨ca, i⟩ := a
  obtain ⟨cb, j⟩ := b
  dsimp only at hx hy hlt
  split at hx
  · split at hy
    · cases hx
      cases hy
      exact hlt
    · cases hy
  · cases hx

/-! ## Moving on -/

lemma Settled.advance (hr : r.Settled) : r.advance.2.Settled := by
  unfold TraceReader.advance
  split
  · exact hr
  · rename_i result i _
    have hfiles : ∀ c ∈ r.files.modify i (FileReader.fill r.trace), c.Settled r.trace := by
      intro c hc
      obtain ⟨j, hj⟩ := List.mem_iff_getElem?.mp hc
      rw [List.getElem?_modify] at hj
      obtain ⟨c₀, hc₀, rfl⟩ := Option.map_eq_some_iff.mp hj
      split
      · exact FileReader.settled_fill r.trace c₀
      · exact hr c₀ (List.mem_of_getElem? hc₀)
    cases result <;> exact hfiles

/-- A reader that offers nothing has come to the end of all its files. -/
lemma queues_of_next?_eq_none (hr : r.Settled) (h : r.next? = none) : ∀ q ∈ r.queues, q = [] := by
  have hfault : r.fault? = none := by
    cases hfault : r.fault? with
    | none => rfl
    | some fault => simp [next?, hfault] at h
  have hevents : r.candidates = [] := by
    refine earliest?_eq_none ?_
    simpa [next?, hfault] using h
  intro q hq
  cases q with
  | nil => rfl
  | cons result rest =>
    obtain ⟨i, hi⟩ := List.mem_iff_getElem?.mp hq
    obtain ⟨c, hc, hhead⟩ := hr.head_of_queue hi
    cases hshape : c.head with
    | event event =>
      have hmem := mem_candidates.mpr ⟨c, hc, hshape⟩
      rw [hevents] at hmem
      exact absurd hmem List.not_mem_nil
    | failed error => exact absurd hshape (fault?_eq_none hfault hc error)
    | exhausted =>
      rw [hshape] at hhead
      cases hhead

/-- **One step of a reader is one step of a merge.** -/
theorem takes_of_next? (hr : r.Settled) {item : Except TraceError Event × ℕ}
    (h : r.next? = some item) :
    Queue.Takes Event.timestamp r.queues item r.advance.2.queues := by
  obtain ⟨result, i⟩ := item
  -- The queues behind the step, for whatever result goes out.
  have hqueues : ∀ c, r.files[i]? = some c →
      r.advance.2.queues = r.queues.set i (c.upcoming r.trace) := by
    intro c hc
    rw [← queues_modify hc, TraceReader.advance, h]
    cases result <;> rfl
  cases hfault : r.fault? with
  | some fault =>
    obtain ⟨error, j⟩ := fault
    simp only [next?, hfault, Option.some.injEq, Prod.mk.injEq] at h
    obtain ⟨rfl, rfl⟩ := h
    obtain ⟨c, hc, hhead, hfirst⟩ := fault?_eq_some hfault
    rw [hqueues c hc]
    refine .error (queue_of_head hc (by rw [hhead]; rfl)) fun k hk error' q hq => ?_
    obtain ⟨c', hc', hresult⟩ := hr.head_of_queue hq
    cases hshape : c'.head with
    | failed error'' => exact hfirst k hk c' hc' error'' hshape
    | event | exhausted =>
      rw [hshape] at hresult
      cases hresult
  | none =>
    simp only [next?, hfault, Option.map_eq_some_iff, Prod.mk.injEq] at h
    obtain ⟨⟨event, j⟩, hearliest, rfl, rfl⟩ := h
    obtain ⟨c, hc, hhead⟩ := mem_candidates.mp (earliest?_mem hearliest)
    rw [hqueues c hc]
    refine .value (queue_of_head hc (by rw [hhead]; rfl)) ?_ ?_
    · intro k error q hq
      obtain ⟨c', hc', hresult⟩ := hr.head_of_queue hq
      cases hshape : c'.head with
      | failed error' => exact fault?_eq_none hfault hc' error' hshape
      | event | exhausted =>
        rw [hshape] at hresult
        cases hresult
    · intro k other q hq
      obtain ⟨c', hc', hresult⟩ := hr.head_of_queue hq
      cases hshape : c'.head with
      | event event' =>
        obtain rfl : event' = other := by
          rw [hshape] at hresult
          cases hresult
          rfl
        have hmem : (event', k) ∈ r.candidates := mem_candidates.mpr ⟨c', hc', hshape⟩
        exact earliest?_least hearliest r.candidates_pairwise _ hmem
      | failed | exhausted =>
        rw [hshape] at hresult
        cases hresult

/-! ## Whatever has been done before -/

/-- The states that a reader of a trace gets into. -/
inductive Reachable (trace : Trace) : TraceReader → Prop
  /-- Nothing has been read. -/
  | fresh : Reachable trace trace.reader
  /-- The reader has been moved on, with or without an error. -/
  | advance {r : TraceReader} (h : Reachable trace r) : Reachable trace r.advance.2
  /-- The event that was read last has been taken. -/
  | takeEvent {r : TraceReader} (h : Reachable trace r) : Reachable trace r.takeEvent.2
  /-- The reader has been sent to some time. -/
  | seek {r : TraceReader} (h : Reachable trace r) (nanoseconds : ℕ) :
    Reachable trace (r.seek nanoseconds)

/-- A reader that reads the files of a trace and whose heads tell the truth. -/
structure Sound (trace : Trace) (r : TraceReader) : Prop where
  trace_eq : r.trace = trace
  files_eq : r.files.map FileReader.file = trace.files
  settled : r.Settled

lemma sound_reader (trace : Trace) : Sound trace trace.reader where
  trace_eq := rfl
  files_eq := by
    have hfile : FileReader.file ∘ FileReader.ofFile trace = id :=
      funext fun file => FileReader.file_restart trace _ 0
    simp [Trace.reader, hfile]
  settled := by
    intro c hc
    obtain ⟨file, -, rfl⟩ := List.mem_map.mp hc
    exact FileReader.settled_fill trace _

lemma trace_advance (r : TraceReader) : r.advance.2.trace = r.trace := by
  unfold TraceReader.advance
  split
  · rfl
  · rename_i result i _
    cases result <;> rfl

lemma files_advance (r : TraceReader) :
    r.advance.2.files.map FileReader.file = r.files.map FileReader.file := by
  unfold TraceReader.advance
  split
  · rfl
  · rename_i result i _
    have hfiles : (r.files.modify i (FileReader.fill r.trace)).map FileReader.file =
        r.files.map FileReader.file := by
      refine List.ext_getElem? fun j => ?_
      rw [List.getElem?_map, List.getElem?_map, List.getElem?_modify]
      cases r.files[j]? with
      | none => rfl
      | some c =>
        by_cases hij : i = j
        · simp [hij, FileReader.file_fill]
        · simp [hij]
    cases result <;> exact hfiles

lemma Sound.advance (h : Sound trace r) : Sound trace r.advance.2 where
  trace_eq := (trace_advance r).trans h.trace_eq
  files_eq := (files_advance r).trans h.files_eq
  settled := h.settled.advance

lemma Sound.seek (h : Sound trace r) (nanoseconds : ℕ) : Sound trace (r.seek nanoseconds) where
  trace_eq := h.trace_eq
  files_eq := by
    have hfile : FileReader.file ∘ FileReader.seek r.trace nanoseconds = FileReader.file :=
      funext fun c => FileReader.file_seek r.trace nanoseconds c
    rw [← h.files_eq, TraceReader.seek, List.map_map, hfile]
  settled := by
    intro c hc
    obtain ⟨c₀, -, rfl⟩ := List.mem_map.mp hc
    exact FileReader.settled_seek r.trace nanoseconds c₀

theorem Reachable.sound (h : Reachable trace r) : Sound trace r := by
  induction h with
  | fresh => exact sound_reader trace
  | advance _ ih => exact ih.advance
  | takeEvent _ ih => exact ⟨ih.trace_eq, ih.files_eq, ih.settled⟩
  | seek _ nanoseconds ih => exact ih.seek nanoseconds

/-! ## Reading to the end -/

/-- **Moving on until the end.**  `Drains r items last`: if `r` is moved on until it says that there
is nothing more, it gives the events and errors `items`, each from the file of which it carries the
number, and `last` is the reader at the end. -/
inductive Drains : TraceReader → List (Except TraceError Event × ℕ) → TraceReader → Prop
  /-- There is nothing more. -/
  | done {r last : TraceReader} (more : r.advance = (.ok false, last)) : Drains r [] last
  /-- There is an event, which becomes the current one. -/
  | event {r r' last : TraceReader} {event : Event} {i : ℕ}
      {items : List (Except TraceError Event × ℕ)} (file : r.next?.map Prod.snd = some i)
      (more : r.advance = (.ok true, r')) (current : r'.current = some event)
      (rest : Drains r' items last) : Drains r ((.ok event, i) :: items) last
  /-- There is an error. -/
  | error {r r' last : TraceReader} {error : TraceError} {i : ℕ}
      {items : List (Except TraceError Event × ℕ)} (file : r.next?.map Prod.snd = some i)
      (more : r.advance = (.error error, r')) (rest : Drains r' items last) :
    Drains r ((.error error, i) :: items) last

lemma advance_of_next?_eq_none (h : r.next? = none) :
    r.advance = (.ok false, { r with current := none }) := by
  rw [TraceReader.advance, h]

/-- What a step of a reader gives is what it offered before. -/
lemma next?_of_advance {more : Except TraceError Bool} (h : r.advance = (more, r')) :
    match more with
    | .ok false => r.next? = none
    | .ok true => ∃ event i, r.next? = some (.ok event, i) ∧ r'.current = some event
    | .error error => ∃ i, r.next? = some (.error error, i) := by
  unfold TraceReader.advance at h
  split at h
  · rename_i hnext
    cases h
    exact hnext
  · rename_i result i hnext
    cases result with
    | ok event =>
      cases h
      exact ⟨event, i, hnext, rfl⟩
    | error error =>
      cases h
      exact ⟨i, hnext⟩

/-- A step that gives something is a step of a drain. -/
lemma Drains.step {item : Except TraceError Event × ℕ} {last : TraceReader}
    {items : List (Except TraceError Event × ℕ)} (h : r.next? = some item)
    (rest : Drains r.advance.2 items last) : Drains r (item :: items) last := by
  obtain ⟨result, i⟩ := item
  cases result with
  | ok event =>
    have hadvance : r.advance = (.ok true, r.advance.2) := by rw [TraceReader.advance, h]
    have hcurrent : r.advance.2.current = some event := by rw [TraceReader.advance, h]
    exact .event (by rw [h]; rfl) hadvance hcurrent rest
  | error error =>
    have hadvance : r.advance = (.error error, r.advance.2) := by rw [TraceReader.advance, h]
    exact .error (by rw [h]; rfl) hadvance rest

/-- A drain goes step by step. -/
lemma Drains.next? {items : List (Except TraceError Event × ℕ)} {last : TraceReader}
    (h : Drains r items last) : r.next? = items.head? := by
  cases h with
  | done more => exact next?_of_advance more
  | event file more current =>
    obtain ⟨event', j, hnext, hcurrent⟩ := next?_of_advance more
    rw [hnext] at file ⊢
    rw [current] at hcurrent
    cases file
    cases hcurrent
    rfl
  | error file more =>
    obtain ⟨j, hnext⟩ := next?_of_advance more
    rw [hnext] at file ⊢
    cases file
    rfl

lemma Drains.tail {item : Except TraceError Event × ℕ} {last : TraceReader}
    {items : List (Except TraceError Event × ℕ)} (h : Drains r (item :: items) last) :
    Drains r.advance.2 items last := by
  cases h with
  | event _ more _ rest => rwa [more]
  | error _ more rest => rwa [more]

/-- A reader may be moved on beyond its end, too. -/
lemma Drains.exists_tail {items : List (Except TraceError Event × ℕ)} {last : TraceReader}
    (h : Drains r items last) : ∃ last', Drains r.advance.2 items.tail last' := by
  cases items with
  | nil =>
    have hnext : r.next? = none := h.next?
    refine ⟨r.advance.2, .done ?_⟩
    rw [advance_of_next?_eq_none hnext]
    exact advance_of_next?_eq_none hnext
  | cons item items => exact ⟨last, h.tail⟩

/-- **What a reader gives until its end is a merge of its queues.** -/
theorem Drains.merges {items : List (Except TraceError Event × ℕ)} {last : TraceReader}
    (h : Drains r items last) (hr : r.Settled) : Queue.Merges Event.timestamp r.queues items := by
  induction items generalizing r with
  | nil => exact .done (queues_of_next?_eq_none hr h.next?)
  | cons item items ih =>
    have htakes := takes_of_next? hr h.next?
    exact .step htakes (ih h.tail hr.advance)

/-- Every reader comes to its end. -/
theorem exists_drains (hr : r.Settled) : ∃ items last, Drains r items last := by
  -- Each step takes one result out of the queues.
  induction hsize : Queue.size r.queues generalizing r with
  | zero =>
    cases hnext : r.next? with
    | none => exact ⟨[], _, .done (advance_of_next?_eq_none hnext)⟩
    | some item =>
      have := (takes_of_next? hr hnext).size_eq
      omega
  | succ size ih =>
    cases hnext : r.next? with
    | none => exact ⟨[], _, .done (advance_of_next?_eq_none hnext)⟩
    | some item =>
      have := (takes_of_next? hr hnext).size_eq
      obtain ⟨items, last, hrest⟩ := ih hr.advance (by omega)
      exact ⟨item :: items, last, .step hnext hrest⟩

/-- A merge of the queues is what the reader gives. -/
theorem drains_of_merges {items : List (Except TraceError Event × ℕ)} (hr : r.Settled)
    (h : Queue.Merges Event.timestamp r.queues items) : ∃ last, Drains r items last := by
  obtain ⟨items', last, hdrains⟩ := exists_drains hr
  rw [h.unique (hdrains.merges hr)]
  exact ⟨last, hdrains⟩

end TraceReader

end CommonTrace
