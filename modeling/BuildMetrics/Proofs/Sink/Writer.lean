import BuildMetrics.Proofs.Record.Framed
import BuildMetrics.Proofs.Sink.Requests
import BuildMetrics.Sink.Writer

/-!
# Lines on a writer that becomes full

Records are sent one after the other to a writer that has room for so many bytes and no more. The
writer may become full anywhere: in the middle of a line, or just before the newline at its end.

* `Writer.acceptAll_eq_write`: to write bytes is to offer what is left of them as often as it takes,
  until the writer fails;
* `LineWriter.send_holding`: what one record does to a writer that holds the beginning of a stream;
* `LineWriter.performAll_holding`: so the writer goes on holding the beginning of the stream of all
  frames, and the records in front whose frames fit succeed;
* `LineWriter.performAll_framed`: the newlines tell these records.
-/

namespace BuildMetrics

namespace Writer

/-- The outcome of a write that finds too little room. -/
def full {α : Type} : Except SinkError α := .error (.io "writer full")

variable {w : Writer} {bytes : List UInt8}

/-! ## One write after the other -/

/-- Offers bytes once. The writer takes those that fit, and fails if there are some and none of them
fits. -/
def accept (bytes : List UInt8) (w : Writer) : Except SinkError Nat × Writer :=
  let fits := w.room bytes.length
  if fits = 0 ∧ bytes ≠ [] then (full, w)
  else (.ok fits, { w with bytes := w.bytes ++ bytes.take fits })

/-- Offers bytes until all of them are taken or the writer fails. -/
def acceptAll : List UInt8 → Writer → Outcome × Writer
  | [], w => (.ok (), w)
  | b :: bs, w =>
    match accept (b :: bs) w with
    | (.error e, w) => (.error e, w)
    | (.ok 0, w) => (.error (.io "failed to write whole buffer"), w)
    | (.ok (n + 1), w) => acceptAll (bs.drop n) w
termination_by bytes => bytes.length

/-- The writer with more bytes. -/
def append (w : Writer) (bytes : List UInt8) : Writer := { w with bytes := w.bytes ++ bytes }

theorem append_nil (w : Writer) : w.append [] = w := by rw [append, List.append_nil]

theorem room_le (w : Writer) (n : Nat) : w.room n ≤ n := by
  rw [room]
  split
  · exact Nat.le_refl n
  · exact Nat.min_le_left _ _

theorem write_eq (bytes : List UInt8) (w : Writer) :
    write bytes w =
      (if w.room bytes.length = bytes.length then .ok () else full,
        w.append (bytes.take (w.room bytes.length))) :=
  rfl

theorem acceptAll_of_room_eq_zero (hroom : w.room bytes.length = 0) (hbytes : bytes ≠ []) :
    acceptAll bytes w = (full, w) := by
  cases bytes with
  | nil => exact absurd rfl hbytes
  | cons b bs =>
    have haccept : accept (b :: bs) w = (full, w) := if_pos ⟨hroom, hbytes⟩
    rw [acceptAll, haccept]
    rfl

/-- A writer that did not take all bytes has no room left. -/
theorem room_append_of_lt {taken : List UInt8} {n : Nat} (htaken : taken.length = w.room n)
    (h : w.room n < n) (more : Nat) : (w.append taken).room more = 0 := by
  obtain ⟨limit, failsFlush, held⟩ := w
  cases limit with
  | none => exact absurd h (Nat.lt_irrefl _)
  | some limit =>
    simp only [room, append, List.length_append] at htaken h ⊢
    omega

/-- **To write is to offer what is left, as often as it takes.** -/
theorem acceptAll_eq_write (bytes : List UInt8) (w : Writer) :
    acceptAll bytes w = write bytes w := by
  rw [write_eq]
  cases bytes with
  | nil =>
    have hroom : w.room ([] : List UInt8).length = ([] : List UInt8).length :=
      Nat.le_zero.mp (w.room_le 0)
    rw [acceptAll, if_pos hroom, List.take_nil, append_nil]
  | cons b bs =>
    have hle := w.room_le (b :: bs).length
    cases hfits : w.room (b :: bs).length with
    | zero =>
      rw [acceptAll_of_room_eq_zero hfits (List.cons_ne_nil _ _), if_neg (by simp), List.take_zero,
        append_nil]
    | succ n =>
      have haccept : accept (b :: bs) w = (.ok (n + 1), w.append ((b :: bs).take (n + 1))) := by
        rw [accept, hfits, if_neg (by simp)]
        rfl
      rw [acceptAll, haccept]
      by_cases hall : n + 1 = (b :: bs).length
      · have hrest : bs.drop n = [] := List.drop_eq_nil_of_le (by simp at hall; omega)
        rw [if_pos hall]
        simp only [hrest]
        rw [acceptAll]
      · -- what is left is offered to a writer without room
        have htaken : ((b :: bs).take (n + 1)).length = w.room (b :: bs).length := by
          rw [List.length_take, hfits]
          exact Nat.min_eq_left (hfits ▸ hle)
        have hroom := room_append_of_lt htaken (by omega) (bs.drop n).length
        have hrest : bs.drop n ≠ [] := by
          intro hnil
          have hlen := List.drop_eq_nil_iff.mp hnil
          rw [hfits] at hle
          simp only [List.length_cons] at hall hle
          omega
        rw [if_neg hall]
        exact acceptAll_of_room_eq_zero hroom hrest

/-! ## A writer that holds the beginning of a stream -/

/-- A writer that holds a stream as far as it has room for it. -/
def holding (limit : Nat) (failsFlush : Bool) (stream : List UInt8) : Writer :=
  ⟨some limit, failsFlush, stream.take limit⟩

variable {limit : Nat} {failsFlush : Bool} {stream : List UInt8}

theorem write_holding (hbytes : bytes ≠ []) :
    write bytes (holding limit failsFlush stream) =
      (if (stream ++ bytes).length ≤ limit then .ok () else full,
        holding limit failsFlush (stream ++ bytes)) := by
  have hlen : 0 < bytes.length := List.length_pos_iff.mpr hbytes
  have hroom : (holding limit failsFlush stream).room bytes.length =
      min bytes.length (limit - stream.length) := by
    simp only [room, holding, List.length_take]
    omega
  have hfits : min bytes.length (limit - stream.length) = bytes.length ↔
      (stream ++ bytes).length ≤ limit := by
    rw [List.length_append]
    omega
  rw [write_eq, hroom]
  simp only [hfits]
  rw [append, holding, holding, List.take_append, Nat.min_comm, ← List.take_take,
    List.take_length]

/-- What does not fit any more is not held. -/
theorem holding_append_of_le (h : limit ≤ stream.length) (more : List UInt8) :
    holding limit failsFlush (stream ++ more) = holding limit failsFlush stream := by
  rw [holding, holding, List.take_append_of_le_length h]

end Writer

namespace LineWriter

variable {limit : Nat} {failsFlush : Bool} {stream : List UInt8}

/-! ## Records on such a writer -/

theorem send_eq (r : Record) (s : LineWriter) :
    send r s =
      match Writer.write r.lineBytes s.writer with
      | (.error e, w) => (.error e, ⟨w, s.lines⟩)
      | (.ok (), w) =>
        match Writer.write [newlineByte] w with
        | (.error e, w) => (.error e, ⟨w, s.lines⟩)
        | (.ok (), w) => (.ok (), ⟨w, s.lines + 1⟩) := by
  have hline : onWriter (Writer.write (Text.utf8Bytes r.line)) s =
      ((Writer.write r.lineBytes s.writer).1, ⟨(Writer.write r.lineBytes s.writer).2, s.lines⟩) :=
    rfl
  have hnewline (w : Writer) : onWriter (Writer.write (Text.utf8Bytes "\n")) ⟨w, s.lines⟩ =
      ((Writer.write [newlineByte] w).1, ⟨(Writer.write [newlineByte] w).2, s.lines⟩) :=
    rfl
  rw [send]
  simp only [bind, StateT.bind, hline]
  rcases Writer.write r.lineBytes s.writer with ⟨_ | _, w⟩
  · rfl
  · simp only [StateT.bind, hnewline]
    rcases Writer.write [newlineByte] w with ⟨_ | _, w⟩ <;> rfl

/-- **A record counts as a line when all of its frame fits.** As much of the frame as fits is held
in any case. -/
theorem send_holding (r : Record) (n : Nat) :
    send r ⟨.holding limit failsFlush stream, n⟩ =
      if (stream ++ r.frame).length ≤ limit then
        (.ok (), ⟨.holding limit failsFlush (stream ++ r.frame), n + 1⟩)
      else (Writer.full, ⟨.holding limit failsFlush (stream ++ r.frame), n⟩) := by
  have hframe : stream ++ r.frame = stream ++ r.lineBytes ++ [newlineByte] :=
    (List.append_assoc _ _ _).symm
  rw [send_eq, Writer.write_holding r.lineBytes_ne_nil]
  by_cases hline : (stream ++ r.lineBytes).length ≤ limit
  · simp only [if_pos hline, Writer.write_holding (List.cons_ne_nil newlineByte []), ← hframe]
    by_cases hfits : (stream ++ r.frame).length ≤ limit
    · simp only [if_pos hfits]
    · simp only [if_neg hfits]
      rfl
  · have hfits : ¬ (stream ++ r.frame).length ≤ limit := by
      rw [hframe, List.length_append]
      omega
    simp only [if_neg hline, if_neg hfits]
    rw [hframe, Writer.holding_append_of_le (Nat.le_of_not_le hline)]
    rfl

theorem perform_send_of_fits {r : Record} (h : (stream ++ r.frame).length ≤ limit) (n : Nat) :
    sink.perform (.send r) ⟨.holding limit failsFlush stream, n⟩ =
      (.ok (), ⟨.holding limit failsFlush (stream ++ r.frame), n + 1⟩) :=
  (send_holding r n).trans (if_pos h)

theorem perform_send_of_not_fits {r : Record} (h : limit < (stream ++ r.frame).length) (n : Nat) :
    sink.perform (.send r) ⟨.holding limit failsFlush stream, n⟩ =
      (Writer.full, ⟨.holding limit failsFlush (stream ++ r.frame), n⟩) :=
  (send_holding r n).trans (if_neg (Nat.not_le.mpr h))

/-- Once a frame did not fit, no record counts as a line. -/
theorem performAll_of_full (rs : List Record) (h : limit < stream.length) (n : Nat) :
    sink.performAll (SinkRequest.sends rs) ⟨.holding limit failsFlush stream, n⟩ =
      (List.replicate rs.length Writer.full,
        ⟨.holding limit failsFlush (stream ++ Record.frames rs), n⟩) := by
  induction rs generalizing stream with
  | nil => rw [Record.frames_nil, List.append_nil]; rfl
  | cons r rs ih =>
    have hnext : limit < (stream ++ r.frame).length := by
      rw [List.length_append]
      omega
    rw [SinkRequest.sends_cons, Sink.performAll_cons_of (perform_send_of_not_fits hnext n),
      ih hnext, Record.frames_cons, List.append_assoc]
    rfl

/-- **The records in front whose frames fit succeed, and no others.** The writer holds the beginning
of all frames. -/
theorem performAll_holding (rs : List Record) (h : stream.length ≤ limit) (n : Nat) :
    ∃ delivered left, rs = delivered ++ left ∧
      (stream ++ Record.frames delivered).length ≤ limit ∧
      (∀ r ∈ left.head?, limit < (stream ++ Record.frames (delivered ++ [r])).length) ∧
      sink.performAll (SinkRequest.sends rs) ⟨.holding limit failsFlush stream, n⟩ =
        (List.replicate delivered.length (Except.ok ()) ++ List.replicate left.length Writer.full,
          ⟨.holding limit failsFlush (stream ++ Record.frames rs), n + delivered.length⟩) := by
  induction rs generalizing stream n with
  | nil =>
    refine ⟨[], [], rfl, ?_, by simp, ?_⟩
    · rwa [Record.frames_nil, List.append_nil]
    · rw [Record.frames_nil, List.append_nil]
      rfl
  | cons r rs ih =>
    by_cases hfits : (stream ++ r.frame).length ≤ limit
    · obtain ⟨delivered, left, hsplit, hdelivered, hleft, hrun⟩ := ih hfits (n + 1)
      have hframes (rs : List Record) :
          stream ++ Record.frames (r :: rs) = stream ++ r.frame ++ Record.frames rs := by
        rw [Record.frames_cons, List.append_assoc]
      refine ⟨r :: delivered, left, by rw [hsplit, List.cons_append], ?_, ?_, ?_⟩
      · rwa [hframes]
      · intro r' hr'
        rw [List.cons_append, hframes]
        exact hleft r' hr'
      · rw [SinkRequest.sends_cons, Sink.performAll_cons_of (perform_send_of_fits hfits n), hrun,
          hframes, List.length_cons, Nat.add_right_comm, Nat.add_assoc]
        rfl
    · have hnext := Nat.lt_of_not_le hfits
      refine ⟨[], r :: rs, rfl, ?_, ?_, ?_⟩
      · rwa [Record.frames_nil, List.append_nil]
      · rintro r' ⟨rfl⟩
        rwa [List.nil_append, Record.frames_singleton]
      · rw [SinkRequest.sends_cons, Sink.performAll_cons_of (perform_send_of_not_fits hnext n),
          performAll_of_full rs hnext, Record.frames_cons, List.append_assoc]
        rfl

/-- Behind the last newline there is at most the beginning of one line. -/
theorem take_frames {left : List Record} {room : Nat}
    (h : ∀ r ∈ left.head?, room < r.frame.length) :
    (Record.frames left).take room = ((left.map Record.lineBytes).headD []).take room := by
  cases left with
  | nil => rfl
  | cons r left =>
    have hroom : room ≤ r.lineBytes.length := by
      have hlt := h r rfl
      rw [Record.frame, List.length_append, List.length_singleton] at hlt
      omega
    rw [Record.frames_cons, Record.frame, List.append_assoc, List.take_append_of_le_length hroom,
      List.map_cons, List.headD_cons]

/-- **The newlines tell the records that succeeded.** Offering bytes until the writer fails is the
same as writing them. -/
theorem performAll_framed (limit : Nat) (failsFlush : Bool) (rs : List Record) :
    (∀ bytes w, Writer.acceptAll bytes w = Writer.write bytes w) ∧
    ∃ outcomes held delivered left rest,
      sink.performAll (SinkRequest.sends rs) (ofWriter ⟨some limit, failsFlush, []⟩) =
        (outcomes, ⟨⟨some limit, failsFlush, held⟩, delivered.length⟩) ∧
      held = (Record.frames rs).take limit ∧
      rs = delivered ++ left ∧
      (Record.frames delivered).length ≤ limit ∧
      (∀ r ∈ left.head?, limit < (Record.frames (delivered ++ [r])).length) ∧
      outcomes =
        List.replicate delivered.length (Except.ok ()) ++ List.replicate left.length Writer.full ∧
      outcomes.countP Outcome.isOk = delivered.length ∧
      held.count newlineByte = delivered.length ∧
      held.splitOn newlineByte = delivered.map Record.lineBytes ++ [rest] ∧
      newlineByte ∉ rest ∧
      rest <+: (left.map Record.lineBytes).headD [] := by
  refine ⟨Writer.acceptAll_eq_write, ?_⟩
  obtain ⟨delivered, left, hsplit, hfits, hleft, hrun⟩ :=
    @performAll_holding limit failsFlush [] rs (Nat.zero_le limit) 0
  rw [List.nil_append] at hfits
  set rest := ((left.map Record.lineBytes).headD []).take (limit - (Record.frames delivered).length)
    with hrest
  -- what is held beyond the frames that fit
  have hheld : (Record.frames rs).take limit = Record.frames delivered ++ rest := by
    have hroom : ∀ r ∈ left.head?, limit - (Record.frames delivered).length < r.frame.length := by
      intro r hr
      have hlt := hleft r hr
      rw [List.nil_append, Record.frames_append, Record.frames_singleton, List.length_append] at hlt
      omega
    rw [hsplit, Record.frames_append, List.take_append, List.take_of_length_le hfits,
      take_frames hroom]
  have hbegin : rest <+: (left.map Record.lineBytes).headD [] := List.take_prefix _ _
  have hnewline : newlineByte ∉ rest := by
    intro hmem
    cases left with
    | nil => exact absurd (hbegin.subset hmem) (List.not_mem_nil)
    | cons r left =>
      rw [List.map_cons, List.headD_cons] at hbegin
      exact r.newlineByte_not_mem_lineBytes (hbegin.subset hmem)
  refine ⟨_, _, delivered, left, rest, ?_, rfl, hsplit, hfits, hleft, rfl, ?_, ?_, ?_, hnewline,
    hbegin⟩
  · rw [Nat.zero_add, Writer.holding, Writer.holding, List.take_nil, List.nil_append] at hrun
    exact hrun
  · rw [List.countP_append, List.countP_replicate, List.countP_replicate]
    rfl
  · rw [hheld, List.count_append, Record.count_frames, List.count_eq_zero.mpr hnewline]
    rfl
  · rw [hheld, Record.splitOn_frames delivered hnewline]

end LineWriter

end BuildMetrics
