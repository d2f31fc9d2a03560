import ReliableSocket.Dare.Log.Walk

open memory ring

namespace dare.log

/-- The length of an entry with the given data. -/
def data_len (data : log_data) : Nat := SIZEOF_ENTRY + data.cmd_bytes.length

/-- The bytes that an append uses up: the entry, and the padding before it if it wraps. -/
def append_bytes (log : dare_log_t) (data : log_data) : Nat :=
  if log.end_ + data_len data ≤ log.len then data_len data
  else log.len - log.end_ + data_len data

/-- The circular gap from the end to the head of the log; the whole buffer for the empty log. -/
def free_bytes (log : dare_log_t) : Nat :=
  if is_log_empty log then log.len else ring.dist log.len log.end_ log.head

/-- There is more place in the log than the append uses up. -/
def HasRoom (log : dare_log_t) (data : log_data) : Prop := append_bytes log data < free_bytes log

/-- The entry would end exactly at the end of the buffer. -/
def EndsAtLen (log : dare_log_t) (data : log_data) : Prop := log.end_ + data_len data = log.len

/-- Runs of appends and head advances that start with `log_new`: the log, the entries appended so
    far and the number of those that the head has passed. `Ok` restricts the appends. -/
inductive Run (Ok : dare_log_t → UInt64 → UInt64 → UInt16 → log_data → Prop) :
    dare_log_t → List dare_log_entry_t → Nat → Prop where
  | new : Run Ok log_new [] 0
  | append {log log' : dare_log_t} {es : List dare_log_entry_t} {passed : Nat} {idx : UInt64}
      (term req_id : UInt64) (clt_id : UInt16) (data : log_data)
      (hrun : Run Ok log es passed) (hok : Ok log term req_id clt_id data)
      (happend : log_append_entry log term req_id clt_id data = (log', idx)) :
      Run Ok log' (es ++ [⟨idx, term, req_id, clt_id, data⟩]) passed
  | advance_head {log : dare_log_t} {es : List dare_log_entry_t} {passed offset count : Nat}
      (hrun : Run Ok log es passed) (hboundary : (offset, count) ∈ log_positions log) :
      Run Ok { log with head := offset } es (passed + count)

/-- An append that finds place and does not end at the end of the buffer. -/
def RoomyAppend (log : dare_log_t) (_ _ : UInt64) (_ : UInt16) (data : log_data) : Prop :=
  HasRoom log data ∧ ¬EndsAtLen log data

/-- What a run keeps: the log is empty and unused, or the reader that starts at the head meets the
    live entries. -/
structure Readable (log : dare_log_t) (live : List dare_log_entry_t) : Prop where
  len : log.len = LOG_SIZE
  path : (live = [] ∧ log.end_ = log.len ∧ log.head = 0) ∨ Path log log.head live

theorem LOG_SIZE_eq : LOG_SIZE = 2 ^ 26 := by decide

theorem new_entry_len (log : dare_log_t) (term req_id : UInt64) (clt_id : UInt16) (data : log_data) :
    (new_entry log term req_id clt_id data).len = data_len data := rfl

theorem append_bytes_eq_cost (log : dare_log_t) (term req_id : UInt64) (clt_id : UInt16)
    (data : log_data) :
    append_bytes log data = entry_format.cost log.len log.end_ (new_entry log term req_id clt_id data) :=
  rfl

/-- The offsets of the log are in range. -/
def LogOk (log : dare_log_t) : Prop := log.len = LOG_SIZE ∧ log.end_ ≤ log.len

section append

variable {log : dare_log_t}

/-- The log has place for an entry. If only the header fits behind the end, the entry goes to the
    beginning, where the head must not be. -/
def TakesEntry (log : dare_log_t) (data : log_data) : Prop :=
  log.end_ ≠ log.head ∧
    (log.head = 0 → HeaderFits log log.end_ → log.end_ + data_len data ≤ log.len)

instance (log : dare_log_t) (data : log_data) : Decidable (TakesEntry log data) := by
  unfold TakesEntry HeaderFits
  infer_instance

/-- The end of a log moves when an entry is appended, and never to the beginning. -/
theorem Appended.end_moves {log' : dare_log_t} {x : dare_log_entry_t} (happ : Appended log log' x)
    (hlog : LogOk log) : log'.end_ ≠ log.end_ ∧ log'.end_ ≠ 0 ∧ LogOk log' := by
  obtain ⟨hlen, hend⟩ := hlog
  have hmin := x.le_len
  have hmax := x.len_lt
  have hend' := happ.end_
  have hlen' := happ.len
  unfold LogOk
  rw [LOG_SIZE_eq] at hlen ⊢
  unfold SIZEOF_ENTRY at hmin hmax
  obtain ⟨hfit, -, hnext, -⟩ | ⟨hfit, -, hnext, -⟩ := entry_format.write_cases log.len log.end_ x
  · rw [entry_size] at hfit hnext
    omega
  · rw [entry_size] at hfit hnext
    omega

/-- `log_append_entry` appends its entry exactly when the log has place for it. -/
theorem appended_iff_takesEntry (hlog : LogOk log) (term req_id : UInt64) (clt_id : UInt16)
    (data : log_data) :
    (Appended log (log_append_entry log term req_id clt_id data).1
      (new_entry log term req_id clt_id data) ↔ TakesEntry log data) ∧
      LogOk (log_append_entry log term req_id clt_id data).1 := by
  have hbig : 2 ^ 18 ≤ log.len := by rw [hlog.1, LOG_SIZE_eq]; omega
  obtain ⟨hfull, heq⟩ | ⟨hfree, hhead, hheader, hwraps, log', heq, habandoned⟩ |
      ⟨hfree, hfits, log', heq, happ⟩ :=
    log_append_entry_cases log term req_id clt_id data hbig hlog.2
  · rw [heq]
    refine ⟨⟨fun happ => ?_, fun htakes => absurd hfull htakes.1⟩, ?_⟩
    · exact absurd (prepare_end log data) (happ.end_moves hlog).1
    · exact ⟨(prepare_len log data).trans hlog.1, by rw [prepare_end, prepare_len]; exact hlog.2⟩
  · rw [heq]
    refine ⟨⟨fun happ => absurd habandoned.end_ (happ.end_moves hlog).2.1, fun htakes => ?_⟩, ?_⟩
    · have hplace := htakes.2 hhead hheader
      rw [new_entry_len] at hwraps
      omega
    · exact ⟨habandoned.len.trans hlog.1, by rw [habandoned.end_]; exact Nat.zero_le _⟩
  · rw [heq]
    exact ⟨⟨fun _ => ⟨hfree, hfits⟩, fun _ => happ⟩, (happ.end_moves hlog).2.2⟩

end append

/-- The bytes that a successful append leaves alone. -/
theorem Appended.agrees {log log' : dare_log_t} {x : dare_log_entry_t} (happ : Appended log log' x)
    (hcost : entry_format.cost log.len log.end_ x < log.len) {b : Nat}
    (hfar : entry_format.cost log.len log.end_ x ≤ ring.dist log.len log.end_ b) :
    log.entries b = log'.entries b := by
  refine (happ.frame b ?_ ?_).symm
  · by_contra hin
    have hnear := RecordFormat.dist_lt_cost_of_record (b := b) hcost (by omega) (by omega)
    omega
  · intro hheader
    by_contra hin
    have hnear := entry_format.dist_lt_cost_of_header log.len (b := b) x hheader
      (by omega) (by change b < log.end_ + SIZEOF_ENTRY; omega)
    omega

/-- A successful append adds its entry at the end of the path, as long as path and entry together
    do not go round the buffer. -/
theorem Path.appended {log log' : dare_log_t} {offset : Nat} {es : List dare_log_entry_t}
    {x : dare_log_entry_t} (hpath : Path log offset es) (happ : Appended log log' x)
    (hroom : entry_format.span log.len offset es + entry_format.cost log.len log.end_ x < log.len)
    (hend : entry_format.next log.len log.end_ x < log.len) :
    Path log' offset (es ++ [x]) := by
  have hreaches := hpath.reaches
  have hspan : entry_format.span log.len offset (es ++ [x]) < log.len := by
    rw [RecordFormat.span_append, RecordFormat.span_singleton, hreaches]
    exact hroom
  refine ⟨?_, ?_, ?_, ?_, ?_⟩
  · rw [happ.len, happ.end_]
    exact hend
  · rw [happ.len]
    exact hpath.start_le
  · rw [happ.len]
    refine RecordFormat.holds_concat hpath.start_le hpath.holds hspan ?_ ?_ ?_ ?_
    · intro b _ hfar
      rw [hreaches] at hfar
      exact happ.agrees (by omega) hfar
    · rw [hreaches]
      exact happ.header
    · rw [hreaches]
      exact happ.stored
    · rw [hreaches]
      exact hend
  · rw [happ.len, happ.end_, RecordFormat.advance_append, hreaches]
    rfl
  · rw [happ.len]
    exact hspan

theorem next_lt_of_not_endsAtLen {log : dare_log_t} (term req_id : UInt64) (clt_id : UInt16)
    {data : log_data} (hlen : log.len = LOG_SIZE) (hflush : ¬EndsAtLen log data) :
    entry_format.next log.len log.end_ (new_entry log term req_id clt_id data) < log.len := by
  have hmax := (new_entry log term req_id clt_id data).len_lt
  rw [LOG_SIZE_eq] at hlen
  unfold EndsAtLen at hflush
  rw [new_entry_len] at hmax
  unfold SIZEOF_ENTRY at hmax
  obtain ⟨hfit, -, hnext, -⟩ | ⟨-, -, hnext, -⟩ :=
    entry_format.write_cases log.len log.end_ (new_entry log term req_id clt_id data)
  · rw [entry_size, new_entry_len] at hfit hnext
    omega
  · rw [entry_size, new_entry_len] at hnext
    omega

/-- The first entry of a log starts at offset 0. -/
theorem Path.first {log log' : dare_log_t} {x : dare_log_entry_t} (happ : Appended log log' x)
    (hempty : log.end_ = log.len) (hhead : log.head = 0) (hbig : 2 ^ 18 ≤ log.len) :
    Path log' log'.head [x] := by
  have hmax := x.len_lt
  have hmin := x.le_len
  unfold SIZEOF_ENTRY at hmax hmin
  have hplace : entry_format.place log.len log.end_ x = 0 := if_neg (by rw [entry_size]; omega)
  have hplace₀ : entry_format.place log.len 0 x = 0 := if_pos (by rw [entry_size]; omega)
  have hnext : entry_format.next log.len log.end_ x = x.len := by
    rw [RecordFormat.next, hplace, entry_size, Nat.zero_add]
  have hnext₀ : entry_format.next log.len 0 x = x.len := by
    rw [RecordFormat.next, hplace₀, entry_size, Nat.zero_add]
  have hcost₀ : entry_format.cost log.len 0 x = x.len := if_pos (by rw [entry_size]; omega)
  have hstored := happ.stored
  rw [hplace] at hstored
  rw [happ.head, hhead]
  refine ⟨?_, Nat.zero_le _, ⟨fun _ => hasHeader_of_read_entry hstored, ?_, ?_, trivial⟩, ?_, ?_⟩
  · rw [happ.len, happ.end_, hnext]
    omega
  · rw [happ.len, hplace₀]
    exact hstored
  · rw [happ.len, hnext₀]
    omega
  · rw [happ.len, happ.end_, hnext]
    exact hnext₀
  · rw [happ.len, RecordFormat.span_singleton, hcost₀]
    omega

/-- An append with enough room succeeds, and the entries from the head on together with the new one
    do not go round the buffer. -/
theorem roomy_appended {log log' : dare_log_t} {live : List dare_log_entry_t} {idx : UInt64}
    {term req_id : UInt64} {clt_id : UInt16} {data : log_data} (hread : Readable log live)
    (hok : RoomyAppend log term req_id clt_id data)
    (happend : log_append_entry log term req_id clt_id data = (log', idx)) :
    idx = next_idx (append_prepare log data) ∧ Appended log log' ⟨idx, term, req_id, clt_id, data⟩ ∧
      entry_format.next log.len log.end_ ⟨idx, term, req_id, clt_id, data⟩ < log.len ∧
      (Path log log.head live → entry_format.span log.len log.head live +
        entry_format.cost log.len log.end_ ⟨idx, term, req_id, clt_id, data⟩ < log.len) := by
  set x := new_entry log term req_id clt_id data with hx
  have hlen := hread.len
  have hbig : 2 ^ 18 ≤ log.len := by rw [hlen, LOG_SIZE_eq]; omega
  have hnext := next_lt_of_not_endsAtLen term req_id clt_id hlen hok.2
  have hgap : entry_format.cost log.len log.end_ x < free_bytes log := hok.1
  have hsize := entry_format.size_pos x
  have hdist := dist_cases log.len log.end_ log.head
  have hcost := entry_format.write_cases log.len log.end_ x
  rw [entry_size] at hcost hsize
  obtain ⟨rfl, hempty, hhead⟩ | hpath := hread.path
  · obtain ⟨hfull, -⟩ | ⟨-, -, hfits, -⟩ | ⟨-, -, log'', heq, happ⟩ :=
      log_append_entry_cases log term req_id clt_id data hbig (by omega)
    · omega
    · unfold HeaderFits SIZEOF_ENTRY at hfits
      omega
    · rw [happend] at heq
      obtain ⟨rfl, rfl⟩ := Prod.mk.inj heq
      refine ⟨rfl, happ, hnext, fun hpath => ?_⟩
      have hlt := hpath.end_lt
      omega
  · have hnonempty := hpath.not_empty
    have hspan := RecordFormat.dist_advance hpath.start_le hpath.holds hpath.span_lt
    rw [hpath.reaches] at hspan
    have hback := dist_cases log.len log.head log.end_
    have hlt := hpath.end_lt
    have hstart := hpath.start_le
    simp only [free_bytes, hnonempty, Bool.false_eq_true, if_false] at hgap
    obtain ⟨hfull, -⟩ | ⟨-, hzero, -, hwraps, -⟩ | ⟨-, -, log'', heq, happ⟩ :=
      log_append_entry_cases log term req_id clt_id data hbig (by omega)
    · omega
    · rw [← hx] at hwraps
      omega
    · rw [happend] at heq
      obtain ⟨rfl, rfl⟩ := Prod.mk.inj heq
      refine ⟨rfl, happ, hnext, fun _ => ?_⟩
      rw [← hspan]
      change _ + entry_format.cost log.len log.end_ x < log.len
      omega

theorem readable_append {log log' : dare_log_t} {live : List dare_log_entry_t} {idx : UInt64}
    {term req_id : UInt64} {clt_id : UInt16} {data : log_data} (hread : Readable log live)
    (hok : RoomyAppend log term req_id clt_id data)
    (happend : log_append_entry log term req_id clt_id data = (log', idx)) :
    Readable log' (live ++ [⟨idx, term, req_id, clt_id, data⟩]) := by
  obtain ⟨-, happ, hnext, hspan⟩ := roomy_appended hread hok happend
  refine ⟨happ.len.trans hread.len, .inr ?_⟩
  obtain ⟨rfl, hempty, hhead⟩ | hpath := hread.path
  · exact Path.first happ hempty hhead (by rw [hread.len, LOG_SIZE_eq]; omega)
  · rw [happ.head]
    exact hpath.appended happ (hspan hpath) hnext

theorem get_entry_of_empty {log : dare_log_t} (hempty : log.end_ = log.len) (offset : Nat) :
    log_get_entry log offset = none := by
  simp [log_get_entry, is_log_empty, hempty]

theorem mem_positions_of_empty {log : dare_log_t} {offset count : Nat} (hempty : log.end_ = log.len)
    (hmem : (offset, count) ∈ log_positions log) : offset = log.head ∧ count = 0 := by
  simpa [log_positions, positions, get_entry_of_empty hempty] using hmem

/-- A reader that starts at the head meets `before` and `es`, and one that starts at `offset` meets
    `es` only; in an empty log both start at the beginning of the buffer. -/
structure ReadableFrom (log : dare_log_t) (before : List dare_log_entry_t) (offset : Nat)
    (es : List dare_log_entry_t) : Prop where
  len : log.len = LOG_SIZE
  paths : (before = [] ∧ es = [] ∧ log.end_ = log.len ∧ log.head = 0 ∧ offset = 0) ∨
    (Path log log.head (before ++ es) ∧ Path log offset es ∧
      entry_format.span log.len offset es ≤ entry_format.span log.len log.head (before ++ es))

section readable_from

variable {log log' : dare_log_t} {before es : List dare_log_entry_t} {offset : Nat}

theorem ReadableFrom.readable (hread : ReadableFrom log before offset es) :
    Readable log (before ++ es) := by
  obtain ⟨rfl, rfl, hend, hhead, -⟩ | ⟨hpath, -, -⟩ := hread.paths
  · exact ⟨hread.len, .inl ⟨rfl, hend, hhead⟩⟩
  · exact ⟨hread.len, .inr hpath⟩

theorem Path.readableFrom {live : List dare_log_entry_t} {k : Nat} (hpath : Path log log.head live)
    (hlen : log.len = LOG_SIZE) (hk : k ≤ live.length)
    (hat : entry_format.AtRecord log.len log.head live k offset) :
    ReadableFrom log (live.take k) offset (live.drop k) := by
  refine ⟨hlen, .inr ?_⟩
  rw [List.take_append_drop]
  exact ⟨hpath, hpath.at_record hk hat, (RecordFormat.holds_at hpath.holds hk hat).2.2⟩

/-- Every boundary of a readable log is such an offset. -/
theorem readableFrom_of_mem_positions {live : List dare_log_entry_t} {count : Nat}
    (hread : Readable log live) (hmem : (offset, count) ∈ log_positions log) :
    ReadableFrom log (live.take count) offset (live.drop count) := by
  obtain ⟨rfl, hempty, hhead⟩ | hpath := hread.path
  · obtain ⟨rfl, rfl⟩ := mem_positions_of_empty hempty hmem
    exact ⟨hread.len, .inl ⟨rfl, rfl, hempty, hhead, hhead⟩⟩
  · obtain ⟨k, rfl, hk, hat⟩ := hpath.of_mem_positions hmem
    rw [Nat.zero_add]
    exact hpath.readableFrom hread.len hk hat

/-- An append with enough room extends what both readers meet, and leaves the bytes of the entries
    from `offset` on alone. -/
theorem ReadableFrom.append {idx term req_id : UInt64} {clt_id : UInt16} {data : log_data}
    (hread : ReadableFrom log before offset es) (hok : RoomyAppend log term req_id clt_id data)
    (happend : log_append_entry log term req_id clt_id data = (log', idx)) :
    idx = next_idx (append_prepare log data) ∧ Kept log log' ∧
      ReadableFrom log' before offset (es ++ [⟨idx, term, req_id, clt_id, data⟩]) ∧
      ∀ b, ring.dist log.len offset b < entry_format.span log.len offset es →
        log'.entries b = log.entries b := by
  obtain ⟨hidx, happ, hnext, hroom⟩ := roomy_appended hread.readable hok happend
  set x : dare_log_entry_t := ⟨idx, term, req_id, clt_id, data⟩
  refine ⟨hidx, happ.toKept, ?_⟩
  obtain ⟨rfl, rfl, hempty, hhead, rfl⟩ | ⟨hpath, hfrom, hle⟩ := hread.paths
  · have hbig : 2 ^ 18 ≤ log.len := by rw [hread.len, LOG_SIZE_eq]; omega
    have hfirst := Path.first happ hempty hhead hbig
    refine ⟨⟨happ.len.trans hread.len, .inr ⟨hfirst, ?_, ?_⟩⟩, fun b hb => ?_⟩
    · rwa [happ.head, hhead] at hfirst
    · rw [happ.head, hhead]
      exact Nat.le_refl _
    · simp [RecordFormat.span] at hb
  · have hsum := hroom hpath
    have hsum' : entry_format.span log.len offset es + entry_format.cost log.len log.end_ x <
        log.len := by omega
    refine ⟨⟨happ.len.trans hread.len, .inr ⟨?_, hfrom.appended happ hsum' hnext, ?_⟩⟩, ?_⟩
    · rw [happ.head, ← List.append_assoc]
      exact hpath.appended happ hsum hnext
    · rw [happ.len, happ.head, ← List.append_assoc, RecordFormat.span_append, hfrom.reaches,
        RecordFormat.span_append _ (before ++ es), hpath.reaches]
      omega
    · intro b hnear
      refine (happ.agrees (by omega) ?_).symm
      by_contra hclose
      -- the distance from the start would be at least that of the end
      have hfar := RecordFormat.dist_advance_add (b := b) hfrom.start_le hfrom.holds
        (by rw [hfrom.reaches]; omega)
      rw [hfrom.reaches] at hfar
      omega

end readable_from

theorem readable_advance_head {log : dare_log_t} {live : List dare_log_entry_t} {offset count : Nat}
    (hread : Readable log live) (hboundary : (offset, count) ∈ log_positions log) :
    Readable { log with head := offset } (live.drop count) := by
  obtain ⟨rfl, hempty, hhead⟩ | hpath := hread.path
  · obtain ⟨rfl, rfl⟩ := mem_positions_of_empty hempty hboundary
    exact ⟨hread.len, .inl ⟨rfl, hempty, hhead⟩⟩
  · obtain ⟨k, rfl, hk, hat⟩ := hpath.of_mem_positions hboundary
    have hrest := hpath.at_record hk hat
    rw [Nat.zero_add]
    exact ⟨hread.len, .inr ⟨hrest.end_lt, hrest.start_le, hrest.holds, hrest.reaches, hrest.span_lt⟩⟩

/-- The head passes live entries only. -/
theorem Readable.count_le {log : dare_log_t} {live : List dare_log_entry_t} {offset count : Nat}
    (hread : Readable log live) (hboundary : (offset, count) ∈ log_positions log) : count ≤ live.length := by
  obtain ⟨-, hempty, -⟩ | hpath := hread.path
  · rw [(mem_positions_of_empty hempty hboundary).2]
    exact Nat.zero_le _
  · obtain ⟨i, rfl, hle, -⟩ := hpath.of_mem_positions hboundary
    omega

/-- In every run with enough room the live entries can be read from the head on. -/
theorem readable_of_run {log : dare_log_t} {es : List dare_log_entry_t} {passed : Nat}
    (hrun : Run RoomyAppend log es passed) : passed ≤ es.length ∧ Readable log (es.drop passed) := by
  induction hrun with
  | new => exact ⟨Nat.zero_le _, rfl, .inl ⟨rfl, rfl, rfl⟩⟩
  | append term req_id clt_id data _ hok happend ih =>
    obtain ⟨hle, hread⟩ := ih
    refine ⟨by simp; omega, ?_⟩
    rw [List.drop_append_of_le_length hle]
    exact readable_append hread hok happend
  | @advance_head log es passed offset count _ hboundary ih =>
    obtain ⟨hle, hread⟩ := ih
    have hcount := hread.count_le hboundary
    rw [List.length_drop] at hcount
    refine ⟨by omega, ?_⟩
    rw [← List.drop_drop]
    exact readable_advance_head hread hboundary

end dare.log
