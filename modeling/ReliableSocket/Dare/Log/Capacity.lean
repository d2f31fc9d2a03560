import ReliableSocket.Dare.Log.Index

open memory ring

namespace dare.log

/-- The offsets at which the loop of the readers finds entries, from `offset` on. -/
def live_offsets (log : dare_log_t) : Nat → Nat → List Nat
  | 0, _ => []
  | fuel + 1, offset =>
    match log_get_entry log offset with
    | none => []
    | some entry =>
      if log_fit_entry log entry entry then
        entry :: live_offsets log fuel (entry + log_entry_len log.entries entry)
      else live_offsets log fuel 0

/-- The entries between head and end still stand at their offsets, with all their bytes. -/
def LiveEntriesKept (log log' : dare_log_t) : Prop :=
  ∀ offset ∈ live_offsets log (log.len + 1) log.head, ∀ b, offset ≤ b →
    b < offset + log_entry_len log.entries offset → log'.entries b = log.entries b

/-- On its way to the new end the end has not gone past the head. -/
def HeadNotPassed (log log' : dare_log_t) : Prop :=
  is_log_empty log = false →
    ring.dist log.len log.end_ log'.end_ ≤ ring.dist log.len log.end_ log.head

/-- If an index is returned, the live entries are as before. -/
def KeepsLiveEntries (log : dare_log_t) (result : dare_log_t × UInt64) : Prop :=
  result.2 ≠ 0 → LiveEntriesKept log result.1 ∧ HeadNotPassed log result.1

/-- If no index is returned, the offsets are as before and a reader meets the same entries. -/
def LeavesLogIntact (log : dare_log_t) (result : dare_log_t × UInt64) : Prop :=
  result.2 = 0 → result.1.head = log.head ∧ result.1.apply = log.apply ∧
    result.1.commit = log.commit ∧ result.1.end_ = log.end_ ∧
    ∀ fuel, log_walk result.1 fuel log.head = log_walk log fuel log.head

/-- The append is refused at once, or it does not go past the head and does not end at the end of
    the buffer. -/
def FittingAppend (log : dare_log_t) (_ _ : UInt64) (_ : UInt16) (data : log_data) : Prop :=
  log.end_ = log.head ∨ (append_bytes log data ≤ free_bytes log ∧ ¬EndsAtLen log data)

/-- A successful append that goes neither past the head nor up to the end of the buffer. -/
def BoundedAppend (log : dare_log_t) (term req_id : UInt64) (clt_id : UInt16) (data : log_data) : Prop :=
  ShortAppend log term req_id clt_id data ∧ append_bytes log data ≤ free_bytes log

section path

variable {log log' : dare_log_t} {offset : Nat} {x : dare_log_entry_t} {es : List dare_log_entry_t}

theorem Path.live_offsets_nil (hpath : Path log offset []) (fuel : Nat) :
    live_offsets log fuel offset = [] := by
  cases fuel with
  | zero => rfl
  | succ fuel => simp [live_offsets, hpath.get_entry_nil]

/-- The bytes of an entry on a path lie between the beginning of the path and the end of the log. -/
theorem Path.live_bytes (hpath : Path log offset es) {fuel entry b : Nat}
    (hmem : entry ∈ live_offsets log fuel offset) (hlow : entry ≤ b)
    (hhigh : b < entry + log_entry_len log.entries entry) :
    ring.dist log.len offset b < entry_format.span log.len offset es := by
  induction fuel generalizing offset es with
  | zero => simp [live_offsets] at hmem
  | succ fuel ih =>
    cases es with
    | nil =>
      rw [hpath.live_offsets_nil] at hmem
      cases hmem
    | cons x es =>
      have hspan := hpath.span_lt
      have hstart := hpath.start_le
      obtain ⟨-, -, hnext, -⟩ := hpath.holds
      simp only [RecordFormat.span] at hspan ⊢
      rw [live_offsets] at hmem
      obtain hget | ⟨hget, hfit, -, hzero⟩ := hpath.meets
      · simp only [hget, hpath.fit_at_place, if_true, List.mem_cons] at hmem
        obtain rfl | hmem := hmem
        · rw [hpath.len_at_place] at hhigh
          have hnear := RecordFormat.dist_lt_cost_of_record (b := b) (by omega) hlow hhigh
          omega
        · rw [hpath.len_at_place] at hmem
          have hrest := ih hpath.tail hmem
          have hfar := RecordFormat.dist_next (b := b) hstart (Nat.le_of_lt hnext) (by omega)
          omega
      · -- the entry did not fit behind the header that was left at the offset
        simp only [hget, hfit, Bool.false_eq_true, if_false] at hmem
        rw [← hzero] at hmem
        have hrest := ih hpath.at_place hmem
        obtain ⟨-, hagain, -⟩ := RecordFormat.place_place hnext
        have hplace := entry_format.write_cases log.len offset x
        have hcost := entry_format.write_cases log.len (entry_format.place log.len offset x) x
        have hdist := dist_cases log.len offset b
        have hdist₀ := dist_cases log.len (entry_format.place log.len offset x) b
        simp only [RecordFormat.span, hagain] at hrest
        omega

/-- An append that does not go round to the head leaves the live entries alone. -/
theorem Path.appended_keeps (hpath : Path log log.head es) (happ : Appended log log' x)
    (hroom : entry_format.span log.len log.head es + entry_format.cost log.len log.end_ x ≤ log.len)
    (hcost : entry_format.cost log.len log.end_ x < log.len) : LiveEntriesKept log log' := by
  intro offset hmem b hlow hhigh
  have hnear := hpath.live_bytes hmem hlow hhigh
  refine (happ.agrees hcost ?_).symm
  by_contra hclose
  have hfar := RecordFormat.dist_advance_add (b := b) hpath.start_le hpath.holds
    (by rw [hpath.reaches]; omega)
  rw [hpath.reaches] at hfar
  omega

/-- The free bytes are those that the live entries leave. -/
theorem Path.free_bytes_eq (hpath : Path log log.head (x :: es)) :
    free_bytes log + entry_format.span log.len log.head (x :: es) = log.len := by
  have hspan := RecordFormat.dist_advance hpath.start_le hpath.holds hpath.span_lt
  have hpos := entry_format.cost_pos log.len log.head x
  have hlt := hpath.end_lt
  have hstart := hpath.start_le
  have hback := dist_cases log.len log.end_ log.head
  have hdist := dist_cases log.len log.head log.end_
  rw [hpath.reaches] at hspan
  simp only [free_bytes, hpath.not_empty, Bool.false_eq_true, if_false]
  simp only [RecordFormat.span] at hspan ⊢
  omega

end path

section append

variable {log log' : dare_log_t} {x : dare_log_entry_t} {data : log_data} {live : List dare_log_entry_t}

/-- No entry is nearly as long as the buffer. -/
theorem LogOk.cost_lt (hlog : LogOk log) (x : dare_log_entry_t) :
    entry_format.cost log.len log.end_ x < log.len := by
  obtain ⟨hlen, hend⟩ := hlog
  have hmax := x.len_lt
  have hcost := entry_format.write_cases log.len log.end_ x
  rw [LOG_SIZE_eq] at hlen
  unfold SIZEOF_ENTRY at hmax
  rw [entry_size] at hcost
  omega

/-- The end moves by the bytes that the append uses up. -/
theorem Appended.end_dist (happ : Appended log log' x) (hlog : LogOk log) :
    ring.dist log.len log.end_ log'.end_ = entry_format.cost log.len log.end_ x := by
  obtain ⟨hlen, hend⟩ := hlog
  have hmax := x.len_lt
  have hcases := entry_format.write_cases log.len log.end_ x
  have hdist := dist_cases log.len log.end_ log'.end_
  have hend' := happ.end_
  rw [LOG_SIZE_eq] at hlen
  unfold SIZEOF_ENTRY at hmax
  rw [entry_size] at hcases
  omega

theorem Readable.logOk (hread : Readable log live) : LogOk log := by
  obtain ⟨-, hempty, -⟩ | hpath := hread.path
  · exact ⟨hread.len, by omega⟩
  · exact ⟨hread.len, Nat.le_of_lt hpath.end_lt⟩

/-- An append keeps the live entries of a readable log exactly when it stays behind the head. -/
theorem keeps_iff_bytes_le (hread : Readable log live) (term req_id : UInt64) (clt_id : UInt16)
    (data : log_data) (happ : Appended log log' (new_entry log term req_id clt_id data)) :
    (LiveEntriesKept log log' ∧ HeadNotPassed log log') ↔ append_bytes log data ≤ free_bytes log := by
  have hlog := hread.logOk
  have hcost := hlog.cost_lt (new_entry log term req_id clt_id data)
  have hdist := happ.end_dist hlog
  rw [append_bytes_eq_cost log term req_id clt_id data]
  obtain ⟨rfl, hempty, hhead⟩ | hpath := hread.path
  · have hempty' : is_log_empty log = true := by simp [is_log_empty, hempty]
    have hnone : live_offsets log (log.len + 1) log.head = [] := by
      simp [live_offsets, get_entry_of_empty hempty]
    simp [LiveEntriesKept, HeadNotPassed, hnone, hempty', free_bytes]
    omega
  · have hnot := hpath.not_empty
    have hfree : free_bytes log = ring.dist log.len log.end_ log.head := by
      simp [free_bytes, hnot]
    constructor
    · rintro ⟨-, hpassed⟩
      have hle := hpassed hnot
      omega
    · intro hle
      refine ⟨?_, fun _ => by omega⟩
      cases live with
      | nil =>
        intro offset hmem
        rw [hpath.live_offsets_nil] at hmem
        cases hmem
      | cons y live =>
        have hsum := hpath.free_bytes_eq
        exact hpath.appended_keeps happ (by omega) hcost

/-- All that an append does to a readable log: it keeps it as it is or appends the entry. -/
theorem append_to_readable (hread : Readable log live) (term req_id : UInt64) (clt_id : UInt16)
    (data : log_data) :
    (¬TakesEntry log data ∧ (log_append_entry log term req_id clt_id data).2 = 0) ∨
      (TakesEntry log data ∧ (log_append_entry log term req_id clt_id data).2 =
          next_idx (append_prepare log data) ∧
        Appended log (log_append_entry log term req_id clt_id data).1
          (new_entry log term req_id clt_id data)) := by
  have hlog := hread.logOk
  have hbig : 2 ^ 18 ≤ log.len := by rw [hlog.1, LOG_SIZE_eq]; omega
  obtain ⟨hfull, heq⟩ | ⟨hfree, hhead, hheader, hwraps, log', heq, -⟩ |
      ⟨hfree, hfits, log', heq, happ⟩ :=
    log_append_entry_cases log term req_id clt_id data hbig hlog.2
  · rw [heq]
    exact .inl ⟨fun htakes => htakes.1 hfull, rfl⟩
  · rw [heq]
    refine .inl ⟨fun htakes => ?_, rfl⟩
    have hfits := htakes.2 hhead hheader
    rw [new_entry_len] at hwraps
    omega
  · rw [heq]
    exact .inr ⟨⟨hfree, hfits⟩, rfl, happ⟩

/-- An append that just reaches the head leaves a log that a reader takes for read to its end. -/
theorem Appended.path_nil (happ : Appended log log' x) (hend : log'.end_ = log.head)
    (hlt : log'.end_ < log.len) : Path log' log'.head [] := by
  have hhead := happ.head
  have hlen := happ.len
  exact ⟨by omega, by omega, trivial, by rw [hhead, hend]; rfl, by simp only [RecordFormat.span]; omega⟩

/-- After a fitting append the log is still readable: the append is refused, it leaves a gap before
    the head, or it just fills the gap. -/
theorem readable_fitting (hread : Readable log live) (term req_id : UInt64) (clt_id : UInt16)
    (hok : FittingAppend log term req_id clt_id data) :
    ∃ live', Readable (log_append_entry log term req_id clt_id data).1 live' := by
  have hlog := hread.logOk
  have hbig : 2 ^ 18 ≤ log.len := by rw [hlog.1, LOG_SIZE_eq]; omega
  obtain hfull | ⟨hbytes, hflush⟩ := hok
  · have heq : log_append_entry log term req_id clt_id data = (append_prepare log data, 0) := by
      simp [log_append_entry, log_add_new_entry, is_log_full, hfull]
    rw [heq]
    refine ⟨live, (prepare_len log data).trans hread.len, ?_⟩
    obtain ⟨hnil, hempty, hhead⟩ | hpath := hread.path
    · omega
    · rw [prepare_head]
      exact .inr (hpath.congr_log (prepare_end log data) (prepare_len log data) (prepare_entries log data))
  by_cases hroom : append_bytes log data < free_bytes log
  · have hroomy : RoomyAppend log term req_id clt_id data := ⟨hroom, hflush⟩
    exact ⟨_, readable_append hread hroomy rfl⟩
  have hcost := hlog.cost_lt (new_entry log term req_id clt_id data)
  have hnext := next_lt_of_not_endsAtLen term req_id clt_id hread.len hflush
  rw [append_bytes_eq_cost log term req_id clt_id data] at hbytes hroom
  obtain ⟨hnil, hempty, hhead⟩ | hpath := hread.path
  · have hall : free_bytes log = log.len := by simp [free_bytes, is_log_empty, hempty]
    omega
  have hlt := hpath.end_lt
  have hstart := hpath.start_le
  have hcases := entry_format.write_cases log.len log.end_ (new_entry log term req_id clt_id data)
  have hmin := (new_entry log term req_id clt_id data).le_len
  have hgap := dist_cases log.len log.end_ log.head
  simp only [free_bytes, hpath.not_empty, Bool.false_eq_true, if_false] at hbytes hroom
  rw [entry_size] at hcases
  unfold SIZEOF_ENTRY at hmin
  obtain ⟨hnot, -⟩ | ⟨-, -, happ⟩ := append_to_readable hread term req_id clt_id data
  · refine absurd ⟨?_, fun hhead _ => ?_⟩ hnot
    · omega
    · rw [← new_entry_len log term req_id clt_id data]
      omega
  · have hend := happ.end_
    exact ⟨[], happ.len.trans hread.len, .inr (happ.path_nil (by omega) (by omega))⟩

end append

/-- In every run of fitting appends the entries from the head on can be read. -/
theorem readable_of_fitting_run {log : dare_log_t} {es : List dare_log_entry_t} {passed : Nat}
    (hrun : Run FittingAppend log es passed) : ∃ live, Readable log live := by
  induction hrun with
  | new => exact ⟨[], rfl, .inl ⟨rfl, rfl, rfl⟩⟩
  | append term req_id clt_id data _ hok happend ih =>
    obtain ⟨live, hread⟩ := ih
    have hnext := readable_fitting hread term req_id clt_id hok
    rwa [happend] at hnext
  | advance_head _ hboundary ih =>
    obtain ⟨live, hread⟩ := ih
    exact ⟨_, readable_advance_head hread hboundary⟩

theorem Run.fitting {log : dare_log_t} {es : List dare_log_entry_t} {passed : Nat}
    (hrun : Run ShortRoomAppend log es passed) : Run FittingAppend log es passed :=
  hrun.mono fun _ _ _ _ _ hok => .inr ⟨Nat.le_of_lt hok.1.2, hok.2⟩

/-- As long as no append goes past the head or ends at the end of the buffer, an append that returns
    an index keeps all live entries exactly if it does not use up more bytes than are free. -/
theorem append_keeps_live_entries_iff {log : dare_log_t} {es : List dare_log_entry_t} {passed : Nat}
    (hrun : Run FittingAppend log es passed) (term req_id : UInt64) (clt_id : UInt16)
    (data : log_data) :
    KeepsLiveEntries log (log_append_entry log term req_id clt_id data) ↔
      (TakesEntry log data → next_idx (append_prepare log data) ≠ 0 →
        append_bytes log data ≤ free_bytes log) := by
  obtain ⟨live, hread⟩ := readable_of_fitting_run hrun
  obtain ⟨hnot, hzero⟩ | ⟨htakes, hidx, happ⟩ := append_to_readable hread term req_id clt_id data
  · simp [KeepsLiveEntries, hzero, hnot]
  · rw [KeepsLiveEntries, hidx, keeps_iff_bytes_le hread term req_id clt_id data happ]
    simp [htakes]

theorem append_across_wrap_keeps_live_entries :
    ∃ log es, Run FittingAppend log es 1 ∧ es.length = 1023 ∧ Path log log.head (es.drop 1) ∧
      log.len < log.end_ + data_len (zero_cmd 20000 (by decide)) ∧
      Succeeds log 1 0 0 (zero_cmd 20000 (by decide)) ∧
      KeepsLiveEntries log (log_append_entry log 1 0 0 (zero_cmd 20000 (by decide))) := by
  obtain ⟨log, es, hrun, hcount, hhead, hend⟩ := lap_of_long_commands
  have hinv := indexed_of_short_run hrun
  have hlen : log.len = 67108864 := hinv.len.trans LOG_SIZE_eq
  have hsize := data_len_zero_cmd 20000 (by decide)
  have hne : es ≠ [] := List.ne_nil_of_length_pos (by omega)
  have hwraps : log.len < log.end_ + data_len (zero_cmd 20000 (by decide)) := by omega
  obtain ⟨hok, hbytes, hgap, -⟩ :=
    append_past_len (zero_cmd 20000 (by decide)) hinv hne (by omega) (by omega) hwraps (by omega)
  refine ⟨log, es, hrun.fitting, hcount, path_of_short_run hrun (by omega), hwraps, hok, ?_⟩
  exact (append_keeps_live_entries_iff hrun.fitting 1 0 0 _).mpr fun _ _ => by omega

/-- The head stands behind one command without bytes, and 1023 long commands follow up to 17407 bytes
    before the end of the buffer. One more long command does not fit there; it is written at the
    beginning of the buffer and over the head. -/
theorem long_command_passes_head :
    ∃ log es, Run FittingAppend log es 1 ∧
      ¬KeepsLiveEntries log (log_append_entry log 1 0 0 (zero_cmd 65535 (by decide))) := by
  obtain ⟨log, es, hrun, hcount, hhead, hend⟩ := lap_of_commands 0 (by decide) 65535 (by decide) 1023
    (by decide)
  have hinv := indexed_of_short_run hrun
  have hlen : log.len = 67108864 := hinv.len.trans LOG_SIZE_eq
  have hsize := data_len_zero_cmd 65535 (by decide)
  have hread := readable_of_short_run hrun
  refine ⟨log, es, hrun.fitting, fun hkeeps => ?_⟩
  obtain ⟨hnot, -⟩ | ⟨-, hidx, happ⟩ := append_to_readable hread 1 0 0 (zero_cmd 65535 (by decide))
  · exact hnot ⟨by omega, fun hzero => by omega⟩
  · have hpos := hinv.next_idx_toNat (zero_cmd 65535 (by decide))
    have hne : (log_append_entry log 1 0 0 (zero_cmd 65535 (by decide))).2 ≠ 0 := by
      rw [hidx]
      intro hzero
      rw [hzero, hcount] at hpos
      exact absurd hpos (by decide)
    have hbytes := (keeps_iff_bytes_le hread 1 0 0 _ happ).mp (hkeeps hne)
    have hempty : is_log_empty log = false := by simp [is_log_empty]; omega
    have hdist := dist_cases log.len log.end_ log.head
    simp only [append_bytes, free_bytes, hempty, hsize, Bool.false_eq_true, if_false] at hbytes
    rw [if_neg (by omega)] at hbytes
    omega

/-- What a reader meets only depends on the end, the length and the entries of the log. -/
theorem log_walk_congr {log log' : dare_log_t} (hend : log'.end_ = log.end_) (hlen : log'.len = log.len)
    (hentries : log'.entries = log.entries) (fuel offset : Nat) :
    log_walk log' fuel offset = log_walk log fuel offset := by
  have hget : ∀ o, log_get_entry log' o = log_get_entry log o := fun o => by
    unfold log_get_entry is_log_empty log_offset_end_distance log_fit_entry_header
    rw [hend, hlen]
  have hfit : ∀ o, log_fit_entry log' o o = log_fit_entry log o o := fun o => by
    simp only [log_fit_entry, hlen, hentries]
  induction fuel generalizing offset with
  | zero => rfl
  | succ fuel ih => simp only [log_walk, hget, hfit, hentries, ih]

/-- An append that returns no index leaves the log as it was exactly if it finds the log full at
    once; one that first gives up the place at the end moves the end to the beginning of the buffer. -/
theorem failed_append_leaves_log_iff {log : dare_log_t} (hlog : LogOk log) (term req_id : UInt64)
    (clt_id : UInt16) (data : log_data) :
    LeavesLogIntact log (log_append_entry log term req_id clt_id data) ↔
      log.end_ = log.head ∨ (TakesEntry log data ∧ next_idx (append_prepare log data) ≠ 0) := by
  have hbig : 2 ^ 18 ≤ log.len := by rw [hlog.1, LOG_SIZE_eq]; omega
  obtain ⟨hfull, heq⟩ | ⟨hfree, hhead, hheader, hwraps, log', heq, hgiven⟩ |
      ⟨hfree, hfits, log', heq, happ⟩ :=
    log_append_entry_cases log term req_id clt_id data hbig hlog.2
  · have hintact : LeavesLogIntact log (append_prepare log data, 0) := fun _ =>
      ⟨prepare_head log data, prepare_apply log data, prepare_commit log data, prepare_end log data,
        fun fuel => log_walk_congr (prepare_end log data) (prepare_len log data)
          (prepare_entries log data) fuel log.head⟩
    rw [heq]
    exact ⟨fun _ => .inl hfull, fun _ => hintact⟩
  · rw [heq]
    constructor
    · intro hintact
      obtain ⟨-, -, -, hend, -⟩ := hintact rfl
      rw [hgiven.end_] at hend
      omega
    · rintro (hfull | ⟨htakes, -⟩)
      · exact absurd hfull hfree
      · have hplace := htakes.2 hhead hheader
        rw [new_entry_len] at hwraps
        omega
  · rw [heq]
    constructor
    · intro hintact
      refine .inr ⟨⟨hfree, hfits⟩, fun hzero => ?_⟩
      obtain ⟨-, -, -, hend, -⟩ := hintact hzero
      exact (happ.end_moves hlog).1 hend
    · rintro (hfull | ⟨-, hidx⟩)
      · exact absurd hfull hfree
      · intro hzero
        exact absurd hzero hidx

/-- After 1023 long commands, with the head behind the first, one more just fits before the head. -/
theorem full_of_long_commands :
    ∃ log es last, Run BoundedAppend log (es ++ [last]) 1 ∧ es.length = 1023 ∧ log.head = 65583 ∧
      log.end_ = 65583 ∧ entry_format.advance log.len log.head (es.drop 1) = 67091409 := by
  obtain ⟨log, es, hrun, hcount, hhead, hend⟩ := lap_of_long_commands
  have hinv := indexed_of_short_run hrun
  have hlen : log.len = 67108864 := hinv.len.trans LOG_SIZE_eq
  have hsize := data_len_zero_cmd 65535 (by decide)
  have hne : es ≠ [] := List.ne_nil_of_length_pos (by omega)
  obtain ⟨hok, hbytes, hgap, log', idx, happ, hhead', -, hend'⟩ :=
    append_past_len (zero_cmd 65535 (by decide)) hinv hne (by omega) (by omega) (by omega) (by omega)
  have hbounded : Run BoundedAppend log es 1 :=
    hrun.mono fun _ _ _ _ _ hok => ⟨⟨hok.1.1, hok.2⟩, Nat.le_of_lt hok.1.2⟩
  have hrun' := hbounded.append 1 0 0 _ ⟨⟨hok, by unfold EndsAtLen; omega⟩, by omega⟩ happ
  have hlen' : log'.len = log.len := by
    rw [(indexed_of_run (hrun'.mono fun _ _ _ _ _ hok => hok.1)).2.len, hinv.len]
  refine ⟨log', es, _, hrun', hcount, by omega, by omega, ?_⟩
  rw [hlen', hhead', (path_of_short_run hrun (by omega)).reaches, hend]

theorem full_log_left_by_failed_append :
    ∃ log es, Run BoundedAppend log es 1 ∧ es.length = 1024 ∧ LogOk log ∧ log.end_ = log.head ∧
      (log_append_entry log 1 0 0 (zero_cmd 100 (by decide))).2 = 0 ∧
      LeavesLogIntact log (log_append_entry log 1 0 0 (zero_cmd 100 (by decide))) := by
  obtain ⟨log, es, last, hrun, hcount, hhead, hend, -⟩ := full_of_long_commands
  have hinv := (indexed_of_run (hrun.mono fun _ _ _ _ _ hok => hok.1)).2
  have hlen : log.len = 67108864 := hinv.len.trans LOG_SIZE_eq
  have hlog : LogOk log := ⟨hinv.len, by omega⟩
  have hfull : log.end_ = log.head := by omega
  refine ⟨log, es ++ [last], hrun, by simp [hcount], hlog, hfull, ?_,
    (failed_append_leaves_log_iff hlog 1 0 0 _).mpr (.inl hfull)⟩
  simp [log_append_entry, log_add_new_entry, is_log_full, hfull]

/-- A log is filled from its beginning, with the head still there, up to 17407 bytes before the end
    of the buffer. The append of a long command fails, and the log then ends where it begins: all its
    entries are lost. -/
theorem failed_append_loses_entries :
    ∃ log es, Run ShortRoomAppend log es 0 ∧ es.length = 1024 ∧
      (log_append_entry log 1 0 0 (zero_cmd 65535 (by decide))).2 = 0 ∧
      ¬LeavesLogIntact log (log_append_entry log 1 0 0 (zero_cmd 65535 (by decide))) := by
  obtain ⟨log, es, hrun, hcount, hhead, -, hend, -⟩ := fill_of_commands 0 (by decide) 65535 (by decide)
    1023 (by decide)
  have hlen : log.len = 67108864 := (indexed_of_short_run hrun).len.trans LOG_SIZE_eq
  have hsize := data_len_zero_cmd 65535 (by decide)
  obtain ⟨hfull, -⟩ | ⟨-, -, -, -, log', heq, hgiven⟩ | ⟨-, hfits, -⟩ :=
    log_append_entry_cases log 1 0 0 (zero_cmd 65535 (by decide)) (by omega) (by omega)
  · omega
  · refine ⟨log, es, hrun, hcount, by rw [heq], fun hintact => ?_⟩
    rw [heq] at hintact
    obtain ⟨-, -, -, hsame, -⟩ := hintact rfl
    rw [hgiven.end_] at hsame
    omega
  · have hplace := hfits hhead (by unfold HeaderFits SIZEOF_ENTRY; omega)
    rw [new_entry_len] at hplace
    omega

/-- The log holds the entries `live` from its head on. The head of a full log is also its end, so
    that only a reader that starts behind the first entry meets the others. -/
inductive Written (log : dare_log_t) : List dare_log_entry_t → Prop
  | readable {live : List dare_log_entry_t} (hread : Readable log live) : Written log live
  | full {x : dare_log_entry_t} {rest : List dare_log_entry_t} (hlen : log.len = LOG_SIZE)
      (hend : log.end_ = log.head) (hrest : Path log (entry_format.next log.len log.head x) rest) :
      Written log (x :: rest)

section written

variable {log log' : dare_log_t} {live : List dare_log_entry_t} {idx term req_id : UInt64}
  {clt_id : UInt16} {data : log_data}

/-- An append that uses up all free bytes fills the log. -/
theorem Readable.fill (hread : Readable log live) (hok : BoundedAppend log term req_id clt_id data)
    (hfull : append_bytes log data = free_bytes log)
    (happend : log_append_entry log term req_id clt_id data = (log', idx)) :
    Written log' (live ++ [⟨idx, term, req_id, clt_id, data⟩]) := by
  have hlog := hread.logOk
  have hcost := hlog.cost_lt (new_entry log term req_id clt_id data)
  have hnext := next_lt_of_not_endsAtLen term req_id clt_id hread.len hok.1.2
  have hsucceeds := hok.1.1
  rw [Succeeds, happend] at hsucceeds
  rw [append_bytes_eq_cost log term req_id clt_id data] at hfull
  obtain ⟨-, hzero⟩ | ⟨htakes, hidx, happ⟩ := append_to_readable hread term req_id clt_id data
  · rw [happend] at hzero
    exact absurd hzero hsucceeds
  rw [happend] at hidx happ
  obtain rfl : idx = next_idx (append_prepare log data) := hidx
  change Appended log log' (new_entry log term req_id clt_id data) at happ
  change Written log' (live ++ [new_entry log term req_id clt_id data])
  obtain ⟨-, hempty, -⟩ | hpath := hread.path
  · have hall : free_bytes log = log.len := by simp [free_bytes, is_log_empty, hempty]
    omega
  cases live with
  | nil => exact absurd hpath.reaches.symm htakes.1
  | cons x rest =>
    have hsum := hpath.free_bytes_eq
    have hpos := entry_format.cost_pos log.len log.head x
    have hend := happ.end_
    have hlt := hpath.end_lt
    have hstart := hpath.start_le
    have hcases := entry_format.write_cases log.len log.end_ (new_entry log term req_id clt_id data)
    have hgap := dist_cases log.len log.end_ log.head
    have hfree : free_bytes log = ring.dist log.len log.end_ log.head := by
      simp [free_bytes, hpath.not_empty]
    rw [RecordFormat.span] at hsum
    refine .full (happ.len.trans hread.len) (by rw [happ.head]; omega) ?_
    rw [happ.len, happ.head]
    exact hpath.tail.appended happ (by omega) hnext

theorem Written.append (hwritten : Written log live) (hok : BoundedAppend log term req_id clt_id data)
    (happend : log_append_entry log term req_id clt_id data = (log', idx)) :
    Written log' (live ++ [⟨idx, term, req_id, clt_id, data⟩]) := by
  cases hwritten with
  | readable hread =>
    obtain hroom | hfull := Nat.lt_or_eq_of_le hok.2
    · have hroomy : RoomyAppend log term req_id clt_id data := ⟨hroom, hok.1.2⟩
      exact .readable (readable_append hread hroomy happend)
    · exact hread.fill hok hfull happend
  | full hlen hend hrest =>
    refine absurd ?_ hok.1.1
    simp [log_append_entry, log_add_new_entry, is_log_full, hend]

theorem Written.advance_head {offset count : Nat} (hwritten : Written log live)
    (hboundary : (offset, count) ∈ log_positions log) :
    count ≤ live.length ∧ Written { log with head := offset } (live.drop count) := by
  cases hwritten with
  | readable hread =>
    refine ⟨?_, .readable (readable_advance_head hread hboundary)⟩
    obtain ⟨-, hempty, -⟩ | hpath := hread.path
    · rw [(mem_positions_of_empty hempty hboundary).2]
      exact Nat.zero_le _
    · obtain ⟨k, rfl, hle, -⟩ := hpath.of_mem_positions hboundary
      rwa [Nat.zero_add]
  | full hlen hend hrest =>
    -- a reader takes a full log for read to its end, so the head stays
    have hnone : log_get_entry log log.head = none := by
      simp [log_get_entry, log_offset_end_distance, hend]
    obtain ⟨rfl, rfl⟩ : offset = log.head ∧ count = 0 := by
      simpa [log_positions, positions, hnone] using hboundary
    exact ⟨Nat.zero_le _, .full hlen hend hrest⟩

end written

/-- In every run of bounded appends the log holds the entries that the head has not passed. -/
theorem written_of_run {log : dare_log_t} {es : List dare_log_entry_t} {passed : Nat}
    (hrun : Run BoundedAppend log es passed) : passed ≤ es.length ∧ Written log (es.drop passed) := by
  induction hrun with
  | new => exact ⟨Nat.zero_le _, .readable ⟨rfl, .inl ⟨rfl, rfl, rfl⟩⟩⟩
  | append term req_id clt_id data _ hok happend ih =>
    obtain ⟨hle, hwritten⟩ := ih
    refine ⟨by simp; omega, ?_⟩
    rw [List.drop_append_of_le_length hle]
    exact hwritten.append hok happend
  | advance_head _ hboundary ih =>
    obtain ⟨hle, hwritten⟩ := ih
    obtain ⟨hcount, hnext⟩ := hwritten.advance_head hboundary
    rw [List.length_drop] at hcount
    rw [List.drop_drop] at hnext
    exact ⟨by omega, hnext⟩

end dare.log
