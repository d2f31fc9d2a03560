import ReliableSocket.Dare.Log.Index
import ReliableSocket.Dare.Log.Uncommitted
import ReliableSocket.Dare.Server.Recovery

open memory ring dare.log

namespace dare.server

section recovered

variable {log target : dare_log_t} {offset : Nat} {es : List dare_log_entry_t} {m : Mem}

/-- The records before the first one that wraps stand one after the other. -/
theorem stand_of_holds (hholds : entry_format.Holds log.len target.entries offset es)
    (hagree : ∀ b, offset ≤ b → b < log.len → log.entries b = target.entries b) :
    Stand log offset (es.take (entry_format.before_wrap log.len offset es)) := by
  induction es generalizing offset with
  | nil => trivial
  | cons x es ih =>
    obtain ⟨hheader, -, -, hrest⟩ := hholds
    unfold RecordFormat.before_wrap
    by_cases hfits : offset + entry_format.size x ≤ log.len
    · have hplace : entry_format.place log.len offset x = offset := if_pos hfits
      have hnext : entry_format.next log.len offset x = offset + x.len := by
        rw [RecordFormat.next, hplace, entry_size]
      rw [if_pos hfits, List.take_succ_cons]
      rw [entry_size] at hfits
      have hmin := x.le_len
      refine ⟨?_, hfits, ?_⟩
      · have hfits' : offset + entry_format.header ≤ log.len := by
          change offset + SIZEOF_ENTRY ≤ log.len
          omega
        refine hasHeader_congr (fun b hlow hhigh => ?_) (hheader hfits')
        exact (hagree b hlow (by omega)).symm
      · rw [hnext] at hrest ⊢
        exact ih hrest fun b hlow hhigh => hagree b (by omega) hhigh
    · rw [if_neg hfits]
      trivial

/-- The log of a target that wraps is cut at the end of the buffer, and all of it that is there is
    copied. -/
theorem recovered_log_of_wrapped (hwraps : 0 < target.end_) (hend : target.end_ < log.head)
    (hcommit : log.head ≤ target.commit) (hlt : target.commit < log.len) :
    (recovered_log log target m).len = log.len ∧ (recovered_log log target m).end_ = 0 ∧
      (recovered_log log target m).commit = target.commit ∧
      ∀ b, log.head ≤ b → b < log.len → (recovered_log log target m).entries b = m (ENTRIES_OFFSET + b) := by
  have hoffsets : recover_offsets log ⟨target.commit, target.end_⟩ = ⟨target.commit, 0⟩ := by
    have hne : ¬target.end_ = log.len := by omega
    have hbehind : ¬target.commit ≤ target.end_ := by omega
    have hfar : ¬log.len - (target.commit - target.end_) < target.end_ := by omega
    simp [recover_offsets, log_is_offset_larger, log_offset_end_distance, hwraps, hend, hne, hbehind, hfar]
  refine ⟨rfl, by simp only [recovered_log, hoffsets], by simp only [recovered_log, hoffsets], ?_⟩
  intro b hlow hhigh
  have hdist : log_offset_end_distance { log with end_ := 0, commit := target.commit } log.head =
      log.len - log.head := by
    have hne : ¬0 = log.len := by omega
    have hpos : ¬log.head = 0 := by omega
    simp [log_offset_end_distance, hne, hpos]
  simp only [recovered_log, hoffsets]
  rw [hdist]
  exact copy_inside (Nat.add_le_add_left hlow _) (by omega)

/-- The entries of a log that ends before its commit offset: those before the end of the buffer, and
    then one that wraps. -/
theorem wrapped_entries (hpath : Path target target.commit es) (hend : target.end_ < target.commit) :
    ∃ x rest, es = es.take (entry_format.before_wrap target.len target.commit es) ++ x :: rest ∧
      target.len < entry_format.advance target.len target.commit
        (es.take (entry_format.before_wrap target.len target.commit es)) + x.len ∧
      x.len ≤ target.end_ := by
  have hoffset := RecordFormat.advance_take_before_wrap
    (Nat.le_refl (entry_format.before_wrap target.len target.commit es))
  have hle : entry_format.before_wrap target.len target.commit es ≤ es.length :=
    RecordFormat.before_wrap_le ..
  have hwraps : entry_format.before_wrap target.len target.commit es < es.length := by
    by_contra hnot
    rw [List.take_of_length_le (by omega), hpath.reaches] at hoffset
    omega
  obtain ⟨x, hx, hlong⟩ := RecordFormat.getElem_before_wrap hwraps
  set w := entry_format.before_wrap target.len target.commit es with hw
  obtain ⟨hindex, rfl⟩ := List.getElem?_eq_some_iff.mp hx
  have hsplit : es = es.take w ++ es[w] :: es.drop (w + 1) := by
    rw [← List.drop_eq_getElem_cons hwraps, List.take_append_drop]
  refine ⟨es[w], es.drop (w + 1), hsplit, hlong, ?_⟩
  -- what the entries use up from the commit offset on is the way to the end
  have hspan := RecordFormat.dist_advance hpath.start_le hpath.holds hpath.span_lt
  have hway := dist_cases target.len target.commit target.end_
  have hstart := hpath.start_le
  have hsum : entry_format.span target.len target.commit (es.take w) +
      entry_format.cost target.len (entry_format.advance target.len target.commit (es.take w)) es[w] ≤
        entry_format.span target.len target.commit es := by
    conv_rhs => rw [hsplit, RecordFormat.span_append, RecordFormat.span]
    omega
  have hcost := entry_format.write_cases target.len
    (entry_format.advance target.len target.commit (es.take w)) es[w]
  rw [entry_size] at hcost hlong
  rw [hpath.reaches] at hspan
  omega

/-- A server that recovers the log of a target which wraps behind the commit offset has a log that is
    cut. -/
theorem recovered_log_cut (hlen : target.len = log.len) (hend : target.end_ < log.head)
    (hcommit : log.head ≤ target.commit) (hlt : target.commit < log.len)
    (hpath : Path target target.commit es)
    (hread : ∀ b, target.commit ≤ b → b < log.len → m (ENTRIES_OFFSET + b) = target.entries b) :
    ∃ stop, FollowerLog (recovered_log log target m)
      (es.take (entry_format.before_wrap target.len target.commit es)) stop ∧
        log_offset_end_distance (recovered_log log target m) stop ≠ 0 := by
  obtain ⟨x, rest, hsplit, hlong, hshort⟩ := wrapped_entries hpath (by omega)
  have hmin := x.le_len
  unfold SIZEOF_ENTRY at hmin
  obtain ⟨hlen', hend', hcommit', hentries'⟩ :=
    recovered_log_of_wrapped (m := m) (show 0 < target.end_ by omega) hend hcommit hlt
  generalize recovered_log log target m = log' at hlen' hend' hcommit' hentries'
  have hagree : ∀ b, target.commit ≤ b → b < log'.len → log'.entries b = target.entries b := by
    intro b hlow hhigh
    rw [hentries' b (by omega) (by omega), hread b hlow (by omega)]
  have hsame : target.len = log'.len := by omega
  have hholds := hpath.holds
  rw [hsame] at hholds hsplit hlong ⊢
  have hstand := stand_of_holds hholds hagree
  have hstop := hstand.advance_eq
  rw [hsplit, RecordFormat.holds_append] at hholds
  generalize es.take (entry_format.before_wrap log'.len target.commit es) = es' at *
  rw [hstop] at hlong hholds
  have hless : stand_end target.commit es' < log'.len := by
    have hadvance := RecordFormat.advance_lt hholds.1 (show target.commit < log'.len by omega)
    rwa [hstop] at hadvance
  have hle := hstand.le_stand_end
  rw [← hcommit'] at hstand hless hlong hholds hle
  refine ⟨_, .cut hend' (by omega) hstand hless ?_, ?_⟩
  · by_cases hfits : stand_end log'.commit es' + SIZEOF_ENTRY ≤ log'.len
    · right
      have hheader : HasHeader log'.entries (stand_end log'.commit es') x := by
        refine hasHeader_congr (fun b hlow hhigh => ?_) (hholds.2.1 hfits)
        exact (hagree b (by omega) (by omega)).symm
      rw [hheader.len]
      exact ⟨hlong, by omega⟩
    · left
      omega
  · rw [log_offset_end_distance, if_neg (by omega), if_neg (by omega)]
    omega

end recovered

section bounded

variable {log : dare_log_t} {es : List dare_log_entry_t} {stop i : Nat}

theorem followerLog_meets (hlog : FollowerLog log es stop) (hlen : log.len = LOG_SIZE) :
    Meets log log.commit es := by
  cases hlog with
  | empty hempty => trivial
  | written hpath =>
    have hwhole : Path log log.commit (es ++ []) := by simpa using hpath
    exact hwhole.meets_first
  | filled hend hstand hstop hpath => exact (filled_spec hend hstand hstop hpath hlen).1
  | cut hend hcommit hstand hstop hnext => exact hstand.meets (by omega)

/-- Each entry takes a slot. -/
theorem length_le_of_bounded (hmeets : Meets log log.commit es) (hi : i < MAX_SERVER_COUNT)
    (hbounded : NcBufBounded log i) : es.length ≤ MAX_NC_ENTRIES := by
  obtain ⟨fuel, log', n, hfill, hn, -⟩ := hbounded
  have hle := (nc_buf_fill_past hmeets hfill (nc_det_addr_fits hi hn)).1
  omega

/-- The walk ends only where the log ends. -/
theorem ends_of_bounded (hlog : FollowerLog log es stop) (hlen : log.len = LOG_SIZE)
    (hi : i < MAX_SERVER_COUNT) (hbounded : NcBufBounded log i) :
    log_offset_end_distance log stop = 0 := by
  cases hlog with
  | empty hempty => simp [log_offset_end_distance, hempty]
  | written hpath => simp [log_offset_end_distance]
  | filled hend hstand hstop hpath => simp [log_offset_end_distance]
  | cut hend hcommit hstand hstop hnext =>
    exact absurd hbounded (cut_not_bounded hi hend hcommit hstand hstop hnext hlen)

/-- The buffer of the entries that are not committed is big enough and the walk over them ends exactly
    if there are at most 1024 of them and they end where the log ends. -/
theorem nc_buf_bounded_iff (hlog : FollowerLog log es stop) (hlen : log.len = LOG_SIZE)
    (hi : i < MAX_SERVER_COUNT) :
    NcBufBounded log i ↔ es.length ≤ MAX_NC_ENTRIES ∧ log_offset_end_distance log stop = 0 := by
  have hmeets := followerLog_meets hlog hlen
  refine ⟨fun hbounded => ⟨length_le_of_bounded hmeets hi hbounded, ends_of_bounded hlog hlen hi hbounded⟩, ?_⟩
  rintro ⟨hcount, hstop⟩
  cases hlog with
  | empty hempty =>
    have hnone : log_get_entry log log.commit = none := get_entry_of_empty hempty _
    exact bounded_of_meets hi hlen hmeets hnone hcount fun j hj => absurd hj (by simp)
  | written hpath =>
    refine bounded_of_meets hi hlen hmeets ?_ hcount fun j hj => hpath.met_before hj
    have hlt := hpath.end_lt
    have hnil : Path log log.end_ [] := ⟨hlt, Nat.le_of_lt hlt, trivial, rfl, Nat.zero_lt_of_lt hlt⟩
    rw [hpath.reaches]
    exact hnil.get_entry_nil
  | filled hend hstand hlast hpath =>
    obtain ⟨-, hnone, hbefore⟩ := filled_spec hend hstand hlast hpath hlen
    exact bounded_of_meets hi hlen hmeets hnone hcount hbefore
  | cut hend hcommit hstand hlast hnext =>
    have hle := hstand.le_stand_end
    rw [log_offset_end_distance, if_neg (by omega), if_neg (by omega)] at hstop
    omega

theorem wrapped_log_bounded :
    ∃ log es, Path log log.commit es ∧ es.length = 1023 ∧ log.end_ < log.commit ∧ NcBufBounded log 1 := by
  obtain ⟨log, es, hrun, hcount, hhead, hend⟩ := wrap_of_long_commands
  have hlength : (es.drop 1).length = 1023 := by simp [hcount]
  have hpath : Path { log with commit := log.head } log.head (es.drop 1) :=
    (path_of_short_run hrun (by omega)).congr_log rfl rfl rfl
  have hwrap : log.end_ < log.head := by omega
  refine ⟨_, _, hpath, hlength, hwrap, ?_⟩
  refine (nc_buf_bounded_iff (.written hpath) (indexed_of_short_run hrun).len (by decide)).mpr ⟨?_, ?_⟩
  · rw [hlength]
    decide
  · simp [log_offset_end_distance]

/-- The log of a target whose last entry wraps and is not committed. -/
theorem wrapped_target : ∃ target x, Path target target.commit [x] ∧ target.len = LOG_SIZE ∧
    target.commit = 67091409 ∧ target.end_ = 20048 := by
  obtain ⟨log, es, hrun, -, hhead, hend⟩ := lap_of_long_commands
  have hread := readable_of_short_run hrun
  generalize es.drop 1 = live at hread
  have hlen : log.len = 67108864 := hread.len.trans LOG_SIZE_eq
  have hsize := data_len_zero_cmd 20000 (by decide)
  have hok : RoomyAppend log 1 0 0 (zero_cmd 20000 (by decide)) := by
    have hempty : is_log_empty log = false := by simp [is_log_empty]; omega
    have hdist := dist_cases log.len log.end_ log.head
    refine ⟨?_, by unfold EndsAtLen; omega⟩
    unfold HasRoom append_bytes free_bytes
    rw [hempty, if_neg (by omega), if_neg (by simp)]
    omega
  obtain ⟨⟨log', idx⟩, happend⟩ : ∃ r, log_append_entry log 1 0 0 (zero_cmd 20000 (by decide)) = r := ⟨_, rfl⟩
  obtain ⟨-, happ, -, hspan⟩ := roomy_appended hread hok happend
  set x : dare_log_entry_t := ⟨idx, 1, 0, 0, zero_cmd 20000 (by decide)⟩
  have hx : x.len = 20048 := hsize
  have hlen' := happ.len
  have hread' := readable_append hread hok happend
  obtain ⟨hnil, -⟩ | hpath := hread'.path
  · simp at hnil
  obtain ⟨-, hempty, -⟩ | hbefore := hread.path
  · omega
  have hlast : entry_format.AtRecord log'.len log'.head (live ++ [x]) live.length log.end_ := by
    left
    rw [List.take_left, hlen', happ.head, hbefore.reaches]
  have hfrom := hpath.at_record (by simp) hlast
  rw [List.drop_left] at hfrom
  refine ⟨{ log' with commit := log.end_ }, x, hfrom.congr_log rfl rfl rfl, hread'.len, hend, ?_⟩
  have hplace : entry_format.place log.len log.end_ x = 0 := if_neg (by rw [entry_size]; omega)
  change log'.end_ = 20048
  rw [happ.end_, RecordFormat.next, hplace, entry_size, Nat.zero_add, hx]

/-- A run of 1025 short commands, none of them committed, overruns the buffer. And a server that recovers
    the log of a target whose entry at 67091409 wraps does not find the end 0 of its log. -/
theorem published_entries_overrun :
    (∃ log es, Run ShortRoomAppend log es 0 ∧ es.length = 1025 ∧ FollowerLog log es log.end_ ∧
      ¬NcBufBounded log 0) ∧
    ∃ target x es stop, Path target target.commit [x] ∧ target.commit = 67091409 ∧ target.end_ = 20048 ∧
      FollowerLog (recovered_log { log_new with head := 65583 } target target.mem) es stop ∧
      ¬NcBufBounded (recovered_log { log_new with head := 65583 } target target.mem) 1 := by
  constructor
  · obtain ⟨log, es, hrun, hcount, hhead, hcommit, hend, -⟩ :=
      fill_of_commands 0 (by decide) 0 (by decide) 1024 (by decide)
    have hread := readable_of_short_run hrun
    have hpath := path_of_short_run hrun (by omega)
    rw [List.drop_zero, hhead, ← hcommit] at hpath
    refine ⟨log, es, hrun, hcount, .written hpath, fun hbounded => ?_⟩
    have hle := length_le_of_bounded (followerLog_meets (.written hpath) hread.len) (by decide) hbounded
    unfold MAX_NC_ENTRIES at hle
    omega
  · obtain ⟨target, x, hpath, hlen, hcommit, hend⟩ := wrapped_target
    have hread : ∀ b, target.commit ≤ b → b < log_new.len → target.mem (ENTRIES_OFFSET + b) = target.entries b :=
      fun _ _ _ => rfl
    obtain ⟨stop, hcut, hdist⟩ := @recovered_log_cut { log_new with head := 65583 } target [x] target.mem
      hlen (by rw [hend]; decide) (by rw [hcommit]; decide) (by rw [hcommit]; decide) hpath hread
    exact ⟨target, x, _, stop, hpath, hcommit, hend, hcut, fun hbounded =>
      hdist (ends_of_bounded hcut rfl (by decide) hbounded)⟩

end bounded

end dare.server
