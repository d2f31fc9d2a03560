import ReliableSocket.Dare.Log.Append

open memory ring

namespace dare.log

/-- The loop of the readers (`poll_config_entries`, `apply_committed_entries`): the entries met from
    `offset` on and the offset where the loop stops. No fuel means that the loop has not ended. -/
def log_walk (log : dare_log_t) : Nat → Nat → Option (List dare_log_entry_t × Nat)
  | 0, _ => none
  | fuel + 1, offset =>
    match log_get_entry log offset with
    | none => some ([], offset)
    | some entry =>
      if log_fit_entry log entry entry then
        (log_walk log fuel (entry + log_entry_len log.entries entry)).map fun rest =>
          (read_entry log.entries entry :: rest.1, rest.2)
      else log_walk log fuel 0

/-- The offsets the loop of the readers meets, each with the number of entries passed before it. -/
def positions (log : dare_log_t) : Nat → Nat → Nat → List (Nat × Nat)
  | 0, _, _ => []
  | fuel + 1, offset, passed =>
    (offset, passed) ::
      match log_get_entry log offset with
      | none => []
      | some entry =>
        (entry, passed) ::
          if log_fit_entry log entry entry then
            positions log fuel (entry + log_entry_len log.entries entry) (passed + 1)
          else positions log fuel 0 passed

/-- The entry boundaries of a log, in the order in which a reader that starts at the head meets
    them, each with the number of entries before it. -/
def log_positions (log : dare_log_t) : List (Nat × Nat) := positions log (log.len + 1) log.head 0

/-- A reader that starts at `offset` meets the entries `es` and then the end of the log. -/
structure Path (log : dare_log_t) (offset : Nat) (es : List dare_log_entry_t) : Prop where
  end_lt : log.end_ < log.len
  start_le : offset ≤ log.len
  holds : entry_format.Holds log.len log.entries offset es
  reaches : entry_format.advance log.len offset es = log.end_
  span_lt : entry_format.span log.len offset es < log.len

instance decidableHasHeader (m : Mem) (entry : Nat) (x : dare_log_entry_t) : Decidable (HasHeader m entry x) :=
  decidable_of_iff (entry_idx m entry = x.idx ∧ entry_term m entry = x.term ∧ entry_req_id m entry = x.req_id ∧
      entry_clt_id m entry = x.clt_id ∧ entry_type m entry = x.type ∧ log_entry_len m entry = x.len)
    ⟨fun ⟨hidx, hterm, hreq_id, hclt_id, htype, hlen⟩ => ⟨hidx, hterm, hreq_id, hclt_id, htype, hlen⟩,
      fun h => ⟨h.idx, h.term, h.req_id, h.clt_id, h.type, h.len⟩⟩

instance decidableHolds (len : Nat) (m : Mem) : ∀ offset es, Decidable (entry_format.Holds len m offset es)
  | _, [] => isTrue trivial
  | offset, x :: es =>
    have := decidableHolds len m (entry_format.next len offset x) es
    inferInstanceAs (Decidable ((offset + SIZEOF_ENTRY ≤ len → HasHeader m offset x) ∧
      read_entry m (entry_format.place len offset x) = x ∧ entry_format.next len offset x < len ∧
      entry_format.Holds len m (entry_format.next len offset x) es))

instance (log : dare_log_t) (offset : Nat) (es : List dare_log_entry_t) : Decidable (Path log offset es) :=
  decidable_of_iff (log.end_ < log.len ∧ offset ≤ log.len ∧ entry_format.Holds log.len log.entries offset es ∧
      entry_format.advance log.len offset es = log.end_ ∧ entry_format.span log.len offset es < log.len)
    ⟨fun ⟨hend, hstart, hholds, hreaches, hspan⟩ => ⟨hend, hstart, hholds, hreaches, hspan⟩,
      fun h => ⟨h.end_lt, h.start_le, h.holds, h.reaches, h.span_lt⟩⟩

/-- The log has the entries `es` from `offset` on; the log that reads as empty is included. -/
def EntriesFrom (log : dare_log_t) (offset : Nat) (es : List dare_log_entry_t) : Prop :=
  (es = [] ∧ log.end_ = log.len) ∨ Path log offset es

section path

variable {log : dare_log_t} {offset : Nat} {x : dare_log_entry_t} {es : List dare_log_entry_t}

theorem Path.not_empty (hpath : Path log offset es) : is_log_empty log = false := by
  have hend := hpath.end_lt
  simp only [is_log_empty, decide_eq_false_iff_not]
  omega

theorem end_distance_eq (hend : log.end_ < log.len) (offset : Nat) :
    log_offset_end_distance log offset = ring.dist log.len offset log.end_ := by
  unfold log_offset_end_distance ring.dist
  rw [if_neg (Nat.ne_of_lt hend)]

/-- The distance to the end is the number of bytes that the entries ahead use up. -/
theorem Path.end_distance (hpath : Path log offset es) :
    log_offset_end_distance log offset = entry_format.span log.len offset es := by
  rw [end_distance_eq hpath.end_lt, ← hpath.reaches,
    RecordFormat.dist_advance hpath.start_le hpath.holds hpath.span_lt]

/-- Away from the end of the log it does not matter where this is. -/
theorem get_entry_congr_end {end_ : Nat} (hend : log.end_ < log.len) (hend' : end_ < log.len)
    (hdist : log_offset_end_distance log offset ≠ 0)
    (hdist' : log_offset_end_distance { log with end_ := end_ } offset ≠ 0) :
    log_get_entry log offset = log_get_entry { log with end_ := end_ } offset := by
  have hempty : is_log_empty log = false := decide_eq_false (Nat.ne_of_lt hend)
  have hempty' : is_log_empty { log with end_ := end_ } = false := decide_eq_false (Nat.ne_of_lt hend')
  simp only [log_get_entry, hempty, hempty', hdist, hdist', if_false]
  rfl

theorem Path.get_entry_nil (hpath : Path log offset []) : log_get_entry log offset = none := by
  simp [log_get_entry, hpath.not_empty, hpath.end_distance, RecordFormat.span]

/-- Away from the end of the log there is always an entry. -/
theorem get_entry_of_distance (hdist : log_offset_end_distance log offset ≠ 0) :
    log_get_entry log offset = some (if HeaderFits log offset then offset else 0) := by
  have hempty : is_log_empty log = false := by
    simp only [is_log_empty, decide_eq_false_iff_not]
    intro hend
    simp [log_offset_end_distance, hend] at hdist
  have hfit : log_fit_entry_header log offset = decide (HeaderFits log offset) := by
    unfold log_fit_entry_header HeaderFits SIZEOF_ENTRY
    congr 1
    apply propext
    omega
  simp only [log_get_entry, hempty, Bool.false_eq_true, if_false, hdist, hfit]
  by_cases hheader : HeaderFits log offset
  · simp [hheader]
  · simp [hheader]

theorem Path.get_entry_cons (hpath : Path log offset (x :: es)) :
    log_get_entry log offset = some (if HeaderFits log offset then offset else 0) := by
  refine get_entry_of_distance ?_
  have hcost := entry_format.cost_pos log.len offset x
  rw [hpath.end_distance, RecordFormat.span]
  omega

theorem Path.tail (hpath : Path log offset (x :: es)) :
    Path log (entry_format.next log.len offset x) es := by
  have hspan := hpath.span_lt
  simp only [RecordFormat.span] at hspan
  exact ⟨hpath.end_lt, Nat.le_of_lt hpath.holds.2.2.1, hpath.holds.2.2.2, hpath.reaches, by omega⟩

/-- A reader may also enter at the place of the first entry. -/
theorem Path.at_place (hpath : Path log offset (x :: es)) :
    Path log (entry_format.place log.len offset x) (x :: es) := by
  obtain ⟨hholds, hadvance, hspan⟩ := RecordFormat.holds_place hpath.holds
  have hlt := hpath.span_lt
  have hnext := hpath.holds.2.2.1
  have hplace : entry_format.place log.len offset x ≤ log.len := by
    unfold RecordFormat.next at hnext
    omega
  exact ⟨hpath.end_lt, hplace, hholds, hadvance.trans hpath.reaches, by omega⟩

/-- The length of the entry whose header is met, and the entry itself if it is not a mere header. -/
theorem Path.len_at_offset (hpath : Path log offset (x :: es)) (hheader : HeaderFits log offset) :
    log_entry_len log.entries offset = x.len :=
  (hpath.holds.1 hheader).len

theorem Path.read_at_place (hpath : Path log offset (x :: es)) :
    read_entry log.entries (entry_format.place log.len offset x) = x :=
  hpath.holds.2.1

theorem Path.len_at_place (hpath : Path log offset (x :: es)) :
    log_entry_len log.entries (entry_format.place log.len offset x) = x.len := by
  rw [← read_entry_len, hpath.read_at_place]

/-- The reader goes on at the beginning exactly when the entry does not fit. -/
theorem Path.fit_entry (hpath : Path log offset (x :: es)) (hheader : HeaderFits log offset) :
    log_fit_entry log offset offset = decide (offset + x.len ≤ log.len) := by
  have hstart := hpath.start_le
  have hmin := x.le_len
  unfold SIZEOF_ENTRY at hmin
  rw [log_fit_entry, hpath.len_at_offset hheader]
  congr 1
  apply propext
  omega

theorem Path.fit_at_place (hpath : Path log offset (x :: es)) :
    log_fit_entry log (entry_format.place log.len offset x) (entry_format.place log.len offset x) =
      true := by
  have hnext := hpath.holds.2.2.1
  rw [log_fit_entry, hpath.len_at_place, decide_eq_true_eq]
  unfold RecordFormat.next at hnext
  rw [entry_size] at hnext
  omega

/-- The two ways in which an entry is met: at its place, or by a header that was left behind when
    the entry did not fit. -/
theorem Path.meets (hpath : Path log offset (x :: es)) :
    (log_get_entry log offset = some (entry_format.place log.len offset x)) ∨
    (log_get_entry log offset = some offset ∧ log_fit_entry log offset offset = false ∧
      HeaderFits log offset ∧ entry_format.place log.len offset x = 0) := by
  have hget := hpath.get_entry_cons
  have hmin := x.le_len
  by_cases hheader : HeaderFits log offset
  · rw [if_pos hheader] at hget
    have hfit := hpath.fit_entry hheader
    by_cases hfits : offset + x.len ≤ log.len
    · left
      have hplace : entry_format.place log.len offset x = offset := if_pos hfits
      rw [hget, hplace]
    · right
      exact ⟨hget, by simpa [hfits] using hfit, hheader, if_neg hfits⟩
  · left
    rw [if_neg hheader] at hget
    have hplace : entry_format.place log.len offset x = 0 := by
      apply if_neg
      rw [entry_size]
      unfold HeaderFits at hheader
      omega
    rw [hget, hplace]

/-- At the place of an entry the entry itself is met. -/
theorem Path.get_entry_at_place (hpath : Path log offset (x :: es)) :
    log_get_entry log (entry_format.place log.len offset x) =
      some (entry_format.place log.len offset x) := by
  have hheader : HeaderFits log (entry_format.place log.len offset x) := by
    have hnext := hpath.holds.2.2.1
    have hmin := x.le_len
    rw [RecordFormat.next, entry_size] at hnext
    unfold HeaderFits
    omega
  rw [hpath.at_place.get_entry_cons, if_pos hheader]

theorem Path.next_at_place (hpath : Path log offset (x :: es)) :
    entry_format.place log.len offset x + log_entry_len log.entries (entry_format.place log.len offset x) =
      entry_format.next log.len offset x := by
  rw [hpath.len_at_place, RecordFormat.next, entry_size]

/-- The turns of the readers' loop that pass one entry. -/
theorem Path.walk_entry (hpath : Path log offset (x :: es)) (fuel : Nat) :
    log_walk log (fuel + 2) offset =
      (log_walk log (fuel + 1) (entry_format.next log.len offset x)).map
        (fun rest => (x :: rest.1, rest.2)) ∨
    log_walk log (fuel + 2) offset =
      (log_walk log fuel (entry_format.next log.len offset x)).map
        (fun rest => (x :: rest.1, rest.2)) := by
  have hnext := hpath.next_at_place
  obtain hget | ⟨hget, hfit, -, hzero⟩ := hpath.meets
  · left
    simp only [log_walk, hget, hpath.fit_at_place, if_true, hnext, hpath.read_at_place]
  · right
    have hget₀ := hpath.get_entry_at_place
    have hfit₀ := hpath.fit_at_place
    have hread₀ := hpath.read_at_place
    rw [hzero] at hget₀ hfit₀ hread₀ hnext
    simp only [log_walk, hget, hfit, Bool.false_eq_true, if_false, hget₀, hfit₀, if_true, hnext, hread₀]

/-- The readers' loop ends and yields the entries of the path, whatever wraps lie on it. -/
theorem Path.log_walk_eq (hpath : Path log offset es) {fuel : Nat} (hfuel : 2 * es.length + 1 ≤ fuel) :
    log_walk log fuel offset = some (es, log.end_) := by
  induction es generalizing offset fuel with
  | nil =>
    obtain ⟨fuel, rfl⟩ : ∃ k, fuel = k + 1 := ⟨fuel - 1, by omega⟩
    have hend : offset = log.end_ := hpath.reaches
    simp only [log_walk, hpath.get_entry_nil]
    rw [hend]
  | cons x es ih =>
    simp only [List.length_cons] at hfuel
    obtain ⟨fuel, rfl⟩ : ∃ k, fuel = k + 2 := ⟨fuel - 2, by omega⟩
    obtain hwalk | hwalk := hpath.walk_entry fuel
    · rw [hwalk, ih hpath.tail (by omega)]
      rfl
    · rw [hwalk, ih hpath.tail (by omega)]
      rfl

/-- A reader may start at every boundary of a path. -/
theorem Path.at_record (hpath : Path log offset es) {k position : Nat} (hk : k ≤ es.length)
    (hat : entry_format.AtRecord log.len offset es k position) :
    Path log position (es.drop k) := by
  obtain ⟨hholds, hadvance, hspan⟩ := RecordFormat.holds_at hpath.holds hk hat
  have hle := RecordFormat.at_le hpath.holds hpath.start_le hk hat
  exact ⟨hpath.end_lt, hle, hholds, hadvance.trans hpath.reaches, Nat.lt_of_le_of_lt hspan hpath.span_lt⟩

/-- Behind the first entries of a path a reader meets the others. -/
theorem Path.behind {before : List dare_log_entry_t} (hpath : Path log offset (before ++ es)) :
    Path log (entry_format.advance log.len offset before) es := by
  have hboundary : entry_format.AtRecord log.len offset (before ++ es) before.length
      (entry_format.advance log.len offset before) := .inl (by rw [List.take_left])
  have hat := hpath.at_record (by simp) hboundary
  rwa [List.drop_left] at hat

/-- The end of the log is the last boundary. -/
theorem Path.end_at (hpath : Path log offset es) :
    entry_format.AtRecord log.len offset es es.length log.end_ := by
  left
  rw [List.take_length, hpath.reaches]

/-- A path only depends on the end, the length and the entries of the log. -/
theorem Path.congr_log {log' : dare_log_t} (hpath : Path log offset es) (hend : log'.end_ = log.end_)
    (hlen : log'.len = log.len) (hentries : log'.entries = log.entries) : Path log' offset es := by
  refine ⟨?_, ?_, ?_, ?_, ?_⟩
  · rw [hend, hlen]
    exact hpath.end_lt
  · rw [hlen]
    exact hpath.start_le
  · rw [hlen, hentries]
    exact hpath.holds
  · rw [hlen, hend]
    exact hpath.reaches
  · rw [hlen]
    exact hpath.span_lt

/-- The boundaries that are met before the first entry, and those after it. -/
theorem Path.positions_entry (hpath : Path log offset (x :: es)) (fuel passed : Nat) :
    (positions log (fuel + 2) offset passed =
      (offset, passed) :: (entry_format.place log.len offset x, passed) ::
        positions log (fuel + 1) (entry_format.next log.len offset x) (passed + 1)) ∨
    (positions log (fuel + 2) offset passed =
      (offset, passed) :: (offset, passed) :: (entry_format.place log.len offset x, passed) ::
        (entry_format.place log.len offset x, passed) ::
          positions log fuel (entry_format.next log.len offset x) (passed + 1)) := by
  have hnext := hpath.next_at_place
  obtain hget | ⟨hget, hfit, -, hzero⟩ := hpath.meets
  · left
    rw [positions.eq_2 log offset passed (fuel + 1), hget]
    simp only [hpath.fit_at_place, if_true, hnext]
  · right
    have hget₀ := hpath.get_entry_at_place
    have hfit₀ := hpath.fit_at_place
    rw [hzero] at hget₀ hfit₀ hnext
    rw [positions.eq_2 log offset passed (fuel + 1), hget]
    simp only [hfit, Bool.false_eq_true, if_false]
    rw [positions.eq_2 log 0 passed fuel, hget₀, hzero]
    simp only [hfit₀, if_true, hnext]

/-- The offsets that a reader meets are boundaries of the path. -/
theorem Path.of_mem_positions (hpath : Path log offset es) {fuel passed position count : Nat}
    (hmem : (position, count) ∈ positions log fuel offset passed) :
    ∃ k, count = passed + k ∧ k ≤ es.length ∧
      entry_format.AtRecord log.len offset es k position := by
  induction fuel generalizing offset es passed with
  | zero => simp [positions] at hmem
  | succ fuel ih =>
    simp only [positions, List.mem_cons, Prod.mk.injEq] at hmem
    obtain ⟨rfl, rfl⟩ | hmem := hmem
    · exact ⟨0, rfl, Nat.zero_le _, .inl rfl⟩
    cases es with
    | nil => simp [hpath.get_entry_nil] at hmem
    | cons x es =>
      obtain hget | ⟨hget, hfit, -, hzero⟩ := hpath.meets
      · simp only [hget, hpath.fit_at_place, if_true, List.mem_cons, Prod.mk.injEq,
          hpath.len_at_place] at hmem
        obtain ⟨rfl, rfl⟩ | hmem := hmem
        · exact ⟨0, rfl, Nat.zero_le _, .inr ⟨x, rfl, rfl⟩⟩
        · obtain ⟨k, hcount, hle, hat⟩ := ih hpath.tail hmem
          exact ⟨k + 1, by omega, by simpa using hle, RecordFormat.atRecord_cons.mpr hat⟩
      · simp only [hget, hfit, Bool.false_eq_true, if_false, List.mem_cons, Prod.mk.injEq] at hmem
        obtain ⟨rfl, rfl⟩ | hmem := hmem
        · exact ⟨0, rfl, Nat.zero_le _, .inl rfl⟩
        · rw [← hzero] at hmem
          obtain ⟨k, hcount, hle, hat⟩ := ih hpath.at_place hmem
          exact ⟨k, hcount, hle, RecordFormat.atRecord_of_place hpath.holds.2.2.1 hat⟩

/-- Every boundary of the path is met. -/
theorem Path.mem_positions (hpath : Path log offset es) {k position : Nat} (passed fuel : Nat)
    (hk : k ≤ es.length) (hat : entry_format.AtRecord log.len offset es k position)
    (hfuel : 2 * k + 2 ≤ fuel) : (position, passed + k) ∈ positions log fuel offset passed := by
  induction k generalizing offset es passed fuel with
  | zero =>
    obtain ⟨fuel, rfl⟩ : ∃ n, fuel = n + 2 := ⟨fuel - 2, by omega⟩
    obtain rfl | ⟨x, hx, rfl⟩ := hat
    · simp [positions]
    · cases es with
      | nil => simp at hx
      | cons y es =>
        obtain rfl : y = x := by simpa using hx
        rw [positions, List.take_zero, RecordFormat.advance]
        obtain hget | ⟨hget, hfit, -, hzero⟩ := hpath.meets
        · simp [hget]
        · simp [hget, hfit, hzero, positions]
  | succ k ih =>
    obtain ⟨fuel, rfl⟩ : ∃ n, fuel = n + 2 := ⟨fuel - 2, by omega⟩
    have hsum : passed + (k + 1) = passed + 1 + k := by omega
    rw [hsum]
    cases es with
    | nil => simp at hk
    | cons x es =>
      have hrest := RecordFormat.atRecord_cons.mp hat
      have hlength : k ≤ es.length := by simpa using hk
      obtain hmet | hmet := hpath.positions_entry fuel passed
      · rw [hmet]
        simp [ih hpath.tail (passed + 1) _ hlength hrest (by omega : 2 * k + 2 ≤ fuel + 1)]
      · rw [hmet]
        simp [ih hpath.tail (passed + 1) _ hlength hrest (by omega : 2 * k + 2 ≤ fuel)]

/-- Every entry takes at least its header. -/
theorem length_le_span (len o : Nat) (xs : List dare_log_entry_t) :
    SIZEOF_ENTRY * xs.length ≤ entry_format.span len o xs := by
  induction xs generalizing o with
  | nil => simp
  | cons x xs ih =>
    have hcost : SIZEOF_ENTRY ≤ entry_format.cost len o x := by
      have hmin := x.le_len
      obtain ⟨-, -, -, hcost⟩ | ⟨-, -, -, hcost⟩ := entry_format.write_cases len o x
      · rw [hcost, entry_size]
        exact hmin
      · rw [hcost, entry_size]
        omega
    have hrest := ih (entry_format.next len o x)
    simp only [RecordFormat.span, List.length_cons, Nat.mul_succ]
    omega

theorem Path.length_le (hpath : Path log offset es) : SIZEOF_ENTRY * es.length < log.len :=
  Nat.lt_of_le_of_lt (length_le_span log.len offset es) hpath.span_lt

end path
end dare.log
