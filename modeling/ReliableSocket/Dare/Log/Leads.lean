import ReliableSocket.Dare.Log.Index
import ReliableSocket.Dare.Log.NcBuf

open memory ring

namespace dare.log

/-- The entries `es` lead from `offset` to the end of the log. Other than on a path they may go all
    round the buffer, and one of them may end at its last byte. -/
structure Leads (log : dare_log_t) (offset : Nat) (es : List dare_log_entry_t) : Prop where
  len : log.len = LOG_SIZE
  start_le : offset ≤ log.len
  laid : entry_format.Laid log.len log.entries offset es
  reaches : entry_format.advance log.len offset es = log.end_
  span_le : entry_format.span log.len offset es ≤ log.len

/-- The offset is a boundary of the entries from the head on. -/
def AtBoundary (log : dare_log_t) (live : List dare_log_entry_t) (offset : Nat) : Prop :=
  ∃ k ≤ live.length, entry_format.AtRecord log.len log.head live k offset

/-- The cached tail is the place of the last entry `x`, or it is not known, and the offsets at which it
    is searched are boundaries. -/
def TailKnown (log : dare_log_t) (es : List dare_log_entry_t) (x : dare_log_entry_t) : Prop :=
  log.tail = entry_format.place log.len (entry_format.advance log.len log.head es) x ∨
    (log.tail = log.len ∧ AtBoundary log (es ++ [x]) log.commit ∧ AtBoundary log (es ++ [x]) log.apply)

/-- The tail is known, or it can be found from one of the offsets where it is searched. -/
def FindsEntry (log : dare_log_t) : Prop :=
  log.tail ≠ log.len ∨ log_offset_end_distance log log.commit ≠ 0 ∨
    log_offset_end_distance log log.apply ≠ 0 ∨ log_offset_end_distance log log.head ≠ 0

section leads

variable {log : dare_log_t} {offset : Nat} {x : dare_log_entry_t} {es : List dare_log_entry_t}

theorem Path.leads (hpath : Path log offset es) (hlen : log.len = LOG_SIZE) : Leads log offset es :=
  ⟨hlen, hpath.start_le, RecordFormat.laid_of_holds hpath.holds, hpath.reaches, Nat.le_of_lt hpath.span_lt⟩

/-- An entry takes a small part of the buffer. -/
theorem entry_small (hlen : log.len = LOG_SIZE) (x : dare_log_entry_t) :
    entry_format.size x + SIZEOF_ENTRY ≤ log.len := by
  have hmax := x.len_lt
  rw [hlen, LOG_SIZE_eq, entry_size]
  unfold SIZEOF_ENTRY at *
  omega

theorem Leads.small (hleads : Leads log offset es) : ∀ x ∈ es, entry_format.size x ≤ log.len := by
  intro x _
  have hsmall := entry_small hleads.len x
  omega

theorem Leads.congr_log {log' : dare_log_t} (hleads : Leads log offset es) (hend : log'.end_ = log.end_)
    (hlen : log'.len = log.len) (hentries : log'.entries = log.entries) : Leads log' offset es := by
  obtain ⟨hsize, hstart, hlaid, hreaches, hspan⟩ := hleads
  rw [← hlen] at hsize hstart hlaid hreaches hspan
  rw [← hentries] at hlaid
  exact ⟨hsize, hstart, hlaid, hreaches.trans hend.symm, hspan⟩

theorem Leads.tail (hleads : Leads log offset (x :: es)) :
    Leads log (entry_format.next log.len offset x) es ∧
      entry_format.span log.len (entry_format.next log.len offset x) es < log.len := by
  have hcost := entry_format.cost_pos log.len offset x
  have hspan := hleads.span_le
  rw [RecordFormat.span] at hspan
  have hnext : entry_format.next log.len offset x ≤ log.len :=
    RecordFormat.next_le (hleads.small x List.mem_cons_self)
  exact ⟨⟨hleads.len, hnext, hleads.laid.2.2, hleads.reaches, by omega⟩, by omega⟩

/-- From any boundary the rest of the entries leads to the end. -/
theorem Leads.at_record {live : List dare_log_entry_t} {k b : Nat} (hleads : Leads log offset live)
    (hk : k ≤ live.length) (hat : entry_format.AtRecord log.len offset live k b) :
    Leads log b (live.drop k) ∧
      entry_format.span log.len b (live.drop k) ≤ entry_format.span log.len offset live := by
  obtain ⟨hle, hlaid, hadvance, hspan⟩ :=
    RecordFormat.laid_at hleads.small hleads.laid hleads.start_le hk hat
  exact ⟨⟨hleads.len, hle, hlaid, hadvance.trans hleads.reaches, Nat.le_trans hspan hleads.span_le⟩, hspan⟩

theorem Leads.end_le (hleads : Leads log offset es) : log.end_ ≤ log.len := by
  have hat : entry_format.AtRecord log.len offset es es.length log.end_ :=
    .inl (by rw [List.take_length, hleads.reaches])
  exact (hleads.at_record (Nat.le_refl _) hat).1.start_le

/-- From where its first entry is met, too. -/
theorem Leads.at_met (hleads : Leads log offset (x :: es)) :
    Leads log (met_offset log.len offset) (x :: es) ∧
      entry_format.span log.len (met_offset log.len offset) (x :: es) ≤
        entry_format.span log.len offset (x :: es) := by
  by_cases hheader : offset + SIZEOF_ENTRY ≤ log.len
  · rw [met_offset, if_pos hheader]
    exact ⟨hleads, Nat.le_refl _⟩
  · have hmin := x.le_len
    have hplace : entry_format.place log.len offset x = 0 := if_neg (by rw [entry_size]; omega)
    rw [met_offset, if_neg hheader, ← hplace]
    exact hleads.at_record (Nat.zero_le _) (.inr ⟨x, rfl, rfl⟩)

/-- The distance to the end is what the entries take, unless they go all round. -/
theorem Leads.end_distance (hleads : Leads log offset es) (hend : log.end_ ≠ log.len)
    (hlt : entry_format.span log.len offset es < log.len) :
    log_offset_end_distance log offset = entry_format.span log.len offset es := by
  have hadd := RecordFormat.dist_span_add (b := log.end_) hleads.start_le hleads.small
    (by rw [hleads.reaches, dist_self]; exact hlt)
  rw [hleads.reaches, dist_self] at hadd
  unfold log_offset_end_distance
  rw [if_neg hend]
  exact hadd

theorem Leads.header_at_met (hleads : Leads log offset (x :: es)) :
    HasHeader log.entries (met_offset log.len offset) x := by
  obtain ⟨hbehind, hheader, -⟩ := hleads.laid
  by_cases hfits : offset + SIZEOF_ENTRY ≤ log.len
  · rw [met_offset, if_pos hfits]
    exact hbehind hfits
  · have hmin := x.le_len
    have hplace : entry_format.place log.len offset x = 0 := if_neg (by rw [entry_size]; omega)
    rw [met_offset, if_neg hfits, ← hplace]
    exact hheader

/-- A reader meets entries that do not go all round. -/
theorem Leads.meets_of_lt (hleads : Leads log offset es) (hend : log.end_ ≠ log.len)
    (hlt : entry_format.span log.len offset es < log.len) :
    Meets log offset es ∧ log_get_entry log (entry_format.advance log.len offset es) = none := by
  induction es generalizing offset with
  | nil =>
    have hdist := hleads.end_distance hend hlt
    refine ⟨trivial, ?_⟩
    simp only [log_get_entry, RecordFormat.advance, hdist, RecordFormat.span]
    simp
  | cons y es ih =>
    have hdist := hleads.end_distance hend hlt
    have hcost := entry_format.cost_pos log.len offset y
    rw [RecordFormat.span] at hdist
    obtain ⟨htail, hlt'⟩ := hleads.tail
    obtain ⟨hmeets, hnone⟩ := ih htail hlt'
    exact ⟨⟨get_entry_of_distance (by omega), hleads.header_at_met, hmeets⟩, hnone⟩

theorem end_ne_len_of_distance (hdist : log_offset_end_distance log offset ≠ 0) : log.end_ ≠ log.len := by
  intro hend
  simp [log_offset_end_distance, hend] at hdist

/-- Entries that go all round lead from the end to the end. -/
theorem Leads.span_lt (hleads : Leads log offset es) (hdist : log_offset_end_distance log offset ≠ 0) :
    entry_format.span log.len offset es < log.len := by
  have hend := end_ne_len_of_distance hdist
  have hpos : 0 < log.len := by
    rw [hleads.len]
    decide
  cases es with
  | nil => exact hpos
  | cons x es =>
    by_contra hround
    obtain ⟨htail, hlt⟩ := hleads.tail
    have hrest := htail.end_distance hend hlt
    have hspan := hleads.span_le
    have hstart := hleads.start_le
    have hstop := hleads.end_le
    have hcases := entry_format.write_cases log.len offset x
    rw [RecordFormat.span] at hround hspan
    unfold log_offset_end_distance at hdist hrest
    rw [if_neg hend] at hdist hrest
    split at hdist <;> split at hrest <;> omega

/-- From an offset that is not at the end of the log a reader meets all entries ahead. -/
theorem Leads.reads (hleads : Leads log offset es) (hdist : log_offset_end_distance log offset ≠ 0) :
    Reads log offset es ∧ es ≠ [] := by
  have hend := end_ne_len_of_distance hdist
  have hlt := hleads.span_lt hdist
  have hlength := length_le_span log.len offset es
  obtain ⟨hmeets, hnone⟩ := hleads.meets_of_lt hend hlt
  unfold SIZEOF_ENTRY at hlength
  refine ⟨⟨hmeets, hnone, by omega⟩, ?_⟩
  rintro rfl
  exact hdist (hleads.end_distance hend hlt)

theorem reads_none (hdist : log_offset_end_distance log offset = 0) : Reads log offset [] := by
  refine ⟨trivial, ?_, Nat.zero_le _⟩
  simp only [log_get_entry, RecordFormat.advance, hdist]
  simp

/-- The last entry does not take the whole buffer. -/
theorem Leads.last_distance (hleads : Leads log offset [x]) (hend : log.end_ ≠ log.len) :
    log_offset_end_distance log offset ≠ 0 := by
  have hcases := entry_format.write_cases log.len offset x
  have hpos := entry_format.cost_pos log.len offset x
  have hlt : entry_format.span log.len offset [x] < log.len := by
    have hmax := x.len_lt
    have hlen := hleads.len.trans LOG_SIZE_eq
    rw [entry_size] at hcases
    unfold SIZEOF_ENTRY at hmax
    rw [RecordFormat.span_singleton]
    omega
  rw [hleads.end_distance hend hlt, RecordFormat.span_singleton]
  omega

/-- An append that just fits, be it that it fills the buffer to its last byte or up to the head. -/
theorem Path.leads_appended {log' : dare_log_t} (hpath : Path log offset es) (happ : Appended log log' x)
    (hlen : log.len = LOG_SIZE)
    (hroom : entry_format.span log.len offset es + entry_format.cost log.len log.end_ x ≤ log.len)
    (hcost : entry_format.cost log.len log.end_ x < log.len) : Leads log' offset (es ++ [x]) := by
  have hreaches := hpath.reaches
  have hspan : entry_format.span log.len offset (es ++ [x]) ≤ log.len := by
    rw [RecordFormat.span_append, RecordFormat.span_singleton, hreaches]
    exact hroom
  have hbefore : entry_format.Holds log.len log'.entries offset es := by
    refine RecordFormat.holds_before hpath.start_le hpath.holds hspan fun b _ hfar => ?_
    rw [hreaches] at hfar
    exact happ.agrees hcost hfar
  have hnew : entry_format.Laid log.len log'.entries log.end_ [x] :=
    ⟨happ.header, entry_format.stored_header happ.stored, trivial⟩
  rw [← happ.len] at hspan hbefore hnew hlen
  refine ⟨hlen, ?_, ?_, ?_, hspan⟩
  · rw [happ.len]
    exact hpath.start_le
  · rw [RecordFormat.laid_append]
    refine ⟨RecordFormat.laid_of_holds hbefore, ?_⟩
    rwa [happ.len, hreaches, ← happ.len]
  · rw [happ.len, happ.end_, RecordFormat.advance_append, hreaches]
    rfl

end leads

section tail

variable {log : dare_log_t} {offset : Nat} {x : dare_log_entry_t} {es : List dare_log_entry_t}

/-- A search that meets entries finds where the last one is met. -/
theorem Meets.tail_search_eq (hmeets : Meets log offset (es ++ [x]))
    (hends : log_get_entry log (entry_format.advance log.len offset (es ++ [x])) = none) {fuel : Nat}
    (hfuel : es.length + 2 ≤ fuel) (tail : Nat) :
    tail_search log fuel offset tail =
      some (met_offset log.len (entry_format.advance log.len offset es)) := by
  obtain ⟨fuel, rfl⟩ : ∃ k, fuel = k + 1 := ⟨fuel - 1, by omega⟩
  induction es generalizing offset fuel tail with
  | nil =>
    obtain ⟨fuel, rfl⟩ : ∃ k, fuel = k + 1 := ⟨fuel - 1, by omega⟩
    obtain ⟨hget, hheader, -⟩ := hmeets
    have hstop : log_get_entry log (entry_format.next log.len offset x) = none := hends
    rw [← next_offset_of_header hheader] at hstop
    simp only [tail_search, hget, hstop]
    rfl
  | cons y es ih =>
    obtain ⟨hget, hheader, hrest⟩ := hmeets
    rw [List.length_cons] at hfuel
    obtain ⟨fuel, rfl⟩ : ∃ k, fuel = k + 1 := ⟨fuel - 1, by omega⟩
    rw [tail_search, hget]
    simp only [next_offset_of_header hheader]
    exact ih hrest hends (met_offset log.len offset) fuel (by omega)

theorem Reads.tail_from_eq (hreads : Reads log offset (es ++ [x])) :
    tail_from log offset = met_offset log.len (entry_format.advance log.len offset es) := by
  have hcount := hreads.count
  rw [List.length_append, List.length_singleton] at hcount
  rw [tail_from, hreads.meets.tail_search_eq hreads.ends (by omega)]
  rfl

theorem tail_from_none (hnone : log_get_entry log offset = none) : tail_from log offset = log.len := by
  simp [tail_from, tail_search, hnone]

/-- A search from a boundary finds the last entry, unless the boundary is at the end of the log. -/
theorem Leads.tail_from_boundary (hleads : Leads log log.head (es ++ [x]))
    (hat : AtBoundary log (es ++ [x]) offset) :
    (log_offset_end_distance log offset = 0 ∧ tail_from log offset = log.len) ∨
      (log_offset_end_distance log offset ≠ 0 ∧ tail_from log offset < log.len ∧
        Leads log (tail_from log offset) [x] ∧ entry_format.span log.len (tail_from log offset) [x] ≤
          entry_format.span log.len log.head (es ++ [x])) := by
  by_cases hdist : log_offset_end_distance log offset = 0
  · exact .inl ⟨hdist, tail_from_none (reads_none hdist).ends⟩
  · right
    obtain ⟨k, hk, hrecord⟩ := hat
    obtain ⟨hrest, hspan⟩ := hleads.at_record hk hrecord
    obtain ⟨hreads, hne⟩ := hrest.reads hdist
    have hlast : k ≤ es.length := by
      by_contra hbehind
      exact hne (List.drop_of_length_le (by rw [List.length_append, List.length_singleton]; omega))
    rw [List.drop_append_of_le_length hlast] at hrest hreads hspan
    have hat : entry_format.AtRecord log.len offset (es.drop k ++ [x]) (es.drop k).length
        (entry_format.advance log.len offset (es.drop k)) := .inl (by rw [List.take_left])
    obtain ⟨hend, hspan'⟩ := hrest.at_record (by simp) hat
    rw [List.drop_left] at hend hspan'
    obtain ⟨hmet, hspan''⟩ := hend.at_met
    rw [hreads.tail_from_eq]
    refine ⟨hdist, ?_, hmet, by omega⟩
    have hsmall := entry_small hleads.len x
    unfold met_offset SIZEOF_ENTRY
    unfold SIZEOF_ENTRY at hsmall
    split <;> omega

/-- The tail that is known or found is that of the last entry. -/
theorem Leads.tail_last (hleads : Leads log log.head (es ++ [x])) (htail : TailKnown log es x)
    (hend : log.end_ ≠ log.len) (hfinds : FindsEntry log) :
    log_get_tail log < log.len ∧ Leads log (log_get_tail log) [x] ∧
      entry_format.span log.len (log_get_tail log) [x] ≤ entry_format.span log.len log.head (es ++ [x]) := by
  obtain hcached | ⟨hknown, hcommit, happly⟩ := htail
  · have hlt : log.tail < log.len := by
      have hcases := entry_format.write_cases log.len (entry_format.advance log.len log.head es) x
      have hsize := entry_format.size_pos x
      have hsmall := entry_small hleads.len x
      omega
    have hat : entry_format.AtRecord log.len log.head (es ++ [x]) es.length log.tail :=
      .inr ⟨x, by simp, by rw [hcached, List.take_left]⟩
    have hlast := hleads.at_record (by simp) hat
    rw [List.drop_left] at hlast
    rw [log_get_tail, if_pos (Nat.ne_of_lt hlt)]
    exact ⟨hlt, hlast⟩
  · have hhead : AtBoundary log (es ++ [x]) log.head := ⟨0, Nat.zero_le _, .inl rfl⟩
    have hempty : is_log_empty log = false := by simp [is_log_empty, hend]
    have hsearch : log_get_tail log =
        if tail_from log log.commit ≠ log.len then tail_from log log.commit
        else if tail_from log log.apply ≠ log.len then tail_from log log.apply
        else tail_from log log.head := by
      simp [log_get_tail, hknown, hempty]
    rw [hsearch]
    obtain ⟨hdist, hnone⟩ | ⟨-, hfound, hlast⟩ := hleads.tail_from_boundary hcommit
    · obtain ⟨hdist', hnone'⟩ | ⟨-, hfound, hlast⟩ := hleads.tail_from_boundary happly
      · obtain ⟨hdist'', -⟩ | ⟨-, hfound, hlast⟩ := hleads.tail_from_boundary hhead
        · simp [FindsEntry, hknown, hdist, hdist', hdist''] at hfinds
        · rw [if_neg (by simp [hnone]), if_neg (by simp [hnone'])]
          exact ⟨hfound, hlast⟩
      · rw [if_neg (by simp [hnone]), if_pos (Nat.ne_of_lt hfound)]
        exact ⟨hfound, hlast⟩
    · rw [if_pos (Nat.ne_of_lt hfound)]
      exact ⟨hfound, hlast⟩

/-- Otherwise no entry is found. -/
theorem tail_of_not_finds (hfinds : ¬FindsEntry log) : log_get_tail log = log.len := by
  simp only [FindsEntry, not_or, not_not] at hfinds
  obtain ⟨htail, hcommit, happly, hhead⟩ := hfinds
  have hnone : ∀ offset, log_offset_end_distance log offset = 0 → tail_from log offset = log.len :=
    fun offset hdist => tail_from_none (reads_none hdist).ends
  simp [log_get_tail, htail, hnone _ hcommit, hnone _ happly, hnone _ hhead]

end tail

section built

/-- Logs that start with `log_new`: appends with enough room and head advances as in a run, and other values of
    the offsets `apply` and `commit` and of the cached tail at any time. The entries appended so far and the
    number of those that the head has passed are kept. -/
inductive Built : dare_log_t → List dare_log_entry_t → Nat → Prop where
  | new : Built log_new [] 0
  | append {log log' : dare_log_t} {es : List dare_log_entry_t} {passed : Nat} {idx : UInt64}
      (term req_id : UInt64) (clt_id : UInt16) (data : log_data) (hbuilt : Built log es passed)
      (hok : RoomyAppend log term req_id clt_id data)
      (happend : log_append_entry log term req_id clt_id data = (log', idx)) :
      Built log' (es ++ [⟨idx, term, req_id, clt_id, data⟩]) passed
  | advance_head {log : dare_log_t} {es : List dare_log_entry_t} {passed offset count : Nat}
      (hbuilt : Built log es passed) (hboundary : (offset, count) ∈ log_positions log) :
      Built { log with head := offset } es (passed + count)
  | move {log : dare_log_t} {es : List dare_log_entry_t} {passed : Nat} (apply commit tail : Nat)
      (hbuilt : Built log es passed) : Built { log with apply, commit, tail } es passed

variable {log : dare_log_t} {es : List dare_log_entry_t} {passed : Nat}

theorem Built.readable (hbuilt : Built log es passed) : passed ≤ es.length ∧ Readable log (es.drop passed) := by
  induction hbuilt with
  | new => exact ⟨Nat.zero_le _, rfl, .inl ⟨rfl, rfl, rfl⟩⟩
  | append term req_id clt_id data _ hok happend ih =>
    obtain ⟨hle, hread⟩ := ih
    rw [List.length_append, List.drop_append_of_le_length hle]
    exact ⟨Nat.le_add_right_of_le hle, readable_append hread hok happend⟩
  | advance_head _ hboundary ih =>
    obtain ⟨hle, hread⟩ := ih
    have hcount := hread.count_le hboundary
    rw [List.length_drop] at hcount
    rw [← List.drop_drop]
    exact ⟨by omega, readable_advance_head hread hboundary⟩
  | move apply commit tail _ ih =>
    obtain ⟨hle, hread⟩ := ih
    exact ⟨hle, hread.len, hread.path.imp_right fun hpath => hpath.congr_log rfl rfl rfl⟩

/-- The live entries of a log that is not empty end with the last one appended. -/
theorem Built.live (hbuilt : Built log es passed) (hnonempty : is_log_empty log = false)
    (hhead : log.head ≠ log.end_) :
    ∃ before x, es.getLast? = some x ∧ es.drop passed = before ++ [x] ∧ Path log log.head (before ++ [x]) := by
  obtain ⟨-, hread⟩ := hbuilt.readable
  obtain ⟨-, hempty, -⟩ | hpath := hread.path
  · simp [is_log_empty, hempty] at hnonempty
  · have hlive : es.drop passed ≠ [] := by
      intro hnil
      rw [hnil] at hpath
      exact hhead hpath.reaches
    refine ⟨(es.drop passed).dropLast, (es.drop passed).getLast hlive, ?_, ?_, ?_⟩
    · rw [← List.getLast?_eq_some_getLast hlive, List.getLast?_drop, if_neg]
      exact fun hle => hlive (List.drop_of_length_le hle)
    · exact (List.dropLast_concat_getLast hlive).symm
    · rw [List.dropLast_concat_getLast hlive]
      exact hpath

/-- The tail search finds the last entry: in a log built by appends that is neither empty nor full, with the
    cached tail reset and the offsets `apply` and `commit` where a reader comes by, `log_get_tail` gives an offset
    at which the header of the last entry is met. -/
theorem tail_search_finds_last (hbuilt : Built log es passed) (hnonempty : is_log_empty log = false)
    (hhead : log.head ≠ log.end_) (htail : log.tail = log.len) {applied committed : Nat}
    (happly : (log.apply, applied) ∈ log_positions log) (hcommit : (log.commit, committed) ∈ log_positions log) :
    ∃ entry x, log_get_entry log (log_get_tail log) = some entry ∧ es.getLast? = some x ∧
      entry_idx log.entries entry = x.idx ∧ entry_term log.entries entry = x.term := by
  obtain ⟨before, x, hlast, -, hpath⟩ := hbuilt.live hnonempty hhead
  have hboundary : ∀ {offset count : Nat}, (offset, count) ∈ log_positions log →
      AtBoundary log (before ++ [x]) offset := by
    intro offset count hmem
    obtain ⟨k, -, hk, hat⟩ := hpath.of_mem_positions hmem
    exact ⟨k, hk, hat⟩
  have hleads := hpath.leads hbuilt.readable.2.len
  have hend : log.end_ ≠ log.len := Nat.ne_of_lt hpath.end_lt
  have hfinds : FindsEntry log := by
    refine .inr (.inr (.inr ?_))
    rw [hpath.end_distance, RecordFormat.span_append]
    have hcost := entry_format.cost_pos log.len (entry_format.advance log.len log.head before) x
    rw [RecordFormat.span_singleton]
    omega
  obtain ⟨-, hfound, -⟩ := hleads.tail_last (.inr ⟨htail, hboundary hcommit, hboundary happly⟩) hend hfinds
  have hheader := hfound.header_at_met
  exact ⟨_, x, get_entry_of_distance (hfound.last_distance hend), hlast, hheader.idx, hheader.term⟩

theorem Run.built (hrun : Run RoomyAppend log es passed) : Built log es passed := by
  induction hrun with
  | new => exact .new
  | append term req_id clt_id data _ hok happend ih => exact ih.append term req_id clt_id data hok happend
  | advance_head _ hboundary ih => exact ih.advance_head hboundary

/-- A log that goes round the end of the buffer, with 1023 entries that are all committed, none of them applied,
    and without a cached tail. -/
theorem wrapped_log_built :
    ∃ log es, Built log es 1 ∧ es.length = 1024 ∧ log.end_ < log.head ∧ is_log_empty log = false ∧
      log.tail = log.len ∧ (log.apply, 0) ∈ log_positions log ∧ (log.commit, 1023) ∈ log_positions log := by
  obtain ⟨log, es, hrun, hcount, hhead, hend⟩ := wrap_of_long_commands
  have hlen : log.len = 67108864 := (indexed_of_short_run hrun).len.trans LOG_SIZE_eq
  have hpath := path_of_short_run hrun (by omega)
  have hlength : (es.drop 1).length = 1023 := by simp [hcount]
  have hmoved : Path { log with apply := log.head, commit := log.end_, tail := log.len } log.head (es.drop 1) :=
    hpath.congr_log rfl rfl rfl
  have hwrap : log.end_ < log.head := by omega
  refine ⟨_, es, hrun.roomy.built.move log.head log.end_ log.len, hcount, hwrap, hpath.not_empty, rfl, ?_, ?_⟩
  · exact hmoved.mem_positions 0 _ (Nat.zero_le _) (.inl rfl) (show 2 ≤ log.len + 1 by omega)
  · have hmem := hmoved.mem_positions 0 (log.len + 1) (Nat.le_refl _) hmoved.end_at (by omega)
    rwa [hlength] at hmem

theorem last_found_across_wrap :
    ∃ log es, Built log es 1 ∧ es.length = 1024 ∧ log.end_ < log.head ∧
      ∃ entry x, log_get_entry log (log_get_tail log) = some entry ∧ es.getLast? = some x ∧
        entry_idx log.entries entry = x.idx ∧ entry_term log.entries entry = x.term := by
  obtain ⟨log, es, hbuilt, hcount, hwrap, hnonempty, htail, happly, hcommit⟩ := wrapped_log_built
  exact ⟨log, es, hbuilt, hcount, hwrap,
    tail_search_finds_last hbuilt hnonempty (by omega) htail happly hcommit⟩

end built

end dare.log
