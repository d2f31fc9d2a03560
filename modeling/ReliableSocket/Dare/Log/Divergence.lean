import ReliableSocket.Dare.Log.Index
import ReliableSocket.Dare.Log.NcBuf

open memory ring

namespace dare.log

/-- The leader has a copy of the buffer `nc_buf[i]` of a follower. -/
structure CopiedNcBuf (leader follower : dare_log_t) (i : Nat) : Prop where
  len : nc_buf_len leader i = nc_buf_len follower i
  det : ∀ j < nc_buf_len follower i, nc_buf_det leader i j = nc_buf_det follower i j

/-- From the offset found for server `i` on, a reader meets the entries of the leader that are not
    among the entries `ys` of the server, and no other. -/
def FindsDivergence (leader : dare_log_t) (i : Nat) (es ys : List dare_log_entry_t) : Prop :=
  ∃ stop, log_walk leader (leader.len + 1) (log_find_remote_end_offset leader i) =
    some (es.drop (common_entries es ys), stop)

/-- If the server has more entries than the leader, the header of the next one fits at the end of the
    leader's log. -/
def ExtraEntryFits (leader : dare_log_t) (es ys : List dare_log_entry_t) : Prop :=
  leader.end_ < leader.len → common_entries es ys = es.length → es.length < ys.length →
    HeaderFits leader leader.end_

section search

variable {log : dare_log_t} {offset : Nat} {es ys : List dare_log_entry_t}

/-- A reader may also enter where the next entry is met. -/
theorem Path.at_met {x : dare_log_entry_t} (hpath : Path log offset (x :: es)) :
    Path log (met_offset log.len offset) (x :: es) := by
  by_cases hheader : offset + SIZEOF_ENTRY ≤ log.len
  · rwa [met_offset, if_pos hheader]
  · have hmin := x.le_len
    have hplace : entry_format.place log.len offset x = 0 := if_neg (by rw [entry_size]; omega)
    have hat := hpath.at_place
    rw [hplace] at hat
    rwa [met_offset, if_neg hheader]

/-- What a reader meets from the offset on at which the search ends. -/
theorem walk_from_common (hpath : Path log offset es)
    (hfits : common_entries es ys = es.length → es.length < ys.length → HeaderFits log log.end_) :
    Path log (if common_entries es ys = ys.length then
        entry_format.advance log.len offset (es.take (common_entries es ys))
      else met_offset log.len (entry_format.advance log.len offset (es.take (common_entries es ys))))
      (es.drop (common_entries es ys)) := by
  obtain ⟨hle, hle'⟩ := common_entries_le es ys
  generalize common_entries es ys = n at hfits hle hle'
  rw [← List.take_append_drop n es] at hpath
  have hrest := hpath.behind
  split
  · exact hrest
  · rename_i hmore
    cases hdrop : es.drop n with
    | cons x rest =>
      rw [hdrop] at hrest
      exact hrest.at_met
    | nil =>
      rw [hdrop] at hrest
      have hlength := List.drop_eq_nil_iff.mp hdrop
      have hheader := hfits (by omega) (by omega)
      have hat : entry_format.advance log.len offset (es.take n) = log.end_ := hrest.reaches
      rw [hat] at hrest ⊢
      rwa [met_offset, if_pos hheader]

end search

/-- A reader that starts at the beginning of the buffer meets an entry, unless the log ends there. -/
theorem walk_from_zero {log : dare_log_t} (hend : log.end_ < log.len) (hpos : 0 < log.end_)
    (hbig : 2 ^ 18 ≤ log.len) (fuel stop : Nat) : log_walk log fuel 0 ≠ some ([], stop) := by
  have hget : log_get_entry log 0 = some 0 := by
    have hne : log.end_ ≠ log.len := by omega
    have hstart : log.end_ ≠ 0 := by omega
    have hmin : SIZEOF_ENTRY ≤ log.len := by unfold SIZEOF_ENTRY; omega
    have hfit : log_fit_entry_header log 0 = true := by simpa [log_fit_entry_header] using hmin
    simp [log_get_entry, is_log_empty, log_offset_end_distance, hne, hstart, hfit]
  have hfit : log_fit_entry log 0 0 = true := by
    have hmax := (read_entry log.entries 0).len_lt
    rw [read_entry_len] at hmax
    unfold SIZEOF_ENTRY at hmax
    simp only [log_fit_entry, decide_eq_true_eq]
    omega
  cases fuel with
  | zero => simp [log_walk]
  | succ fuel => simp [log_walk, hget, hfit]

section divergence

variable {leader follower follower' : dare_log_t} {i : Nat} {es ys : List dare_log_entry_t}

/-- The leader's copy of the buffer records the entries of the follower. -/
theorem copied_records (hfollower : Path follower follower.commit ys)
    (hregion : nc_det_addr i ys.length ≤ ENTRIES_OFFSET)
    (hfill : log_entries_to_nc_buf follower i = some follower') (hcopy : CopiedNcBuf leader follower' i) :
    Records leader i follower.len follower.commit ys := by
  obtain ⟨m, heq, -, hrecords⟩ := log_entries_to_nc_buf_path hfollower hregion
  rw [hfill] at heq
  obtain rfl := Option.some.inj heq
  refine ⟨hcopy.len.trans hrecords.nc_len, fun j hj => ?_⟩
  rw [hcopy.det j (by rwa [hrecords.nc_len]), hrecords.det j hj]

/-- If the next entry of the follower stands at the beginning of the buffer, an old entry of the leader
    is found there instead of the end of its log. -/
theorem not_found_of_short_end (hpath : Path leader follower.commit es) (hlen : leader.len = LOG_SIZE)
    (hmatch : LogMatching es ys) (hrecords : Records leader i leader.len follower.commit ys)
    (hstale : NoStaleHeader leader follower.commit ys) (hcommon : common_entries es ys = es.length)
    (hmore : es.length < ys.length) (hshort : ¬HeaderFits leader leader.end_) :
    ¬FindsDivergence leader i es ys := by
  have hbig : leader.len = 2 ^ 26 := hlen.trans LOG_SIZE_eq
  have hsearch := find_end_of_records hpath (List.ne_nil_of_length_pos (by omega)) hlen hmatch hrecords
    (hstale.not_matched hpath)
  rw [if_neg (by omega), hcommon, List.take_length, hpath.reaches, met_offset, if_neg hshort] at hsearch
  rintro ⟨stop, hwalk⟩
  rw [hsearch, hcommon, List.drop_length] at hwalk
  unfold HeaderFits SIZEOF_ENTRY at hshort
  exact walk_from_zero hpath.end_lt (by omega) (by omega) _ _ hwalk

/-- Log adjustment finds where the entries of a follower and those of the leader diverge, unless the
    follower has entries that the leader has not and the leader's log ends less than a header before
    the end of the buffer. In this case the first of these entries stands at the beginning of the
    buffer, where the leader finds an old entry instead of the end of its log. -/
theorem divergence_found_iff (hleader : EntriesFrom leader follower.commit es)
    (hfollower : Path follower follower.commit ys) (hne : ys ≠ []) (hlen : leader.len = LOG_SIZE)
    (hlen' : follower.len = LOG_SIZE) (hmatch : LogMatching es ys)
    (hregion : nc_det_addr i ys.length ≤ ENTRIES_OFFSET)
    (hfill : log_entries_to_nc_buf follower i = some follower') (hcopy : CopiedNcBuf leader follower' i) :
    (ExtraEntryFits leader es ys → FindsDivergence leader i es ys) ∧
      (NoStaleHeader leader follower.commit ys → FindsDivergence leader i es ys →
        ExtraEntryFits leader es ys) := by
  have hrecords := copied_records hfollower hregion hfill hcopy
  rw [hlen', ← hlen] at hrecords
  obtain ⟨rfl, hempty⟩ | hpath := hleader
  · refine ⟨fun _ => ⟨log_find_remote_end_offset leader i, ?_⟩, fun _ _ hlt => ?_⟩
    · simp [log_walk, get_entry_of_empty hempty, common_entries_nil_left]
    · omega
  refine ⟨fun hfits => ?_, fun hstale hfound _ hcommon hmore => ?_⟩
  · have hheader := hfits hpath.end_lt
    have hwalk := walk_from_common hpath hheader
    have hlength := hwalk.length_le
    unfold SIZEOF_ENTRY at hlength
    have hsearch := find_end_of_records hpath hne hlen hmatch hrecords fun y hcommon hy hshort => by
      have hroom := hheader hcommon (List.getElem?_eq_some_iff.mp hy).1
      unfold HeaderFits at hroom
      omega
    unfold FindsDivergence
    rw [hsearch]
    exact ⟨_, hwalk.log_walk_eq (by omega)⟩
  · by_contra hshort
    exact not_found_of_short_end hpath hlen hmatch hrecords hstale hcommon hmore hshort hfound

/-- The bytes of one log with the buffers of another one. -/
def with_nc_buf (log other : dare_log_t) : dare_log_t :=
  { log with mem := fun a => if a < ENTRIES_OFFSET then other.mem a else log.mem a }

theorem len_with_nc_buf (log other : dare_log_t) : (with_nc_buf log other).len = log.len := rfl

theorem entries_with_nc_buf (log other : dare_log_t) : (with_nc_buf log other).entries = log.entries := by
  funext b
  exact if_neg (Nat.not_lt_of_le (Nat.le_add_right ENTRIES_OFFSET b))

theorem Path.with_nc_buf {log : dare_log_t} {offset : Nat} (hpath : Path log offset es) (other : dare_log_t) :
    Path (with_nc_buf log other) offset es :=
  hpath.congr_log rfl rfl (entries_with_nc_buf log other)

theorem copied_with_nc_buf {log other : dare_log_t}
    (hregion : nc_det_addr i (nc_buf_len other i) ≤ ENTRIES_OFFSET) :
    CopiedNcBuf (with_nc_buf log other) other i := by
  have hsame : ∀ a, a < ENTRIES_OFFSET → (with_nc_buf log other).mem a = other.mem a :=
    fun a ha => if_pos ha
  have hzero := nc_det_addr_zero i
  have hfirst := nc_det_addr_mono i (Nat.zero_le (nc_buf_len other i))
  refine ⟨nc_buf_len_congr fun a _ hhigh => hsame a (by omega), fun j hj => ?_⟩
  apply nc_buf_det_congr
  intro a _ hhigh
  have hstop := nc_det_addr_mono i (show j + 1 ≤ nc_buf_len other i by omega)
  exact hsame a (by omega)

end divergence

theorem divergence_behind_shared_entry :
    let x : dare_log_entry_t := ⟨1, 1, 0, 0, .noop⟩
    let es := [x, ⟨2, 3, 7, 4, zero_cmd 5 (by decide)⟩]
    let ys := [x, ⟨2, 2, 0, 0, .noop⟩, ⟨3, 2, 0, 0, .noop⟩]
    Path (log_of ys) 0 ys ∧ ∃ follower, log_entries_to_nc_buf (log_of ys) 1 = some follower ∧
      Path (with_nc_buf (log_of es) follower) 0 es ∧ common_entries es ys = 1 ∧
      FindsDivergence (with_nc_buf (log_of es) follower) 1 es ys := by
  intro x es ys
  have hleader : Path (log_of es) 0 es := path_log_of (by simp [es]) (by decide) (by decide)
  have hfollower : Path (log_of ys) 0 ys := path_log_of (by simp [ys]) (by decide) (by decide)
  obtain ⟨hrun, -⟩ := run_log_of es (by decide) (by decide)
  obtain ⟨hrun', -, hcommit, -⟩ := run_log_of ys (by decide) (by decide)
  rw [← hcommit] at hleader hfollower
  have hregion : nc_det_addr 1 ys.length ≤ ENTRIES_OFFSET := nc_det_addr_fits (by decide) (by decide)
  obtain ⟨m, hfill, -, hrecords⟩ := log_entries_to_nc_buf_path hfollower hregion
  generalize ({ log_of ys with mem := m } : dare_log_t) = published at hfill hrecords
  have hcopy : CopiedNcBuf (with_nc_buf (log_of es) published) published 1 :=
    copied_with_nc_buf (by rwa [hrecords.nc_len])
  have hpath := hleader.with_nc_buf published
  have hcommon : common_entries es ys = 1 := by
    simp [es, ys, common_entries]
  have hmatch : LogMatching es ys := (logMatching_of_term_ne _ _ (by decide)).cons
  rw [hcommit] at hpath hfollower
  refine ⟨hfollower, _, hfill, hpath, hcommon, ?_⟩
  rw [← hcommit] at hpath hfollower
  have hlen := (len_with_nc_buf (log_of es) published).trans (indexed_of_short_run hrun).len
  refine (divergence_found_iff (.inr hpath) hfollower (by simp [ys]) hlen (indexed_of_short_run hrun').len
    hmatch hregion hfill hcopy).1 fun _ hall => ?_
  rw [hcommon] at hall
  simp [es] at hall

/-- The leader's log ends 20 bytes before the end of the buffer. A follower that has committed all of
    it has one more entry, at the beginning of the buffer. The leader has none left, but from the
    offset that it finds its old entries would be read. -/
theorem old_entries_after_short_end :
    ∃ leader follower follower' y, Path leader follower.commit [] ∧ Path follower follower.commit [y] ∧
      leader.len = LOG_SIZE ∧ follower.len = LOG_SIZE ∧ leader.end_ = 67108844 ∧
      LogMatching [] [y] ∧ log_entries_to_nc_buf follower 0 = some follower' ∧
      CopiedNcBuf leader follower' 0 ∧ ¬FindsDivergence leader 0 [] [y] := by
  obtain ⟨log, es, hrun, hcount, hhead, -, hend, x, rest, rfl, -⟩ :=
    fill_of_commands 17387 (by decide) 65535 (by decide) 1023 (by decide)
  have hinv := indexed_of_short_run hrun
  have hlen : log.len = 67108864 := hinv.len.trans LOG_SIZE_eq
  have hlive : Path log 0 (x :: rest) := by
    rw [← hhead]
    exact path_of_short_run hrun (by simp)
  -- the follower has moved its head behind the first entry
  set before : dare_log_t := { log with head := 17435, commit := log.end_ } with hbefore
  have hnil : Path before before.end_ [] :=
    ⟨hlive.end_lt, Nat.le_of_lt hlive.end_lt, trivial, rfl, Nat.zero_lt_of_lt hlive.end_lt⟩
  obtain ⟨hfull, -⟩ | ⟨-, -, hfits, -⟩ | ⟨-, -, follower, happend, happ⟩ :=
    log_append_entry_cases before 1 0 0 .noop (show 2 ^ 18 ≤ log.len by omega)
      (Nat.le_of_lt hlive.end_lt)
  · exact absurd hfull (show log.end_ ≠ 17435 by omega)
  · exact absurd hfits (show ¬log.end_ + 48 ≤ log.len by omega)
  set y := new_entry before 1 0 0 .noop with hy
  have hcases := entry_format.write_cases log.len log.end_ y
  have hsize : entry_format.size y = 48 := rfl
  have hpath : Path follower before.end_ ([] ++ [y]) := by
    refine hnil.appended happ ?_ ?_
    · change 0 + entry_format.cost log.len log.end_ y < log.len
      omega
    · change entry_format.next log.len log.end_ y < log.len
      omega
  have hcommit : follower.commit = log.end_ := happ.commit
  rw [List.nil_append, show before.end_ = follower.commit from hcommit.symm] at hpath
  have hregion : nc_det_addr 0 [y].length ≤ ENTRIES_OFFSET :=
    nc_det_addr_fits (by decide) (show 1 ≤ MAX_NC_ENTRIES by decide)
  obtain ⟨m, hfill, -, hrecords⟩ := log_entries_to_nc_buf_path hpath hregion
  have hcopy : CopiedNcBuf (with_nc_buf log { follower with mem := m }) { follower with mem := m } 0 :=
    copied_with_nc_buf (by rwa [hrecords.nc_len])
  have hleader : Path (with_nc_buf log { follower with mem := m }) follower.commit [] := by
    rw [hcommit]
    exact hnil.congr_log rfl rfl (entries_with_nc_buf log _)
  have hlength : follower.len = log.len := happ.len
  refine ⟨_, follower, _, y, hleader, hpath, hinv.len, hlength.trans hinv.len, hend, ?_, hfill, hcopy, ?_⟩
  · intro k x' y' _ hx'
    simp at hx'
  -- the old entry has index 1, the entry of the follower index 1025
  have hfirst : (entry_idx log.entries 0).toNat = 1 := by
    have hheader := hlive.header_at_met
    rw [met_offset, if_pos (by unfold SIZEOF_ENTRY; omega)] at hheader
    rw [hheader.idx]
    exact hinv.indexes 0 (by simp)
  have hlast : y.idx.toNat = 1025 := by
    have hinv' : Indexed before (x :: rest) := ⟨hinv.len, hinv.indexes, hinv.tail⟩
    have hidx := hinv'.next_idx_toNat .noop
    rw [hcount] at hidx
    exact hidx
  have hrec := copied_records hpath hregion hfill hcopy
  rw [hlength] at hrec
  refine not_found_of_short_end hleader hinv.len (fun k x' y' _ hx' => by simp at hx') hrec ?_ rfl
    (by simp) (show ¬log.end_ + 48 ≤ log.len by omega)
  rintro k y' stop hy' - - ⟨hidx, -⟩
  rw [entries_with_nc_buf] at hidx
  obtain rfl : y = y' := by
    have hmem := List.mem_of_getElem? hy'
    exact (List.mem_singleton.mp hmem).symm
  rw [hidx, hlast] at hfirst
  omega

end dare.log
