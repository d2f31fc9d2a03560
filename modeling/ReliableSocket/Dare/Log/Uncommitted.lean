import ReliableSocket.Dare.Log.NcBuf

open memory ring

namespace dare.log

/-- Publishing the entries that are not committed ends, uses the slots of the buffer only, and every
    offset that is recorded lies before the end of the log, as seen from the commit offset. -/
def NcBufBounded (log : dare_log_t) (i : Nat) : Prop :=
  ∃ fuel log' n, nc_buf_fill log i fuel log.commit 0 = some (log', n) ∧ n ≤ MAX_NC_ENTRIES ∧
    ∀ j < n, ring.dist log.len log.commit (nc_buf_det log' i j).offset.toNat <
      ring.dist log.len log.commit log.end_

/-- Entries that stand one after the other from `offset` on, before the end of the buffer. -/
def Stand (log : dare_log_t) : Nat → List dare_log_entry_t → Prop
  | _, [] => True
  | offset, x :: es =>
    HasHeader log.entries offset x ∧ offset + x.len ≤ log.len ∧ Stand log (offset + x.len) es

/-- The offset after such entries. -/
def stand_end : Nat → List dare_log_entry_t → Nat
  | offset, [] => offset
  | offset, x :: es => stand_end (offset + x.len) es

/-- The logs of servers that become followers or handle a vote request: the entries `es` follow the
    commit offset and end at `stop`. The log is empty, or it has been written by appends, where an
    entry may also have filled the buffer to its last byte. Or `rc_recover_log` has cut it at the end of
    the buffer and set its end to zero: the next entry, which has not been recovered, stands at the
    beginning of the buffer, behind the commit offset. -/
inductive FollowerLog (log : dare_log_t) : List dare_log_entry_t → Nat → Prop where
  | empty (hempty : log.end_ = log.len) : FollowerLog log [] log.commit
  | written {es : List dare_log_entry_t} (hpath : Path log log.commit es) : FollowerLog log es log.end_
  | filled {es es' : List dare_log_entry_t} (hend : log.end_ < log.commit)
      (hstand : Stand log log.commit es) (hstop : stand_end log.commit es = log.len)
      (hpath : Path log 0 es') : FollowerLog log (es ++ es') log.end_
  | cut {es : List dare_log_entry_t} (hend : log.end_ = 0) (hcommit : 0 < log.commit)
      (hstand : Stand log log.commit es) (hstop : stand_end log.commit es < log.len)
      (hnext : log.len < stand_end log.commit es + SIZEOF_ENTRY ∨
        log.len < stand_end log.commit es + log_entry_len log.entries (stand_end log.commit es) ∧
          log_entry_len log.entries (stand_end log.commit es) < log.commit) :
      FollowerLog log es (stand_end log.commit es)

section fill

variable {log log' : dare_log_t} {i fuel offset k n : Nat}

/-- The loop only counts up. -/
theorem nc_buf_fill_le (hfill : nc_buf_fill log i fuel offset k = some (log', n)) : k ≤ n := by
  induction fuel generalizing log offset k with
  | zero => cases hfill
  | succ fuel ih =>
    rw [nc_buf_fill] at hfill
    cases hentry : log_get_entry log offset with
    | none =>
      simp only [hentry, Option.some.injEq, Prod.mk.injEq] at hfill
      omega
    | some entry =>
      simp only [hentry] at hfill
      have hle := ih hfill
      omega

/-- What the loop has recorded in a slot stays there, as long as no slot outside of the buffer is
    used. -/
theorem nc_buf_fill_frame (hfill : nc_buf_fill log i fuel offset k = some (log', n))
    (hregion : nc_det_addr i n ≤ ENTRIES_OFFSET) {j : Nat} (hj : j < k) :
    nc_buf_det log' i j = nc_buf_det log i j := by
  induction fuel generalizing log offset k with
  | zero => cases hfill
  | succ fuel ih =>
    rw [nc_buf_fill] at hfill
    cases hentry : log_get_entry log offset with
    | none =>
      simp only [hentry, Option.some.injEq, Prod.mk.injEq] at hfill
      rw [hfill.1]
    | some entry =>
      simp only [hentry] at hfill
      have hle := nc_buf_fill_le hfill
      have hslot := Nat.le_trans (nc_det_addr_mono i hle) hregion
      rw [ih hfill (by omega)]
      apply nc_buf_det_congr
      intro a _ hhigh
      have hbelow := nc_det_addr_mono i (show j + 1 ≤ k by omega)
      exact (write_det_spec log hslot entry).2.2 a (.inl (by omega))

/-- One turn of the loop records the offset that is met. -/
theorem nc_buf_fill_turn {entry : Nat} (hfill : nc_buf_fill log i fuel offset k = some (log', n))
    (hget : log_get_entry log offset = some entry) (hregion : nc_det_addr i n ≤ ENTRIES_OFFSET) :
    k < n ∧ (nc_buf_det log' i k).offset = UInt64.ofNat entry ∧
      ∃ log₁ fuel', log₁.entries = log.entries ∧ log₁.end_ = log.end_ ∧ log₁.len = log.len ∧
        nc_buf_fill log₁ i fuel' (log_next_offset log entry) (k + 1) = some (log', n) := by
  cases fuel with
  | zero => cases hfill
  | succ fuel =>
    rw [nc_buf_fill, hget] at hfill
    simp only at hfill
    have hlt : k < n := nc_buf_fill_le hfill
    have hslot := Nat.le_trans (nc_det_addr_mono i (show k + 1 ≤ n from hlt)) hregion
    obtain ⟨hentries, hdet, -⟩ := write_det_spec log hslot entry
    have hnext : log_next_offset (write_det log i k entry) entry = log_next_offset log entry := by
      unfold log_next_offset log_fit_entry
      rw [hentries]
      rfl
    rw [hnext] at hfill
    refine ⟨hlt, ?_, _, fuel, hentries, rfl, rfl, hfill⟩
    rw [nc_buf_fill_frame hfill hregion (Nat.lt_succ_self k), hdet]

/-- The loop goes past all entries that it meets, each in a slot of its own. -/
theorem nc_buf_fill_past {es : List dare_log_entry_t} (hmeets : Meets log offset es)
    (hfill : nc_buf_fill log i fuel offset k = some (log', n))
    (hregion : nc_det_addr i n ≤ ENTRIES_OFFSET) :
    k + es.length ≤ n ∧ ∃ log₁ fuel', log₁.entries = log.entries ∧ log₁.end_ = log.end_ ∧
      log₁.len = log.len ∧ nc_buf_fill log₁ i fuel' (entry_format.advance log.len offset es)
        (k + es.length) = some (log', n) := by
  induction es generalizing log offset fuel k with
  | nil => exact ⟨nc_buf_fill_le hfill, log, fuel, rfl, rfl, rfl, hfill⟩
  | cons x es ih =>
    obtain ⟨hget, hheader, hrest⟩ := hmeets
    obtain ⟨-, -, log₁, fuel₁, hentries₁, hend₁, hlen₁, hfill₁⟩ := nc_buf_fill_turn hfill hget hregion
    rw [next_offset_of_header hheader] at hfill₁
    obtain ⟨hle, log₂, fuel₂, hentries₂, hend₂, hlen₂, hfill₂⟩ :=
      ih (hrest.congr_log hend₁ hlen₁ hentries₁) hfill₁
    rw [hlen₁] at hfill₂
    have hsum : k + (x :: es).length = k + 1 + es.length := by
      rw [List.length_cons]
      omega
    rw [hsum]
    exact ⟨hle, log₂, fuel₂, hentries₂.trans hentries₁, hend₂.trans hend₁, hlen₂.trans hlen₁, hfill₂⟩

/-- A walk that ends after entries that are few enough and stand before the end. -/
theorem bounded_of_meets {es : List dare_log_entry_t} (hi : i < MAX_SERVER_COUNT)
    (hlen : log.len = LOG_SIZE) (hmeets : Meets log log.commit es)
    (hstop : log_get_entry log (entry_format.advance log.len log.commit es) = none)
    (hcount : es.length ≤ MAX_NC_ENTRIES)
    (hbefore : ∀ j < es.length, ring.dist log.len log.commit
      (met_offset log.len (entry_format.advance log.len log.commit (es.take j))) <
        ring.dist log.len log.commit log.end_) : NcBufBounded log i := by
  obtain ⟨m, hfill, hentries, -, hdets⟩ :=
    nc_buf_fill_meets (k := 0) hmeets (nc_det_addr_fits hi (by rwa [Nat.zero_add]))
  refine ⟨es.length + 1, { log with mem := m }, es.length, ?_, hcount, fun j hj => ?_⟩
  · have hstop' : log_get_entry { log with mem := m } (entry_format.advance log.len log.commit es) = none :=
      hstop
    rw [hfill, nc_buf_fill, hstop', Nat.zero_add]
  · have hdet := hdets j hj
    rw [Nat.zero_add] at hdet
    rw [LOG_SIZE_eq] at hlen
    rw [hdet, toNat_met_offset (by omega) (by omega)]
    exact hbefore j hj

end fill

section shapes

variable {log : dare_log_t} {offset i : Nat} {es es' : List dare_log_entry_t}

theorem Meets.append (hmeets : Meets log offset es)
    (hmeets' : Meets log (entry_format.advance log.len offset es) es') : Meets log offset (es ++ es') := by
  induction es generalizing offset with
  | nil => exact hmeets'
  | cons x es ih => exact ⟨hmeets.1, hmeets.2.1, ih hmeets.2.2 hmeets'⟩

theorem Stand.advance_eq (hstand : Stand log offset es) :
    entry_format.advance log.len offset es = stand_end offset es := by
  induction es generalizing offset with
  | nil => rfl
  | cons x es ih =>
    obtain ⟨-, hfits, hrest⟩ := hstand
    have hnext : entry_format.next log.len offset x = offset + x.len := by
      have hplace : entry_format.place log.len offset x = offset := if_pos hfits
      rw [RecordFormat.next, hplace, entry_size]
    rw [RecordFormat.advance, hnext, stand_end, ih hrest]

/-- Entries that stand one after the other are met, if the log ends before them. -/
theorem Stand.meets (hstand : Stand log offset es) (hend : log.end_ < offset) : Meets log offset es := by
  induction es generalizing offset with
  | nil => trivial
  | cons x es ih =>
    obtain ⟨hheader, hfits, hrest⟩ := hstand
    have hmin := x.le_len
    have hmet : met_offset log.len offset = offset := if_pos (by omega)
    have hplace : entry_format.place log.len offset x = offset := if_pos hfits
    unfold SIZEOF_ENTRY at hmin
    refine ⟨?_, by rwa [hmet], ?_⟩
    · have hne : log.end_ ≠ log.len := by omega
      have hbehind : ¬offset ≤ log.end_ := by omega
      have hdist : ¬log.len - (offset - log.end_) = 0 := by omega
      have hroom : 48 ≤ log.len - offset := by omega
      simp [log_get_entry, is_log_empty, log_offset_end_distance, log_fit_entry_header, SIZEOF_ENTRY, hne,
        hbehind, hdist, hroom, hmet]
    · rw [RecordFormat.next, hplace, entry_size]
      exact ih hrest (by omega)

theorem Stand.le_stand_end (hstand : Stand log offset es) : offset ≤ stand_end offset es := by
  induction es generalizing offset with
  | nil => exact Nat.le_refl _
  | cons x es ih =>
    have hle := ih hstand.2.2
    rw [stand_end]
    omega

/-- What is met on a path lies before the end of the log. -/
theorem Path.met_before (hpath : Path log offset es) {j : Nat} (hj : j < es.length) :
    ring.dist log.len offset (met_offset log.len (entry_format.advance log.len offset (es.take j))) <
      ring.dist log.len offset log.end_ := by
  have hsplit : es = es.take j ++ es[j] :: es.drop (j + 1) := by
    rw [← List.drop_eq_getElem_cons hj, List.take_append_drop]
  have hholds := hpath.holds
  have hspan := hpath.span_lt
  have hend := RecordFormat.dist_advance hpath.start_le hholds hspan
  rw [hpath.reaches] at hend
  rw [hend]
  rw [hsplit, RecordFormat.holds_append] at hholds
  have hsum : entry_format.span log.len offset (es.take j) +
      entry_format.cost log.len (entry_format.advance log.len offset (es.take j)) es[j] ≤
        entry_format.span log.len offset es := by
    conv_rhs => rw [hsplit, RecordFormat.span_append, RecordFormat.span]
    omega
  set o := entry_format.advance log.len offset (es.take j) with ho
  have hnear : ring.dist log.len o (met_offset log.len o) < entry_format.cost log.len o es[j] := by
    have hpos := entry_format.cost_pos log.len o es[j]
    by_cases hfits : o + SIZEOF_ENTRY ≤ log.len
    · rw [met_offset, if_pos hfits, dist_self]
      exact hpos
    · have hmin := es[j].le_len
      have hplace : entry_format.place log.len o es[j] = 0 := if_neg (by rw [entry_size]; omega)
      have hsize := entry_format.size_pos es[j]
      rw [met_offset, if_neg hfits]
      exact RecordFormat.dist_lt_cost_of_record (by omega) (Nat.le_of_eq hplace)
        (by rw [RecordFormat.next]; omega)
  have hfar := RecordFormat.dist_advance_add (b := met_offset log.len o) hpath.start_le hholds.1
    (by rw [← ho]; omega)
  rw [← ho] at hfar
  omega

theorem Stand.offset_at (hstand : Stand log offset es) {j : Nat} (hj : j < es.length) :
    offset ≤ entry_format.advance log.len offset (es.take j) ∧
      entry_format.advance log.len offset (es.take j) + SIZEOF_ENTRY ≤ log.len := by
  induction es generalizing offset j with
  | nil => simp at hj
  | cons x es ih =>
    obtain ⟨-, hfits, hrest⟩ := hstand
    have hmin := x.le_len
    cases j with
    | zero =>
      simp only [List.take_zero, RecordFormat.advance]
      omega
    | succ j =>
      have hplace : entry_format.place log.len offset x = offset := if_pos hfits
      obtain ⟨hlow, hhigh⟩ := ih hrest (j := j) (by simpa using hj)
      rw [List.take_succ_cons, RecordFormat.advance, RecordFormat.next, hplace, entry_size]
      omega

/-- The first record behind the end of the buffer is the first one at its beginning. -/
theorem next_from_len (len : Nat) (x : dare_log_entry_t) :
    entry_format.next len len x = entry_format.next len 0 x := by
  have hcases := entry_format.write_cases len len x
  have hcases₀ := entry_format.write_cases len 0 x
  have hfull := entry_format.size_pos x
  omega

theorem met_from_len {len : Nat} (hmin : SIZEOF_ENTRY ≤ len) (es : List dare_log_entry_t) :
    met_offset len (entry_format.advance len len es) = met_offset len (entry_format.advance len 0 es) := by
  cases es with
  | nil =>
    have hmet : met_offset len len = 0 := if_neg (by unfold SIZEOF_ENTRY; omega)
    have hmet₀ : met_offset len 0 = 0 := if_pos (by omega)
    exact hmet.trans hmet₀.symm
  | cons x es => rw [RecordFormat.advance, RecordFormat.advance, next_from_len]

/-- Behind an entry that has filled the buffer to its last byte, a reader goes on at the beginning. -/
theorem Path.meets_from_len (hpath : Path log 0 es) (hmin : SIZEOF_ENTRY ≤ log.len) :
    Meets log log.len es ∧ log_get_entry log (entry_format.advance log.len log.len es) = none := by
  have hlt := hpath.end_lt
  cases es with
  | nil =>
    have hend : log.end_ = 0 := hpath.reaches.symm
    refine ⟨trivial, ?_⟩
    have hne : log.end_ ≠ log.len := by omega
    have hbehind : ¬log.len ≤ log.end_ := by omega
    have hdist : log.len - (log.len - log.end_) = 0 := by omega
    simp [RecordFormat.advance, log_get_entry, is_log_empty, log_offset_end_distance, hne, hbehind, hdist]
  | cons x es =>
    have hsize := x.le_len
    have hnext := hpath.holds.2.2.1
    have hpos : log.end_ ≠ 0 := by
      have hdist := hpath.end_distance
      have hcost := entry_format.cost_pos log.len 0 x
      intro hzero
      simp only [log_offset_end_distance, hzero, RecordFormat.span] at hdist
      split at hdist
      · omega
      · simp at hdist
        omega
    have hmet : met_offset log.len log.len = 0 := if_neg (by unfold SIZEOF_ENTRY; omega)
    have hmet₀ : met_offset log.len 0 = 0 := if_pos (by omega)
    have hsame := next_from_len log.len x
    have hheader := hpath.header_at_met
    have htail : Meets log (entry_format.next log.len 0 x) es := by
      have hwhole : Path log (entry_format.next log.len 0 x) (es ++ []) := by simpa using hpath.tail
      exact hwhole.meets_first
    refine ⟨⟨?_, ?_, by rwa [hsame]⟩, ?_⟩
    · have hne : log.end_ ≠ log.len := by omega
      have hbehind : ¬log.len ≤ log.end_ := by omega
      have hdist : ¬log.len - (log.len - log.end_) = 0 := by omega
      simp [log_get_entry, is_log_empty, log_offset_end_distance, log_fit_entry_header, SIZEOF_ENTRY, hne,
        hbehind, hdist, hmet]
    · rwa [hmet, ← hmet₀]
    · have hreaches := hpath.reaches
      rw [RecordFormat.advance] at hreaches ⊢
      rw [hsame, hreaches]
      have hnil : Path log log.end_ [] :=
        ⟨hlt, Nat.le_of_lt hlt, trivial, rfl, Nat.zero_lt_of_lt hlt⟩
      exact hnil.get_entry_nil

/-- Entries before the end of the buffer, followed by a path from the beginning on, are met. -/
theorem filled_spec (hend : log.end_ < log.commit) (hstand : Stand log log.commit es)
    (hstop : stand_end log.commit es = log.len) (hpath : Path log 0 es') (hlen : log.len = LOG_SIZE) :
    Meets log log.commit (es ++ es') ∧
      log_get_entry log (entry_format.advance log.len log.commit (es ++ es')) = none ∧
      ∀ j < (es ++ es').length, ring.dist log.len log.commit (met_offset log.len
        (entry_format.advance log.len log.commit ((es ++ es').take j))) <
          ring.dist log.len log.commit log.end_ := by
  have hmin : SIZEOF_ENTRY ≤ log.len := by
    rw [hlen]
    decide
  have hcommit := hstand.le_stand_end
  have hadvance : entry_format.advance log.len log.commit es = log.len := hstand.advance_eq.trans hstop
  obtain ⟨hmeets, hnone⟩ := hpath.meets_from_len hmin
  refine ⟨(hstand.meets hend).append (by rwa [hadvance]), ?_, fun j hj => ?_⟩
  · rwa [RecordFormat.advance_append, hadvance]
  have hwhole := dist_cases log.len log.commit log.end_
  by_cases hfirst : j < es.length
  · obtain ⟨hlow, hhigh⟩ := hstand.offset_at hfirst
    rw [List.take_append_of_le_length (Nat.le_of_lt hfirst), met_offset, if_pos hhigh]
    have hnear := dist_cases log.len log.commit (entry_format.advance log.len log.commit (es.take j))
    unfold SIZEOF_ENTRY at hhigh
    omega
  · have hrest : j - es.length < es'.length := by
      rw [List.length_append] at hj
      omega
    have hbefore := hpath.met_before hrest
    rw [List.take_append, List.take_of_length_le (by omega), RecordFormat.advance_append, hadvance,
      met_from_len hmin]
    generalize met_offset log.len (entry_format.advance log.len 0 (es'.take (j - es.length))) = met
      at hbefore ⊢
    have hnear := dist_cases log.len log.commit met
    have hfar := dist_cases log.len 0 met
    have hfar' := dist_cases log.len 0 log.end_
    omega

/-- In a log that is cut at the end of the buffer a reader does not find the end. -/
theorem cut_not_bounded (hi : i < MAX_SERVER_COUNT) (hend : log.end_ = 0) (hcommit : 0 < log.commit)
    (hstand : Stand log log.commit es) (hstop : stand_end log.commit es < log.len)
    (hnext : log.len < stand_end log.commit es + SIZEOF_ENTRY ∨
      log.len < stand_end log.commit es + log_entry_len log.entries (stand_end log.commit es) ∧
        log_entry_len log.entries (stand_end log.commit es) < log.commit)
    (hlen : log.len = LOG_SIZE) : ¬NcBufBounded log i := by
  rintro ⟨fuel, log', n, hfill, hn, hbefore⟩
  have hregion := nc_det_addr_fits hi hn
  have hle := hstand.le_stand_end
  have hsize : log.len = 2 ^ 26 := hlen.trans LOG_SIZE_eq
  obtain ⟨-, log₁, fuel₁, hentries₁, hend₁, hlen₁, hfill₁⟩ :=
    nc_buf_fill_past (hstand.meets (by omega)) hfill hregion
  rw [hstand.advance_eq] at hfill₁
  generalize stand_end log.commit es = stop at hstop hnext hle hfill₁
  -- whatever is met at an offset other than the end is recorded, and must lie before the end
  have hmet : ∀ (log₂ : dare_log_t) (fuel₂ offset k : Nat), log₂.end_ = log.end_ → log₂.len = log.len →
      0 < offset → offset < log.len → nc_buf_fill log₂ i fuel₂ offset k = some (log', n) →
      log_get_entry log₂ offset = some (met_offset log.len offset) ∧
        ring.dist log.len log.commit (met_offset log.len offset) <
          ring.dist log.len log.commit log.end_ := by
    intro log₂ fuel₂ offset k hend₂ hlen₂ hpos hlt hfill₂
    have hget : log_get_entry log₂ offset = some (met_offset log.len offset) := by
      have hne : ¬0 = log.len := by omega
      have hbehind : ¬offset = 0 := by omega
      have hdist : ¬log.len - offset = 0 := by omega
      have hheader : (48 ≤ log.len - offset) ↔ offset + 48 ≤ log.len := by omega
      simp only [log_get_entry, is_log_empty, log_offset_end_distance, log_fit_entry_header, SIZEOF_ENTRY,
        met_offset, hend₂, hlen₂, hend]
      by_cases hfits : offset + 48 ≤ log.len
      · simp [hne, hbehind, hdist, hheader, hfits]
      · simp [hne, hbehind, hdist, hheader, hfits]
    obtain ⟨hk, hoffset, -⟩ := nc_buf_fill_turn hfill₂ hget hregion
    have hrecorded := hbefore k hk
    rw [hoffset, toNat_met_offset (by omega) (by omega)] at hrecorded
    exact ⟨hget, hrecorded⟩
  obtain ⟨hget, hrecorded⟩ := hmet log₁ fuel₁ stop _ hend₁ hlen₁ (by omega) hstop hfill₁
  by_cases hfits : stop + SIZEOF_ENTRY ≤ log.len
  · obtain hnone | ⟨hlong, hshort⟩ := hnext
    · omega
    obtain ⟨-, -, log₂, fuel₂, -, hend₂, hlen₂, hfill₂⟩ := nc_buf_fill_turn hfill₁ hget hregion
    have hstep : log_next_offset log₁ (met_offset log.len stop) =
        log_entry_len log.entries stop := by
      have hnofit : ¬log_entry_len log.entries stop ≤ log.len - stop := by omega
      rw [met_offset, if_pos hfits]
      simp [log_next_offset, log_fit_entry, hentries₁, hlen₁, hnofit]
    have hpos : 0 < log_entry_len log.entries stop := by omega
    rw [hstep] at hfill₂
    obtain ⟨-, hpassed⟩ := hmet log₂ fuel₂ _ _ (hend₂.trans hend₁) (hlen₂.trans hlen₁) hpos (by omega) hfill₂
    have hzero := dist_cases log.len log.commit 0
    have hfar := dist_cases log.len log.commit (log_entry_len log.entries stop)
    rw [hend] at hpassed
    unfold met_offset at hpassed
    split at hpassed <;> omega
  · rw [met_offset, if_neg hfits, hend] at hrecorded
    omega

end shapes

end dare.log
