import ReliableSocket.Dare.Log.Run

open memory ring

namespace dare.log

/-- Address of `nc_buf[i]`. -/
def nc_buf_addr (i : Nat) : Nat := i * SIZEOF_NC_BUF

/-- Address of `nc_buf[i].entries[k]`; nothing keeps `k` below `MAX_NC_ENTRIES`. -/
def nc_det_addr (i k : Nat) : Nat := nc_buf_addr i + 8 + SIZEOF_DET * k

def nc_buf_len (log : dare_log_t) (i : Nat) : Nat := (loadU64 log.mem (nc_buf_addr i)).toNat

def nc_buf_det (log : dare_log_t) (i k : Nat) : dare_log_entry_det_t where
  idx := loadU64 log.mem (nc_det_addr i k)
  term := loadU64 log.mem (nc_det_addr i k + 8)
  offset := loadU64 log.mem (nc_det_addr i k + 16)

/-- Write a 64-bit word behind the offsets of the log. -/
def write_word (log : dare_log_t) (a : Nat) (v : UInt64) : dare_log_t :=
  { log with mem := store log.mem a (leBytes 8 v.toNat) }

/-- The three assignments that record the entry at `entry` in slot `k`; each reads the entry after
    the ones before it have been made. -/
def write_det (log : dare_log_t) (i k entry : Nat) : dare_log_t :=
  let log := write_word log (nc_det_addr i k) (entry_idx log.entries entry)
  let log := write_word log (nc_det_addr i k + 8) (entry_term log.entries entry)
  write_word log (nc_det_addr i k + 16) (UInt64.ofNat entry)

/-- The loop of `log_entries_to_nc_buf` from an offset on, with the slots below `k` filled. -/
def nc_buf_fill (log : dare_log_t) (i : Nat) : Nat → Nat → Nat → Option (dare_log_t × Nat)
  | 0, _, _ => none
  | fuel + 1, offset, k =>
    match log_get_entry log offset with
    | none => some (log, k)
    | some entry =>
      let log := write_det log i k entry
      nc_buf_fill log i fuel (log_next_offset log entry) (k + 1)

/-- Publish the determinants of all entries that are not committed in `nc_buf[i]`. Nothing is
    returned if the walk over the log never ends. -/
def log_entries_to_nc_buf (log : dare_log_t) (i : Nat) : Option dare_log_t :=
  (nc_buf_fill log i (log.len + 1) log.commit 0).map fun result =>
    write_word result.1 (nc_buf_addr i) (UInt64.ofNat result.2)

/-- The loop of `log_find_remote_end_offset` with `n` determinants to go from slot `k` on. -/
def find_end_from (log : dare_log_t) (i : Nat) : Nat → Nat → Nat → Nat
  | 0, _, offset => offset
  | n + 1, k, _ =>
    let det := nc_buf_det log i k
    match log_get_entry log det.offset.toNat with
    | none => det.offset.toNat
    | some entry =>
      if entry_idx log.entries entry ≠ det.idx ∨ entry_term log.entries entry ≠ det.term then entry
      else find_end_from log i n (k + 1) (log_next_offset log entry)

/-- The offset after the last entry that the log shares with `nc_buf[i]`. The source leaves the
    result for an empty buffer undefined; its only caller never asks for it. -/
def log_find_remote_end_offset (log : dare_log_t) (i : Nat) : Nat :=
  find_end_from log i (nc_buf_len log i) 0 0

/-- The offset at which the entry that follows `offset` is met. -/
def met_offset (len offset : Nat) : Nat := if offset + SIZEOF_ENTRY ≤ len then offset else 0

section path

variable {log : dare_log_t} {offset : Nat} {x : dare_log_entry_t} {es : List dare_log_entry_t}

theorem Path.get_entry_met (hpath : Path log offset (x :: es)) :
    log_get_entry log offset = some (met_offset log.len offset) :=
  hpath.get_entry_cons

/-- What is met always has the header of the entry, be it the entry or a header left behind. -/
theorem Path.header_at_met (hpath : Path log offset (x :: es)) :
    HasHeader log.entries (met_offset log.len offset) x := by
  by_cases hheader : offset + SIZEOF_ENTRY ≤ log.len
  · rw [met_offset, if_pos hheader]
    exact hpath.holds.1 hheader
  · have hplace : entry_format.place log.len offset x = 0 := by
      have hmin := x.le_len
      apply if_neg
      rw [entry_size]
      omega
    have hread := hpath.read_at_place
    rw [hplace] at hread
    rw [met_offset, if_neg hheader]
    exact hasHeader_of_read_entry hread

/-- The loops that do not look at the data step from what is met to the next entry. -/
theorem next_offset_of_header (hheader : HasHeader log.entries (met_offset log.len offset) x) :
    log_next_offset log (met_offset log.len offset) = entry_format.next log.len offset x := by
  have hlen := hheader.len
  have hmin := x.le_len
  unfold log_next_offset log_fit_entry
  rw [hlen]
  by_cases hfits : offset + SIZEOF_ENTRY ≤ log.len
  · rw [met_offset, if_pos hfits, RecordFormat.next, RecordFormat.place, entry_size]
    by_cases hwhole : offset + x.len ≤ log.len
    · rw [if_pos hwhole, if_pos (by simp only [decide_eq_true_eq]; omega)]
    · rw [if_neg hwhole, if_neg (by simp only [decide_eq_true_eq]; omega)]
  · have hplace : entry_format.place log.len offset x = 0 := if_neg (by rw [entry_size]; omega)
    rw [met_offset, if_neg hfits, RecordFormat.next, hplace, entry_size]
    simp

/-- These loops meet the entries `es` from `offset` on, be it the entries or headers left behind. -/
def Meets (log : dare_log_t) : Nat → List dare_log_entry_t → Prop
  | _, [] => True
  | offset, x :: es =>
    log_get_entry log offset = some (met_offset log.len offset) ∧
      HasHeader log.entries (met_offset log.len offset) x ∧
      Meets log (entry_format.next log.len offset x) es

theorem Path.meets_first {rest : List dare_log_entry_t} (hpath : Path log offset (es ++ rest)) :
    Meets log offset es := by
  induction es generalizing offset with
  | nil => trivial
  | cons x es ih =>
    exact ⟨hpath.get_entry_met, hpath.header_at_met, ih hpath.tail⟩

/-- What is met only depends on the end, the length and the entries of the log. -/
theorem Meets.congr_log {log' : dare_log_t} (hmeets : Meets log offset es) (hend : log'.end_ = log.end_)
    (hlen : log'.len = log.len) (hentries : log'.entries = log.entries) : Meets log' offset es := by
  induction es generalizing offset with
  | nil => trivial
  | cons x es ih =>
    obtain ⟨hget, hheader, hrest⟩ := hmeets
    have hget' : log_get_entry log' offset = log_get_entry log offset := by
      unfold log_get_entry is_log_empty log_offset_end_distance log_fit_entry_header
      rw [hend, hlen]
    unfold Meets
    rw [hget', hlen, hentries]
    exact ⟨hget, hheader, ih hrest⟩

/-- From `offset` on these loops meet the entries `es` and then the end of the log. -/
structure Reads (log : dare_log_t) (offset : Nat) (es : List dare_log_entry_t) : Prop where
  meets : Meets log offset es
  ends : log_get_entry log (entry_format.advance log.len offset es) = none
  count : es.length ≤ log.len

theorem Path.reads (hpath : Path log offset es) : Reads log offset es := by
  have hlength := hpath.length_le
  unfold SIZEOF_ENTRY at hlength
  have hwhole : Path log offset (es ++ []) := by simpa using hpath
  refine ⟨hwhole.meets_first, ?_, by omega⟩
  have hnil : Path log log.end_ [] :=
    ⟨hpath.end_lt, Nat.le_of_lt hpath.end_lt, trivial, rfl, Nat.zero_lt_of_lt hpath.end_lt⟩
  rw [hpath.reaches]
  exact hnil.get_entry_nil

end path

section bounds

variable {log : dare_log_t} {i k : Nat}

theorem nc_det_addr_zero (i : Nat) : nc_det_addr i 0 = nc_buf_addr i + 8 := by
  rw [nc_det_addr, Nat.mul_zero, Nat.add_zero]

theorem nc_det_addr_last (i : Nat) : nc_det_addr i MAX_NC_ENTRIES = nc_buf_addr (i + 1) := by
  simp only [nc_det_addr, nc_buf_addr, SIZEOF_NC_BUF, SIZEOF_DET, MAX_NC_ENTRIES]
  omega

theorem nc_det_addr_mono (i : Nat) {k k' : Nat} (hle : k ≤ k') :
    nc_det_addr i k ≤ nc_det_addr i k' := by
  unfold nc_det_addr
  exact Nat.add_le_add_left (Nat.mul_le_mul_left _ hle) _

theorem nc_buf_addr_mono {i j : Nat} (hle : i ≤ j) : nc_buf_addr i ≤ nc_buf_addr j :=
  Nat.mul_le_mul_right _ hle

theorem nc_buf_addr_le (hi : i < MAX_SERVER_COUNT) : nc_buf_addr (i + 1) ≤ ENTRIES_OFFSET :=
  nc_buf_addr_mono (show i + 1 ≤ MAX_SERVER_COUNT from hi)

theorem nc_det_addr_le (hi : i < MAX_SERVER_COUNT) (hk : k ≤ MAX_NC_ENTRIES) :
    nc_det_addr i k ≤ nc_buf_addr (i + 1) ∧ nc_buf_addr (i + 1) ≤ ENTRIES_OFFSET := by
  simp only [nc_det_addr, nc_buf_addr, ENTRIES_OFFSET, SIZEOF_NC_BUF, SIZEOF_DET, MAX_NC_ENTRIES,
    MAX_SERVER_COUNT] at *
  omega

/-- A buffer that is not overrun lies before the circular buffer. -/
theorem nc_det_addr_fits (hi : i < MAX_SERVER_COUNT) (hk : k ≤ MAX_NC_ENTRIES) :
    nc_det_addr i k ≤ ENTRIES_OFFSET :=
  Nat.le_trans (nc_det_addr_le hi hk).1 (nc_det_addr_le hi hk).2

theorem entries_write_word (log : dare_log_t) {a : Nat} {v : UInt64} (ha : a + 8 ≤ ENTRIES_OFFSET) :
    (write_word log a v).entries = log.entries := by
  funext b
  simp only [dare_log_t.entries, write_word]
  exact store_outside (by rw [leBytes_length]; omega)

theorem loadU64_write_word (log : dare_log_t) (a : Nat) (v : UInt64) :
    loadU64 (write_word log a v).mem a = v :=
  loadU64_of_load (load_store (by simp))

theorem loadU64_write_word_outside {a b : Nat} {v : UInt64} (hout : b + 8 ≤ a ∨ a + 8 ≤ b) :
    loadU64 (write_word log a v).mem b = loadU64 log.mem b := by
  simp only [loadU64, write_word]
  rw [load_store_outside (by rw [leBytes_length]; omega)]

theorem write_word_outside {a b : Nat} {v : UInt64} (hout : b < a ∨ a + 8 ≤ b) :
    (write_word log a v).mem b = log.mem b :=
  store_outside (by rw [leBytes_length]; omega)

theorem nc_det_addr_succ (i k : Nat) : nc_det_addr i (k + 1) = nc_det_addr i k + 24 := by
  simp only [nc_det_addr, SIZEOF_DET]
  omega

theorem loadU64_congr {m m' : Mem} {a : Nat} (hagree : ∀ b, a ≤ b → b < a + 8 → m b = m' b) :
    loadU64 m a = loadU64 m' a := by
  unfold loadU64
  rw [load_congr hagree]

theorem nc_buf_det_congr {log' : dare_log_t}
    (hagree : ∀ a, nc_det_addr i k ≤ a → a < nc_det_addr i (k + 1) → log.mem a = log'.mem a) :
    nc_buf_det log i k = nc_buf_det log' i k := by
  rw [nc_det_addr_succ] at hagree
  simp only [nc_buf_det, dare_log_entry_det_t.mk.injEq]
  exact ⟨loadU64_congr fun b _ _ => hagree b (by omega) (by omega),
    loadU64_congr fun b _ _ => hagree b (by omega) (by omega),
    loadU64_congr fun b _ _ => hagree b (by omega) (by omega)⟩

theorem write_det_mem (log : dare_log_t) (i k entry : Nat) :
    write_det log i k entry = { log with mem := (write_det log i k entry).mem } := by
  simp only [write_det, write_word]

/-- Recording an entry in a slot of the buffer changes this slot only. -/
theorem write_det_spec (log : dare_log_t) (hregion : nc_det_addr i (k + 1) ≤ ENTRIES_OFFSET) (entry : Nat) :
    (write_det log i k entry).entries = log.entries ∧
      nc_buf_det (write_det log i k entry) i k =
        ⟨entry_idx log.entries entry, entry_term log.entries entry, UInt64.ofNat entry⟩ ∧
      ∀ a, a < nc_det_addr i k ∨ nc_det_addr i (k + 1) ≤ a →
        (write_det log i k entry).mem a = log.mem a := by
  have hsucc := nc_det_addr_succ i k
  have hfits : nc_det_addr i k + 24 ≤ ENTRIES_OFFSET := by
    rw [← hsucc]
    exact hregion
  set log₁ := write_word log (nc_det_addr i k) (entry_idx log.entries entry) with hlog₁
  have hentries₁ : log₁.entries = log.entries := entries_write_word log (by omega)
  set log₂ := write_word log₁ (nc_det_addr i k + 8) (entry_term log₁.entries entry) with hlog₂
  have hentries₂ : log₂.entries = log.entries := (entries_write_word log₁ (by omega)).trans hentries₁
  have hdet : write_det log i k entry =
      write_word log₂ (nc_det_addr i k + 16) (UInt64.ofNat entry) := rfl
  refine ⟨?_, ?_, ?_⟩
  · rw [hdet, entries_write_word log₂ (by omega), hentries₂]
  · rw [hdet]
    simp only [nc_buf_det, dare_log_entry_det_t.mk.injEq]
    refine ⟨?_, ?_, loadU64_write_word _ _ _⟩
    · rw [loadU64_write_word_outside (by omega), hlog₂, loadU64_write_word_outside (by omega), hlog₁,
        loadU64_write_word]
    · rw [loadU64_write_word_outside (by omega), hlog₂, loadU64_write_word, hentries₁]
  · intro a hout
    rw [hsucc] at hout
    rw [hdet, write_word_outside (by omega), hlog₂, write_word_outside (by omega), hlog₁,
      write_word_outside (by omega)]

/-- The loop records the entries that it meets, as long as there is place before the circular buffer. -/
theorem nc_buf_fill_meets {offset : Nat} {es : List dare_log_entry_t} (hmeets : Meets log offset es)
    (hregion : nc_det_addr i (k + es.length) ≤ ENTRIES_OFFSET) :
    ∃ m, (∀ fuel, nc_buf_fill log i (es.length + fuel) offset k =
        nc_buf_fill { log with mem := m } i fuel (entry_format.advance log.len offset es)
          (k + es.length)) ∧
      ({ log with mem := m } : dare_log_t).entries = log.entries ∧
      (∀ a, a < nc_det_addr i k ∨ nc_det_addr i (k + es.length) ≤ a → m a = log.mem a) ∧
      ∀ j (hj : j < es.length), nc_buf_det { log with mem := m } i (k + j) =
        ⟨es[j].idx, es[j].term,
          UInt64.ofNat (met_offset log.len (entry_format.advance log.len offset (es.take j)))⟩ := by
  induction es generalizing log offset k with
  | nil =>
    refine ⟨log.mem, fun fuel => ?_, rfl, fun _ _ => rfl, fun j hj => absurd hj (by simp)⟩
    simp [RecordFormat.advance]
  | cons x es ih =>
    obtain ⟨hget, hheader, hrest⟩ := hmeets
    have hsum : k + 1 + es.length = k + (es.length + 1) := by omega
    rw [List.length_cons, ← hsum] at hregion
    have hmono : nc_det_addr i k ≤ nc_det_addr i (k + 1) ∧
        nc_det_addr i (k + 1) ≤ nc_det_addr i (k + 1 + es.length) :=
      ⟨nc_det_addr_mono i (by omega), nc_det_addr_mono i (by omega)⟩
    obtain ⟨hentries, hdet, hframe⟩ :=
      write_det_spec log (Nat.le_trans hmono.2 hregion) (met_offset log.len offset)
    obtain ⟨m₁, hlog₁⟩ : ∃ m₁, write_det log i k (met_offset log.len offset) = { log with mem := m₁ } :=
      ⟨_, write_det_mem ..⟩
    rw [hlog₁] at hentries hdet hframe
    have hrest₁ : Meets { log with mem := m₁ } (entry_format.next log.len offset x) es :=
      hrest.congr_log rfl rfl hentries
    obtain ⟨m, hfill, hentries', hframe', hdets⟩ := ih (k := k + 1) hrest₁ hregion
    refine ⟨m, fun fuel => ?_, hentries'.trans hentries, ?_, ?_⟩
    · have hheader₁ : HasHeader ({ log with mem := m₁ } : dare_log_t).entries
          (met_offset log.len offset) x := by
        rw [hentries]
        exact hheader
      have hstep : log_next_offset { log with mem := m₁ } (met_offset log.len offset) =
          entry_format.next log.len offset x := next_offset_of_header hheader₁
      have hfuel : es.length + 1 + fuel = es.length + fuel + 1 := by omega
      rw [List.length_cons, hfuel, nc_buf_fill, hget]
      simp only [hlog₁, hstep]
      rw [hfill, hsum]
      rfl
    · intro a hout
      rw [List.length_cons, ← hsum] at hout
      rw [hframe' a (by omega), hframe a (by omega)]
    · intro j hj
      cases j with
      | zero =>
        have hsame : nc_buf_det { log with mem := m } i k = nc_buf_det { log with mem := m₁ } i k :=
          nc_buf_det_congr fun a _ hhigh => hframe' a (.inl hhigh)
        simp only [Nat.add_zero, List.getElem_cons_zero, List.take_zero, RecordFormat.advance]
        rw [hsame, hdet, hheader.idx, hheader.term]
      | succ j =>
        have hj' : j < es.length := by simpa using hj
        have hrest := hdets j hj'
        have hshift : k + (j + 1) = k + 1 + j := by omega
        simp only [List.getElem_cons_succ, List.take_succ_cons, RecordFormat.advance, hshift]
        exact hrest

/-- The buffer records the entries `ys` of a log of `len` bytes, which start at `offset`. -/
structure Records (log : dare_log_t) (i len offset : Nat) (ys : List dare_log_entry_t) : Prop where
  nc_len : nc_buf_len log i = ys.length
  det : ∀ j (hj : j < ys.length), nc_buf_det log i j =
    ⟨ys[j].idx, ys[j].term,
      UInt64.ofNat (met_offset len (entry_format.advance len offset (ys.take j)))⟩

theorem nc_buf_len_congr {log' : dare_log_t} (hagree : ∀ a, nc_buf_addr i ≤ a → a < nc_buf_addr i + 8 →
    log'.mem a = log.mem a) : nc_buf_len log' i = nc_buf_len log i := by
  unfold nc_buf_len
  rw [loadU64_congr hagree]

/-- What a buffer records comes from its own bytes. -/
theorem records_congr {log' : dare_log_t} {len c : Nat} {ys : List dare_log_entry_t}
    (hslots : ys.length ≤ MAX_NC_ENTRIES)
    (hagree : ∀ a, nc_buf_addr i ≤ a → a < nc_buf_addr (i + 1) → log'.mem a = log.mem a)
    (hrecords : Records log i len c ys) : Records log' i len c ys := by
  have hlast := nc_det_addr_last i
  have hzero := nc_det_addr_zero i
  have hfirst := nc_det_addr_mono i (Nat.zero_le MAX_NC_ENTRIES)
  refine ⟨?_, fun j hj => ?_⟩
  · rw [nc_buf_len_congr fun a hlow hhigh => hagree a hlow (by omega), hrecords.nc_len]
  · rw [← hrecords.det j hj]
    apply nc_buf_det_congr
    intro a hlow hhigh
    have hstart := nc_det_addr_mono i (Nat.zero_le j)
    have hstop := nc_det_addr_mono i (show j + 1 ≤ MAX_NC_ENTRIES by omega)
    exact hagree a (by omega) (by omega)

/-- Publishing the entries from the commit offset on: the buffer then has one determinant for each. -/
theorem log_entries_to_nc_buf_reads {es : List dare_log_entry_t} (hreads : Reads log log.commit es)
    (hregion : nc_det_addr i es.length ≤ ENTRIES_OFFSET) :
    ∃ m, log_entries_to_nc_buf log i = some { log with mem := m } ∧
      ({ log with mem := m } : dare_log_t).entries = log.entries ∧
      Records { log with mem := m } i log.len log.commit es := by
  have hcount := hreads.count
  obtain ⟨m, hfill, hentries, hframe, hdets⟩ :=
    nc_buf_fill_meets (k := 0) hreads.meets (by rwa [Nat.zero_add])
  have hlow : nc_buf_addr i + 8 ≤ ENTRIES_OFFSET := by
    rw [← nc_det_addr_zero]
    exact Nat.le_trans (nc_det_addr_mono i (Nat.zero_le _)) hregion
  set log' : dare_log_t := { log with mem := m } with hlog'
  have hstop : log_get_entry log' (entry_format.advance log.len log.commit es) = none := hreads.ends
  obtain ⟨final, hfinal⟩ : ∃ final, write_word log' (nc_buf_addr i) (UInt64.ofNat es.length) = final :=
    ⟨_, rfl⟩
  have hmem : ({ log with mem := final.mem } : dare_log_t) = final := by
    rw [← hfinal, hlog']
    rfl
  refine ⟨final.mem, ?_, ?_, ?_⟩
  · obtain ⟨fuel, hfuel⟩ : ∃ fuel, log.len + 1 = es.length + (fuel + 1) :=
      ⟨log.len - es.length, by omega⟩
    rw [hmem, ← hfinal, log_entries_to_nc_buf, hfuel, hfill, nc_buf_fill, hstop, Option.map_some,
      Nat.zero_add]
  · rw [hmem, ← hfinal, entries_write_word log' hlow, hentries]
  · rw [hmem]
    refine ⟨?_, fun j hj => ?_⟩
    · have hsmall : es.length % 2 ^ 64 = es.length := by
        simp only [nc_det_addr, nc_buf_addr, ENTRIES_OFFSET, SIZEOF_NC_BUF, SIZEOF_DET, MAX_NC_ENTRIES,
          MAX_SERVER_COUNT] at hregion
        omega
      rw [nc_buf_len, ← hfinal, loadU64_write_word, UInt64.toNat_ofNat', hsmall]
    · have hdet := hdets j hj
      rw [Nat.zero_add] at hdet
      rw [← hdet, ← hfinal]
      apply nc_buf_det_congr
      intro a ha _
      apply write_word_outside
      simp only [nc_det_addr] at ha
      omega

theorem log_entries_to_nc_buf_path {es : List dare_log_entry_t} (hpath : Path log log.commit es)
    (hregion : nc_det_addr i es.length ≤ ENTRIES_OFFSET) :
    ∃ m, log_entries_to_nc_buf log i = some { log with mem := m } ∧
      ({ log with mem := m } : dare_log_t).entries = log.entries ∧
      Records { log with mem := m } i log.len log.commit es :=
  log_entries_to_nc_buf_reads hpath.reads hregion

theorem log_entries_to_nc_buf_empty (i : Nat) (hempty : log.end_ = log.len) :
    log_entries_to_nc_buf log i = some (write_word log (nc_buf_addr i) 0) := by
  have hget : log_get_entry log log.commit = none := by
    simp [log_get_entry, is_log_empty, hempty]
  simp only [log_entries_to_nc_buf, nc_buf_fill, hget, Option.map_some]
  rfl

theorem records_empty (log : dare_log_t) (i len c : Nat) :
    Records (write_word log (nc_buf_addr i) 0) i len c [] := by
  refine ⟨?_, fun j hj => absurd hj (by simp)⟩
  rw [nc_buf_len, loadU64_write_word]
  rfl

end bounds

/-- The number of entries that two logs have in common before they diverge. -/
def common_entries : List dare_log_entry_t → List dare_log_entry_t → Nat
  | x :: es, y :: ys => if x = y then common_entries es ys + 1 else 0
  | _, _ => 0

section common

variable {x y : dare_log_entry_t} {es ys : List dare_log_entry_t}

theorem common_entries_same : common_entries (x :: es) (x :: ys) = common_entries es ys + 1 := by
  simp [common_entries]

theorem common_entries_differ (hne : x ≠ y) : common_entries (x :: es) (y :: ys) = 0 := by
  simp [common_entries, hne]

theorem common_entries_nil_left (ys : List dare_log_entry_t) : common_entries [] ys = 0 := rfl

theorem common_entries_nil_right (es : List dare_log_entry_t) : common_entries es [] = 0 := by
  cases es <;> rfl

theorem common_entries_le (es ys : List dare_log_entry_t) :
    common_entries es ys ≤ es.length ∧ common_entries es ys ≤ ys.length := by
  induction es generalizing ys with
  | nil => simp [common_entries_nil_left]
  | cons x es ih =>
    cases ys with
    | nil => simp [common_entries_nil_right]
    | cons y ys =>
      obtain ⟨hes, hys⟩ := ih ys
      by_cases hsame : x = y
      · subst hsame
        rw [common_entries_same]
        exact ⟨Nat.succ_le_succ hes, Nat.succ_le_succ hys⟩
      · rw [common_entries_differ hsame]
        exact ⟨Nat.zero_le _, Nat.zero_le _⟩

/-- What comes behind the common part does not matter. -/
theorem common_entries_append {es ys : List dare_log_entry_t} (hlt : common_entries es ys < es.length)
    (rest : List dare_log_entry_t) : common_entries (es ++ rest) ys = common_entries es ys := by
  induction es generalizing ys with
  | nil => simp at hlt
  | cons x es ih =>
    cases ys with
    | nil => simp [common_entries_nil_right]
    | cons y ys =>
      by_cases hsame : x = y
      · subst hsame
        rw [common_entries_same, List.length_cons] at hlt
        rw [List.cons_append, common_entries_same, common_entries_same, ih (by omega)]
      · rw [List.cons_append, common_entries_differ hsame, common_entries_differ hsame]

theorem common_entries_take (es ys : List dare_log_entry_t) :
    es.take (common_entries es ys) = ys.take (common_entries es ys) := by
  induction es generalizing ys with
  | nil => simp [common_entries_nil_left]
  | cons x es ih =>
    cases ys with
    | nil => simp [common_entries_nil_right]
    | cons y ys =>
      by_cases hsame : x = y
      · subst hsame
        rw [common_entries_same, List.take_succ_cons, List.take_succ_cons, ih ys]
      · rw [common_entries_differ hsame]
        rfl

end common

section find_end

/-- Log matching, for the entries of two logs from one offset on: after a common part the next
    entries stand at the same offset, and if they have the same index and term they are the same. -/
def LogMatching (es ys : List dare_log_entry_t) : Prop :=
  ∀ k x y, es.take k = ys.take k → es[k]? = some x → ys[k]? = some y →
    x.idx = y.idx → x.term = y.term → x = y

theorem LogMatching.head {x y : dare_log_entry_t} {es ys : List dare_log_entry_t}
    (hmatch : LogMatching (x :: es) (y :: ys)) (hidx : x.idx = y.idx) (hterm : x.term = y.term) :
    x = y :=
  hmatch 0 x y rfl rfl rfl hidx hterm

theorem LogMatching.tail {x : dare_log_entry_t} {es ys : List dare_log_entry_t}
    (hmatch : LogMatching (x :: es) (x :: ys)) : LogMatching es ys := by
  intro k x' y' htake hx hy
  refine hmatch (k + 1) x' y' ?_ ?_ ?_
  · simp [htake]
  · simpa using hx
  · simpa using hy

theorem LogMatching.cons {x : dare_log_entry_t} {es ys : List dare_log_entry_t}
    (hmatch : LogMatching es ys) : LogMatching (x :: es) (x :: ys) := by
  intro k x' y' htake hx hy
  cases k with
  | zero =>
    intro _ _
    exact (Option.some.inj hx).symm.trans (Option.some.inj hy)
  | succ k => exact hmatch k x' y' (List.cons.inj htake).2 hx hy

/-- Logs that diverge with entries of different terms. -/
theorem logMatching_of_term_ne {x y : dare_log_entry_t} (es ys : List dare_log_entry_t)
    (hterm : x.term ≠ y.term) : LogMatching (x :: es) (y :: ys) := by
  intro k x' y' htake hx hy _ hsame
  cases k with
  | zero =>
    obtain rfl := Option.some.inj hx
    obtain rfl := Option.some.inj hy
    exact absurd hsame hterm
  | succ k =>
    obtain rfl := (List.cons.inj htake).1
    exact absurd rfl hterm

theorem logMatching_nil (es : List dare_log_entry_t) : LogMatching es [] := by
  intro k x y _ _ hy
  cases hy

/-- If the entries of the log from `offset` on are the first ones of `ys` and no header fits at the end
    of the log, the words at the beginning of the buffer are not those of the next entry of `ys`. -/
def NoStaleHeader (log : dare_log_t) (offset : Nat) (ys : List dare_log_entry_t) : Prop :=
  ∀ k y stop, ys[k]? = some y → log_walk log (log.len + 1) offset = some (ys.take k, stop) →
    log.len < log.end_ + SIZEOF_ENTRY →
    ¬(entry_idx log.entries 0 = y.idx ∧ entry_term log.entries 0 = y.term)

/-- The place of the boundary after the first `k` entries that start at `offset`, or the beginning of
    the buffer if no header fits at this place. -/
def Boundary (len offset : Nat) (es : List dare_log_entry_t) (k r : Nat) : Prop :=
  r = entry_format.advance len offset (es.take k) ∨
    r = met_offset len (entry_format.advance len offset (es.take k))

/-- The two places of a boundary, in the form that copying needs. -/
theorem Boundary.start {len c k r : Nat} {es : List dare_log_entry_t} (hboundary : Boundary len c es k r) :
    r = entry_format.advance len c (es.take k) ∨
      (r = 0 ∧ len < entry_format.advance len c (es.take k) + entry_format.header) := by
  obtain hat | hmet := hboundary
  · exact .inl hat
  · unfold met_offset at hmet
    by_cases hfits : entry_format.advance len c (es.take k) + SIZEOF_ENTRY ≤ len
    · rw [if_pos hfits] at hmet
      exact .inl hmet
    · rw [if_neg hfits] at hmet
      exact .inr ⟨hmet, Nat.lt_of_not_le hfits⟩

theorem Boundary.append {len c k r : Nat} {es : List dare_log_entry_t} (hk : k ≤ es.length)
    (rest : List dare_log_entry_t) (hboundary : Boundary len c es k r) : Boundary len c (es ++ rest) k r := by
  unfold Boundary
  rw [List.take_append_of_le_length hk]
  exact hboundary

theorem met_offset_lt {len : Nat} (hlen : 0 < len) (offset : Nat) : met_offset len offset < len := by
  unfold met_offset SIZEOF_ENTRY
  split <;> omega

theorem toNat_met_offset {len : Nat} (hlen : 0 < len) (hword : len ≤ 2 ^ 64) (offset : Nat) :
    (UInt64.ofNat (met_offset len offset)).toNat = met_offset len offset := by
  have hlt := met_offset_lt hlen offset
  rw [UInt64.toNat_ofNat', Nat.mod_eq_of_lt (by omega)]

/-- Looking up the offset that is met for an entry finds that offset. -/
theorem Path.get_entry_at_met {log : dare_log_t} {offset : Nat} {x : dare_log_entry_t}
    {es : List dare_log_entry_t} (hpath : Path log offset (x :: es)) :
    log_get_entry log (met_offset log.len offset) = some (met_offset log.len offset) := by
  by_cases hheader : offset + SIZEOF_ENTRY ≤ log.len
  · have hmet : met_offset log.len offset = offset := if_pos hheader
    have hget := hpath.get_entry_met
    rwa [hmet] at hget ⊢
  · have hmin := x.le_len
    have hplace : entry_format.place log.len offset x = 0 := if_neg (by rw [entry_size]; omega)
    have hget := hpath.get_entry_at_place
    rw [hplace] at hget
    rwa [met_offset, if_neg hheader]

/-- One turn of the search, once the entry has been looked up. -/
theorem find_end_step {log : dare_log_t} {i k met : Nat} {y : dare_log_entry_t} (n start : Nat)
    (hdet : nc_buf_det log i k = ⟨y.idx, y.term, UInt64.ofNat met⟩)
    (hmet : (UInt64.ofNat met).toNat = met) (hget : log_get_entry log met = some met) :
    find_end_from log i (n + 1) k start =
      if entry_idx log.entries met ≠ y.idx ∨ entry_term log.entries met ≠ y.term then met
      else find_end_from log i n (k + 1) (log_next_offset log met) := by
  simp only [find_end_from, hdet, hmet, hget]

/-- The search at the end of the log: there is no entry, or a stale one that does not match. -/
theorem find_end_at_end {log : dare_log_t} {i k n start : Nat} {y : dare_log_entry_t}
    (hend : log.end_ < log.len) (hmin : SIZEOF_ENTRY ≤ log.len) (hword : log.len ≤ 2 ^ 64)
    (hdet : nc_buf_det log i k = ⟨y.idx, y.term, UInt64.ofNat (met_offset log.len log.end_)⟩)
    (hstale : log.len < log.end_ + SIZEOF_ENTRY →
      ¬(entry_idx log.entries 0 = y.idx ∧ entry_term log.entries 0 = y.term)) :
    find_end_from log i (n + 1) k start = met_offset log.len log.end_ := by
  have hmet := toNat_met_offset (by omega) hword log.end_
  have hne : log.end_ ≠ log.len := by omega
  by_cases hheader : log.end_ + SIZEOF_ENTRY ≤ log.len
  · have hat : met_offset log.len log.end_ = log.end_ := if_pos hheader
    have hget : log_get_entry log log.end_ = none := by
      simp [log_get_entry, is_log_empty, log_offset_end_distance, hne]
    simp only [find_end_from, hdet, hmet]
    rw [hat, hget]
  · have hat : met_offset log.len log.end_ = 0 := if_neg hheader
    have hget : log_get_entry log 0 = some 0 := by
      have hpos : log.end_ ≠ 0 := by omega
      have hfit : log_fit_entry_header log 0 = true := by
        simpa [log_fit_entry_header] using hmin
      simp [log_get_entry, is_log_empty, log_offset_end_distance, hne, hpos, hfit]
    have hdiffer := hstale (by omega)
    rw [hat] at hdet hmet ⊢
    rw [find_end_step _ _ hdet hmet hget, if_pos (not_and_or.mp hdiffer)]

/-- The determinants of the entries `es` that start at `offset` lead to these entries, or to headers left
    behind. -/
def Found (log : dare_log_t) : Nat → List dare_log_entry_t → Prop
  | _, [] => True
  | offset, x :: es =>
    log_get_entry log (met_offset log.len offset) = some (met_offset log.len offset) ∧
      HasHeader log.entries (met_offset log.len offset) x ∧ Found log (entry_format.next log.len offset x) es

theorem Path.found {log : dare_log_t} {offset : Nat} {es : List dare_log_entry_t} (hpath : Path log offset es) :
    Found log offset es := by
  induction es generalizing offset with
  | nil => trivial
  | cons x es ih => exact ⟨hpath.get_entry_at_met, hpath.header_at_met, ih hpath.tail⟩

/-- Where the search ends: behind the last entry of the server, or where the first entry is met that the
    logs do not have in common. What happens if the server has more entries is left open. -/
theorem find_end_common {log : dare_log_t} {i k offset : Nat} {es ys : List dare_log_entry_t} (start : Nat)
    (hfound : Found log offset es) (hlen : 0 < log.len) (hword : log.len ≤ 2 ^ 64)
    (hdets : ∀ j (hj : j < ys.length), nc_buf_det log i (k + j) = ⟨ys[j].idx, ys[j].term,
      UInt64.ofNat (met_offset log.len (entry_format.advance log.len offset (ys.take j)))⟩)
    (hmatch : LogMatching es ys) (hstart : ys = [] → start = offset)
    (hmore : ∀ y k n start, common_entries es ys = es.length → ys[es.length]? = some y →
      nc_buf_det log i k =
        ⟨y.idx, y.term, UInt64.ofNat (met_offset log.len (entry_format.advance log.len offset es))⟩ →
      find_end_from log i (n + 1) k start = met_offset log.len (entry_format.advance log.len offset es)) :
    find_end_from log i ys.length k start =
      if common_entries es ys = ys.length then
        entry_format.advance log.len offset (es.take (common_entries es ys))
      else
        met_offset log.len (entry_format.advance log.len offset (es.take (common_entries es ys))) := by
  induction ys generalizing offset es k start with
  | nil =>
    rw [common_entries_nil_right]
    exact hstart rfl
  | cons y ys ih =>
    have hdet : nc_buf_det log i k =
        ⟨y.idx, y.term, UInt64.ofNat (met_offset log.len offset)⟩ := hdets 0 (by simp)
    cases es with
    | nil =>
      -- the server has one more entry than the log
      rw [common_entries_nil_left, if_neg (by simp)]
      exact hmore y k ys.length start rfl rfl hdet
    | cons x es =>
      obtain ⟨hget, hheader, hrest⟩ := hfound
      have hmet := toNat_met_offset hlen hword offset
      have hlength : (y :: ys).length = ys.length + 1 := rfl
      have hstep := find_end_step ys.length start hdet hmet hget
      rw [hheader.idx, hheader.term] at hstep
      by_cases hsame : x = y
      · subst hsame
        rw [hlength, hstep, if_neg (by simp), next_offset_of_header hheader, common_entries_same]
        have hnext := ih (k := k + 1) (entry_format.next log.len offset x) hrest
          (fun j hj => by
            have hdet' := hdets (j + 1) (by simpa using hj)
            rw [Nat.add_right_comm, Nat.add_assoc]
            simpa [RecordFormat.advance, Nat.add_comm] using hdet')
          hmatch.tail (fun _ => rfl)
          (fun y' k n start hcommon hy => hmore y' k n start (by rw [common_entries_same, hcommon]; rfl)
            (by simpa using hy))
        rw [hnext]
        simp [RecordFormat.advance]
      · have hdiffer : x.idx ≠ y.idx ∨ x.term ≠ y.term := by
          by_contra hequal
          obtain ⟨hidx, hterm⟩ := not_or.mp hequal
          exact hsame (hmatch.head (not_not.mp hidx) (not_not.mp hterm))
        rw [hlength, hstep, if_pos hdiffer, common_entries_differ hsame, if_neg (by omega)]
        rfl

theorem NoStaleHeader.not_matched {log : dare_log_t} {offset : Nat} {es ys : List dare_log_entry_t}
    (hstale : NoStaleHeader log offset ys) (hpath : Path log offset es) (y : dare_log_entry_t)
    (hcommon : common_entries es ys = es.length) (hy : ys[es.length]? = some y)
    (hshort : log.len < log.end_ + SIZEOF_ENTRY) :
    ¬(entry_idx log.entries 0 = y.idx ∧ entry_term log.entries 0 = y.term) := by
  have hlength := hpath.length_le
  unfold SIZEOF_ENTRY at hlength
  refine hstale es.length y log.end_ hy ?_ hshort
  rw [← hcommon, ← common_entries_take, hcommon, List.take_length]
  exact hpath.log_walk_eq (by omega)

/-- The search over what a buffer records of the entries `ys` of a server. -/
theorem find_end_of_records {log : dare_log_t} {i offset : Nat} {es ys : List dare_log_entry_t}
    (hpath : Path log offset es) (hne : ys ≠ []) (hlen : log.len = LOG_SIZE) (hmatch : LogMatching es ys)
    (hrecords : Records log i log.len offset ys)
    (hstale : ∀ y, common_entries es ys = es.length → ys[es.length]? = some y →
      log.len < log.end_ + SIZEOF_ENTRY →
      ¬(entry_idx log.entries 0 = y.idx ∧ entry_term log.entries 0 = y.term)) :
    log_find_remote_end_offset log i =
      if common_entries es ys = ys.length then
        entry_format.advance log.len offset (es.take (common_entries es ys))
      else met_offset log.len (entry_format.advance log.len offset (es.take (common_entries es ys))) := by
  have hbig : log.len = 2 ^ 26 := hlen.trans LOG_SIZE_eq
  unfold log_find_remote_end_offset
  rw [hrecords.nc_len]
  refine find_end_common 0 hpath.found (by omega) (by omega) (fun j hj => ?_) hmatch
    (fun hnil => absurd hnil hne) fun y k n start hcommon hy hdet => ?_
  · rw [Nat.zero_add]
    exact hrecords.det j hj
  · -- at the end of the log a header that was left at the beginning of the buffer must not be taken for an entry
    rw [hpath.reaches] at hdet ⊢
    exact find_end_at_end hpath.end_lt (by unfold SIZEOF_ENTRY; omega) (by omega) hdet (hstale y hcommon hy)

theorem find_end_empty {log : dare_log_t} {i k n start offset : Nat} {y : dare_log_entry_t}
    (hempty : log.end_ = log.len) (hlen : 0 < log.len) (hword : log.len ≤ 2 ^ 64)
    (hdet : nc_buf_det log i k = ⟨y.idx, y.term, UInt64.ofNat (met_offset log.len offset)⟩) :
    find_end_from log i (n + 1) k start = met_offset log.len offset := by
  have hget : ∀ o, log_get_entry log o = none := fun o => by
    simp [log_get_entry, is_log_empty, hempty]
  simp only [find_end_from, hdet, toNat_met_offset hlen hword, hget]

end find_end
end dare.log
