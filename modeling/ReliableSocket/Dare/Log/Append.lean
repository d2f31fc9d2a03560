import ReliableSocket.Dare.Log.Entry

open memory ring

namespace dare.log

/-- The entry that `log_append_entry` writes. -/
def new_entry (log : dare_log_t) (term req_id : UInt64) (clt_id : UInt16) (data : log_data) :
    dare_log_entry_t where
  idx := next_idx (append_prepare log data)
  term := term
  req_id := req_id
  clt_id := clt_id
  data := data

/-- The header of an entry fits at an offset. -/
abbrev HeaderFits (log : dare_log_t) (offset : Nat) : Prop := offset + SIZEOF_ENTRY ≤ log.len

/-- An append never moves the other offsets and never writes into the not-committed buffers. -/
structure Kept (log log' : dare_log_t) : Prop where
  head : log'.head = log.head
  apply : log'.apply = log.apply
  commit : log'.commit = log.commit
  len : log'.len = log.len
  nc_buf : ∀ a, a < ENTRIES_OFFSET → log'.mem a = log.mem a

/-- What a successful append does: the entry stands where a record of its length has its place,
    its header also at the old end, and nothing else changes. -/
structure Appended (log log' : dare_log_t) (x : dare_log_entry_t) : Prop extends Kept log log' where
  tail : log'.tail = entry_format.place log.len log.end_ x
  end_ : log'.end_ = entry_format.next log.len log.end_ x
  stored : read_entry log'.entries (entry_format.place log.len log.end_ x) = x
  header : HeaderFits log log.end_ → HasHeader log'.entries log.end_ x
  frame : ∀ b, (b < entry_format.place log.len log.end_ x ∨ entry_format.next log.len log.end_ x ≤ b) →
    (HeaderFits log log.end_ → b < log.end_ ∨ log.end_ + SIZEOF_ENTRY ≤ b) →
    log'.entries b = log.entries b

/-- What an append does that finds the log full only after it has given up the place at the end. -/
structure Abandoned (log log' : dare_log_t) (tail : Nat) : Prop extends Kept log log' where
  tail : log'.tail = tail
  end_ : log'.end_ = 0
  frame : ∀ b, (b < log.end_ ∨ log.end_ + SIZEOF_ENTRY ≤ b) → log'.entries b = log.entries b

@[simp] theorem entries_write (log : dare_log_t) (offset : Nat) (bs : List UInt8) :
    (log.write offset bs).entries = store log.entries offset bs := by
  funext b
  have hcond : (ENTRIES_OFFSET + offset ≤ ENTRIES_OFFSET + b ∧
      ENTRIES_OFFSET + b < ENTRIES_OFFSET + offset + bs.length) ↔
      (offset ≤ b ∧ b < offset + bs.length) := by omega
  have hshift : ENTRIES_OFFSET + b - (ENTRIES_OFFSET + offset) = b - offset := by omega
  simp only [dare_log_t.entries, dare_log_t.write, store, hcond, hshift]

theorem nc_buf_write {log : dare_log_t} {offset a : Nat} {bs : List UInt8} (ha : a < ENTRIES_OFFSET) :
    (log.write offset bs).mem a = log.mem a := by
  simp only [dare_log_t.write]
  exact store_outside (by omega)

section fields

variable (log : dare_log_t) (offset : Nat) (bs : List UInt8) (data : log_data)

@[simp] theorem write_head : (log.write offset bs).head = log.head := rfl
@[simp] theorem write_apply : (log.write offset bs).apply = log.apply := rfl
@[simp] theorem write_commit : (log.write offset bs).commit = log.commit := rfl
@[simp] theorem write_end : (log.write offset bs).end_ = log.end_ := rfl
@[simp] theorem write_tail : (log.write offset bs).tail = log.tail := rfl
@[simp] theorem write_len : (log.write offset bs).len = log.len := rfl

@[simp] theorem prepare_head : (append_prepare log data).head = log.head := by
  unfold append_prepare; dsimp only; split <;> split <;> rfl
@[simp] theorem prepare_apply : (append_prepare log data).apply = log.apply := by
  unfold append_prepare; dsimp only; split <;> split <;> rfl
@[simp] theorem prepare_commit : (append_prepare log data).commit = log.commit := by
  unfold append_prepare; dsimp only; split <;> split <;> rfl
@[simp] theorem prepare_end : (append_prepare log data).end_ = log.end_ := by
  unfold append_prepare; dsimp only; split <;> split <;> rfl
@[simp] theorem prepare_len : (append_prepare log data).len = log.len := by
  unfold append_prepare; dsimp only; split <;> split <;> rfl
@[simp] theorem prepare_mem : (append_prepare log data).mem = log.mem := by
  unfold append_prepare; dsimp only; split <;> split <;> rfl
@[simp] theorem prepare_entries : (append_prepare log data).entries = log.entries := by
  funext b
  simp [dare_log_t.entries]

/-- A cached tail is used as it is. -/
theorem prepare_tail (htail : log.tail ≠ log.len) : (append_prepare log data).tail = log.tail := by
  unfold append_prepare
  by_cases htype : data.type ≠ HEAD
  · simp [htype, htail]
  · simp [htype, htail]

end fields

theorem Kept.refl (log : dare_log_t) : Kept log log :=
  ⟨rfl, rfl, rfl, rfl, fun _ _ => rfl⟩

theorem Kept.trans {log₁ log₂ log₃ : dare_log_t} (h₁ : Kept log₁ log₂) (h₂ : Kept log₂ log₃) :
    Kept log₁ log₃ :=
  ⟨h₂.head.trans h₁.head, h₂.apply.trans h₁.apply, h₂.commit.trans h₁.commit, h₂.len.trans h₁.len,
    fun a ha => (h₂.nc_buf a ha).trans (h₁.nc_buf a ha)⟩

theorem kept_write (log : dare_log_t) (offset : Nat) (bs : List UInt8) : Kept log (log.write offset bs) :=
  ⟨rfl, rfl, rfl, rfl, fun _ ha => nc_buf_write ha⟩

theorem kept_prepare (log : dare_log_t) (data : log_data) : Kept log (append_prepare log data) :=
  ⟨by simp, by simp, by simp, by simp, by simp⟩

/-- Once the header is written at the end of the log and the entry fits there, the data follows
    and the end moves behind the entry. -/
theorem append_data_fits (log : dare_log_t) (m : Mem) (x : dare_log_entry_t)
    (hheader : log.entries = store m log.end_ (header_bytes x.idx x.term x.req_id x.clt_id x.type))
    (hfits : log.end_ + x.len ≤ log.len) :
    ∃ log', append_data log log.end_ x.idx x.term x.req_id x.clt_id x.data = (log', x.idx) ∧
      Kept log log' ∧ log'.tail = log.end_ ∧ log'.end_ = log.end_ + x.len ∧
      log'.entries = put_entry m log.end_ x := by
  have hread : log_entry_len (put_entry m log.end_ x) log.end_ = x.len := by
    rw [← read_entry_len, read_put_entry]
  have hfinish : ∀ log₂ : dare_log_t, Kept log log₂ → log₂.end_ = log.end_ →
      log₂.entries = put_entry m log.end_ x →
      ∃ log', append_finish log₂ log.end_ x.idx = (log', x.idx) ∧ Kept log log' ∧
        log'.tail = log.end_ ∧ log'.end_ = log.end_ + x.len ∧ log'.entries = put_entry m log.end_ x := by
    intro log₂ hkept hend hentries
    refine ⟨_, rfl, ⟨hkept.head, hkept.apply, hkept.commit, hkept.len, hkept.nc_buf⟩, hend, ?_, hentries⟩
    rw [hentries, hread, hend]
  cases hdata : x.data with
  | noop =>
    refine hfinish log (Kept.refl log) rfl ?_
    simp [put_entry, put_header, hdata, log_data.body, log_data.len_bytes, hheader]
  | config cid =>
    refine hfinish _ (kept_write log _ _) rfl ?_
    simp [put_entry, put_header, hdata, log_data.body, log_data.len_bytes, hheader]
  | head offset =>
    refine hfinish _ (kept_write log _ _) rfl ?_
    simp [put_entry, put_header, hdata, log_data.body, log_data.len_bytes, hheader]
  | cmd type c =>
    have hlen : log_entry_len (log.write (log.end_ + DATA_OFFSET) (leBytes 2 c.len.toNat)).entries
        log.end_ = x.len := by
      have hput := (hasHeader_put_header m log.end_ x).len
      simpa [put_header, hdata, log_data.len_bytes, hheader] using hput
    have hfit : log_fit_entry (log.write (log.end_ + DATA_OFFSET) (leBytes 2 c.len.toNat)) log.end_
        log.end_ = true := by
      simp only [log_fit_entry, hlen, decide_eq_true_eq, write_len]
      omega
    simp only [append_data, write_end, hfit, if_true]
    refine hfinish _ ((kept_write log _ _).trans (kept_write _ _ _)) rfl ?_
    simp [put_entry, put_header, hdata, log_data.body, log_data.len_bytes, hheader]

theorem log_add_new_entry_at_zero (log : dare_log_t) (hend : log.end_ = 0)
    (hlen : SIZEOF_ENTRY ≤ log.len) :
    log_add_new_entry log = if log.head = 0 then none else some 0 := by
  have hpos : 0 < SIZEOF_ENTRY := by decide
  simp only [log_add_new_entry, is_log_full, is_log_empty, log_fit_entry_header, hend, Nat.sub_zero,
    decide_eq_true_eq, hlen, decide_true, Bool.not_true, Bool.or_false]
  by_cases hhead : log.head = 0
  · simp [hhead]
  · have hne : ¬0 = log.head := fun h => hhead h.symm
    have hlen0 : ¬0 = log.len := by omega
    simp [hhead, hne, hlen0]

/-- The entry is written at the beginning of the buffer, unless the head of the log is there. -/
theorem append_restart_spec (log : dare_log_t) {x : dare_log_entry_t} {type : cmd_type} {c : sm_cmd_t}
    (hdata : x.data = .cmd type c) (hlen : SIZEOF_ENTRY ≤ log.len) :
    ∃ log' idx, append_restart log x.idx x.term x.req_id x.clt_id type.val c = (log', idx) ∧
      Kept log log' ∧
      ((log.head = 0 ∧ idx = 0 ∧ log'.tail = log.tail ∧ log'.end_ = 0 ∧ log'.entries = log.entries) ∨
        (log.head ≠ 0 ∧ idx = x.idx ∧ log'.tail = 0 ∧ log'.end_ = x.len ∧
          log'.entries = put_entry log.entries 0 x)) := by
  have hadd := log_add_new_entry_at_zero { log with end_ := 0 } rfl hlen
  simp only [append_restart, hadd]
  by_cases hhead : log.head = 0
  · rw [if_pos hhead]
    exact ⟨_, _, rfl, ⟨rfl, rfl, rfl, rfl, fun _ _ => rfl⟩, .inl ⟨hhead, rfl, rfl, rfl, rfl⟩⟩
  · rw [if_neg hhead]
    set log₂ : dare_log_t := { log with end_ := 0 } with hlog₂
    have hkept := ((kept_write log₂ 0 (header_bytes x.idx x.term x.req_id x.clt_id type.val)).trans
      (kept_write _ (0 + DATA_OFFSET) (leBytes 2 c.len.toNat))).trans
      (kept_write _ (0 + CMD_OFFSET) c.cmd)
    have hput : (((log₂.write 0 (header_bytes x.idx x.term x.req_id x.clt_id type.val)).write
        (0 + DATA_OFFSET) (leBytes 2 c.len.toNat)).write (0 + CMD_OFFSET) c.cmd).entries =
        put_entry log.entries 0 x := by
      have htype : x.type = type.val := by simp [dare_log_entry_t.type, hdata, log_data.type]
      simp only [entries_write, put_entry, put_header, hdata, log_data.body, log_data.len_bytes, htype]
      rfl
    have hread : log_entry_len (put_entry log.entries 0 x) 0 = x.len := by
      rw [← read_entry_len, read_put_entry]
    refine ⟨_, _, rfl, ⟨rfl, rfl, rfl, rfl, hkept.nc_buf⟩, .inr ⟨hhead, rfl, rfl, ?_, hput⟩⟩
    change 0 + log_entry_len _ 0 = x.len
    rw [hput, hread, Nat.zero_add]

/-- Once the header is written at the end of the log and the command does not fit there, the append
    goes on at the beginning. -/
theorem append_data_wraps {log : dare_log_t} {m : Mem} {x : dare_log_entry_t} {type : cmd_type}
    {c : sm_cmd_t} (hdata : x.data = .cmd type c)
    (hheader : log.entries = store m log.end_ (header_bytes x.idx x.term x.req_id x.clt_id x.type))
    (hlen : SIZEOF_ENTRY ≤ log.len) (hend : log.end_ ≤ log.len) (hwraps : log.len < log.end_ + x.len) :
    ∃ log' idx, append_data log log.end_ x.idx x.term x.req_id x.clt_id x.data = (log', idx) ∧
      Kept log log' ∧
      ((log.head = 0 ∧ idx = 0 ∧ log'.tail = log.tail ∧ log'.end_ = 0 ∧
          log'.entries = put_header m log.end_ x) ∨
        (log.head ≠ 0 ∧ idx = x.idx ∧ log'.tail = 0 ∧ log'.end_ = x.len ∧
          log'.entries = put_entry (put_header m log.end_ x) 0 x)) := by
  set log₂ := log.write (log.end_ + DATA_OFFSET) (leBytes 2 c.len.toNat) with hlog₂
  have hentries : log₂.entries = put_header m log.end_ x := by
    simp [hlog₂, put_header, hdata, log_data.len_bytes, hheader]
  have hfit : log_fit_entry log₂ log.end_ log.end_ = false := by
    have hput := (hasHeader_put_header m log.end_ x).len
    simp only [log_fit_entry, hentries, hput, decide_eq_false_iff_not]
    simp only [hlog₂, write_len]
    omega
  have hbranch : append_data log log.end_ x.idx x.term x.req_id x.clt_id x.data =
      append_restart log₂ x.idx x.term x.req_id x.clt_id type.val c := by
    simp only [hdata, append_data, ← hlog₂]
    rw [if_neg (by simpa [hlog₂] using hfit)]
  obtain ⟨log', idx, hrestart, hkept, hcases⟩ := append_restart_spec log₂ hdata hlen
  refine ⟨log', idx, hbranch.trans hrestart, (kept_write log _ _).trans hkept, ?_⟩
  rwa [hentries] at hcases

theorem entry_size (x : dare_log_entry_t) : entry_format.size x = x.len := rfl

theorem appended_of_fits {log log' : dare_log_t} {x : dare_log_entry_t} (hkept : Kept log log')
    (hfits : log.end_ + x.len ≤ log.len) (htail : log'.tail = log.end_)
    (hend : log'.end_ = log.end_ + x.len) (hentries : log'.entries = put_entry log.entries log.end_ x) :
    Appended log log' x := by
  have hplace : entry_format.place log.len log.end_ x = log.end_ := if_pos hfits
  have hnext : entry_format.next log.len log.end_ x = log.end_ + x.len := by
    rw [RecordFormat.next, hplace, entry_size]
  have hread : read_entry log'.entries log.end_ = x := by rw [hentries, read_put_entry]
  refine ⟨hkept, ?_, ?_, ?_, fun _ => hasHeader_of_read_entry hread, ?_⟩
  · rw [hplace, htail]
  · rw [hnext, hend]
  · rw [hplace, hread]
  · intro b hout _
    rw [hplace, hnext] at hout
    rw [hentries, put_entry_outside hout]

theorem appended_of_wraps {log log' : dare_log_t} {x : dare_log_entry_t} {m : Mem}
    (hkept : Kept log log') (hwraps : log.len < log.end_ + x.len) (htail : log'.tail = 0)
    (hend : log'.end_ = x.len) (hentries : log'.entries = put_entry m 0 x)
    (hheader : HeaderFits log log.end_ → x.len ≤ log.end_ ∧ HasHeader m log.end_ x)
    (hframe : ∀ b, (HeaderFits log log.end_ → b < log.end_ ∨ log.end_ + SIZEOF_ENTRY ≤ b) →
      m b = log.entries b) :
    Appended log log' x := by
  have hplace : entry_format.place log.len log.end_ x = 0 := if_neg (by rw [entry_size]; omega)
  have hnext : entry_format.next log.len log.end_ x = x.len := by
    rw [RecordFormat.next, hplace, entry_size, Nat.zero_add]
  refine ⟨hkept, ?_, ?_, ?_, ?_, ?_⟩
  · rw [hplace, htail]
  · rw [hnext, hend]
  · rw [hplace, hentries, read_put_entry]
  · intro hfits
    obtain ⟨hbelow, hmarker⟩ := hheader hfits
    refine hasHeader_congr ?_ hmarker
    intro b hlow hhigh
    rw [hentries, put_entry_outside (by omega)]
  · intro b hout hfits
    rw [hplace, hnext] at hout
    rw [hentries, put_entry_outside (by omega), hframe b hfits]

/-- The append writes its header at the beginning if it does not fit at the end of the log. -/
theorem log_append_entry_header_wraps (log : dare_log_t) (term req_id : UInt64) (clt_id : UInt16)
    (data : log_data) (hlen : 2 ^ 18 ≤ log.len) (hfree : log.end_ ≠ log.head)
    (hheader : log.len < log.end_ + SIZEOF_ENTRY) :
    ∃ log', log_append_entry log term req_id clt_id data =
        (log', (new_entry log term req_id clt_id data).idx) ∧
      Appended log log' (new_entry log term req_id clt_id data) := by
  set x := new_entry log term req_id clt_id data with hx
  have hmin := x.le_len
  have hmax := x.len_lt
  unfold SIZEOF_ENTRY at hheader hmin hmax
  have hadd : log_add_new_entry (append_prepare log data) = some 0 := by
    have hfit : log_fit_entry_header (append_prepare log data) log.end_ = false := by
      simp only [log_fit_entry_header, prepare_len, SIZEOF_ENTRY, decide_eq_false_iff_not]
      omega
    simp [log_add_new_entry, is_log_full, hfree, hfit]
  set log₁ := (append_prepare log data).write 0 (header_bytes x.idx term req_id clt_id data.type) with hlog₁
  have hnofit : log_fit_entry_header log₁ log₁.end_ = false := by
    simp only [hlog₁, log_fit_entry_header, write_len, write_end, prepare_len, prepare_end,
      SIZEOF_ENTRY, decide_eq_false_iff_not]
    omega
  have happend : log_append_entry log term req_id clt_id data =
      append_data { log₁ with end_ := 0 } 0 x.idx x.term x.req_id x.clt_id x.data := by
    simp only [log_append_entry, hadd]
    change append_data (if !log_fit_entry_header log₁ log₁.end_ then { log₁ with end_ := 0 } else log₁)
      0 x.idx x.term x.req_id x.clt_id x.data = _
    simp [hnofit]
  have hkept : Kept log { log₁ with end_ := 0 } := by
    have hwrite := (kept_prepare log data).trans
      (kept_write _ 0 (header_bytes x.idx term req_id clt_id data.type))
    exact ⟨hwrite.head, hwrite.apply, hwrite.commit, hwrite.len, hwrite.nc_buf⟩
  obtain ⟨log', hdata, hkept', htail, hend, hentries⟩ :=
    append_data_fits { log₁ with end_ := 0 } log.entries x
      (by change log₁.entries = _; rw [hlog₁, entries_write, prepare_entries]; rfl)
      (by rw [hkept.len]; change 0 + x.len ≤ log.len; omega)
  refine ⟨log', happend.trans hdata, ?_⟩
  refine appended_of_wraps (hkept.trans hkept') (by omega) htail (by rw [hend]; exact Nat.zero_add _)
    hentries (fun hfits => ?_) fun b _ => rfl
  unfold HeaderFits SIZEOF_ENTRY at hfits
  omega

/-- If the header fits at the end of the log, the append goes on with the header written there. -/
theorem log_append_entry_header_fits (log : dare_log_t) (term req_id : UInt64) (clt_id : UInt16)
    (data : log_data) (hfree : log.end_ ≠ log.head) (hheader : HeaderFits log log.end_) :
    ∃ log₁, log_append_entry log term req_id clt_id data =
        append_data log₁ log₁.end_ (new_entry log term req_id clt_id data).idx term req_id clt_id data ∧
      Kept log log₁ ∧ log₁.end_ = log.end_ ∧ log₁.tail = (append_prepare log data).tail ∧
      log₁.entries = store log.entries log₁.end_
        (header_bytes (new_entry log term req_id clt_id data).idx term req_id clt_id data.type) := by
  set x := new_entry log term req_id clt_id data with hx
  unfold HeaderFits SIZEOF_ENTRY at hheader
  have hadd : log_add_new_entry (append_prepare log data) = some log.end_ := by
    have hfit : log_fit_entry_header (append_prepare log data) log.end_ = true := by
      simp only [log_fit_entry_header, prepare_len, SIZEOF_ENTRY, decide_eq_true_eq]
      omega
    have hempty : log.end_ ≠ log.len := by omega
    simp [log_add_new_entry, is_log_full, is_log_empty, hfree, hfit, hempty]
  set log₁ := (append_prepare log data).write log.end_ (header_bytes x.idx term req_id clt_id data.type)
    with hlog₁
  have hfit : log_fit_entry_header log₁ log₁.end_ = true := by
    simp only [hlog₁, log_fit_entry_header, write_len, write_end, prepare_len, prepare_end,
      SIZEOF_ENTRY, decide_eq_true_eq]
    omega
  have hend : log₁.end_ = log.end_ := by rw [hlog₁, write_end, prepare_end]
  refine ⟨log₁, ?_, (kept_prepare log data).trans (kept_write _ _ _), hend, rfl, ?_⟩
  · simp only [log_append_entry, hadd]
    change append_data (if !log_fit_entry_header log₁ log₁.end_ then { log₁ with end_ := 0 } else log₁)
      log.end_ x.idx term req_id clt_id data = _
    rw [hfit, hend]
    rfl
  · rw [hend, hlog₁, entries_write, prepare_entries]

/-- All that `log_append_entry` can do: find the log full, find it full after having given up the
    place at the end, or append the entry. -/
theorem log_append_entry_cases (log : dare_log_t) (term req_id : UInt64) (clt_id : UInt16)
    (data : log_data) (hlen : 2 ^ 18 ≤ log.len) (hend : log.end_ ≤ log.len) :
    (log.end_ = log.head ∧ log_append_entry log term req_id clt_id data = (append_prepare log data, 0)) ∨
    (log.end_ ≠ log.head ∧ log.head = 0 ∧ HeaderFits log log.end_ ∧
      log.len < log.end_ + (new_entry log term req_id clt_id data).len ∧
      ∃ log', log_append_entry log term req_id clt_id data = (log', 0) ∧
        Abandoned log log' (append_prepare log data).tail) ∨
    (log.end_ ≠ log.head ∧ (log.head = 0 → HeaderFits log log.end_ →
        log.end_ + (new_entry log term req_id clt_id data).len ≤ log.len) ∧
      ∃ log', log_append_entry log term req_id clt_id data =
          (log', (new_entry log term req_id clt_id data).idx) ∧
        Appended log log' (new_entry log term req_id clt_id data)) := by
  by_cases hfull : log.end_ = log.head
  · left
    refine ⟨hfull, ?_⟩
    simp [log_append_entry, log_add_new_entry, is_log_full, hfull]
  right
  by_cases hheader : HeaderFits log log.end_
  · obtain ⟨log₁, happend, hkept, hend₁, htail₁, hentries⟩ := log_append_entry_header_fits
      log term req_id clt_id data hfull hheader
    set x := new_entry log term req_id clt_id data with hx
    have hmax := x.len_lt
    by_cases hfits : log.end_ + x.len ≤ log.len
    · right
      obtain ⟨log', hdata, hkept', htail, hend', hentries'⟩ :=
        append_data_fits log₁ log.entries x hentries (by rw [hend₁, hkept.len]; exact hfits)
      rw [hend₁] at htail hend' hentries'
      exact ⟨hfull, fun _ _ => hfits, log', happend.trans hdata,
        appended_of_fits (hkept.trans hkept') hfits htail hend' hentries'⟩
    · have hbig : SIZEOF_ENTRY < x.len := by
        unfold HeaderFits at hheader
        omega
      obtain ⟨type, c, hcmd⟩ : ∃ type c, x.data = .cmd type c := by
        cases hkind : x.data with
        | cmd type c => exact ⟨type, c, rfl⟩
        | noop => simp [dare_log_entry_t.len, hkind, log_data.cmd_bytes] at hbig
        | config cid => simp [dare_log_entry_t.len, hkind, log_data.cmd_bytes] at hbig
        | head offset => simp [dare_log_entry_t.len, hkind, log_data.cmd_bytes] at hbig
      have hwraps : log.len < log.end_ + x.len := by omega
      obtain ⟨log', idx, hdata, hkept', hcases⟩ := append_data_wraps hcmd hentries
        (by rw [hkept.len]; unfold SIZEOF_ENTRY; omega) (by rw [hend₁, hkept.len]; exact hend)
        (by rw [hend₁, hkept.len]; exact hwraps)
      rw [hend₁, hkept.head] at hcases
      obtain ⟨hhead, rfl, htail, hend', hentries'⟩ | ⟨hhead, rfl, htail, hend', hentries'⟩ := hcases
      · left
        refine ⟨hfull, hhead, hheader, hwraps, log', happend.trans hdata, hkept.trans hkept',
          htail.trans htail₁, hend', fun b hout => ?_⟩
        rw [hentries', put_header_outside hout]
      · right
        refine ⟨hfull, fun hzero => absurd hzero hhead, log', happend.trans hdata,
          appended_of_wraps (hkept.trans hkept') hwraps htail hend' hentries' (fun _ => ?_) ?_⟩
        · unfold SIZEOF_ENTRY at hmax
          exact ⟨by omega, hasHeader_put_header _ _ x⟩
        · intro b hout
          exact put_header_outside (hout hheader)
  · right
    have hshort : log.len < log.end_ + SIZEOF_ENTRY := by
      unfold HeaderFits at hheader
      omega
    obtain ⟨log', happend, hspec⟩ := log_append_entry_header_wraps
      log term req_id clt_id data hlen hfull hshort
    exact ⟨hfull, fun _ hfits => absurd hfits hheader, log', happend, hspec⟩

end dare.log
