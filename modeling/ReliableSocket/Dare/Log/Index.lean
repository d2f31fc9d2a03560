import Mathlib.Algebra.GroupWithZero.Nat
import Mathlib.Data.List.Induction
import Mathlib.Data.Nat.Init
import ReliableSocket.Dare.Log.Run

open memory ring

namespace dare.log

/-- The append reports an index. -/
def Succeeds (log : dare_log_t) (term req_id : UInt64) (clt_id : UInt16) (data : log_data) : Prop :=
  (log_append_entry log term req_id clt_id data).2 ≠ 0

/-- What a run keeps whose appends do not end at the end of the buffer: the indexes count the
    appends, and the cached tail is the offset of the last entry. -/
structure Indexed (log : dare_log_t) (es : List dare_log_entry_t) : Prop where
  len : log.len = LOG_SIZE
  indexes : ∀ k (hk : k < es.length), es[k].idx.toNat = k + 1
  tail : (es = [] ∧ log.end_ = log.len ∧ log.tail = log.len) ∨
    (es ≠ [] ∧ log.end_ < log.len ∧ log.tail + SIZEOF_ENTRY ≤ log.end_ ∧
      (entry_idx log.entries log.tail).toNat = es.length)

theorem next_idx_of_empty {log : dare_log_t} (data : log_data) (hempty : log.end_ = log.len) :
    next_idx (append_prepare log data) = 1 := by
  have hget : log_get_entry (append_prepare log data) (append_prepare log data).tail = none :=
    get_entry_of_empty (by simpa using hempty) _
  simp [next_idx, hget]

/-- The next index comes from the entry at the cached tail. -/
theorem next_idx_of_tail {log : dare_log_t} (data : log_data) (hend : log.end_ < log.len)
    (htail : log.tail + SIZEOF_ENTRY ≤ log.end_) :
    next_idx (append_prepare log data) = entry_idx log.entries log.tail + 1 := by
  unfold SIZEOF_ENTRY at htail
  have hprepared := prepare_tail log data (by omega)
  have hget : log_get_entry (append_prepare log data) log.tail = some log.tail := by
    have hne : log.end_ ≠ log.len := by omega
    have hle : log.tail ≤ log.end_ := by omega
    have hdist : ¬log.end_ - log.tail = 0 := by omega
    have hfit : 48 ≤ log.len - log.tail := by omega
    simp [log_get_entry, is_log_empty, log_offset_end_distance, log_fit_entry_header, SIZEOF_ENTRY,
      hne, hle, hdist, hfit]
  simp [next_idx, hprepared, hget]

/-- The index that the next append computes counts the appends, up to 64-bit overflow. -/
theorem Indexed.next_idx_toNat {log : dare_log_t} {es : List dare_log_entry_t} (hinv : Indexed log es)
    (data : log_data) : (next_idx (append_prepare log data)).toNat = (es.length + 1) % 2 ^ 64 := by
  obtain ⟨rfl, hend, -⟩ | ⟨-, hend, htail, hidx⟩ := hinv.tail
  · rw [next_idx_of_empty data hend]
    rfl
  · rw [next_idx_of_tail data hend htail, UInt64.toNat_add, hidx]
    rfl

/-- A successful append that does not end at the end of the buffer gets the next index. -/
theorem indexed_append {log log' : dare_log_t} {es : List dare_log_entry_t} {idx term req_id : UInt64}
    {clt_id : UInt16} {data : log_data} (hinv : Indexed log es) (hflush : ¬EndsAtLen log data)
    (happend : log_append_entry log term req_id clt_id data = (log', idx)) (hidx : idx ≠ 0)
    (hcount : es.length < 2 ^ 64) :
    es.length + 1 < 2 ^ 64 ∧ Indexed log' (es ++ [⟨idx, term, req_id, clt_id, data⟩]) := by
  have hbig : 2 ^ 18 ≤ log.len := by rw [hinv.len, LOG_SIZE_eq]; omega
  have hend : log.end_ ≤ log.len := by
    obtain ⟨-, hend, -⟩ | ⟨-, hend, -⟩ := hinv.tail <;> omega
  have hnext := next_lt_of_not_endsAtLen term req_id clt_id hinv.len hflush
  obtain ⟨-, heq⟩ | ⟨-, -, -, -, log'', heq, -⟩ | ⟨-, -, log'', heq, happ⟩ :=
    log_append_entry_cases log term req_id clt_id data hbig hend
  · rw [happend] at heq
    exact absurd (Prod.mk.inj heq).2 hidx
  · rw [happend] at heq
    exact absurd (Prod.mk.inj heq).2 hidx
  rw [happend] at heq
  obtain ⟨rfl, hnew⟩ := Prod.mk.inj heq
  have hvalue : idx.toNat = (es.length + 1) % 2 ^ 64 := by
    rw [hnew]
    exact hinv.next_idx_toNat data
  have hsmall : es.length + 1 < 2 ^ 64 := by
    by_contra hover
    apply hidx
    rw [← UInt64.toNat_inj, hvalue]
    simp only [UInt64.toNat_zero]
    omega
  rw [Nat.mod_eq_of_lt hsmall] at hvalue
  refine ⟨hsmall, happ.len.trans hinv.len, ?_, .inr ⟨by simp, ?_, ?_, ?_⟩⟩
  · intro k hk
    rw [List.length_append, List.length_singleton] at hk
    by_cases hold : k < es.length
    · rw [List.getElem_append_left hold]
      exact hinv.indexes k hold
    · obtain rfl : k = es.length := by omega
      simpa using hvalue
  · rw [happ.len, happ.end_]
    exact hnext
  · rw [happ.tail, happ.end_, RecordFormat.next, entry_size]
    have hmin := (new_entry log term req_id clt_id data).le_len
    omega
  · have hstored := happ.stored
    rw [← happ.tail] at hstored
    have hread : entry_idx log'.entries log'.tail = idx := by
      rw [hnew, ← hstored]
      rfl
    rw [hread, hvalue, List.length_append, List.length_singleton]

theorem Run.mono {Ok Ok' : dare_log_t → UInt64 → UInt64 → UInt16 → log_data → Prop}
    (himp : ∀ log term req_id clt_id data, Ok log term req_id clt_id data →
      Ok' log term req_id clt_id data)
    {log : dare_log_t} {es : List dare_log_entry_t} {passed : Nat} (hrun : Run Ok log es passed) :
    Run Ok' log es passed := by
  induction hrun with
  | new => exact .new
  | append term req_id clt_id data _ hok happend ih =>
    exact .append term req_id clt_id data ih (himp _ _ _ _ _ hok) happend
  | advance_head _ hboundary ih => exact .advance_head ih hboundary

/-- A successful append that does not end exactly at the end of the buffer. -/
def ShortAppend (log : dare_log_t) (term req_id : UInt64) (clt_id : UInt16) (data : log_data) : Prop :=
  Succeeds log term req_id clt_id data ∧ ¬EndsAtLen log data

theorem indexed_of_run {log : dare_log_t} {es : List dare_log_entry_t} {passed : Nat}
    (hrun : Run ShortAppend log es passed) : es.length < 2 ^ 64 ∧ Indexed log es := by
  induction hrun with
  | new => exact ⟨by simp, rfl, by simp, .inl ⟨rfl, rfl, rfl⟩⟩
  | append term req_id clt_id data _ hok happend ih =>
    have hidx := hok.1
    rw [Succeeds, happend] at hidx
    obtain ⟨hsmall, hinv⟩ := indexed_append ih.2 hok.2 happend hidx ih.1
    exact ⟨by simpa using hsmall, hinv⟩
  | advance_head _ _ ih => exact ⟨ih.1, ih.2.len, ih.2.indexes, ih.2.tail⟩

/-- A command entry with `n` zero bytes. -/
def zero_cmd (n : Nat) (hn : n < 2 ^ 16) : log_data :=
  .cmd ⟨CSM, by decide⟩ ⟨List.replicate n 0, by simpa using hn⟩

theorem data_len_zero_cmd (n : Nat) (hn : n < 2 ^ 16) : data_len (zero_cmd n hn) = 48 + n := by
  simp [data_len, zero_cmd, log_data.cmd_bytes, SIZEOF_ENTRY]

/-- A successful append that has room. -/
def RoomAppend (log : dare_log_t) (term req_id : UInt64) (clt_id : UInt16) (data : log_data) : Prop :=
  Succeeds log term req_id clt_id data ∧ HasRoom log data

/-- A successful append that has room and does not end at the end of the buffer. -/
def ShortRoomAppend (log : dare_log_t) (term req_id : UInt64) (clt_id : UInt16) (data : log_data) :
    Prop :=
  RoomAppend log term req_id clt_id data ∧ ¬EndsAtLen log data

/-- An append succeeds if the log is not full and the entry is not given up at the end of the buffer. -/
theorem Indexed.append {log : dare_log_t} {es : List dare_log_entry_t} (term req_id : UInt64) (clt_id : UInt16)
    {data : log_data} (hinv : Indexed log es) (hcount : es.length + 1 < 2 ^ 64) (hfull : log.end_ ≠ log.head)
    (hfits : log.end_ + data_len data ≤ log.len ∨ log.head ≠ 0 ∨ log.end_ = log.len) :
    Succeeds log term req_id clt_id data ∧
      ∃ log' idx, log_append_entry log term req_id clt_id data = (log', idx) ∧
        Appended log log' (new_entry log term req_id clt_id data) := by
  have hbig : 2 ^ 18 ≤ log.len := by rw [hinv.len, LOG_SIZE_eq]; omega
  have hend : log.end_ ≤ log.len := by
    obtain ⟨-, hend, -⟩ | ⟨-, hend, -⟩ := hinv.tail <;> omega
  have hidx := hinv.next_idx_toNat data
  rw [Nat.mod_eq_of_lt hcount] at hidx
  obtain ⟨hbad, -⟩ | ⟨-, hhead, hheader, hwraps, -⟩ | ⟨-, -, log', heq, happ⟩ :=
    log_append_entry_cases log term req_id clt_id data hbig hend
  · exact absurd hbad hfull
  · rw [new_entry_len] at hwraps
    unfold HeaderFits SIZEOF_ENTRY at hheader
    omega
  · refine ⟨?_, log', _, heq, happ⟩
    rw [Succeeds, heq]
    intro hzero
    change next_idx (append_prepare log data) = 0 at hzero
    rw [hzero] at hidx
    simp at hidx

/-- An append that fits between the end of the log and the end of the buffer. -/
theorem append_before_len {log : dare_log_t} {es : List dare_log_entry_t} (term req_id : UInt64)
    (clt_id : UInt16) (data : log_data) (hinv : Indexed log es) (hne : es ≠ [])
    (hcount : es.length + 1 < 2 ^ 64) (hhead : log.head < log.end_)
    (hfits : log.end_ + data_len data ≤ log.len)
    (hfree : log.end_ + data_len data < log.len + log.head) :
    RoomAppend log term req_id clt_id data ∧
      ∃ log' idx, log_append_entry log term req_id clt_id data = (log', idx) ∧
        log'.head = log.head ∧ log'.commit = log.commit ∧ log'.len = log.len ∧
        log'.end_ = log.end_ + data_len data := by
  obtain ⟨hnil, -⟩ | ⟨-, hend, -, -⟩ := hinv.tail
  · exact absurd hnil hne
  have hroom : HasRoom log data := by
    have hpos : 0 < data_len data := by unfold data_len SIZEOF_ENTRY; omega
    have hdist := dist_cases log.len log.end_ log.head
    have hnonempty : is_log_empty log = false := by simp [is_log_empty]; omega
    unfold HasRoom append_bytes free_bytes
    rw [if_pos hfits, hnonempty, if_neg (by simp)]
    omega
  obtain ⟨hok, log', idx, heq, happ⟩ := hinv.append term req_id clt_id hcount (by omega) (.inl hfits)
  refine ⟨⟨hok, hroom⟩, log', idx, heq, happ.head, happ.commit, happ.len, ?_⟩
  have hplace : entry_format.place log.len log.end_ (new_entry log term req_id clt_id data) = log.end_ :=
    if_pos hfits
  rw [happ.end_, RecordFormat.next, hplace, entry_size, new_entry_len]

/-- An append that fits there no longer, but before the head at the beginning of the buffer. -/
theorem append_past_len {log : dare_log_t} {es : List dare_log_entry_t} (data : log_data)
    (hinv : Indexed log es) (hne : es ≠ []) (hcount : es.length + 1 < 2 ^ 64)
    (hhead : log.head < log.end_) (hwraps : log.len < log.end_ + data_len data)
    (hfree : data_len data ≤ log.head) :
    Succeeds log 1 0 0 data ∧ append_bytes log data = log.len - log.end_ + data_len data ∧
      free_bytes log = log.len - log.end_ + log.head ∧
      ∃ log' idx, log_append_entry log 1 0 0 data = (log', idx) ∧ log'.head = log.head ∧
        log'.len = log.len ∧ log'.end_ = data_len data := by
  have hpos : 0 < data_len data := by unfold data_len SIZEOF_ENTRY; omega
  obtain ⟨hnil, -⟩ | ⟨-, hend, -, -⟩ := hinv.tail
  · exact absurd hnil hne
  obtain ⟨hok, log', idx, heq, happ⟩ := hinv.append 1 0 0 hcount (by omega) (.inr (.inl (by omega)))
  refine ⟨hok, ?_, ?_, log', idx, heq, happ.head, happ.len, ?_⟩
  · rw [append_bytes, if_neg (by omega)]
  · have hdist := dist_cases log.len log.end_ log.head
    have hnonempty : is_log_empty log = false := by simp [is_log_empty]; omega
    rw [free_bytes, hnonempty, if_neg (by simp)]
    omega
  · have hplace : entry_format.place log.len log.end_ (new_entry log 1 0 0 data) = 0 :=
      if_neg (by rw [entry_size, new_entry_len]; omega)
    rw [happ.end_, RecordFormat.next, hplace, entry_size, new_entry_len, Nat.zero_add]

theorem append_to_new (term req_id : UInt64) (clt_id : UInt16) (data : log_data) :
    ShortRoomAppend log_new term req_id clt_id data ∧
      ∃ log' idx, log_append_entry log_new term req_id clt_id data = (log', idx) ∧
        log'.head = 0 ∧ log'.commit = 0 ∧ log'.end_ = data_len data := by
  have hmax := (new_entry log_new term req_id clt_id data).len_lt
  have hlen : log_new.len = 2 ^ 26 := LOG_SIZE_eq
  have hend : log_new.end_ = 2 ^ 26 := LOG_SIZE_eq
  have hhead : log_new.head = 0 := rfl
  rw [new_entry_len] at hmax
  unfold SIZEOF_ENTRY at hmax
  have hpos : 0 < data_len data := by unfold data_len SIZEOF_ENTRY; omega
  have hroom : HasRoom log_new data := by
    have hempty : is_log_empty log_new = true := by decide
    unfold HasRoom append_bytes free_bytes
    rw [if_neg (by omega), hempty, if_pos rfl]
    omega
  obtain ⟨hok, log', idx, heq, happ⟩ := (indexed_of_run (.new : Run ShortAppend log_new [] 0)).2.append term req_id
    clt_id (by decide) (by omega) (.inr (.inr (by omega)))
  refine ⟨⟨⟨hok, hroom⟩, by unfold EndsAtLen; omega⟩, log', idx, heq, happ.head, happ.commit, ?_⟩
  have hplace : entry_format.place log_new.len log_new.end_ (new_entry log_new term req_id clt_id data) = 0 :=
    if_neg (by rw [entry_size, new_entry_len]; omega)
  rw [happ.end_, RecordFormat.next, hplace, entry_size, new_entry_len, Nat.zero_add]

section short

variable {log : dare_log_t} {es : List dare_log_entry_t} {passed : Nat}

theorem Run.short (hrun : Run ShortRoomAppend log es passed) : Run ShortAppend log es passed :=
  hrun.mono fun _ _ _ _ _ hok => ⟨hok.1.1, hok.2⟩

theorem Run.roomy (hrun : Run ShortRoomAppend log es passed) : Run RoomyAppend log es passed :=
  hrun.mono fun _ _ _ _ _ hok => ⟨hok.1.2, hok.2⟩

theorem indexed_of_short_run (hrun : Run ShortRoomAppend log es passed) : Indexed log es :=
  (indexed_of_run hrun.short).2

theorem readable_of_short_run (hrun : Run ShortRoomAppend log es passed) : Readable log (es.drop passed) :=
  (readable_of_run hrun.roomy).2

theorem path_of_short_run (hrun : Run ShortRoomAppend log es passed) (hlt : passed < es.length) :
    Path log log.head (es.drop passed) := by
  obtain ⟨hnil, -⟩ | hpath := (readable_of_short_run hrun).path
  · rw [List.drop_eq_nil_iff] at hnil
    omega
  · exact hpath

end short

/-- The log to which the entries `es` were appended, in this order. -/
def log_of (es : List dare_log_entry_t) : dare_log_t :=
  es.foldl (fun log x => (log_append_entry log x.term x.req_id x.clt_id x.data).1) log_new

/-- Such a log, as long as the entries fit before the end of the buffer, with indexes that count. -/
theorem run_log_of (es : List dare_log_entry_t) (hidx : ∀ k (hk : k < es.length), es[k].idx.toNat = k + 1)
    (hsize : (es.map dare_log_entry_t.len).sum < LOG_SIZE) :
    Run ShortRoomAppend (log_of es) es 0 ∧ (log_of es).head = 0 ∧ (log_of es).commit = 0 ∧
      (es ≠ [] → (log_of es).end_ = (es.map dare_log_entry_t.len).sum) := by
  have hlog : LOG_SIZE = 67108864 := LOG_SIZE_eq
  induction es using List.reverseRecOn with
  | nil => exact ⟨.new, rfl, rfl, fun hne => absurd rfl hne⟩
  | append_singleton es x ih =>
    have hlog_of : log_of (es ++ [x]) =
        (log_append_entry (log_of es) x.term x.req_id x.clt_id x.data).1 := by simp [log_of]
    have hlen : data_len x.data = x.len := rfl
    have hpos := x.le_len
    unfold SIZEOF_ENTRY at hpos
    simp only [List.map_append, List.map_cons, List.map_nil, List.sum_append, List.sum_cons, List.sum_nil,
      Nat.add_zero] at hsize ⊢
    have hbefore : ∀ k (hk : k < es.length), es[k].idx.toNat = k + 1 := by
      intro k hk
      have hindex := hidx k (by rw [List.length_append]; omega)
      rwa [List.getElem_append_left hk] at hindex
    obtain ⟨hrun, hhead, hcommit, hend⟩ := ih hbefore (by omega)
    have hinv := indexed_of_short_run hrun
    have hlast : x.idx.toNat = es.length + 1 := by simpa using hidx es.length (by simp)
    -- the append, be it the first one or not
    have happend : ShortRoomAppend (log_of es) x.term x.req_id x.clt_id x.data ∧
        ∃ log' idx, log_append_entry (log_of es) x.term x.req_id x.clt_id x.data = (log', idx) ∧
          log'.head = 0 ∧ log'.commit = 0 ∧ log'.end_ = (es.map dare_log_entry_t.len).sum + x.len := by
      obtain rfl | hne := eq_or_ne es []
      · simpa [hlen, log_of] using append_to_new x.term x.req_id x.clt_id x.data
      · have hend := hend hne
        have hlen' := hinv.len
        obtain ⟨hnil, -⟩ | ⟨-, -, htail, -⟩ := hinv.tail
        · exact absurd hnil hne
        unfold SIZEOF_ENTRY at htail
        have hcount := x.idx.toNat_lt
        obtain ⟨hok, log', idx, happ, hhead', hcommit', -, hend'⟩ :=
          append_before_len x.term x.req_id x.clt_id x.data hinv hne (by omega) (by omega) (by omega) (by omega)
        exact ⟨⟨hok, by unfold EndsAtLen; omega⟩, log', idx, happ, by omega, by omega, by omega⟩
    obtain ⟨hok, log', idx, happ, hhead', hcommit', hend'⟩ := happend
    have hrun' := hrun.append x.term x.req_id x.clt_id x.data hok happ
    obtain rfl : idx = x.idx := by
      rw [← UInt64.toNat_inj]
      have hnew := (indexed_of_short_run hrun').indexes es.length (by simp)
      simp only [List.getElem_concat_length] at hnew
      exact hnew.trans hlast.symm
    rw [hlog_of, happ]
    exact ⟨hrun', hhead', hcommit', fun _ => hend'⟩

theorem path_log_of {es : List dare_log_entry_t} (hne : es ≠ [])
    (hidx : ∀ k (hk : k < es.length), es[k].idx.toNat = k + 1)
    (hsize : (es.map dare_log_entry_t.len).sum < LOG_SIZE) : Path (log_of es) 0 es := by
  obtain ⟨hrun, hhead, -⟩ := run_log_of es hidx hsize
  have hpath := path_of_short_run hrun (List.length_pos_iff.mpr hne)
  rwa [hhead] at hpath

/-- Filling an unused log with one command of `m` bytes and `n` commands of `l` bytes. -/
theorem fill_of_commands (m : Nat) (hm : m < 2 ^ 16) (l : Nat) (hl : l < 2 ^ 16) (n : Nat)
    (hn : 48 + m + n * (48 + l) < LOG_SIZE) :
    ∃ log es, Run ShortRoomAppend log es 0 ∧ es.length = n + 1 ∧ log.head = 0 ∧ log.commit = 0 ∧
      log.end_ = 48 + m + n * (48 + l) ∧ ∃ x rest, es = x :: rest ∧ x.data = zero_cmd m hm := by
  have hfirst := data_len_zero_cmd m hm
  have hnext := data_len_zero_cmd l hl
  have hsize : LOG_SIZE = 67108864 := LOG_SIZE_eq
  induction n with
  | zero =>
    obtain ⟨hok, log, idx, happ, hhead, hcommit, hend⟩ := append_to_new 1 0 0 (zero_cmd m hm)
    exact ⟨log, _, Run.append 1 0 0 _ Run.new hok happ, rfl, hhead, hcommit, by omega, _, _, rfl, rfl⟩
  | succ n ih =>
    rw [Nat.succ_mul] at hn ⊢
    obtain ⟨log, es, hrun, hcount, hhead, hcommit, hend, x, rest, rfl, hdata⟩ := ih (by omega)
    have hinv := indexed_of_short_run hrun
    have hlen := hinv.len
    have hsmall : n < 2 ^ 26 := by
      have hle := Nat.mul_le_mul_left n (show 1 ≤ 48 + l by omega)
      omega
    obtain ⟨hok, log', idx, happ, hhead', hcommit', -, hend'⟩ := append_before_len 1 0 0 (zero_cmd l hl)
      hinv (by simp) (by omega) (by omega) (by omega) (by omega)
    refine ⟨log', _, Run.append 1 0 0 _ hrun ⟨hok, by unfold EndsAtLen; omega⟩ happ, ?_, ?_, ?_, ?_,
      x, _, rfl, hdata⟩
    · simpa using hcount
    · omega
    · omega
    · omega

/-- The same run, after which the head has moved past the first command. -/
theorem lap_of_commands (m : Nat) (hm : m < 2 ^ 16) (l : Nat) (hl : l < 2 ^ 16) (n : Nat)
    (hn : 48 + m + n * (48 + l) < LOG_SIZE) :
    ∃ log es, Run ShortRoomAppend log es 1 ∧ es.length = n + 1 ∧ log.head = 48 + m ∧
      log.end_ = 48 + m + n * (48 + l) := by
  obtain ⟨log, es, hrun, hcount, hhead, -, hend, x, rest, rfl, hdata⟩ := fill_of_commands m hm l hl n hn
  have hlen : log.len = 67108864 := (indexed_of_short_run hrun).len.trans LOG_SIZE_eq
  have hpath := path_of_short_run hrun (by simp)
  have hmem := hpath.mem_positions 0 (log.len + 1) (show 1 ≤ _ by simp) (.inl rfl) (by omega)
  refine ⟨_, _, Run.advance_head hrun hmem, hcount, ?_, hend⟩
  have hsize : x.len = 48 + m := by
    rw [← data_len_zero_cmd m hm, ← hdata]
    rfl
  have hplace : entry_format.place log.len log.head x = log.head := by
    refine if_pos ?_
    rw [entry_size]
    omega
  change entry_format.next log.len log.head x = 48 + m
  rw [RecordFormat.next, hplace, entry_size]
  omega

/-- The head stands behind the first of 1023 long commands. -/
theorem lap_of_long_commands :
    ∃ log es, Run ShortRoomAppend log es 1 ∧ es.length = 1023 ∧ log.head = 65583 ∧
      log.end_ = 67091409 :=
  lap_of_commands 65535 (by decide) 65535 (by decide) 1022 (by decide)

/-- One command more, of 20000 bytes. It goes to the beginning of the buffer, before the head. -/
theorem wrap_of_long_commands :
    ∃ log es, Run ShortRoomAppend log es 1 ∧ es.length = 1024 ∧ log.head = 65583 ∧ log.end_ = 20048 := by
  obtain ⟨log, es, hrun, hcount, hhead, hend⟩ := lap_of_long_commands
  have hinv := indexed_of_short_run hrun
  have hlen : log.len = 67108864 := hinv.len.trans LOG_SIZE_eq
  have hsize := data_len_zero_cmd 20000 (by decide)
  have hne : es ≠ [] := by
    rintro rfl
    simp at hcount
  obtain ⟨hok, hbytes, hgap, log', idx, happ, hhead', -, hend'⟩ :=
    append_past_len (zero_cmd 20000 (by decide)) hinv hne (by omega) (by omega) (by omega) (by omega)
  have hroom : HasRoom log (zero_cmd 20000 (by decide)) := by
    unfold HasRoom
    omega
  refine ⟨log', _, Run.append 1 0 0 _ hrun ⟨⟨hok, hroom⟩, by unfold EndsAtLen; omega⟩ happ, ?_, ?_, ?_⟩
  · simp [hcount]
  · omega
  · omega

/-- As long as no append ends exactly at the end of the buffer, a log to which entries were appended
    never reads as empty, and the k-th successful append returns the index k. -/
theorem indexes_are_consecutive {log : dare_log_t} {es : List dare_log_entry_t} {passed : Nat}
    (hrun : Run ShortAppend log es passed) :
    (es ≠ [] → is_log_empty log = false) ∧ ∀ k (hk : k < es.length), es[k].idx.toNat = k + 1 := by
  obtain ⟨-, hinv⟩ := indexed_of_run hrun
  refine ⟨fun hne => ?_, hinv.indexes⟩
  obtain ⟨hnil, -⟩ | ⟨-, hend, -⟩ := hinv.tail
  · exact absurd hnil hne
  · simp only [is_log_empty, decide_eq_false_iff_not]
    omega

theorem indexes_across_wrap :
    ∃ log es, Run ShortAppend log es 1 ∧ es.length = 1024 ∧ log.end_ < log.head ∧
      (es ≠ [] → is_log_empty log = false) ∧ ∀ k (hk : k < es.length), es[k].idx.toNat = k + 1 := by
  obtain ⟨log, es, hrun, hcount, hhead, hend⟩ := wrap_of_long_commands
  exact ⟨log, es, hrun.short, hcount, by omega, indexes_are_consecutive hrun.short⟩

/-- A lap of 1023 long commands and one that fills the buffer to its last byte: every append
    succeeds and has room, and yet the log then reads as empty and the next index is 1 again. -/
theorem full_lap_reads_as_empty :
    ∃ log es, Run RoomAppend log es 1 ∧ es.length = 1024 ∧ is_log_empty log = true ∧
      ∀ term req_id clt_id data, (log_append_entry log term req_id clt_id data).2 = 1 := by
  obtain ⟨log, es, hrun, hcount, hhead, hend⟩ := lap_of_long_commands
  have hinv := indexed_of_short_run hrun
  have hlen : log.len = 67108864 := hinv.len.trans LOG_SIZE_eq
  have hlast := data_len_zero_cmd 17407 (by decide)
  have hne : es ≠ [] := by
    rintro rfl
    simp at hcount
  obtain ⟨hok, log', idx, happ, hhead', -, hlen', hend'⟩ := append_before_len 1 0 0 (zero_cmd 17407 (by decide))
    hinv hne (by omega) (by omega) (by omega) (by omega)
  have hempty : log'.end_ = log'.len := by omega
  refine ⟨log', _, Run.append 1 0 0 _ (hrun.mono fun _ _ _ _ _ hok => hok.1) hok happ, ?_, ?_, ?_⟩
  · simp [hcount]
  · simp [is_log_empty, hempty]
  · intro term req_id clt_id data
    obtain ⟨log'', heq, -⟩ := log_append_entry_header_wraps log' term req_id clt_id data (by omega) (by omega)
      (by unfold SIZEOF_ENTRY; omega)
    rw [heq]
    exact next_idx_of_empty data hempty

/-- Writer and readers agree on the layout: after any run of roomy appends and head advances, the
    readers' loop that starts at the head ends, and it yields exactly the entries that were appended
    and that the head has not passed, in the order of the appends; it stops at the end offset. -/
theorem log_walk_yields_live_entries {log : dare_log_t} {es : List dare_log_entry_t} {passed : Nat}
    (hrun : Run RoomyAppend log es passed) :
    ∃ stop, log_walk log (log.len + 1) log.head = some (es.drop passed, stop) ∧
      (is_log_empty log = false → stop = log.end_) := by
  obtain ⟨-, hread⟩ := readable_of_run hrun
  obtain ⟨hnil, hempty, -⟩ | hpath := hread.path
  · refine ⟨log.head, by simp [log_walk, get_entry_of_empty hempty, hnil], fun hnot => ?_⟩
    simp [is_log_empty, hempty] at hnot
  · have hlength := hpath.length_le
    unfold SIZEOF_ENTRY at hlength
    exact ⟨log.end_, hpath.log_walk_eq (by omega), fun _ => rfl⟩

theorem log_walk_across_wrap :
    ∃ log es, Run RoomyAppend log es 1 ∧ es.length = 1024 ∧ log.end_ < log.head ∧
      ∃ stop, log_walk log (log.len + 1) log.head = some (es.drop 1, stop) ∧
        (is_log_empty log = false → stop = log.end_) := by
  obtain ⟨log, es, hrun, hcount, hhead, hend⟩ := wrap_of_long_commands
  exact ⟨log, es, hrun.roomy, hcount, by omega, log_walk_yields_live_entries hrun.roomy⟩

end dare.log
