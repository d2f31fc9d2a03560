import ReliableSocket.Dare.Log.Run
import ReliableSocket.Dare.Server.Reconf

open memory ring dare.log

namespace dare.server

/-- What `poll_config_entries` does with the entry at `offset`, which fits there. A CONFIG entry that
    does not change the configuration has no effect. -/
def poll_entry (cid_idx : UInt64) (s : apply_t) (head_offset offset : Nat) : apply_t × Nat :=
  let m := s.log.entries
  if entry_type m offset = CONFIG then
    let cid := dare_cid_t.read m (offset + DATA_OFFSET)
    if cid_idx < entry_idx m offset ∧ s.data.cid ≠ cid then
      ({ update_cid s cid with req_id := entry_req_id m offset, clt_id := entry_clt_id m offset },
        head_offset)
    else (s, head_offset)
  else if entry_type m offset = HEAD ∧ log_is_offset_larger s.log offset s.log.commit = false then
    (s, (loadU64 m (offset + DATA_OFFSET)).toNat)
  else (s, head_offset)

/-- The loop of `poll_config_entries`: the server, the head offset found so far and the offset. A
    server that is removed ends at once. No fuel means that the loop has not ended. -/
def poll_loop (cid_idx : UInt64) : Nat → apply_t → Nat → Nat → Option (apply_t × Nat × Nat)
  | 0, _, _, _ => none
  | fuel + 1, s, head_offset, offset =>
    if s.running && decide (log_offset_end_distance s.log offset ≠ 0) then
      match log_get_entry s.log offset with
      | none => none
      | some offset =>
        if !log_fit_entry s.log offset offset then poll_loop cid_idx fuel s head_offset 0
        else
          let r := poll_entry cid_idx s head_offset offset
          poll_loop cid_idx fuel r.1 r.2 (offset + log_entry_len s.log.entries offset)
    else some (s, head_offset, offset)

/-- The assignments after the loop. -/
def poll_finish (s : apply_t) (head_offset offset : Nat) : apply_t :=
  let commit := s.log.commit
  let cid_offset := if log_is_offset_larger s.log offset commit then commit else offset
  let s := { s with data := { s.data with cid_offset := cid_offset } }
  if log_is_offset_larger s.log head_offset s.log.head then s.set_log { s.log with head := head_offset }
  else s

/-- `cid_idx` is the index of the last CONFIG entry before the server joined. -/
def poll_config_entries (cid_idx : UInt64) (s : apply_t) : Option apply_t :=
  (poll_loop cid_idx (2 * s.log.len + 1) s s.log.head s.data.cid_offset).map fun r =>
    if r.1.running then poll_finish r.1 r.2.1 r.2.2 else r.1

section loop

variable {s : apply_t} {x : dare_log_entry_t} {es : List dare_log_entry_t} {offset : Nat}

/-- The head offset that an entry leaves behind which starts at `offset`. -/
def head_after (log : dare_log_t) (offset : Nat) (x : dare_log_entry_t) (head_offset : Nat) : Nat :=
  match x.data with
  | .head value => if log_is_offset_larger log offset log.commit then head_offset else value.toNat
  | _ => head_offset

/-- The head offset that the entries `es` from `offset` on leave behind. -/
def head_after_entries (log : dare_log_t) : Nat → List dare_log_entry_t → Nat → Nat
  | _, [], head_offset => head_offset
  | offset, x :: es, head_offset =>
    head_after_entries log (entry_format.next log.len offset x) es
      (head_after log (entry_format.place log.len offset x) x head_offset)

theorem update_cid_log (s : apply_t) (cid : dare_cid_t) : (update_cid s cid).log = s.log := by
  unfold update_cid
  split <;> rfl

/-- A CONFIG entry changes the configuration at most. -/
theorem poll_entry_config (cid_idx : UInt64) (head_offset : Nat)
    (hconfig : entry_type s.log.entries offset = CONFIG) :
    (poll_entry cid_idx s head_offset offset).1.log = s.log ∧
      (poll_entry cid_idx s head_offset offset).2 = head_offset := by
  unfold poll_entry
  rw [if_pos hconfig]
  generalize dare_cid_t.read s.log.entries (offset + DATA_OFFSET) = cid
  have hlog : (update_cid s cid).data.log = s.log := update_cid_log s cid
  by_cases hnew : cid_idx < entry_idx s.log.entries offset ∧ s.data.cid ≠ cid
  · rw [if_pos hnew, apply_t.log]
    exact ⟨hlog, rfl⟩
  · rw [if_neg hnew]
    exact ⟨rfl, rfl⟩

/-- An entry changes the head offset only if it is a HEAD entry. -/
theorem poll_entry_spec (cid_idx : UInt64) (head_offset : Nat)
    (hread : read_entry s.log.entries offset = x) :
    (poll_entry cid_idx s head_offset offset).1.log = s.log ∧
      (poll_entry cid_idx s head_offset offset).2 = head_after s.log offset x head_offset := by
  have htype : entry_type s.log.entries offset = x.data.type := (hasHeader_of_read_entry hread).type
  have hdata : read_data s.log.entries offset = x.data := by rw [← hread]; rfl
  cases hkind : x.data with
  | config cid =>
    rw [hkind] at htype
    have hsame : head_after s.log offset x head_offset = head_offset := by simp [head_after, hkind]
    rw [hsame]
    exact poll_entry_config cid_idx head_offset htype
  | head value =>
    rw [hkind] at htype hdata
    have hvalue : loadU64 s.log.entries (offset + DATA_OFFSET) = value := by
      rw [read_data_head htype] at hdata
      exact log_data.head.inj hdata
    have hhead : entry_type s.log.entries offset = HEAD := htype
    simp only [poll_entry, hvalue, head_after, hkind, hhead, true_and]
    cases hlarger : log_is_offset_larger s.log offset s.log.commit with
    | true => exact ⟨rfl, rfl⟩
    | false => exact ⟨rfl, rfl⟩
  | noop =>
    rw [hkind] at htype
    have hnoop : entry_type s.log.entries offset = NOOP := htype
    simp [poll_entry, head_after, hkind, hnoop, NOOP, CONFIG, HEAD]
  | cmd type c =>
    rw [hkind] at htype
    have hcmd : entry_type s.log.entries offset = type.val := htype
    have hother := type.property
    simp [poll_entry, head_after, hkind, hcmd, hother.2.1, hother.2.2]

/-- The turns of the loop that pass one entry. -/
theorem poll_first (cid_idx : UInt64) (head_offset : Nat) (hpath : Path s.log offset (x :: es))
    (hrunning : s.running = true) (fuel : Nat) :
    let r := poll_entry cid_idx s head_offset (entry_format.place s.log.len offset x)
    poll_loop cid_idx (fuel + 2) s head_offset offset =
        poll_loop cid_idx (fuel + 1) r.1 r.2 (entry_format.next s.log.len offset x) ∨
      poll_loop cid_idx (fuel + 2) s head_offset offset =
        poll_loop cid_idx fuel r.1 r.2 (entry_format.next s.log.len offset x) := by
  have hnext : entry_format.place s.log.len offset x +
      log_entry_len s.log.entries (entry_format.place s.log.len offset x) =
      entry_format.next s.log.len offset x := by
    rw [hpath.len_at_place, RecordFormat.next, entry_size]
  have hdist : log_offset_end_distance s.log offset ≠ 0 := by
    rw [hpath.end_distance, RecordFormat.span]
    have hcost := entry_format.cost_pos s.log.len offset x
    omega
  have hdist₀ : log_offset_end_distance s.log (entry_format.place s.log.len offset x) ≠ 0 := by
    rw [hpath.at_place.end_distance, RecordFormat.span]
    have hcost := entry_format.cost_pos s.log.len (entry_format.place s.log.len offset x) x
    omega
  obtain hget | ⟨hget, hfit, -, hzero⟩ := hpath.meets
  · left
    simp only [poll_loop, hrunning, hget, hpath.fit_at_place, hnext]
    simp [hdist]
  · right
    have hget₀ := hpath.get_entry_at_place
    have hfit₀ := hpath.fit_at_place
    rw [hzero] at hget₀ hfit₀ hnext hdist₀ ⊢
    simp only [poll_loop, hrunning, hget, hfit, hget₀, hfit₀, hnext]
    simp [hdist, hdist₀]

/-- The entry is not a CONFIG entry without server `idx`. -/
def KeepsServer (idx : Nat) (x : dare_log_entry_t) : Prop :=
  ∀ cid, x.data = .config cid → CID_IS_SERVER_ON cid idx = true

theorem update_cid_running {cid : dare_cid_t} (hon : CID_IS_SERVER_ON cid s.data.idx = true) :
    (update_cid s cid).running = s.running ∧ (update_cid s cid).data.idx = s.data.idx := by
  unfold update_cid
  by_cases hsame : s.data.cid = cid
  · rw [if_pos hsame]
    exact ⟨rfl, rfl⟩
  · rw [if_neg hsame]
    refine ⟨?_, rfl⟩
    have hnot : ((List.range (max cid.size_0.toNat cid.size_1.toNat)).filter fun i =>
        !CID_IS_SERVER_ON cid i && s.data.is_on i).contains s.data.idx = false := by
      simp [hon]
    simp only [apply_t.set_cid, hnot, Bool.not_false, Bool.and_true]

/-- Only a newer CONFIG entry that removes the server ends it. -/
theorem poll_entry_running (cid_idx : UInt64) (head_offset : Nat)
    (hread : read_entry s.log.entries offset = x) (hkeeps : cid_idx < x.idx → KeepsServer s.data.idx x) :
    (poll_entry cid_idx s head_offset offset).1.running = s.running ∧
      (poll_entry cid_idx s head_offset offset).1.data.idx = s.data.idx := by
  unfold poll_entry
  by_cases hconfig : entry_type s.log.entries offset = CONFIG
  · have hdata : x.data = .config (dare_cid_t.read s.log.entries (offset + DATA_OFFSET)) := by
      rw [← hread]
      exact read_data_config hconfig
    have hidx : entry_idx s.log.entries offset = x.idx := (hasHeader_of_read_entry hread).idx
    rw [if_pos hconfig]
    generalize dare_cid_t.read s.log.entries (offset + DATA_OFFSET) = cid at hdata
    by_cases hnew : cid_idx < entry_idx s.log.entries offset ∧ s.data.cid ≠ cid
    · have hupdate := update_cid_running (hkeeps (hidx ▸ hnew.1) _ hdata)
      rw [if_pos hnew]
      exact hupdate
    · rw [if_neg hnew]
      exact ⟨rfl, rfl⟩
  · rw [if_neg hconfig]
    split <;> exact ⟨rfl, rfl⟩

/-- The loop ends, and unless the server is removed it has met all entries. -/
theorem poll_loop_path (cid_idx : UInt64) (head_offset : Nat) (hpath : Path s.log offset es) {fuel : Nat}
    (hfuel : 2 * es.length + 1 ≤ fuel) :
    ∃ s' head_offset' stop, poll_loop cid_idx fuel s head_offset offset = some (s', head_offset', stop) ∧
      s'.log = s.log ∧
      (s'.running = true → head_offset' = head_after_entries s.log offset es head_offset) ∧
      (s.running = true → (∀ x ∈ es, cid_idx < x.idx → KeepsServer s.data.idx x) → s'.running = true) := by
  induction es generalizing s head_offset offset fuel with
  | nil =>
    obtain ⟨fuel, rfl⟩ : ∃ k, fuel = k + 1 := ⟨fuel - 1, by omega⟩
    have hdist : log_offset_end_distance s.log offset = 0 := hpath.end_distance
    refine ⟨s, head_offset, offset, ?_, rfl, fun _ => rfl, fun hrunning _ => hrunning⟩
    simp [poll_loop, hdist]
  | cons x es ih =>
    rw [List.length_cons] at hfuel
    obtain ⟨fuel, rfl⟩ : ∃ k, fuel = k + 2 := ⟨fuel - 2, by omega⟩
    cases hrunning : s.running with
    | false =>
      refine ⟨s, head_offset, offset, ?_, rfl, fun habsurd => ?_, fun habsurd => ?_⟩
      · simp [poll_loop, hrunning]
      · rw [hrunning] at habsurd
        cases habsurd
      · cases habsurd
    | true =>
      obtain ⟨hlog, hhead⟩ := poll_entry_spec cid_idx head_offset hpath.read_at_place
      have hkept := poll_entry_running cid_idx head_offset hpath.read_at_place
      have hfirst := poll_first cid_idx head_offset hpath hrunning fuel
      generalize poll_entry cid_idx s head_offset (entry_format.place s.log.len offset x) = r at *
      have htail : Path r.1.log (entry_format.next s.log.len offset x) es := by
        rw [hlog]
        exact hpath.tail
      have hrest : ∀ left, 2 * es.length + 1 ≤ left → ∃ s' head_offset' stop,
          poll_loop cid_idx left r.1 r.2 (entry_format.next s.log.len offset x) =
            some (s', head_offset', stop) ∧ s'.log = s.log ∧
          (s'.running = true → head_offset' = head_after_entries s.log offset (x :: es) head_offset) ∧
          (true = true → (∀ y ∈ x :: es, cid_idx < y.idx → KeepsServer s.data.idx y) →
            s'.running = true) := by
        intro left hleft
        obtain ⟨s', head_offset', stop, hloop, hsame, hresult, hstays⟩ := ih r.2 htail hleft
        refine ⟨s', head_offset', stop, hloop, hsame.trans hlog, fun hgoes => ?_, fun _ hall => ?_⟩
        · rw [hresult hgoes, hlog, hhead]
          rfl
        · obtain ⟨hrun, hidx⟩ := hkept (hall x List.mem_cons_self)
          refine hstays (hrun.trans hrunning) fun y hy => ?_
          rw [hidx]
          exact hall y (List.mem_cons_of_mem x hy)
      obtain hloop | hloop := hfirst
      · rw [hloop]
        exact hrest _ (by omega)
      · rw [hloop]
        exact hrest _ (by omega)

end loop

section head_offset

variable {log : dare_log_t} {x : dare_log_entry_t} {es : List dare_log_entry_t} {offset : Nat}

/-- The head offset stays, or it is the value of a HEAD entry that does not start behind the commit
    offset. -/
theorem head_after_entries_cases (log : dare_log_t) (offset : Nat) (es : List dare_log_entry_t)
    (head_offset : Nat) :
    head_after_entries log offset es head_offset = head_offset ∨
      ∃ k x value, es[k]? = some x ∧ x.data = .head value ∧
        log_is_offset_larger log
          (entry_format.place log.len (entry_format.advance log.len offset (es.take k)) x) log.commit =
          false ∧
        head_after_entries log offset es head_offset = value.toNat := by
  induction es generalizing offset head_offset with
  | nil => exact .inl rfl
  | cons x es ih =>
    rw [head_after_entries]
    obtain hsame | ⟨k, y, value, hy, hdata, hbefore, hresult⟩ :=
      ih (entry_format.next log.len offset x) (head_after log (entry_format.place log.len offset x) x head_offset)
    · rw [hsame]
      unfold head_after
      cases hdata : x.data with
      | head value =>
        cases hlarger : log_is_offset_larger log (entry_format.place log.len offset x) log.commit with
        | true => exact .inl rfl
        | false => exact .inr ⟨0, x, value, rfl, hdata, hlarger, rfl⟩
      | noop => exact .inl rfl
      | config cid => exact .inl rfl
      | cmd type c => exact .inl rfl
    · exact .inr ⟨k + 1, y, value, by simpa using hy, hdata, hbefore, hresult⟩

/-- Entries behind the commit offset do not count. -/
theorem head_after_entries_behind (hpath : Path log offset es)
    (hbehind : log_offset_end_distance log offset < log_offset_end_distance log log.commit)
    (head_offset : Nat) : head_after_entries log offset es head_offset = head_offset := by
  induction es generalizing offset with
  | nil => rfl
  | cons x es ih =>
    have hdist := hpath.end_distance
    have hplace := hpath.at_place.end_distance
    have hnext := hpath.tail.end_distance
    have hcost := entry_format.cost_pos log.len offset x
    have hle := (RecordFormat.holds_place hpath.holds).2.2
    rw [RecordFormat.span] at hdist
    have hlarger : log_is_offset_larger log (entry_format.place log.len offset x) log.commit = true := by
      rw [log_is_offset_larger, decide_eq_true_eq]
      simp only [RecordFormat.span] at hplace hle
      omega
    have hsame : head_after log (entry_format.place log.len offset x) x head_offset = head_offset := by
      unfold head_after
      split
      · rw [hlarger]
        rfl
      · rfl
    rw [head_after_entries, hsame]
    exact ih hpath.tail (by omega)

/-- A HEAD entry that starts at the commit offset decides. -/
theorem head_after_entries_at_commit {k : Nat} {value : UInt64} (hpath : Path log offset es)
    (hx : es[k]? = some x) (hdata : x.data = .head value)
    (hat : log_offset_end_distance log
        (entry_format.place log.len (entry_format.advance log.len offset (es.take k)) x) =
      log_offset_end_distance log log.commit) (head_offset : Nat) :
    head_after_entries log offset es head_offset = value.toNat := by
  induction es generalizing offset k head_offset with
  | nil => simp at hx
  | cons y es ih =>
    cases k with
    | succ k => exact ih hpath.tail (by simpa using hx) hat _
    | zero =>
      obtain rfl : y = x := by simpa using hx
      have hplace : log_offset_end_distance log (entry_format.place log.len offset y) =
          log_offset_end_distance log log.commit := hat
      have hdist := hpath.at_place.end_distance
      have hnext := hpath.tail.end_distance
      have hcost := entry_format.cost_pos log.len (entry_format.place log.len offset y) y
      have hagain := (RecordFormat.place_place hpath.holds.2.2.1).2.1
      rw [RecordFormat.span, hagain] at hdist
      have hvalue : head_after log (entry_format.place log.len offset y) y head_offset = value.toNat := by
        simp [head_after, hdata, log_is_offset_larger, hplace]
      rw [head_after_entries, hvalue]
      exact head_after_entries_behind hpath.tail (by omega) _

end head_offset

/-- The assignments after the loop move the head to the head offset, if this is larger. -/
theorem poll_finish_head (s : apply_t) (head_offset offset : Nat) :
    (poll_finish s head_offset offset).log.head =
      if log_is_offset_larger s.log head_offset s.log.head then head_offset else s.log.head := by
  unfold poll_finish
  generalize (if log_is_offset_larger s.log offset s.log.commit then s.log.commit else offset) = cid_offset
  by_cases hlarger : log_is_offset_larger s.log head_offset s.log.head = true
  · rw [if_pos hlarger]
    exact congrArg (fun s : apply_t => s.log.head) (if_pos hlarger)
  · rw [if_neg hlarger]
    exact (congrArg (fun s : apply_t => s.log.head) (if_neg hlarger)).trans rfl

/-- `poll_config_entries` ends, and the head stays or moves to the head offset found. -/
theorem poll_config_entries_spec {s : apply_t} {es : List dare_log_entry_t} (cid_idx : UInt64)
    (hpath : Path s.log s.data.cid_offset es) :
    ∃ s', poll_config_entries cid_idx s = some s' ∧
      (s'.log.head = s.log.head ∨
        (s'.log.head = head_after_entries s.log s.data.cid_offset es s.log.head ∧
          log_is_offset_larger s.log s'.log.head s.log.head = true)) ∧
      (s.running = true → (∀ x ∈ es, cid_idx < x.idx → KeepsServer s.data.idx x) →
        log_is_offset_larger s.log (head_after_entries s.log s.data.cid_offset es s.log.head) s.log.head =
          true →
        s'.log.head = head_after_entries s.log s.data.cid_offset es s.log.head) := by
  have hlength := hpath.length_le
  unfold SIZEOF_ENTRY at hlength
  obtain ⟨s', head_offset, stop, hloop, hlog, hresult, hstays⟩ :=
    poll_loop_path cid_idx s.log.head hpath (show 2 * es.length + 1 ≤ 2 * s.log.len + 1 by omega)
  unfold poll_config_entries
  rw [hloop]
  cases hrunning : s'.running with
  | false =>
    refine ⟨s', by simp [hrunning], .inl (by rw [hlog]), fun hgoes hkeeps => ?_⟩
    rw [hstays hgoes hkeeps] at hrunning
    cases hrunning
  | true =>
    obtain rfl := hresult hrunning
    refine ⟨_, by simp [hrunning]; rfl, ?_, fun _ _ hlarger => ?_⟩
    · rw [poll_finish_head, hlog]
      split
      · rename_i hlarger
        exact .inr ⟨rfl, hlarger⟩
      · exact .inl rfl
    · rw [poll_finish_head, hlog, if_pos hlarger]

/-- From the end of the log on there is nothing to poll. -/
theorem poll_config_entries_at_end {s : apply_t} (cid_idx : UInt64)
    (hdist : log_offset_end_distance s.log s.data.cid_offset = 0) :
    ∃ s', poll_config_entries cid_idx s = some s' ∧ s'.log.head = s.log.head := by
  have hloop : poll_loop cid_idx (2 * s.log.len + 1) s s.log.head s.data.cid_offset =
      some (s, s.log.head, s.data.cid_offset) := by
    simp [poll_loop, hdist]
  refine ⟨if s.running then poll_finish s s.log.head s.data.cid_offset else s, ?_, ?_⟩
  · rw [poll_config_entries, hloop]
    rfl
  · split
    · rw [poll_finish_head, ite_self]
    · rfl

/-- The log is full: its entries take the whole way round, from its head to its end, which is the same
    offset. -/
structure Full (log : dare_log_t) (all : List dare_log_entry_t) : Prop where
  end_lt : log.end_ < log.len
  end_eq : log.end_ = log.head
  holds : entry_format.Holds log.len log.entries log.head all
  reaches : entry_format.advance log.len log.head all = log.end_
  span : entry_format.span log.len log.head all = log.len

section full

variable {log : dare_log_t} {all : List dare_log_entry_t} {n position : Nat}

/-- From the place of its first entry a reader has less than the whole way before it, if this is not the
    head itself. -/
theorem Full.span_at_place {x : dare_log_entry_t} {rest : List dare_log_entry_t} (hfull : Full log (x :: rest))
    (hne : entry_format.place log.len log.head x ≠ log.head) :
    entry_format.span log.len (entry_format.place log.len log.head x) (x :: rest) < log.len := by
  have hspan := hfull.span
  have hlt := hfull.end_lt
  have hend := hfull.end_eq
  obtain ⟨hagain, hnext, -⟩ := RecordFormat.place_place hfull.holds.2.2.1
  have hcases := entry_format.write_cases log.len log.head x
  have hcases' := entry_format.write_cases log.len (entry_format.place log.len log.head x) x
  rw [hagain, hnext] at hcases'
  rw [RecordFormat.span] at hspan ⊢
  rw [hnext]
  omega

/-- A reader that starts at another boundary than the head meets the entries behind it. -/
theorem Full.path_at (hfull : Full log all) (hn : n ≤ all.length)
    (hat : entry_format.AtRecord log.len log.head all n position) (hne : position ≠ log.head) :
    Path log position (all.drop n) := by
  have hstart : log.head ≤ log.len := hfull.end_eq ▸ Nat.le_of_lt hfull.end_lt
  obtain ⟨hholds, hadvance, -⟩ := RecordFormat.holds_at hfull.holds hn hat
  have hle := RecordFormat.at_le hfull.holds hstart hn hat
  refine ⟨hfull.end_lt, hle, hholds, hadvance.trans hfull.reaches, ?_⟩
  obtain rfl | hpos := Nat.eq_zero_or_pos n
  · obtain hsame | ⟨x, hx, rfl⟩ := hat
    · exact absurd hsame hne
    · obtain ⟨rest, rfl⟩ : ∃ rest, all = x :: rest := by
        cases all with
        | nil => cases hx
        | cons y rest => exact ⟨rest, by rw [Option.some.inj hx]⟩
      exact hfull.span_at_place hne
  · have hlt := RecordFormat.span_lt_of_at hfull.holds hpos hn (.inl rfl) hat
    exact Nat.lt_of_lt_of_eq hlt hfull.span

/-- No offset is larger than the head of a full log. -/
theorem Full.not_larger (hfull : Full log all) (offset : Nat) :
    log_is_offset_larger log offset log.head = false := by
  have hdist : log_offset_end_distance log log.head = 0 := by
    rw [end_distance_eq hfull.end_lt, hfull.end_eq, dist_self]
  simp [log_is_offset_larger, hdist]

/-- The head of a full log does not move. -/
theorem Full.poll_keeps_head {s : apply_t} (hfull : Full s.log all) (hn : n ≤ all.length)
    (hcid : entry_format.AtRecord s.log.len s.log.head all n s.data.cid_offset) (cid_idx : UInt64) :
    ∃ s', poll_config_entries cid_idx s = some s' ∧ s'.log.head = s.log.head := by
  by_cases hstart : s.data.cid_offset = s.log.head
  · refine poll_config_entries_at_end cid_idx ?_
    rw [end_distance_eq hfull.end_lt, hstart, hfull.end_eq, dist_self]
  · obtain ⟨s', hpoll, hhead, -⟩ := poll_config_entries_spec cid_idx (hfull.path_at hn hcid hstart)
    refine ⟨s', hpoll, hhead.resolve_right fun hmoved => ?_⟩
    rw [hfull.not_larger] at hmoved
    cases hmoved.2

end full

/-- Entry `k` of the entries from the head on is a HEAD entry with this value, and it starts at
    `offset`. -/
def HeadEntryAt (log : dare_log_t) (all : List dare_log_entry_t) (k offset : Nat) (value : UInt64) : Prop :=
  ∃ x, all[k]? = some x ∧ x.data = .head value ∧
    offset = entry_format.place log.len (entry_format.advance log.len log.head (all.take k)) x

/-- If the head has changed, it is the value of a HEAD entry that starts before the commit offset. -/
def HeadFromCommitted (log log' : dare_log_t) (all : List dare_log_entry_t) : Prop :=
  log'.head ≠ log.head → ∃ k offset value, HeadEntryAt log all k offset value ∧
    log_is_offset_larger log log.commit offset = true ∧ log'.head = value.toNat

/-- No HEAD entry behind the first `n` entries starts at the commit offset whose value is larger than the
    head, unless a HEAD entry before the commit offset has the same value. -/
def NoHeadAtCommit (log : dare_log_t) (all : List dare_log_entry_t) (n : Nat) : Prop :=
  ∀ k offset value, n ≤ k → HeadEntryAt log all k offset value →
    log_offset_end_distance log offset = log_offset_end_distance log log.commit →
    log_is_offset_larger log value.toNat log.head = true →
    ∃ j before, HeadEntryAt log all j before value ∧ log_is_offset_larger log log.commit before = true

section claim

variable {s : apply_t} {all : List dare_log_entry_t} {n : Nat}

/-- The entries met by the loop, as entries of the whole log. -/
theorem headEntryAt_of_drop {log : dare_log_t} {x : dare_log_entry_t} {k cid_offset : Nat} {value : UInt64}
    (hpath : Path log log.head all) (hat : entry_format.AtRecord log.len log.head all n cid_offset)
    (hx : (all.drop n)[k]? = some x) (hdata : x.data = .head value) :
    HeadEntryAt log all (n + k)
      (entry_format.place log.len (entry_format.advance log.len cid_offset ((all.drop n).take k)) x)
      value := by
  have hk := (List.getElem?_eq_some_iff.mp hx).1
  have hboundary := hat.advance hpath.holds (Nat.le_of_lt hk)
  rw [List.getElem?_drop] at hx
  exact ⟨x, hx, hdata, hboundary.place_eq hpath.holds hx⟩

/-- A follower moves its head to the value of a HEAD entry before the commit offset only, exactly if no
    HEAD entry with another, larger value starts at the commit offset, which is that of the first
    entry that is not committed. This is so for full logs too, whose head does not move. The head never
    moves backwards. -/
theorem head_from_committed_iff (cid_idx : UInt64)
    (hlog : EntriesFrom s.log s.log.head all ∨ Full s.log all)
    (hn : n ≤ all.length) (hcid : entry_format.AtRecord s.log.len s.log.head all n s.data.cid_offset)
    (hrunning : s.running = true) :
    ∃ s', poll_config_entries cid_idx s = some s' ∧
      log_is_offset_larger s.log s.log.head s'.log.head = false ∧
      (NoHeadAtCommit s.log all n → HeadFromCommitted s.log s'.log all) ∧
      ((∀ x ∈ all.drop n, cid_idx < x.idx → KeepsServer s.data.idx x) →
        HeadFromCommitted s.log s'.log all → NoHeadAtCommit s.log all n) := by
  obtain hfull | ⟨rfl, hempty⟩ | hpath := hlog.symm
  · obtain ⟨s', hpoll, hhead⟩ := hfull.poll_keeps_head hn hcid cid_idx
    refine ⟨s', hpoll, by simp [log_is_offset_larger, hhead], fun _ hchanged => absurd hhead hchanged, ?_⟩
    rintro - - k offset value - - - hlarger
    rw [hfull.not_larger] at hlarger
    cases hlarger
  · obtain ⟨s', hpoll, hhead⟩ := poll_config_entries_at_end (s := s) cid_idx
      (by simp [log_offset_end_distance, hempty])
    refine ⟨s', hpoll, by simp [log_is_offset_larger, hhead], fun _ hchanged => absurd hhead hchanged, ?_⟩
    rintro - - k offset value - ⟨x, hx, -⟩
    simp at hx
  have htail := hpath.at_record hn hcid
  obtain ⟨s', hpoll, hhead, hmoves⟩ := poll_config_entries_spec cid_idx htail
  refine ⟨s', hpoll, ?_, fun hnone hchanged => ?_, fun hkeeps hcommitted => ?_⟩
  · obtain hsame | ⟨-, hlarger⟩ := hhead
    · simp [log_is_offset_larger, hsame]
    · rw [log_is_offset_larger, decide_eq_true_eq] at hlarger
      rw [log_is_offset_larger, decide_eq_false_iff_not]
      omega
  · obtain hsame | ⟨hvalue, hlarger⟩ := hhead
    · exact absurd hsame hchanged
    obtain hsame | ⟨k, x, value, hx, hdata, hbefore, hresult⟩ :=
      head_after_entries_cases s.log s.data.cid_offset (all.drop n) s.log.head
    · exact absurd (hvalue.trans hsame) hchanged
    have hentry := headEntryAt_of_drop hpath hcid hx hdata
    rw [log_is_offset_larger, decide_eq_false_iff_not] at hbefore
    obtain hstrict | hequal := Nat.lt_or_eq_of_le (Nat.le_of_not_lt hbefore)
    · exact ⟨_, _, value, hentry, decide_eq_true hstrict, hvalue.trans hresult⟩
    · rw [hvalue.trans hresult] at hlarger
      obtain ⟨j, before, hfirst, hcommit⟩ :=
        hnone _ _ value (Nat.le_add_right n k) hentry hequal.symm hlarger
      exact ⟨j, before, value, hfirst, hcommit, hvalue.trans hresult⟩
  · rintro k offset value hnk ⟨x, hx, hdata, rfl⟩ hat hlarger
    obtain ⟨k, rfl⟩ := Nat.exists_eq_add_of_le hnk
    have hx' : (all.drop n)[k]? = some x := by rwa [List.getElem?_drop]
    obtain ⟨x', hx'', -, hplace⟩ := headEntryAt_of_drop hpath hcid hx' hdata
    obtain rfl : x = x' := Option.some.inj (hx.symm.trans hx'')
    rw [← hplace] at hat
    have hresult := head_after_entries_at_commit htail hx' hdata hat s.log.head
    have hmoved := hmoves hrunning hkeeps (by rwa [hresult])
    rw [hresult] at hmoved
    have hchanged : s'.log.head ≠ s.log.head := by
      intro hsame
      rw [← hmoved, hsame, log_is_offset_larger] at hlarger
      simp at hlarger
    obtain ⟨j, before, value', hfirst, hcommit, hequal⟩ := hcommitted hchanged
    obtain rfl : value = value' := UInt64.toNat_inj.mp (hmoved.symm.trans hequal)
    exact ⟨j, before, hfirst, hcommit⟩

end claim

/-- A log with two NOOP entries and a HEAD entry for the offset behind the first one. -/
def head_log : dare_log_t :=
  let log := (log_append_entry log_new 1 0 0 .noop).1
  let log := (log_append_entry log 1 0 0 .noop).1
  (log_append_entry log 1 0 0 (.head 48)).1

def head_log_entries : List dare_log_entry_t :=
  [⟨1, 1, 0, 0, .noop⟩, ⟨2, 1, 0, 0, .noop⟩, ⟨3, 1, 0, 0, .head 48⟩]

theorem head_log_path : Path head_log 0 head_log_entries := by
  have hfirst : RoomyAppend log_new 1 0 0 .noop := by
    unfold RoomyAppend HasRoom EndsAtLen
    decide
  have hsecond : RoomyAppend (log_append_entry log_new 1 0 0 .noop).1 1 0 0 .noop := by
    unfold RoomyAppend HasRoom EndsAtLen
    decide
  have hthird : RoomyAppend (log_append_entry (log_append_entry log_new 1 0 0 .noop).1 1 0 0 .noop).1 1 0 0
      (.head 48) := by
    unfold RoomyAppend HasRoom EndsAtLen
    decide +kernel
  have hrun := Run.append 1 0 0 (.head 48)
    (Run.append 1 0 0 .noop (Run.append 1 0 0 .noop Run.new hfirst rfl) hsecond rfl) hthird rfl
  obtain ⟨hnil, -⟩ | hpath := (readable_of_run hrun).2.path
  · simp at hnil
  · exact hpath

/-- A server that has polled nothing yet and knows the log to be committed up to this offset. -/
def polling_at (commit : Nat) : apply_t where
  data := { (init_server_data 0 3).get admits_three with log := { head_log with commit := commit } }
  req_id := 0
  clt_id := 0
  die_af_commit := false
  last_applied_entry := ⟨0, 0, 0⟩
  last_cmt_write_csm_idx := 0
  running := true
  calls := []

theorem head_of_committed_log :
    ∃ s', poll_config_entries 0 (polling_at 144) = some s' ∧
      log_is_offset_larger (polling_at 144).log 0 s'.log.head = false ∧
      (NoHeadAtCommit (polling_at 144).log head_log_entries 0 →
        HeadFromCommitted (polling_at 144).log s'.log head_log_entries) ∧
      ((∀ x ∈ head_log_entries, 0 < x.idx → KeepsServer 0 x) →
        HeadFromCommitted (polling_at 144).log s'.log head_log_entries →
        NoHeadAtCommit (polling_at 144).log head_log_entries 0) :=
  head_from_committed_iff 0 (.inl (.inr (head_log_path.congr_log rfl rfl rfl))) (Nat.zero_le _) (.inl rfl) rfl

/-- The HEAD entry is the first entry that is not committed. The follower moves its head all the
    same. -/
theorem uncommitted_head_taken :
    EntriesFrom (polling_at 96).log (polling_at 96).log.head head_log_entries ∧
    ∃ s', poll_config_entries 0 (polling_at 96) = some s' ∧ s'.log.head = 48 ∧
      ¬HeadFromCommitted (polling_at 96).log s'.log head_log_entries := by
  have hpoll : (poll_config_entries 0 (polling_at 96)).map (·.log.head) = some 48 := by decide +kernel
  obtain ⟨s', hs', hhead⟩ := Option.map_eq_some_iff.mp hpoll
  refine ⟨.inr (head_log_path.congr_log rfl rfl rfl), s', hs', hhead, fun hcommitted => ?_⟩
  have hzero : (polling_at 96).log.head = 0 := by decide
  obtain ⟨k, offset, value, ⟨x, hx, hdata, rfl⟩, hbefore, -⟩ := hcommitted (by rw [hhead, hzero]; decide)
  obtain _ | _ | _ | k := k
  · obtain rfl := Option.some.inj hx
    cases hdata
  · obtain rfl := Option.some.inj hx
    cases hdata
  · obtain rfl := Option.some.inj hx
    exact absurd hbefore (by decide +kernel)
  · cases hx

end dare.server
