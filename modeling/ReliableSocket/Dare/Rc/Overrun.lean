import ReliableSocket.Dare.Rc.Equal

open memory ring
open dare.log dare.server

namespace dare.rc

/-- The words of a buffer that records the entries `ys` of a log from offset 0 on. -/
def recorded_word (ys : List dare_log_entry_t) : Nat → UInt64
  | 0 => UInt64.ofNat ys.length
  | w + 1 => ys[w / 3]?.elim 0 fun y =>
    if w % 3 = 0 then y.idx
    else if w % 3 = 1 then y.term
    else UInt64.ofNat (met_offset LOG_SIZE (entry_format.advance LOG_SIZE 0 (ys.take (w / 3))))

/-- A memory with nothing but such a buffer of server `i`. -/
def recorded_mem (i : Nat) (ys : List dare_log_entry_t) : Mem := fun b =>
  let w := (b - nc_buf_addr i) / 8
  store (fun _ => 0) (nc_buf_addr i + 8 * w) (leBytes 8 (recorded_word ys w).toNat) b

section records

variable {log : dare_log_t} {i : Nat} {ys : List dare_log_entry_t} (hrecords : Records log i LOG_SIZE 0 ys)
include hrecords

theorem loadU64_of_records {w : Nat} (hw : w < 1 + 3 * ys.length) :
    loadU64 log.mem (nc_buf_addr i + 8 * w) = recorded_word ys w := by
  cases w with
  | zero => rw [recorded_word, ← hrecords.nc_len, nc_buf_len, UInt64.ofNat_toNat, Nat.mul_zero, Nat.add_zero]
  | succ w =>
    have hk : w / 3 < ys.length := by omega
    have hdet := hrecords.det _ hk
    rw [nc_buf_det, dare_log_entry_det_t.mk.injEq, nc_det_addr, SIZEOF_DET] at hdet
    obtain ⟨hidx, hterm, hoffset⟩ := hdet
    rw [recorded_word, List.getElem?_eq_getElem hk, Option.elim_some, ← hidx, ← hterm, ← hoffset]
    split
    · exact congrArg (loadU64 log.mem) (by omega)
    · split
      · exact congrArg (loadU64 log.mem) (by omega)
      · exact congrArg (loadU64 log.mem) (by omega)

/-- The bytes of a buffer are those of the words recorded in it. -/
theorem mem_of_records {b : Nat} (hlow : nc_buf_addr i ≤ b) (hhigh : b < nc_det_addr i ys.length) :
    log.mem b = recorded_mem i ys b := by
  unfold nc_det_addr SIZEOF_DET at hhigh
  have hword := loadU64_of_records hrecords (w := (b - nc_buf_addr i) / 8) (by omega)
  have hstored := loadU64_of_load (load_store (m := fun _ => 0) (a := nc_buf_addr i + 8 * ((b - nc_buf_addr i) / 8))
    (leBytes_length 8 (recorded_word ys ((b - nc_buf_addr i) / 8)).toNat))
  exact eq_of_load_eq (load_of_loadU64_eq (hword.trans hstored.symm)) (by omega) (by omega)

end records

/-- Two states that differ at most in what the log of server `i` is outside of the first `n` slots of its buffer. -/
structure SameBuffer (i n : Nat) (s t : State) : Prop where
  leader : t.leader = s.leader
  posted : t.posted = s.posted
  others : ∀ j ≠ i, t.remote j = s.remote j
  buffer : ∀ b, nc_buf_addr i ≤ b → b < nc_det_addr i n → (t.remote i).mem b = (s.remote i).mem b

/-- A request that reads from this part of the buffer. -/
def Reads (n : Nat) (wr : work_request) : Prop :=
  wr.operation = .read_nc_len ∨ wr.operation = .read_nc_entries (n * SIZEOF_DET)

instance (n : Nat) (wr : work_request) : Decidable (Reads n wr) := inferInstanceAs (Decidable (_ ∨ _))

theorem SameBuffer.execute {i n : Nat} {s t : State} {wr : work_request} (hsame : SameBuffer i n s t)
    (hreads : Reads n wr) (bytes : Nat) (log : dare_log_t) :
    (execute i wr.operation bytes log (t.remote i)).1 = (execute i wr.operation bytes log (s.remote i)).1 ∧
      (execute i wr.operation bytes log (t.remote i)).2 = t.remote i ∧
      (execute i wr.operation bytes log (s.remote i)).2 = s.remote i := by
  have hcopy (a k : Nat) (hlow : nc_buf_addr i ≤ a) (hhigh : a + k ≤ nc_det_addr i n) :
      copy (t.remote i).mem log.mem a k = copy (s.remote i).mem log.mem a k := by
    funext b
    simp only [copy]
    split
    · exact hsame.buffer b (by omega) (by omega)
    · rfl
  obtain hread | hread := hreads
  all_goals rw [hread]
  · refine ⟨?_, rfl, rfl⟩
    simp only [rc.execute, hcopy _ 8 (le_refl _) (by unfold nc_det_addr; omega)]
  · refine ⟨?_, rfl, rfl⟩
    rw [rc.execute, rc.execute, hcopy _ _ (by unfold nc_det_addr; omega)]
    unfold nc_det_addr SIZEOF_DET
    omega

/-- The steps in which a leader adjusts and updates the logs, and reads only this part of the buffer. -/
def ReadsBuffer (i n : Nat) (s : State) : Action → Prop
  | .log_adjustment _ | .update_remote_log _ => True
  | .complete _ _ _ => ∀ wr ∈ s.posted i, Reads n wr
  | _ => False

instance (i n : Nat) (s : State) (a : Action) : Decidable (ReadsBuffer i n s a) :=
  match a with
  | .log_adjustment _ | .update_remote_log _ => isTrue trivial
  | .complete _ _ _ => inferInstanceAs (Decidable (∀ wr ∈ s.posted i, Reads n wr))
  | .append _ _ _ | .update_commit | .update_remote_commit _ | .vote_ack _ _ | .fail_count _ _ | .remote _ _ =>
    isFalse id

/-- Then it does the same in both states. -/
theorem SameBuffer.step {i n : Nat} {s t : State} {a : Action} (hsame : SameBuffer i n s t)
    (hreads : ReadsBuffer i n s a) : SameBuffer i n (step s a) (step t a) := by
  cases a with
  | log_adjustment j | update_remote_log j =>
    simp only [rc.step, post, hsame.leader, hsame.posted]
    split
    · exact ⟨rfl, rfl, hsame.others, hsame.buffer⟩
    · exact hsame
  | complete j success bytes =>
    simp only [rc.step, complete, hsame.posted]
    cases hposted : s.posted j with
    | nil => exact hsame
    | cons wr rest =>
      dsimp only
      by_cases hj : j = i
      · subst hj
        obtain ⟨hlog, hkept, hkept'⟩ := hsame.execute (hreads wr (by rw [hposted]; exact List.mem_cons_self))
          (if success then wr.operation.len else bytes) s.leader.log
        rw [hsame.leader, hlog, hkept, hkept', Function.update_eq_self, Function.update_eq_self]
        exact ⟨rfl, rfl, hsame.others, hsame.buffer⟩
      · rw [hsame.leader, hsame.others j hj]
        refine ⟨rfl, rfl, fun k hk => ?_, ?_⟩
        · simp only [Function.update_apply]
          split
          · rfl
          · exact hsame.others k hk
        · simp only [Function.update_of_ne (Ne.symm hj)]
          exact hsame.buffer
  | _ => exact hreads.elim

/-- The log of the leader of term 4 of five servers: what it has appended as the leader of term 3, and
    its blank entry. -/
def overrun_leader : List dare_log_entry_t :=
  [⟨1, 3, 0, 0, .noop⟩, ⟨2, 3, 7, 4, zero_cmd 2016 (by decide)⟩, ⟨3, 4, 0, 0, .noop⟩]

/-- What server 1 has appended as the leader of term 1: a blank entry, and then commands. -/
def overrun_long : List dare_log_entry_t :=
  ⟨1, 1, 0, 0, .noop⟩ :: (List.range 1025).map fun k => ⟨UInt64.ofNat (k + 2), 1, 3, 5, zero_cmd 0 (by decide)⟩

/-- Server 2 was elected for term 2 and has appended its blank entry, the others have nothing. -/
def overrun_entries (i : Nat) : List dare_log_entry_t :=
  if i = 1 then overrun_long else if i = 2 then [⟨1, 2, 0, 0, .noop⟩] else []

/-- None of these entries is committed when the leader is elected. -/
def overrun_start : State where
  leader := fresh_leader 5 4 (log_of overrun_leader) fun _ => 0
  remote := fun i => (log_entries_to_nc_buf (log_of (overrun_entries i)) i).getD (log_of (overrun_entries i))
  posted := fun _ => []

/-- The leader reads what server 2 has published and then what server 1 has; it goes on with server 2, up to the
    request that sets its end. -/
def overrun_actions : List Action :=
  [.log_adjustment 2, .complete 2 true 0, .log_adjustment 2, .complete 2 true 0,
    .log_adjustment 1, .complete 1 true 0, .log_adjustment 1, .complete 1 true 0,
    .log_adjustment 2, .complete 2 true 0, .update_remote_log 2, .complete 2 true 0, .update_remote_log 2]

theorem overrun_entries_cases (i : Nat) :
    (i = 1 ∧ overrun_entries i = overrun_long) ∨ (i = 2 ∧ overrun_entries i = [⟨1, 2, 0, 0, .noop⟩]) ∨
      overrun_entries i = [] := by
  unfold overrun_entries
  split
  · exact .inl ⟨‹_›, rfl⟩
  · split
    · exact .inr (.inl ⟨‹_›, rfl⟩)
    · exact .inr (.inr rfl)

theorem overrun_long_length : overrun_long.length = 1026 := by simp [overrun_long]

theorem overrun_long_idx (k : Nat) (hk : k < overrun_long.length) : overrun_long[k].idx.toNat = k + 1 := by
  have hlength := overrun_long_length
  cases k with
  | zero => rfl
  | succ k =>
    simp only [overrun_long, List.getElem_cons_succ, List.getElem_map, List.getElem_range, UInt64.toNat_ofNat']
    omega

theorem overrun_long_size : (overrun_long.map dare_log_entry_t.len).sum < LOG_SIZE := by
  have hlen (x : dare_log_entry_t) (hx : x ∈ overrun_long) : x.len = 48 := by
    simp only [overrun_long, List.mem_cons, List.mem_map] at hx
    obtain rfl | ⟨k, -, rfl⟩ := hx <;> rfl
  have hlength := overrun_long_length
  rw [List.map_congr_left hlen, List.map_const', List.sum_replicate_nat, hlength, LOG_SIZE_eq]
  decide

theorem overrun_leader_size : (overrun_leader.map dare_log_entry_t.len).sum = 2160 := by
  simp [overrun_leader, dare_log_entry_t.len, zero_cmd, log_data.cmd_bytes, SIZEOF_ENTRY, -List.reduceReplicate]

theorem overrun_leader_idx (k : Nat) (hk : k < overrun_leader.length) : overrun_leader[k].idx.toNat = k + 1 := by
  match k, hk with
  | 0, _ | 1, _ | 2, _ => rfl

theorem overrun_start_log : overrun_start.leader.log = log_of overrun_leader := by
  simp only [overrun_start, fresh_leader]

theorem overrun_starts {i : Nat} (hi : i < MAX_SERVER_COUNT) :
    Starts i 0 0 (log_of (overrun_entries i)) (overrun_entries i) overrun_leader overrun_start := by
  refine starts_of_entries (by decide) hi (List.cons_ne_nil _ _) overrun_leader_idx ?_ ?_ ?_ ?_
    overrun_start_log rfl rfl (fun _ => rfl) rfl ?_
  · rw [overrun_leader_size, LOG_SIZE_eq]
    decide
  all_goals obtain ⟨rfl, heq⟩ | ⟨rfl, heq⟩ | heq := overrun_entries_cases i
  all_goals rw [heq]
  · exact overrun_long_idx
  · decide
  · decide
  · exact overrun_long_size
  · decide
  · decide
  · simp only [overrun_long, List.length_cons, List.length_map, List.length_range]
    decide
  · decide
  · exact nc_det_addr_fits hi (Nat.zero_le _)
  · exact logMatching_of_term_ne _ _ (by decide)
  · exact logMatching_of_term_ne _ _ (by decide)
  · exact logMatching_nil _

/-- The same with a memory for server 1 that has nothing but the buffer, so that a run can be computed. -/
def overrun_start_short : State :=
  { overrun_start with
    remote := Function.update overrun_start.remote 1 { log_new with mem := recorded_mem 1 overrun_long } }

theorem overrun_same : SameBuffer 1 overrun_long.length overrun_start_short overrun_start := by
  have hlen : overrun_start.leader.log.len = LOG_SIZE := by
    obtain ⟨hrun, -⟩ := run_log_of overrun_leader overrun_leader_idx
      (by rw [overrun_leader_size, LOG_SIZE_eq]; decide)
    rw [overrun_start_log, (indexed_of_short_run hrun).len]
  obtain ⟨-, hrecords, -⟩ := (overrun_starts (i := 1) (by decide)).published_log
    (show nc_det_addr 1 overrun_long.length ≤ ENTRIES_OFFSET by rw [overrun_long_length]; decide)
  rw [hlen] at hrecords
  refine ⟨rfl, rfl, fun j hj => ?_, fun b hlow hhigh => ?_⟩
  · exact (Function.update_of_ne hj _ _).symm
  · rw [mem_of_records hrecords hlow hhigh]
    simp only [overrun_start_short, Function.update_self]
    rfl

/-- The run up to the last action, in which only the buffer of server 1 is read. -/
theorem overrun_run :
    SameBuffer 1 overrun_long.length (run.steps step overrun_start_short overrun_actions)
        (run.steps step overrun_start overrun_actions) ∧
      run.AllOk step (fun s a => Matches 2 0 (overrun_entries 2) s a ∧ FreshEnd 2 0 (overrun_entries 2) s a)
        overrun_start overrun_actions := by
  have hok : run.AllOk step
      (fun s a => ReadsBuffer 1 overrun_long.length s a ∧ HeaderFits s.leader.log s.leader.log.end_)
      overrun_start_short overrun_actions := by
    rw [overrun_long_length]
    decide +kernel
  refine hok.simulates (fun s t a hsame hok => hsame.step hok.1) (fun s t a hsame hok => ?_) overrun_same
  obtain ⟨hreads, hfits⟩ := hok
  rw [← hsame.leader] at hfits
  cases a with
  | log_adjustment j => exact ⟨trivial, fun _ _ => noStaleHeader_of_fits _ _ hfits⟩
  | update_remote_log j => exact ⟨trivial, trivial⟩
  | complete j success bytes => exact ⟨trivial, trivial⟩
  | _ => exact hreads.elim

/-- Replication does not always make the logs equal. Server 1 has published two entries more than there are slots, and
    the read of its determinants overruns the buffer of server 2. The end that the leader then finds for server 2 lies
    inside an entry: its first entry is kept, although the leader has another one there. -/
theorem overrun_buffer_keeps_entry :
    let s := run.steps step overrun_start overrun_actions
    let s' := step s (.complete 2 true 0)
    let cached_end := (s.leader.servers 2).cached_end_offset
    (∀ i < MAX_SERVER_COUNT,
      Starts i 0 0 (log_of (overrun_entries i)) (overrun_entries i) overrun_leader overrun_start) ∧
      (overrun_entries 1).length = MAX_NC_ENTRIES + 2 ∧ (overrun_entries 2).length = 1 ∧
      Run (fun s a => Matches 2 0 (overrun_entries 2) s a ∧ FreshEnd 2 0 (overrun_entries 2) s a) overrun_start s ∧
      (s.leader.servers 2).next_lr_step = .LR_UPDATE_END ∧ (s'.leader.servers 2).next_lr_step = .LR_UPDATE_LOG ∧
      ¬∃ entries, log_walk (s'.remote 2) ((s'.remote 2).len + 1) 0 = some (entries, cached_end) ∧
        log_walk { s'.leader.log with end_ := cached_end } (s'.leader.log.len + 1) 0 =
          some (entries, cached_end) := by
  have hshort : let s := run.steps step overrun_start_short overrun_actions
      let s' := step s (.complete 2 true 0)
      let cached_end := (s.leader.servers 2).cached_end_offset
      ReadsBuffer 1 1026 s (.complete 2 true 0) ∧ (s.leader.servers 2).next_lr_step = .LR_UPDATE_END ∧
        (s'.leader.servers 2).next_lr_step = .LR_UPDATE_LOG ∧
        log_walk (s'.remote 2) ((s'.remote 2).len + 1) 0 ≠
          log_walk { s'.leader.log with end_ := cached_end } (s'.leader.log.len + 1) 0 := by
    decide +kernel
  obtain ⟨hreads, hat, hdone, hdiffer⟩ := hshort
  obtain ⟨hsame, hok⟩ := overrun_run
  rw [← overrun_long_length] at hreads
  have hsame' := hsame.step hreads
  refine ⟨fun i hi => overrun_starts hi, overrun_long_length, rfl, run_steps .start hok, ?_, ?_, ?_⟩
  · rw [hsame.leader]
    exact hat
  · rw [hsame'.leader]
    exact hdone
  · rw [hsame.leader, hsame'.leader, hsame'.others 2 (by decide)]
    rintro ⟨entries, hremote, hleader⟩
    exact hdiffer (hremote.trans hleader.symm)

end dare.rc
