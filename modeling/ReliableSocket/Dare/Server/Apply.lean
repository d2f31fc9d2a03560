import ReliableSocket.Dare.Server.Data

open memory ring dare.log

namespace dare.server

/-- The calls that `apply_committed_entries` makes. `proxy_store_cmd` gets a pointer into the entry. -/
inductive apply_call where
  | proxy_store_cmd (entry : dare_log_entry_t)
  | proxy_do_action (clt_id : UInt16) (type : UInt8) (data_size : UInt16) (data : List UInt8)
  | proxy_update_state
  | dare_ib_send_clt_reply (clt_id : UInt16) (req_id : UInt64)
  | dare_ib_disconnect_server (i : Nat)
  | dare_server_shutdown
deriving DecidableEq

/-- What `apply_committed_entries` reads and changes: the data of the server, the rest of its
    configuration, the flag DIE_AF_COMMIT, and the calls made so far. The server runs until it calls
    `dare_server_shutdown`. -/
structure apply_t where
  data : dare_server_data_t
  req_id : UInt64
  clt_id : UInt16
  die_af_commit : Bool
  last_applied_entry : dare_log_entry_det_t
  last_cmt_write_csm_idx : UInt64
  running : Bool
  calls : List apply_call

namespace apply_t

def log (s : apply_t) : dare_log_t := s.data.log

def set_log (s : apply_t) (log : dare_log_t) : apply_t := { s with data := s.data.set_log log }

def set_apply (s : apply_t) (offset : Nat) : apply_t := s.set_log { s.log with apply := offset }

def set_cid (s : apply_t) (cid : dare_cid_t) : apply_t := { s with data := { s.data with cid := cid } }

def call (s : apply_t) (call : apply_call) : apply_t := { s with calls := s.calls ++ [call] }

end apply_t

/-- The type of the entry is none of CONFIG, NOOP and HEAD. -/
def is_client (type : UInt8) : Bool := decide (CONFIG ≠ type ∧ NOOP ≠ type ∧ HEAD ≠ type)

/-- The data that the follower passes on are read from the log. -/
def do_action_call (m : Mem) (entry : Nat) : apply_call :=
  .proxy_do_action (entry_clt_id m entry) (entry_type m entry) (entry_cmd_len m entry)
    (load m (entry + CMD_OFFSET) (entry_cmd_len m entry).toNat)

/-- The code at the label `apply_entry`. -/
def apply_entry (s : apply_t) (entry : Nat) : apply_t :=
  let m := s.log.entries
  if is_client (entry_type m entry) then
    { s with
      calls := s.calls ++ [.proxy_store_cmd (read_entry m entry),
        if !IS_LEADER s.data then do_action_call m entry else .proxy_update_state]
      last_applied_entry :=
        { idx := entry_idx m entry
          term := entry_term m entry
          offset := UInt64.ofNat (s.log.apply + log_entry_len m entry) }
      last_cmt_write_csm_idx := entry_idx m entry }
  else s

/-- The loop over the servers that a downsized configuration no longer has. -/
def remove_servers : Nat → Nat → apply_t → apply_t
  | 0, _, s => s
  | fuel + 1, i, s =>
    if i < s.data.cid.size_0.toNat then
      if i = s.data.idx then
        remove_servers fuel (i + 1) { s.set_cid (CID_SERVER_RM s.data.cid i) with die_af_commit := true }
      else if !CID_IS_SERVER_ON s.data.cid i then remove_servers fuel (i + 1) s
      else
        remove_servers fuel (i + 1)
          ((s.set_cid (CID_SERVER_RM s.data.cid i)).call (.dare_ib_disconnect_server i))
    else s

/-- What the leader does with a committed CONFIG entry. -/
def apply_config (s : apply_t) (entry : Nat) : apply_t :=
  let m := s.log.entries
  let cid := dare_cid_t.read m (entry + DATA_OFFSET)
  let req_id := entry_req_id m entry
  let clt_id := entry_clt_id m entry
  if cid.state = CID_STABLE then
    if req_id ≠ 0 then
      let s := s.call (.dare_ib_send_clt_reply clt_id req_id)
      if s.die_af_commit then { s.call .dare_server_shutdown with running := false } else s
    else s
  else if cid.epoch < s.data.cid.epoch then s
  else
    let (s, req_id, clt_id) :=
      if cid.state = CID_EXTENDED then
        let s := s.set_cid { s.data.cid with state := CID_TRANSIT }
        if req_id ≠ 0 then (s.call (.dare_ib_send_clt_reply clt_id req_id), (0 : UInt64), (0 : UInt16))
        else (s, req_id, clt_id)
      else if cid.state = CID_TRANSIT then
        let s := s.set_cid { s.data.cid with state := CID_STABLE }
        let s := remove_servers 256 s.data.cid.size_1.toNat s
        (s.set_cid { s.data.cid with size_0 := s.data.cid.size_1, size_1 := 0 }, req_id, clt_id)
      else (s, req_id, clt_id)
    let s := { s with req_id := req_id, clt_id := clt_id }
    s.set_log (log_append_entry s.log (SID_GET_TERM s.data.sid) req_id clt_id (.config s.data.cid)).1

/-- One entry: a follower applies it, the leader looks at its type first. -/
def apply_step (s : apply_t) (entry : Nat) : apply_t :=
  let type := entry_type s.log.entries entry
  if !IS_LEADER s.data then apply_entry s entry
  else if type = NOOP ∨ type = HEAD then s
  else if type ≠ CONFIG then apply_entry s entry
  else apply_config s entry

section apply_entry

variable {s : apply_t} {entry : Nat}

theorem is_client_iff (type : UInt8) :
    is_client type = true ↔ type ≠ NOOP ∧ type ≠ CONFIG ∧ type ≠ HEAD := by
  rw [is_client, decide_eq_true_eq]
  exact ⟨fun h => ⟨h.2.1.symm, h.1.symm, h.2.2.symm⟩, fun h => ⟨h.2.1.symm, h.1.symm, h.2.2.symm⟩⟩

/-- The data passed on are those of the entry. -/
theorem do_action_call_eq {m : Mem} {x : dare_log_entry_t} {type : cmd_type} {c : sm_cmd_t}
    (hread : read_entry m entry = x) (hdata : x.data = .cmd type c) :
    do_action_call m entry = .proxy_do_action x.clt_id type.val c.len c.cmd := by
  subst hread
  have htype : entry_type m entry = type.val := by
    rw [← read_data_type]
    exact congrArg log_data.type hdata
  have hcmd := type.property
  rw [← htype] at hcmd
  have hread : read_data m entry = .cmd type c := hdata
  rw [read_data_cmd hcmd] at hread
  obtain ⟨-, rfl⟩ := log_data.cmd.inj hread
  simp only [do_action_call, read_entry, htype, sm_cmd_t.len, load_length, UInt16.ofNat_toNat]

/-- A follower stores a client entry and passes it to the guest. -/
theorem apply_step_follower (hfollower : IS_LEADER s.data = false)
    (hclient : is_client (entry_type s.log.entries entry) = true) :
    (apply_step s entry).calls = s.calls ++
      [.proxy_store_cmd (read_entry s.log.entries entry), do_action_call s.log.entries entry] := by
  simp [apply_step, apply_entry, hfollower, hclient]

end apply_entry

/-- The loop of `apply_committed_entries`. No fuel means that it has not ended. An entry that is
    missing does not occur below the commit offset. -/
def apply_loop : Nat → apply_t → Option apply_t
  | 0, _ => none
  | fuel + 1, s =>
    if s.running && log_is_offset_larger s.log s.log.commit s.log.apply then
      match log_get_entry s.log s.log.apply with
      | none => none
      | some entry =>
        let s := s.set_apply entry
        if !log_fit_entry s.log s.log.apply entry then apply_loop fuel (s.set_apply 0)
        else
          let s := apply_step s entry
          apply_loop fuel (s.set_apply (s.log.apply + log_entry_len s.log.entries entry))
    else some s

/-- No way round the buffer passes more than `len` offsets. -/
def apply_committed_entries (s : apply_t) : Option apply_t := apply_loop (2 * s.log.len + 1) s

section loop

variable {s : apply_t} {x : dare_log_entry_t} {es rest : List dare_log_entry_t}

/-- The calls made for an entry; CONFIG entries of the leader apart, only client entries cause any. -/
def entry_calls (leader : Bool) (x : dare_log_entry_t) : List apply_call :=
  match x.data with
  | .cmd type c =>
    [.proxy_store_cmd x,
      if leader then .proxy_update_state else .proxy_do_action x.clt_id type.val c.len c.cmd]
  | .noop | .config _ | .head _ => []

/-- What is left behind by an entry that is met at the apply offset. -/
def record_entry (s : apply_t) (x : dare_log_entry_t) : apply_t :=
  if is_client x.type then
    { s with
      calls := s.calls ++ entry_calls (IS_LEADER s.data) x
      last_applied_entry := ⟨x.idx, x.term, UInt64.ofNat (s.log.apply + x.len)⟩
      last_cmt_write_csm_idx := x.idx }
  else s

/-- The apply offset moves to the place of the entry and then behind it. -/
def after_entry (s : apply_t) (x : dare_log_entry_t) : apply_t :=
  let s := record_entry (s.set_apply (entry_format.place s.log.len s.log.apply x)) x
  s.set_apply (s.log.apply + x.len)

def after_entries (s : apply_t) (es : List dare_log_entry_t) : apply_t := es.foldl after_entry s

/-- A CONFIG entry that the leader has nothing to do for: it is stable and nobody waits for a reply,
    or it belongs to an earlier configuration. -/
def Settled (s : apply_t) (x : dare_log_entry_t) : Prop :=
  IS_LEADER s.data = true → ∀ cid, x.data = .config cid →
    if cid.state = CID_STABLE then x.req_id = 0 else cid.epoch < s.data.cid.epoch

theorem is_client_cmd {type : cmd_type} {c : sm_cmd_t} (hdata : x.data = .cmd type c) :
    is_client x.type = true := by
  rw [is_client_iff, dare_log_entry_t.type, hdata]
  exact type.property

/-- A client entry is stored, and one more call is made for it. -/
theorem entry_calls_client (leader : Bool) (hclient : is_client x.type = true) :
    ∃ call, entry_calls leader x = [.proxy_store_cmd x, call] ∧ ∀ y, call ≠ .proxy_store_cmd y := by
  cases hdata : x.data with
  | cmd type c =>
    refine ⟨_, by rw [entry_calls, hdata], fun y => ?_⟩
    cases leader <;> simp
  | noop => simp [dare_log_entry_t.type, hdata, log_data.type, is_client] at hclient
  | config cid => simp [dare_log_entry_t.type, hdata, log_data.type, is_client] at hclient
  | head offset => simp [dare_log_entry_t.type, hdata, log_data.type, is_client] at hclient

theorem entry_calls_other (leader : Bool) (hother : is_client x.type = false) :
    entry_calls leader x = [] := by
  cases hdata : x.data with
  | cmd type c =>
    rw [is_client_cmd hdata] at hother
    cases hother
  | noop => rw [entry_calls, hdata]
  | config cid => rw [entry_calls, hdata]
  | head offset => rw [entry_calls, hdata]

theorem apply_entry_eq (hread : read_entry s.log.entries entry = x) :
    apply_entry s entry = record_entry s x := by
  have hheader := hasHeader_of_read_entry hread
  simp only [apply_entry, record_entry, hheader.type, hheader.idx, hheader.term, hheader.len]
  cases hdata : x.data with
  | cmd type c =>
    rw [if_pos (is_client_cmd hdata), if_pos (is_client_cmd hdata)]
    cases hrole : IS_LEADER s.data
    · simp [entry_calls, hdata, hread, do_action_call_eq hread hdata]
    · simp [entry_calls, hdata, hread]
  | noop => simp [dare_log_entry_t.type, hdata, log_data.type, is_client]
  | config cid => simp [dare_log_entry_t.type, hdata, log_data.type, is_client]
  | head offset => simp [dare_log_entry_t.type, hdata, log_data.type, is_client]

/-- The leader's look at the type makes no difference for settled entries. -/
theorem apply_step_eq (hread : read_entry s.log.entries entry = x) (hsettled : Settled s x) :
    apply_step s entry = record_entry s x := by
  have hheader := hasHeader_of_read_entry hread
  have hentry := apply_entry_eq hread
  cases hrole : IS_LEADER s.data with
  | false => simp only [apply_step, hrole, hentry, Bool.not_false, if_true]
  | true =>
    simp only [apply_step, hrole, hheader.type, hentry]
    cases hdata : x.data with
    | cmd type c =>
      have htype : x.type = type.val := by rw [dare_log_entry_t.type, hdata]; rfl
      have hcmd := type.property
      simp [htype, hcmd.1, hcmd.2.1, hcmd.2.2]
    | noop => simp [record_entry, dare_log_entry_t.type, hdata, log_data.type, is_client]
    | head offset => simp [record_entry, dare_log_entry_t.type, hdata, log_data.type, is_client]
    | config cid =>
      have hdone := hsettled hrole cid hdata
      have htype : entry_type s.log.entries entry = CONFIG := by
        rw [hheader.type, dare_log_entry_t.type, hdata]
        rfl
      have hcid : dare_cid_t.read s.log.entries (entry + DATA_OFFSET) = cid := by
        have hread' : read_data s.log.entries entry = .config cid := by
          rw [← hdata, ← hread]
          rfl
        rw [read_data_config htype] at hread'
        exact log_data.config.inj hread'
      have hconfig : apply_config s entry = s := by
        by_cases hstable : cid.state = CID_STABLE
        · rw [if_pos hstable] at hdone
          simp [apply_config, hcid, hstable, hheader.req_id, hdone]
        · rw [if_neg hstable] at hdone
          simp [apply_config, hcid, hstable, hdone]
      simp [record_entry, dare_log_entry_t.type, hdata, log_data.type, is_client, hconfig, NOOP, CONFIG,
        HEAD]

/-- The entries `es` are committed and wait to be applied; `rest` follows them in the log. -/
structure Backlog (s : apply_t) (es rest : List dare_log_entry_t) : Prop where
  running : s.running = true
  path : Path s.log s.log.apply (es ++ rest)
  commit : s.log.commit = entry_format.advance s.log.len s.log.apply es
  settled : ∀ x ∈ es, Settled s x

/-- The loop has the entries `es` before it, and `ahead` bytes lie between them and the end of the
    log. The commit offset is behind the entries. -/
structure Due (s : apply_t) (es : List dare_log_entry_t) (ahead : Nat) : Prop where
  running : s.running = true
  end_lt : s.log.end_ < s.log.len
  start_le : s.log.apply ≤ s.log.len
  holds : entry_format.Holds s.log.len s.log.entries s.log.apply es
  distance : log_offset_end_distance s.log s.log.apply =
    entry_format.span s.log.len s.log.apply es + ahead
  span_lt : entry_format.span s.log.len s.log.apply es + ahead < s.log.len
  commit : es ≠ [] → log_offset_end_distance s.log s.log.commit ≤ ahead
  settled : ∀ x ∈ es, Settled s x

/-- The commit offset is ahead of the apply offset as long as there are entries. -/
theorem Due.commit_larger {ahead : Nat} (hdue : Due s (x :: es) ahead) :
    log_is_offset_larger s.log s.log.commit s.log.apply = true := by
  have hcommit := hdue.commit (List.cons_ne_nil x es)
  have hcost := entry_format.cost_pos s.log.len s.log.apply x
  rw [log_is_offset_larger, decide_eq_true_eq, hdue.distance, RecordFormat.span]
  omega

/-- The first entry alone, in a log that ends behind it. -/
theorem Due.first_path {ahead : Nat} (hdue : Due s (x :: es) ahead) :
    Path { s.log with end_ := entry_format.next s.log.len s.log.apply x } s.log.apply [x] := by
  obtain ⟨hheader, hstored, hnext, -⟩ := hdue.holds
  have hspan := hdue.span_lt
  rw [RecordFormat.span] at hspan
  have hcost : entry_format.cost s.log.len s.log.apply x < s.log.len := by omega
  refine ⟨hnext, hdue.start_le, ⟨hheader, hstored, hnext, trivial⟩, rfl, ?_⟩
  rw [RecordFormat.span_singleton]
  exact hcost

/-- The first entry is met at its place, or by a header that was left behind. -/
theorem Due.meets {ahead : Nat} (hdue : Due s (x :: es) ahead) :
    log_get_entry s.log s.log.apply = some (entry_format.place s.log.len s.log.apply x) ∨
      (log_get_entry s.log s.log.apply = some s.log.apply ∧
        log_fit_entry s.log s.log.apply s.log.apply = false ∧
        entry_format.place s.log.len s.log.apply x = 0) := by
  have hpath := hdue.first_path
  have hcost := entry_format.cost_pos s.log.len s.log.apply x
  have hdist := hdue.distance
  have hdist' := hpath.end_distance
  rw [RecordFormat.span] at hdist
  rw [RecordFormat.span_singleton] at hdist'
  have hget := get_entry_congr_end hdue.end_lt hpath.end_lt
    (show log_offset_end_distance s.log s.log.apply ≠ 0 by omega)
    (hdist'.trans_ne (Nat.ne_of_gt hcost))
  obtain hmeets | ⟨hmeets, hfit, -, hzero⟩ := hpath.meets
  · exact .inl (hget.trans hmeets)
  · exact .inr ⟨hget.trans hmeets, hfit, hzero⟩

theorem record_entry_data (s : apply_t) (x : dare_log_entry_t) :
    (record_entry s x).data = s.data ∧ (record_entry s x).running = s.running := by
  unfold record_entry
  split <;> exact ⟨rfl, rfl⟩

theorem after_entry_log (s : apply_t) (x : dare_log_entry_t) :
    (after_entry s x).log = { s.log with apply := entry_format.next s.log.len s.log.apply x } := by
  simp only [after_entry, apply_t.log, apply_t.set_apply, apply_t.set_log, (record_entry_data _ x).1,
    dare_server_data_t.set_log]
  rfl

theorem after_entry_settled {y : dare_log_entry_t} (hset : Settled s y) : Settled (after_entry s x) y := by
  have hdata : (after_entry s x).data = s.data.set_log (after_entry s x).log := by
    simp only [after_entry, apply_t.log, apply_t.set_apply, apply_t.set_log, (record_entry_data _ x).1,
      dare_server_data_t.set_log]
  unfold Settled at hset ⊢
  rw [hdata]
  exact hset

theorem Due.tail {ahead : Nat} (hdue : Due s (x :: es) ahead) : Due (after_entry s x) es ahead := by
  obtain ⟨-, -, hnext, hrest⟩ := hdue.holds
  have hdist := hdue.distance
  have hspan := hdue.span_lt
  rw [end_distance_eq hdue.end_lt, RecordFormat.span] at hdist
  rw [RecordFormat.span] at hspan
  have hsub := RecordFormat.dist_next_sub hdue.start_le hdue.end_lt hnext (by omega)
  refine ⟨(record_entry_data _ x).2.trans hdue.running, ?_, ?_, ?_, ?_, ?_, fun hne => ?_, fun y hy => ?_⟩
  · rw [after_entry_log]
    exact hdue.end_lt
  · rw [after_entry_log]
    exact Nat.le_of_lt hnext
  · rw [after_entry_log]
    exact hrest
  · rw [after_entry_log]
    refine (end_distance_eq hdue.end_lt (entry_format.next s.log.len s.log.apply x)).trans ?_
    rw [hsub, hdist, Nat.add_assoc, Nat.add_sub_cancel_left]
  · rw [after_entry_log]
    exact (show entry_format.span s.log.len (entry_format.next s.log.len s.log.apply x) es + ahead <
      s.log.len by omega)
  · rw [after_entry_log]
    exact hdue.commit (List.cons_ne_nil x es)
  · exact after_entry_settled (hdue.settled y (List.mem_cons_of_mem _ hy))

/-- The turn in which the entry is met at its place. -/
theorem Due.turn {ahead : Nat} (hdue : Due s (x :: es) ahead) (fuel : Nat)
    (hget : log_get_entry s.log s.log.apply = some (entry_format.place s.log.len s.log.apply x)) :
    apply_loop (fuel + 1) s = apply_loop fuel (after_entry s x) := by
  have hfit := hdue.first_path.fit_at_place
  have hlen := hdue.first_path.len_at_place
  set place := entry_format.place s.log.len s.log.apply x with hplace
  have hstep : apply_step (s.set_apply place) place = record_entry (s.set_apply place) x :=
    apply_step_eq hdue.first_path.read_at_place (hdue.settled x List.mem_cons_self)
  have hdata := (record_entry_data (s.set_apply place) x).1
  rw [apply_loop, hdue.running, hdue.commit_larger, hget]
  simp only [Bool.and_self, if_true]
  have hfits : log_fit_entry (s.set_apply place).log (s.set_apply place).log.apply place = true := hfit
  rw [hfits, hstep]
  simp only [Bool.not_true, Bool.false_eq_true, if_false]
  congr 1
  simp only [after_entry, ← hplace]
  congr 2
  simp only [apply_t.log, hdata]
  exact hlen

/-- The loop may go on at the beginning of the buffer when the entry stands there. -/
theorem Due.wrapped {ahead : Nat} (hdue : Due s (x :: es) ahead)
    (hzero : entry_format.place s.log.len s.log.apply x = 0) : Due (s.set_apply 0) (x :: es) ahead := by
  have hnext := hdue.holds.2.2.1
  have hdist := hdue.distance
  have hspan := hdue.span_lt
  have hend := hdue.end_lt
  have hstart := hdue.start_le
  obtain ⟨hholds, -, -⟩ := RecordFormat.holds_place hdue.holds
  obtain ⟨hplace, hsame, hless⟩ := RecordFormat.place_place hnext
  rw [hzero] at hholds hplace hsame hless
  rw [end_distance_eq hend, RecordFormat.span] at hdist
  rw [RecordFormat.span] at hspan
  have hcost := entry_format.write_cases s.log.len s.log.apply x
  have hcost₀ := entry_format.write_cases s.log.len 0 x
  have hfar := dist_cases s.log.len s.log.apply s.log.end_
  have hnear := dist_cases s.log.len 0 s.log.end_
  have hsize := entry_format.size_pos x
  refine ⟨hdue.running, hend, Nat.zero_le _, hholds, ?_, ?_, hdue.commit, hdue.settled⟩
  · refine (end_distance_eq hend 0).trans ?_
    change ring.dist s.log.len 0 s.log.end_ = entry_format.span s.log.len 0 (x :: es) + ahead
    rw [RecordFormat.span, hsame]
    omega
  · change entry_format.span s.log.len 0 (x :: es) + ahead < s.log.len
    rw [RecordFormat.span, hsame]
    omega

/-- The entry is passed in one turn, or in two if only its header is met first. -/
theorem Due.apply_first {ahead : Nat} (hdue : Due s (x :: es) ahead) (fuel : Nat) :
    apply_loop (fuel + 2) s = apply_loop (fuel + 1) (after_entry s x) ∨
      apply_loop (fuel + 2) s = apply_loop fuel (after_entry s x) := by
  obtain hget | ⟨hget, hfit, hzero⟩ := hdue.meets
  · exact .inl (hdue.turn (fuel + 1) hget)
  · right
    have hwrapped := hdue.wrapped hzero
    obtain ⟨hplace₀, -, -⟩ := RecordFormat.place_place hdue.holds.2.2.1
    rw [hzero] at hplace₀
    have hturn := hwrapped.turn fuel (by
      obtain hget₀ | ⟨hget₀, -, -⟩ := hwrapped.meets
      · exact hget₀
      · exact hget₀.trans (congrArg some hplace₀.symm))
    have hafter : after_entry (s.set_apply 0) x = after_entry s x := by
      change (let s' := record_entry (s.set_apply (entry_format.place s.log.len 0 x)) x
        s'.set_apply (s'.log.apply + x.len)) = _
      rw [hplace₀, ← hzero]
      rfl
    rw [apply_loop, hdue.running, hdue.commit_larger, hget]
    simp only [Bool.and_self, if_true]
    have hwraps : log_fit_entry (s.set_apply s.log.apply).log (s.set_apply s.log.apply).log.apply
        s.log.apply = false := hfit
    rw [hwraps, ← hafter]
    exact hturn

/-- The loop meets each of the entries once, in order, and goes on behind them. -/
theorem Due.apply_loop_eq {ahead : Nat} (hdue : Due s es ahead) {fuel : Nat}
    (hfuel : 2 * es.length ≤ fuel) :
    Due (after_entries s es) [] ahead ∧
      ∃ left, fuel ≤ left + 2 * es.length ∧ apply_loop fuel s = apply_loop left (after_entries s es) := by
  induction es generalizing s fuel with
  | nil => exact ⟨hdue, fuel, Nat.le_refl _, rfl⟩
  | cons x es ih =>
    simp only [List.length_cons] at hfuel ⊢
    obtain ⟨fuel, rfl⟩ : ∃ k, fuel = k + 2 := ⟨fuel - 2, by omega⟩
    obtain hloop | hloop := hdue.apply_first fuel
    · obtain ⟨hdone, left, hleft, heq⟩ := ih hdue.tail (show 2 * es.length ≤ fuel + 1 by omega)
      exact ⟨hdone, left, by omega, hloop.trans heq⟩
    · obtain ⟨hdone, left, hleft, heq⟩ := ih hdue.tail (show 2 * es.length ≤ fuel by omega)
      exact ⟨hdone, left, by omega, hloop.trans heq⟩

theorem after_entries_log (s : apply_t) (es : List dare_log_entry_t) :
    (after_entries s es).log =
      { s.log with apply := entry_format.advance s.log.len s.log.apply es } := by
  induction es generalizing s with
  | nil => rfl
  | cons x es ih =>
    rw [after_entries, List.foldl_cons, ← after_entries, ih, after_entry_log]
    rfl

/-- The loop ends where the commit offset is not ahead. -/
theorem apply_loop_stops (hstop : log_is_offset_larger s.log s.log.commit s.log.apply = false) (fuel : Nat) :
    apply_loop (fuel + 1) s = some s := by
  rw [apply_loop, hstop, Bool.and_false]
  simp

/-- What follows the backlog lies between the commit offset and the end of the log. -/
theorem Backlog.due (hlog : Backlog s es rest) :
    Due s es (log_offset_end_distance s.log s.log.commit) := by
  have hdist := hlog.path.end_distance
  have hspan := hlog.path.span_lt
  have hcommit : Path s.log s.log.commit rest := by
    rw [hlog.commit]
    exact hlog.path.behind
  rw [RecordFormat.span_append, ← hlog.commit, ← hcommit.end_distance] at hdist hspan
  exact ⟨hlog.running, hlog.path.end_lt, hlog.path.start_le,
    (RecordFormat.holds_append.mp hlog.path.holds).1, hdist, hspan, fun _ => Nat.le_refl _,
    hlog.settled⟩

/-- The loop ends and has met each committed entry once, in order. -/
theorem Backlog.apply_loop_eq (hlog : Backlog s es rest) {fuel : Nat} (hfuel : 2 * es.length + 1 ≤ fuel) :
    apply_loop fuel s = some (after_entries s es) := by
  obtain ⟨hdone, left, hleft, hloop⟩ := hlog.due.apply_loop_eq (show 2 * es.length ≤ fuel by omega)
  obtain ⟨left, rfl⟩ : ∃ k, left = k + 1 := ⟨left - 1, by omega⟩
  have hdist := hdone.distance
  rw [hloop]
  refine apply_loop_stops ?_ left
  rw [log_is_offset_larger, hdist, after_entries_log]
  simp [RecordFormat.span, log_offset_end_distance]

theorem after_entry_role (s : apply_t) (x : dare_log_entry_t) :
    IS_LEADER (after_entry s x).data = IS_LEADER s.data := by
  simp only [after_entry, apply_t.set_apply, apply_t.set_log, (record_entry_data _ x).1]
  rfl

theorem after_entries_calls (s : apply_t) (es : List dare_log_entry_t) :
    (after_entries s es).calls = s.calls ++ es.flatMap (entry_calls (IS_LEADER s.data)) := by
  induction es generalizing s with
  | nil => simp [after_entries]
  | cons x es ih =>
    have hfirst : (after_entry s x).calls = s.calls ++ entry_calls (IS_LEADER s.data) x := by
      change (record_entry (s.set_apply _) x).calls = _
      unfold record_entry
      split
      · rfl
      · rename_i hclient
        rw [entry_calls_other _ (Bool.not_eq_true _ ▸ hclient), List.append_nil]
        rfl
    rw [after_entries, List.foldl_cons, ← after_entries, ih, hfirst, after_entry_role,
      List.flatMap_cons, List.append_assoc]

theorem Backlog.apply_committed_entries_some (hlog : Backlog s es rest) :
    apply_committed_entries s = some (after_entries s es) := by
  have hlength := hlog.path.length_le
  rw [List.length_append] at hlength
  unfold SIZEOF_ENTRY at hlength
  exact hlog.apply_loop_eq (by omega)

/-- `apply_committed_entries` ends and makes the calls of each committed entry once, in order. -/
theorem Backlog.apply_committed_entries_eq (hlog : Backlog s es rest) :
    ∃ s', apply_committed_entries s = some s' ∧
      s'.calls = s.calls ++ es.flatMap (entry_calls (IS_LEADER s.data)) :=
  ⟨_, hlog.apply_committed_entries_some, after_entries_calls s es⟩

end loop

end dare.server
