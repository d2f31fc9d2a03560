import ReliableSocket.Dare.Server.Apply
import ReliableSocket.Dare.Server.Election
import ReliableSocket.Run

open memory dare.log run

namespace dare.server

/-- The leader of a group: its data, the LIDs of the endpoints of the servers, the configurations that
    leaders have had so far (a CONFIG entry carries no other), and the indexes with which the arrays of
    servers were accessed. `removed_itself` says that a leader has cleared its own bit. -/
structure group_t where
  srv : apply_t
  lid : Nat → UInt16
  history : List dare_cid_t
  accesses : List Nat
  removed_itself : Bool

namespace group_t

def data (g : group_t) : dare_server_data_t := g.srv.data

def cid (g : group_t) : dare_cid_t := g.srv.data.cid

/-- The arrays of servers are accessed at these indexes. -/
def access (g : group_t) (indexes : List Nat) : group_t := { g with accesses := g.accesses ++ indexes }

end group_t

section join

/-- The loop of `handle_server_join_request`, from index `i - 1` down: the first empty place, or nothing
    if a server has the LID of the work completion; and the servers that were looked at. -/
def find_empty (cid : dare_cid_t) (lid : Nat → UInt16) (wc_slid : UInt16) :
    Nat → Nat → Option Nat × List Nat
  | 0, empty => (some empty, [])
  | i + 1, empty =>
    if CID_IS_SERVER_ON cid i then
      if lid i = wc_slid then (none, [i])
      else
        let r := find_empty cid lid wc_slid i empty
        (r.1, i :: r.2)
    else find_empty cid lid wc_slid i i

/-- The configuration with a server in the place that was found; the group grows if this is behind the
    last one. -/
def joined_cid (cid : dare_cid_t) (empty : Nat) : dare_cid_t :=
  let added := CID_SERVER_ADD cid empty
  if empty = cid.size_0.toNat then
    { added with state := CID_EXTENDED, size_1 := cid.size_0 + 1, epoch := cid.epoch + 1 }
  else added

/-- The server data after a join request that is accepted. -/
def add_server (data : dare_server_data_t) (empty : Nat) (id : UInt64) (slid : UInt16) :
    dare_server_data_t :=
  let data := { data with
    cid := joined_cid data.cid empty
    vote_ack := Function.update data.vote_ack empty data.log.len
    apply_offsets := Function.update data.apply_offsets empty data.log.head }
  let data := data.set_server empty
    { data.servers empty with
      rc_connected := false
      fail_count := 0
      next_lr_step := .LR_GET_WRITE
      send_flag := true
      send_count := 0 }
  data.set_log (log_append_entry data.log (SID_GET_TERM data.sid) id slid (.config data.cid)).1

/-- A request is dropped during a resize, and if there is already a server with the LID of the work
    completion. The endpoint of the new server gets the LID that the message carries. -/
def handle_server_join_request (g : group_t) (wc_slid : UInt16) (id : UInt64) (slid : UInt16) : group_t :=
  if g.cid.state ≠ CID_STABLE then g
  else
    let r := find_empty g.cid g.lid wc_slid g.cid.size_0.toNat g.cid.size_0.toNat
    match r.1 with
    | none => g.access r.2
    | some empty =>
      { g.access (r.2 ++ [empty]) with
        srv := { g.srv with data := add_server g.data empty id slid, req_id := id, clt_id := wc_slid }
        lid := Function.update g.lid empty slid }

end join

section removal

/-- A CONFIG entry that nobody waits for. -/
def append_config (s : apply_t) (cid : dare_cid_t) : apply_t :=
  let s := { s.set_cid cid with req_id := 0, clt_id := 0 }
  s.set_log (log_append_entry s.log (SID_GET_TERM s.data.sid) 0 0 (.config cid)).1

/-- The leader suspects the server to have failed, and removes it in a stable configuration. -/
def removes_failed (data : dare_server_data_t) (cid : dare_cid_t) (i : Nat) : Bool :=
  CID_IS_SERVER_ON cid i && decide (PERMANENT_FAILURE ≤ (data.servers i).fail_count) && IS_LEADER data &&
    decide (data.cid.state = CID_STABLE)

/-- The loop of `check_failure_count`. -/
def remove_failed (data : dare_server_data_t) (size : Nat) : dare_cid_t × List apply_call :=
  (List.range size).foldl (fun r i =>
    if removes_failed data r.1 i then (CID_SERVER_RM r.1 i, r.2 ++ [.dare_ib_disconnect_server i]) else r)
    (data.cid, [])

def connections (data : dare_server_data_t) (size : Nat) : Nat :=
  (List.range size).countP fun i =>
    data.is_on i && decide ((data.servers i).fail_count < PERMANENT_FAILURE)

def check_failure_count (s : apply_t) : apply_t :=
  let size := get_group_size s.data.cid
  let r := remove_failed s.data size
  let s := { s with calls := s.calls ++ r.2 }
  if connections s.data size ≤ size / 2 then { s.call .dare_server_shutdown with running := false }
  else if IS_LEADER s.data && r.1 ≠ s.data.cid then append_config s r.1
  else s

end removal

section pruning

/-- One turn of the loop of `log_pruning`: the apply offsets and the smallest one. -/
def prune_offset (data : dare_server_data_t) (r : (Nat → Nat) × Nat) (i : Nat) : (Nat → Nat) × Nat :=
  let offsets := if !data.is_on i then Function.update r.1 i data.log.apply else r.1
  (offsets, if log_is_offset_larger data.log r.2 (offsets i) then offsets i else r.2)

/-- The part of `log_pruning` that moves the head. -/
def advance_head (data : dare_server_data_t) (min_offset : Nat) : dare_server_data_t :=
  let log := data.log
  let min_offset := if log_offset_end_distance log min_offset = 0 then log_get_tail log else min_offset
  if log_is_offset_larger log min_offset log.head && !log.prev_log_entry_head then
    let log := { log with head := min_offset }
    let log := (log_append_entry log (SID_GET_TERM data.sid) 0 0 (.head (UInt64.ofNat min_offset))).1
    data.set_log { log with prev_log_entry_head := true }
  else data

def log_pruning (g : group_t) : group_t :=
  if !IS_LEADER g.data then g
  else
    let size := get_extended_group_size g.cid
    let r := (List.range size).foldl (prune_offset g.data) (g.data.apply_offsets, g.data.log.apply)
    let data := advance_head { g.data with apply_offsets := r.1 } r.2
    { g.access (List.range size) with srv := { g.srv with data := data } }

/-- The loop of `force_log_pruning`: the smallest apply offset and the server that has it. -/
def slowest (data : dare_server_data_t) (size : Nat) : Nat × Nat :=
  (List.range size).foldl (fun r i =>
    if log_is_offset_larger data.log r.1 (data.apply_offsets i) then (data.apply_offsets i, i) else r)
    (data.log.apply, data.idx)

/-- At least three quarters of the log are in use. -/
def needs_pruning (data : dare_server_data_t) : Bool :=
  decide (3 * data.log.len ≤ 4 * log_offset_end_distance data.log data.log.head)

/-- The server that `force_log_pruning` removes. -/
def removes_slow (data : dare_server_data_t) : Option Nat :=
  let target := (slowest data (get_extended_group_size data.cid)).2
  if needs_pruning data && decide (target ≠ data.idx) && data.is_on target then some target else none

/-- After the loop the counter is the size, with which the source then accesses the apply offsets. -/
def force_log_pruning (g : group_t) : group_t :=
  if !needs_pruning g.data then g
  else
    let size := get_extended_group_size g.cid
    let g := g.access (List.range size)
    match removes_slow g.data with
    | none => log_pruning g
    | some target =>
      let s := append_config (g.srv.call (.dare_ib_disconnect_server target)) (CID_SERVER_RM g.cid target)
      let offsets := Function.update s.data.apply_offsets size s.data.log.apply
      log_pruning { g.access [size] with srv := { s with data := { s.data with apply_offsets := offsets } } }

/-- The indexes of the loops of `update_remote_logs`. -/
def update_remote_logs_indexes (cid : dare_cid_t) : List Nat :=
  List.range (get_extended_group_size cid) ++ List.range cid.size_0.toNat ++
    if cid.state = CID_TRANSIT then List.range cid.size_1.toNat else []

end pruning

section election

/-- A server that finds itself removed shuts down. -/
def update_cid (s : apply_t) (cid : dare_cid_t) : apply_t :=
  if s.data.cid = cid then s
  else
    let gone := (List.range (max cid.size_0.toNat cid.size_1.toNat)).filter fun i =>
      !CID_IS_SERVER_ON cid i && s.data.is_on i
    let s := { s with
      calls := s.calls ++ gone.map apply_call.dare_ib_disconnect_server
      running := s.running && !gone.contains s.data.idx }
    s.set_cid cid

/-- What a call that closes a connection leaves of it in the data of a server. -/
def close_connection (data : dare_server_data_t) : apply_call → dare_server_data_t
  | .dare_ib_disconnect_server i => data.set_server i { data.servers i with rc_connected := false }
  | _ => data

theorem close_connections_cid (data : dare_server_data_t) (gone : List Nat) (cid : dare_cid_t) :
    (gone.map apply_call.dare_ib_disconnect_server).foldl close_connection { data with cid := cid } =
      { gone.foldl (fun data i => data.set_server i { data.servers i with rc_connected := false }) data with
        cid := cid } := by
  induction gone generalizing data with
  | nil => rfl
  | cons i gone ih => exact ih (data.set_server i { data.servers i with rc_connected := false })

/-- The handlers of the election take over a configuration in the same way, with the connections closed by the
    calls; a removed server is no state for them. -/
theorem update_cid_refines (s : apply_t) (cid : dare_cid_t) (hrunning : s.running = true) :
    election.update_cid s.data cid =
      if (update_cid s cid).running then
        some (((update_cid s cid).calls.drop s.calls.length).foldl close_connection (update_cid s cid).data)
      else none := by
  rw [election.update_cid, update_cid]
  by_cases hsame : s.data.cid = cid
  · rw [if_pos hsame, if_pos hsame, if_pos hrunning, List.drop_length]
    rfl
  · rw [if_neg hsame, if_neg hsame]
    simp only [apply_t.set_cid, hrunning, Bool.true_and, List.drop_left, close_connections_cid]
    split
    · rename_i hgone
      rw [if_neg (by rw [hgone]; decide)]
    · rename_i hgone
      rw [if_pos (by rw [Bool.eq_false_iff.mpr hgone]; rfl)]

/-- The loop of `poll_vote_count` over the servers that a downsized configuration no longer has, from
    index `i` down. -/
def remove_additional : Nat → apply_t → apply_t
  | 0, s => s
  | i + 1, s =>
    if s.data.cid.size_1.toNat < i + 1 then
      if i + 1 = s.data.idx then
        remove_additional i { s.set_cid (CID_SERVER_RM s.data.cid (i + 1)) with die_af_commit := true }
      else if !CID_IS_SERVER_ON s.data.cid (i + 1) then remove_additional i s
      else
        remove_additional i
          ((s.set_cid (CID_SERVER_RM s.data.cid (i + 1))).call (.dare_ib_disconnect_server (i + 1)))
    else s

/-- The part of `poll_vote_count` that ends a resize. -/
def settle_config (s : apply_t) : apply_t :=
  let s := s.set_cid { s.data.cid with state := CID_STABLE }
  let s := remove_additional (s.data.cid.size_0 - 1).toNat s
  s.set_cid { s.data.cid with size_0 := s.data.cid.size_1, size_1 := 0 }

/-- The part of `poll_vote_count` that appends the first entry of the term. `unapplied` says that there is
    a CONFIG entry behind the offset of the configuration; `entry_state` is what the source reads from
    the entry that its pointer is left at. -/
def append_blank (s : apply_t) (unapplied : Bool) (entry_state : UInt8) : apply_t :=
  let term := SID_GET_TERM s.data.sid
  if s.data.cid.state = CID_STABLE then append_config s s.data.cid
  else if unapplied then s.set_log (log_append_entry s.log term 0 0 .noop).1
  else
    let s :=
      if entry_state = CID_EXTENDED then s.set_cid { s.data.cid with state := CID_TRANSIT }
      else settle_config s
    s.set_log (log_append_entry s.log term s.req_id s.clt_id (.config s.data.cid)).1

end election

/-- What a leader does. `log` stands for all other changes of its log, and `apply_offset` for the
    completion of a read. -/
inductive Task where
  | join (wc_slid : UInt16) (id : UInt64) (slid : UInt16)
  | apply (entry : Nat)
  | failure (i : Nat)
  | check_failure_count
  | log_pruning
  | force_log_pruning
  | update_remote_logs
  | log (log : dare_log_t)
  | apply_offset (i offset : Nat)
  | blank (unapplied : Bool) (entry_state : UInt8)

/-- The leader does something, or a server with these data becomes the leader and finds CONFIG entries
    with these configurations in its log. -/
inductive Action where
  | task (task : Task)
  | elect (data : dare_server_data_t) (adopted : List dare_cid_t)

/-- The configuration of the CONFIG entry at an offset of the leader's log. -/
def group_t.entry_cid (g : group_t) (entry : Nat) : dare_cid_t :=
  dare_cid_t.read g.data.log.entries (entry + DATA_OFFSET)

/-- What a leader that has not shut down does. -/
def act (g : group_t) : Task → group_t
  | .join wc_slid id slid => handle_server_join_request g wc_slid id slid
  | .apply entry =>
    if g.entry_cid entry ∈ g.history then { g with srv := apply_config g.srv entry } else g
  | .failure i =>
    if i = g.data.idx then g
    else
      let server := g.data.servers i
      { g with srv := { g.srv with
          data := g.data.set_server i { server with fail_count := server.fail_count + 1 } } }
  | .check_failure_count => { g with srv := check_failure_count g.srv }
  | .log_pruning => log_pruning g
  | .force_log_pruning => force_log_pruning g
  | .update_remote_logs => g.access (update_remote_logs_indexes g.cid)
  | .log log => { g with srv := g.srv.set_log log }
  | .apply_offset i offset =>
    { g with srv := { g.srv with
        data := { g.data with apply_offsets := Function.update g.data.apply_offsets i offset } } }
  | .blank unapplied entry_state => { g with srv := append_blank g.srv unapplied entry_state }

/-- A new leader has a configuration that some leader had, and so have the entries of its log. It never
    fails to access itself. -/
def elect (g : group_t) (data : dare_server_data_t) (adopted : List dare_cid_t) : group_t :=
  if data.cid ∈ g.history ∧ (∀ cid ∈ adopted, cid ∈ g.history) ∧
      (data.servers data.idx).fail_count < PERMANENT_FAILURE then
    let s := { g.srv with data := data, die_af_commit := false, running := true }
    { g with srv := adopted.foldl update_cid s }
  else g

/-- The state with what happened to the leader's configuration. -/
def record (before after : group_t) : group_t :=
  { after with
    history := before.history ++ [after.cid]
    removed_itself := before.removed_itself ||
      (before.data.is_on before.data.idx && !after.data.is_on before.data.idx) }

def step (g : group_t) : Action → group_t
  | .task task => if g.srv.running then record g (act g task) else g
  | .elect data adopted =>
    let g' := elect g data adopted
    { g' with history := g.history ++ [g'.cid] }

/-- A server leads a group whose endpoints have these LIDs. -/
def lead (data : dare_server_data_t) (lid : Nat → UInt16) : group_t where
  srv := ⟨data, 0, 0, false, ⟨0, 0, 0⟩, 0, true, []⟩
  lid := lid
  history := [data.cid]
  accesses := []
  removed_itself := false

section effects

variable {s : apply_t} {g : group_t} {data : dare_server_data_t}

/-- A property of the configuration that the removal of any server keeps is kept by the loop. -/
theorem remove_servers_keeps {Q : dare_cid_t → Prop} (hrm : ∀ cid i, Q cid → Q (CID_SERVER_RM cid i))
    (fuel i : Nat) (hs : Q s.data.cid) : Q (remove_servers fuel i s).data.cid := by
  induction fuel generalizing i s with
  | zero => exact hs
  | succ fuel ih =>
    rw [remove_servers]
    split
    · split
      · exact ih _ (hrm _ _ hs)
      · split
        · exact ih _ hs
        · exact ih _ (hrm _ _ hs)
    · exact hs

theorem remove_additional_keeps {Q : dare_cid_t → Prop} (hrm : ∀ cid i, Q cid → Q (CID_SERVER_RM cid i))
    (i : Nat) (hs : Q s.data.cid) : Q (remove_additional i s).data.cid := by
  induction i generalizing s with
  | zero => exact hs
  | succ i ih =>
    rw [remove_additional]
    split
    · split
      · exact ih (hrm _ _ hs)
      · split
        · exact ih hs
        · exact ih (hrm _ _ hs)
    · exact hs

/-- The loop of `check_failure_count` removes only servers that are suspected. -/
theorem remove_failed_keeps {Q : dare_cid_t → Prop} (size : Nat)
    (hrm : ∀ cid i, removes_failed data cid i = true → Q cid → Q (CID_SERVER_RM cid i))
    (hdata : Q data.cid) : Q (remove_failed data size).1 := by
  unfold remove_failed
  have hfold : ∀ (is : List Nat) (r : dare_cid_t × List apply_call), Q r.1 →
      Q (is.foldl (fun r i => if removes_failed data r.1 i then
        (CID_SERVER_RM r.1 i, r.2 ++ [.dare_ib_disconnect_server i]) else r) r).1 := by
    intro is
    induction is with
    | nil => exact fun _ hr => hr
    | cons i is ih =>
      intro r hr
      rw [List.foldl_cons]
      apply ih
      split
      · rename_i hremoves
        exact hrm _ _ hremoves hr
      · exact hr
  exact hfold _ _ hdata

/-- The configuration in a committed CONFIG entry is open, and not of an earlier epoch. -/
def Open (cid logged : dare_cid_t) : Prop := logged.state ≠ CID_STABLE ∧ ¬ logged.epoch < cid.epoch

variable {entry : Nat} {logged : dare_cid_t}

theorem apply_config_settled (hlogged : dare_cid_t.read s.log.entries (entry + DATA_OFFSET) = logged)
    (hsettled : ¬ Open s.data.cid logged) : (apply_config s entry).data = s.data := by
  by_cases hstable : logged.state = CID_STABLE
  · simp only [apply_config, hlogged, if_pos hstable]
    split
    · split <;> rfl
    · rfl
  · have hepoch : logged.epoch < s.data.cid.epoch := by
      by_contra hepoch
      exact hsettled ⟨hstable, hepoch⟩
    simp only [apply_config, hlogged, if_neg hstable, if_pos hepoch]

theorem apply_config_extended (hlogged : dare_cid_t.read s.log.entries (entry + DATA_OFFSET) = logged)
    (hopen : Open s.data.cid logged) (hstate : logged.state = CID_EXTENDED) :
    (apply_config s entry).data.cid = { s.data.cid with state := CID_TRANSIT } := by
  simp only [apply_config, hlogged, if_neg hopen.1, if_neg hopen.2, if_pos hstate]
  split <;> rfl

theorem apply_config_transit (hlogged : dare_cid_t.read s.log.entries (entry + DATA_OFFSET) = logged)
    (hopen : Open s.data.cid logged) (hstate : logged.state = CID_TRANSIT) :
    ∃ stable, stable = (remove_servers 256 s.data.cid.size_1.toNat
        (s.set_cid { s.data.cid with state := CID_STABLE })).data.cid ∧
      (apply_config s entry).data.cid = { stable with size_0 := stable.size_1, size_1 := 0 } := by
  refine ⟨_, rfl, ?_⟩
  have hne : logged.state ≠ CID_EXTENDED := by
    rw [hstate]
    decide
  simp only [apply_config, hlogged, if_neg hopen.1, if_neg hopen.2, if_neg hne, if_pos hstate]
  rfl

theorem apply_config_other (hlogged : dare_cid_t.read s.log.entries (entry + DATA_OFFSET) = logged)
    (hopen : Open s.data.cid logged) (hextended : logged.state ≠ CID_EXTENDED)
    (htransit : logged.state ≠ CID_TRANSIT) : (apply_config s entry).data.cid = s.data.cid := by
  simp only [apply_config, hlogged, if_neg hopen.1, if_neg hopen.2, if_neg hextended, if_neg htransit]
  rfl

theorem advance_head_keeps (data : dare_server_data_t) (min_offset : Nat) :
    (advance_head data min_offset).cid = data.cid ∧ (advance_head data min_offset).idx = data.idx ∧
      (advance_head data min_offset).servers = data.servers := by
  simp only [advance_head]
  generalize (if log_offset_end_distance data.log min_offset = 0 then log_get_tail data.log
    else min_offset) = offset
  split <;> exact ⟨rfl, rfl, rfl⟩

/-- The search for a place looks at servers of the group only. -/
theorem find_empty_bounds (cid : dare_cid_t) (lid : Nat → UInt16) (wc_slid : UInt16) (i empty : Nat) :
    (∀ j ∈ (find_empty cid lid wc_slid i empty).2, j < i) ∧
      ∀ place, (find_empty cid lid wc_slid i empty).1 = some place → place = empty ∨ place < i := by
  induction i generalizing empty with
  | zero => simp [find_empty]
  | succ i ih =>
    rw [find_empty]
    split
    · split
      · simp
      · obtain ⟨hvisited, hplace⟩ := ih empty
        refine ⟨List.forall_mem_cons.mpr ⟨Nat.lt_succ_self i, fun j hj => ?_⟩, fun place h => ?_⟩
        · exact Nat.lt_succ_of_lt (hvisited j hj)
        · exact (hplace place h).imp_right Nat.lt_succ_of_lt
    · obtain ⟨hvisited, hplace⟩ := ih i
      refine ⟨fun j hj => Nat.lt_succ_of_lt (hvisited j hj), fun place h => .inr ?_⟩
      obtain rfl | hlt := hplace place h
      · exact Nat.lt_succ_self _
      · exact Nat.lt_succ_of_lt hlt

end effects

section bounds

variable {g : group_t} {cid cid' : dare_cid_t}

/-- The four functions have accessed the arrays of servers within their length. -/
def InArrays (g : group_t) : Prop := ∀ i ∈ g.accesses, i < MAX_SERVER_COUNT

/-- The request makes the group grow. -/
def upsizes (g : group_t) (wc_slid : UInt16) : Bool :=
  decide (g.cid.state = CID_STABLE) &&
    decide ((find_empty g.cid g.lid wc_slid g.cid.size_0.toNat g.cid.size_0.toNat).1 =
      some g.cid.size_0.toNat)

/-- The group grows only if there is place for another server, and a slow server is removed only if the
    group does not fill the arrays. -/
def HasPlace (g : group_t) : Task → Prop
  | .join wc_slid _ _ => upsizes g wc_slid = true → g.cid.size_0.toNat < MAX_SERVER_COUNT
  | .force_log_pruning =>
    (removes_slow g.data).isSome = true → get_extended_group_size g.cid < MAX_SERVER_COUNT
  | _ => True

/-- The condition for a leader that has not shut down. -/
def LeavesPlace (g : group_t) : Action → Prop
  | .task task => g.srv.running = true → HasPlace g task
  | .elect .. => True

/-- Both sizes of a configuration fit the arrays. -/
def Bounded (cid : dare_cid_t) : Prop :=
  cid.size_0.toNat ≤ MAX_SERVER_COUNT ∧ cid.size_1.toNat ≤ MAX_SERVER_COUNT

theorem Bounded.extended (hcid : Bounded cid) : get_extended_group_size cid ≤ MAX_SERVER_COUNT := by
  unfold get_extended_group_size
  split
  · exact hcid.1
  · split
    · exact hcid.2
    · exact hcid.1

/-- What holds in every state that is reached while there is place. -/
structure BoundedGroup (g : group_t) : Prop where
  cid : Bounded g.cid
  history : ∀ cid ∈ g.history, Bounded cid
  arrays : InArrays g

theorem in_arrays_access {indexes : List Nat} :
    InArrays (g.access indexes) ↔ InArrays g ∧ ∀ i ∈ indexes, i < MAX_SERVER_COUNT :=
  List.forall_mem_append

theorem in_arrays_range {n : Nat} (hn : n ≤ MAX_SERVER_COUNT) :
    ∀ i ∈ List.range n, i < MAX_SERVER_COUNT := fun _ hi =>
  Nat.lt_of_lt_of_le (List.mem_range.mp hi) hn

theorem bounded_apply_config {s : apply_t} (hs : Bounded s.data.cid) (entry : Nat) :
    Bounded (apply_config s entry).data.cid := by
  by_cases hopen : Open s.data.cid (dare_cid_t.read s.log.entries (entry + DATA_OFFSET))
  · by_cases hextended : (dare_cid_t.read s.log.entries (entry + DATA_OFFSET)).state = CID_EXTENDED
    · rw [apply_config_extended rfl hopen hextended]
      exact hs
    · by_cases htransit : (dare_cid_t.read s.log.entries (entry + DATA_OFFSET)).state = CID_TRANSIT
      · obtain ⟨stable, hstable, heq⟩ := apply_config_transit rfl hopen htransit
        have hkept : Bounded stable := by
          rw [hstable]
          exact remove_servers_keeps (fun _ _ h => h) 256 _ hs
        rw [heq]
        exact ⟨hkept.2, Nat.zero_le _⟩
      · rw [apply_config_other rfl hopen hextended htransit]
        exact hs
  · rw [apply_config_settled rfl hopen]
    exact hs

theorem bounded_settle_config {s : apply_t} (hs : Bounded s.data.cid) :
    Bounded (settle_config s).data.cid := by
  have hkept := remove_additional_keeps (fun _ _ h => h) (s.data.cid.size_0 - 1).toNat
    (show Bounded (s.set_cid { s.data.cid with state := CID_STABLE }).data.cid from hs)
  exact ⟨hkept.2, Nat.zero_le _⟩

theorem bounded_append_blank {s : apply_t} (hs : Bounded s.data.cid) (unapplied : Bool)
    (entry_state : UInt8) : Bounded (append_blank s unapplied entry_state).data.cid := by
  unfold append_blank
  dsimp only
  split
  · exact hs
  · split
    · exact hs
    · split
      · exact hs
      · exact bounded_settle_config hs

theorem bounded_check_failure_count {s : apply_t} (hs : Bounded s.data.cid) :
    Bounded (check_failure_count s).data.cid := by
  unfold check_failure_count
  dsimp only
  split
  · exact hs
  · split
    · exact remove_failed_keeps _ (fun _ _ _ h => h) hs
    · exact hs

/-- A configuration that `update_cid` leaves is one of those it was given. -/
theorem update_cid_keeps {Q : dare_cid_t → Prop} {s : apply_t} {adopted : List dare_cid_t}
    (hs : Q s.data.cid) (hadopted : ∀ cid ∈ adopted, Q cid) : Q (adopted.foldl update_cid s).data.cid := by
  induction adopted generalizing s with
  | nil => exact hs
  | cons cid adopted ih =>
    rw [List.forall_mem_cons] at hadopted
    refine ih ?_ hadopted.2
    unfold update_cid
    split
    · exact hs
    · exact hadopted.1

theorem bounded_joined_cid {empty : Nat} (hcid : Bounded cid)
    (hplace : empty = cid.size_0.toNat → cid.size_0.toNat < MAX_SERVER_COUNT) :
    Bounded (joined_cid cid empty) := by
  unfold joined_cid
  dsimp only
  split
  · rename_i hlast
    have hlt := hplace hlast
    refine ⟨hcid.1, ?_⟩
    simp only [UInt8.toNat_add, MAX_SERVER_COUNT] at hlt ⊢
    have hone : (1 : UInt8).toNat = 1 := rfl
    omega
  · exact hcid

theorem bounded_join (hg : BoundedGroup g) {wc_slid : UInt16} (id : UInt64) (slid : UInt16)
    (hplace : upsizes g wc_slid = true → g.cid.size_0.toNat < MAX_SERVER_COUNT) :
    Bounded (handle_server_join_request g wc_slid id slid).cid ∧
      InArrays (handle_server_join_request g wc_slid id slid) := by
  obtain ⟨hvisited, hempty⟩ := find_empty_bounds g.cid g.lid wc_slid g.cid.size_0.toNat
    g.cid.size_0.toNat
  have hvisited' := fun j hj => Nat.lt_of_lt_of_le (hvisited j hj) hg.cid.1
  unfold handle_server_join_request
  dsimp only
  split
  · exact ⟨hg.cid, hg.arrays⟩
  · rename_i hstable
    split
    · exact ⟨hg.cid, in_arrays_access.mpr ⟨hg.arrays, hvisited'⟩⟩
    · rename_i empty hfound
      have hlast : empty = g.cid.size_0.toNat → g.cid.size_0.toNat < MAX_SERVER_COUNT := by
        rintro rfl
        exact hplace (by simp [upsizes, not_not.mp hstable, hfound])
      refine ⟨bounded_joined_cid hg.cid hlast, ?_⟩
      refine in_arrays_access.mpr ⟨hg.arrays, List.forall_mem_append.mpr ⟨hvisited', ?_⟩⟩
      rw [List.forall_mem_singleton]
      obtain heq | hlt := hempty empty hfound
      · rw [heq]
        exact hlast heq
      · exact Nat.lt_of_lt_of_le hlt hg.cid.1

theorem log_pruning_cid (g : group_t) : (log_pruning g).cid = g.cid := by
  unfold log_pruning
  dsimp only
  split
  · rfl
  · exact (advance_head_keeps _ _).1

theorem log_pruning_arrays (hcid : Bounded g.cid) (hg : InArrays g) : InArrays (log_pruning g) := by
  unfold log_pruning
  dsimp only
  split
  · exact hg
  · exact in_arrays_access.mpr ⟨hg, in_arrays_range hcid.extended⟩

theorem bounded_force_log_pruning (hg : BoundedGroup g)
    (hplace : (removes_slow g.data).isSome = true → get_extended_group_size g.cid < MAX_SERVER_COUNT) :
    Bounded (force_log_pruning g).cid ∧ InArrays (force_log_pruning g) := by
  have hrange := in_arrays_range hg.cid.extended
  have haccess : InArrays (g.access (List.range (get_extended_group_size g.cid))) :=
    in_arrays_access.mpr ⟨hg.arrays, hrange⟩
  unfold force_log_pruning
  dsimp only
  split
  · exact ⟨hg.cid, hg.arrays⟩
  · split
    · exact ⟨by rw [log_pruning_cid]; exact hg.cid, log_pruning_arrays hg.cid haccess⟩
    · rename_i target htarget
      have hroom := hplace (by rw [show removes_slow g.data = some target from htarget]; rfl)
      refine ⟨by rw [log_pruning_cid]; exact hg.cid, log_pruning_arrays hg.cid ?_⟩
      exact in_arrays_access.mpr ⟨haccess, List.forall_mem_singleton.mpr hroom⟩

theorem bounded_act (hg : BoundedGroup g) (task : Task) (hok : HasPlace g task) :
    Bounded (act g task).cid ∧ InArrays (act g task) := by
  cases task with
  | join wc_slid id slid => exact bounded_join hg id slid hok
  | apply entry =>
    rw [act]
    split
    · exact ⟨bounded_apply_config hg.cid entry, hg.arrays⟩
    · exact ⟨hg.cid, hg.arrays⟩
  | failure i =>
    rw [act]
    split <;> exact ⟨hg.cid, hg.arrays⟩
  | check_failure_count => exact ⟨bounded_check_failure_count hg.cid, hg.arrays⟩
  | log_pruning =>
    rw [act, log_pruning_cid]
    exact ⟨hg.cid, log_pruning_arrays hg.cid hg.arrays⟩
  | force_log_pruning => exact bounded_force_log_pruning hg hok
  | update_remote_logs =>
    refine ⟨hg.cid, in_arrays_access.mpr ⟨hg.arrays, ?_⟩⟩
    unfold update_remote_logs_indexes
    rw [List.forall_mem_append, List.forall_mem_append]
    refine ⟨⟨in_arrays_range hg.cid.extended, in_arrays_range hg.cid.1⟩, ?_⟩
    split
    · exact in_arrays_range hg.cid.2
    · simp
  | log log => exact ⟨hg.cid, hg.arrays⟩
  | apply_offset i offset => exact ⟨hg.cid, hg.arrays⟩
  | blank unapplied entry_state => exact ⟨bounded_append_blank hg.cid unapplied entry_state, hg.arrays⟩

theorem bounded_elect (hg : BoundedGroup g) (data : dare_server_data_t) (adopted : List dare_cid_t) :
    Bounded (elect g data adopted).cid ∧ InArrays (elect g data adopted) := by
  unfold elect
  split
  · rename_i hguard
    exact ⟨update_cid_keeps (hg.history _ hguard.1) fun cid hcid => hg.history _ (hguard.2.1 cid hcid),
      hg.arrays⟩
  · exact ⟨hg.cid, hg.arrays⟩

theorem bounded_step (g : group_t) (a : Action) (hg : BoundedGroup g) (hok : LeavesPlace g a) :
    BoundedGroup (step g a) := by
  have hhistory : ∀ after : group_t, Bounded after.cid → ∀ cid ∈ g.history ++ [after.cid], Bounded cid :=
    fun after hafter => List.forall_mem_append.mpr ⟨hg.history, List.forall_mem_singleton.mpr hafter⟩
  cases a with
  | task task =>
    rw [step]
    split
    · rename_i hrunning
      obtain ⟨hcid, harrays⟩ := bounded_act hg task (hok hrunning)
      exact ⟨hcid, hhistory _ hcid, harrays⟩
    · exact hg
  | elect data adopted =>
    obtain ⟨hcid, harrays⟩ := bounded_elect hg data adopted
    exact ⟨hcid, hhistory _ hcid, harrays⟩

theorem log_pruning_accesses {i : Nat} (hi : i ∈ g.accesses) : i ∈ (log_pruning g).accesses := by
  unfold log_pruning
  dsimp only
  split
  · exact hi
  · exact List.mem_append_left _ hi

/-- A task that stays within the arrays has had place. -/
theorem hasPlace_of_inArrays (g : group_t) (task : Task) (hafter : InArrays (act g task)) :
    HasPlace g task := by
  cases task with
  | join wc_slid id slid =>
    intro hupsizes
    simp only [upsizes, Bool.and_eq_true, decide_eq_true_eq] at hupsizes
    refine hafter _ ?_
    simp only [act, handle_server_join_request, hupsizes.1, ne_eq, not_true_eq_false, if_false,
      hupsizes.2]
    exact List.mem_append_right _ (List.mem_append_right _ (List.mem_singleton_self _))
  | force_log_pruning =>
    intro hremoves
    obtain ⟨target, htarget⟩ := Option.isSome_iff_exists.mp hremoves
    have hneeds : needs_pruning g.data = true := by
      by_contra hneeds
      simp [removes_slow, hneeds] at htarget
    have htarget' : removes_slow (g.access (List.range (get_extended_group_size g.cid))).data =
        some target := htarget
    refine hafter _ ?_
    simp only [act, force_log_pruning, hneeds, Bool.not_true, Bool.false_eq_true, if_false, htarget']
    exact log_pruning_accesses (List.mem_append_right _ (List.mem_singleton_self _))
  | _ => trivial

theorem leavesPlace_of_inArrays (g : group_t) (a : Action) (hafter : InArrays (step g a)) :
    LeavesPlace g a := by
  cases a with
  | task task =>
    intro hrunning
    rw [step, if_pos hrunning] at hafter
    exact hasPlace_of_inArrays g task hafter
  | elect data adopted => trivial

/-- The group of a server that has started is within the arrays. -/
theorem bounded_lead {idx : Nat} {group_size : UInt8} {data : dare_server_data_t}
    (hstart : init_server_data idx group_size = some data) (sid : UInt64) (lid : Nat → UInt16) :
    BoundedGroup (lead { data with sid := sid } lid) := by
  unfold init_server_data at hstart
  split at hstart
  · cases hstart
  · rename_i hsize
    obtain rfl := Option.some.inj hstart
    have hadd : ∀ (is : List Nat) (cid : dare_cid_t), Bounded cid →
        Bounded (is.foldl CID_SERVER_ADD cid) := by
      intro is
      induction is with
      | nil => exact fun _ h => h
      | cons i is ih => exact fun cid h => ih (CID_SERVER_ADD cid i) h
    have hcid := hadd (List.range group_size.toNat)
      { epoch := 0, size_0 := group_size, size_1 := 0, state := CID_STABLE, bitmask := 0 }
      ⟨Nat.le_of_not_lt hsize, Nat.zero_le _⟩
    exact ⟨hcid, List.forall_mem_singleton.mpr hcid, by simp [InArrays, lead]⟩

end bounds

/-- For every run from the start of an admitted group: all indexes into the arrays of servers are within
    their length exactly when a group of the full size neither grows nor loses a slow server. -/
theorem indexes_stay_in_arrays {idx : Nat} {group_size : UInt8} {data : dare_server_data_t}
    (hstart : init_server_data idx group_size = some data) (sid : UInt64) (lid : Nat → UInt16)
    (actions : List Action) :
    Always step InArrays (lead { data with sid := sid } lid) actions ↔
      AllOk step LeavesPlace (lead { data with sid := sid } lid) actions :=
  always_iff_allOk bounded_step (fun g a _ hafter => leavesPlace_of_inArrays g a hafter)
    (fun _ hg => hg.arrays) (bounded_lead hstart sid lid) actions

/-- Server 0 leads a group of this size in the first term. -/
def started_group (group_size : UInt8) (hsize : (init_server_data 0 group_size).isSome) : group_t :=
  lead { (init_server_data 0 group_size).get hsize with sid := mk_sid 1 true 0 }
    fun i => UInt16.ofNat (i + 1)

theorem admits_thirteen : (init_server_data 0 13).isSome = true := by decide

theorem group_of_three_grows :
    Always step InArrays (started_group 3 admits_three)
      [.task (.join 100 1 100), .task .update_remote_logs, .task .log_pruning] :=
  (indexes_stay_in_arrays (Option.some_get admits_three).symm _ _ _).mpr
    ⟨fun _ _ => by decide, fun _ => trivial, fun _ => trivial, trivial⟩

/-- A log in which server 1 has not applied anything, and which is used up to four fifths. -/
def slow_tasks : List Action :=
  [.task (.log { log_new with end_ := 53687092, apply := 53687092, commit := 53687092 }),
    .task (.apply_offset 0 53687092), .task .force_log_pruning]

/-- In a group of thirteen servers a join request writes behind the arrays, and so does the removal of a
    slow server. -/
theorem thirteen_servers_overrun :
    13 ∈ (step (started_group 13 admits_thirteen) (.task (.join 100 1 100))).accesses ∧
      13 ∈ (steps step (started_group 13 admits_thirteen) slow_tasks).accesses := by
  decide

end dare.server
