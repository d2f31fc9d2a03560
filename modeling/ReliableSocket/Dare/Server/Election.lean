import ReliableSocket.Run
import ReliableSocket.Dare.Server.Data

open dare.log dare.server

namespace dare.election

/-- What one server writes into the control data of another over their CTRL QP, always into the slot of
    the writer. -/
inductive ctrl_write where
  | hb (sid : UInt64)
  | vote_req (request : vote_req_t)
  | vote_ack (commit : Nat)
deriving DecidableEq, Repr

/-- What wrote the state identifier of a server. -/
inductive cause_t where
  | start_election
  | vote
  | decline
  | votes
  | heartbeat
  | verification
  | alone
  | recovery
deriving DecidableEq, Repr

/-- A write to the state identifier. -/
structure event_t where
  server : Nat
  cause : cause_t
  sid : UInt64
deriving DecidableEq, Repr

/-- A running server handles the events of its loop. It does so after its connections are established
    or, if it has joined, after its log is recovered; not while it waits for its vote ACK to reach a
    server; and not after it has exited. -/
inductive mode_t where
  | starting
  | recovering
  | running
  | waiting (candidate : Nat)
  | exited
deriving DecidableEq, Repr

/-- The result of a handler: new data, the writes it has posted, the state identifiers it has written. -/
structure handled where
  data : dare_server_data_t
  mode : mode_t
  posted : List (Nat × ctrl_write)
  events : List event_t

section rc

variable (data : dare_server_data_t)

/-- The server is in the configuration, connected, and not this one. -/
def is_reachable (i : Nat) : Bool := i ≠ data.idx && data.is_on i && (data.servers i).rc_connected

def set_log_access (i : Nat) (access : Bool) : dare_server_data_t :=
  data.set_server i { data.servers i with log_access := access }

/-- The loop of `rc_revoke_log_access`; the LOG QPs can always be reset. -/
def rc_revoke_log_access : dare_server_data_t :=
  { data with
    servers := fun i =>
      if i < get_extended_group_size data.cid ∧ is_reachable data i then
        { data.servers i with log_access := false }
      else data.servers i }

/-- Result and new data. A follower gives access to the server named in its SID, a leader to all;
    `value` is what `rc_qp_reset_to_rts`, which has no `return`, leaves to its caller. -/
def rc_restore_log_access (value : Nat) : Nat × dare_server_data_t :=
  let leader_idx := SID_GET_IDX data.sid
  if leader_idx ≠ data.idx then
    if data.is_on leader_idx = false then (1, data)
    else if (data.servers leader_idx).rc_connected = false then (1, data)
    else if (data.servers leader_idx).log_access = true then (0, data)
    else if value ≠ 0 then (1, data)
    else (0, set_log_access data leader_idx true)
  else if SID_GET_L data.sid then
    let closed := (List.range (get_extended_group_size data.cid)).filter fun i =>
      is_reachable data i && !(data.servers i).log_access
    if value ≠ 0 ∧ closed ≠ [] then (1, data)
    else (0, closed.foldl (fun data i => set_log_access data i true) data)
  else (0, data)

def rc_send_hb : List (Nat × ctrl_write) :=
  ((List.range (get_group_size data.cid)).filter (is_reachable data)).map fun i => (i, .hb data.sid)

def rc_send_hb_reply (i : Nat) : List (Nat × ctrl_write) :=
  if i < get_group_size data.cid ∧ data.is_on i ∧ (data.servers i).rc_connected then [(i, .hb data.sid)]
  else []

/-- Index and term of the entry at the tail of the log; zero for an empty log. -/
def last_entry (log : dare_log_t) : UInt64 × UInt64 :=
  match log_get_entry log (log_get_tail log) with
  | none => (0, 0)
  | some entry => (entry_idx log.entries entry, entry_term log.entries entry)

/-- The request is set in the own slot before it is sent. -/
def rc_send_vote_request : dare_server_data_t × List (Nat × ctrl_write) :=
  let last := last_entry data.log
  let request : vote_req_t := { sid := data.sid, index := last.1, term := last.2, cid := data.cid }
  ({ data with vote_req := Function.update data.vote_req data.idx request },
    ((List.range (get_group_size data.cid)).filter (is_reachable data)).map fun i => (i, .vote_req request))

/-- The vote ACK is the commit offset; the server then waits for the write to complete. -/
def rc_send_vote_ack : mode_t × List (Nat × ctrl_write) :=
  let candidate := SID_GET_IDX data.sid
  if data.is_on candidate ∧ (data.servers candidate).rc_connected then
    (.waiting candidate, [(candidate, .vote_ack data.log.commit)])
  else (.running, [])

/-- All of these servers get access. -/
theorem set_log_accesses (is : List Nat) :
    is.foldl (fun data i => set_log_access data i true) data =
      { data with
        servers := fun i =>
          if i ∈ is then { data.servers i with log_access := true } else data.servers i } := by
  induction is generalizing data with
  | nil => simp
  | cons j is ih =>
    rw [List.foldl_cons, ih]
    simp only [set_log_access, dare_server_data_t.set_server]
    congr 1
    funext i
    by_cases hj : i = j
    · subst hj
      simp
    · simp [hj]

end rc

section handlers

variable (data : dare_server_data_t)

/-- A handler that only changes the data. -/
def continues (data : dare_server_data_t) : handled := ⟨data, .running, [], []⟩

/-- Publish the entries that are not committed. A walk over the log that never ends changes nothing. -/
def publish_nc_buf : dare_server_data_t :=
  { data with log := (log_entries_to_nc_buf data.log data.idx).getD data.log }

/-- The SID [t+1|0|own index]. -/
def election_sid : UInt64 :=
  SID_SET_IDX (SID_UNSET_L (SID_SET_TERM 0 (SID_GET_TERM data.sid + 1))) data.idx

/-- Become a candidate: the votes of a previous election are cleared. -/
def become_candidate : dare_server_data_t :=
  let size := get_group_size data.cid
  { data with
    vote_ack := fun i => if i < size then data.log.len else data.vote_ack i
    servers := fun i =>
      if i < size then { data.servers i with next_lr_step := .LR_GET_WRITE, send_flag := true }
      else data.servers i
    hb_event := .hb_receive_cb }

def start_election : handled :=
  let sid := election_sid data
  let r := rc_send_vote_request (become_candidate (rc_revoke_log_access { data with sid := sid }))
  ⟨r.1, .running, r.2, [⟨data.idx, .start_election, sid⟩]⟩

/-- The end of `server_to_follower`, and of a vote: tell the server named in the SID that the log is
    accessible. -/
def send_vote_ack (events : List event_t) : handled :=
  let r := rc_send_vote_ack data
  match r.1 with
  | .waiting candidate => ⟨data, .waiting candidate, r.2, events⟩
  | _ => ⟨{ data with hb_event := .hb_receive_cb }, .running, [], events⟩

/-- The result of restoring the log access is not looked at. -/
def server_to_follower (value : Nat) (events : List event_t) : handled :=
  let data := publish_nc_buf (rc_revoke_log_access { data with hb_event := .stopped })
  let data := (rc_restore_log_access data value).2
  if SID_GET_L data.sid then send_vote_ack data events
  else ⟨{ data with hb_event := .hb_receive_cb }, .running, [], events⟩

/-- After the vote ACK: the heartbeat timer, or an election if the ACK did not get through. -/
def vote_ack_sent (success : Bool) : handled :=
  if success then continues { data with hb_event := .hb_receive_cb } else start_election data

end handlers

section heartbeats

/-- The accumulators of the loop of `hb_receive_cb`. -/
structure hb_scan where
  timeout : Bool
  new_sid : UInt64
  data : dare_server_data_t
  posted : List (Nat × ctrl_write)

/-- The heartbeat of server `i`, and the data after it is reset. The one of the leader may have been
    read before, while adjusting the timeout. -/
def fetch_hb (data : dare_server_data_t) (leader i : Nat) : UInt64 × dare_server_data_t :=
  if i = leader ∧ data.latest_hb_received ≠ 0 then
    (data.latest_hb_received, { data with latest_hb_received := 0 })
  else (data.hb i, { data with hb := Function.update data.hb i 0 })

def hb_receive_server (leader : Nat) (s : hb_scan) (i : Nat) : hb_scan :=
  if i = s.data.idx ∨ s.data.is_on i = false then s
  else
    let r := fetch_hb s.data leader i
    let s := { s with data := r.2 }
    if r.1 = 0 then s
    else if r.1 < s.new_sid then
      if SID_GET_L r.1 then { s with posted := s.posted ++ rc_send_hb_reply s.data i } else s
    else { s with timeout := false, new_sid := if SID_GET_L r.1 then r.1 else s.new_sid }

def hb_receive_loop (data : dare_server_data_t) : hb_scan :=
  (List.range (get_group_size data.cid)).foldl (hb_receive_server (SID_GET_IDX data.sid))
    ⟨true, data.sid, { data with log := { data.log with tail := data.log.len } }, []⟩

/-- A server that follows a leader of its own term does not change the access to its log. -/
def hb_receive_cb (data : dare_server_data_t) (value : Nat) : handled :=
  if data.idx ≥ get_group_size data.cid then continues data
  else
    let s := hb_receive_loop data
    if s.timeout then
      let r := start_election s.data
      { r with posted := s.posted ++ r.posted }
    else if s.new_sid ≠ data.sid then
      let events : List event_t := [⟨data.idx, .heartbeat, s.new_sid⟩]
      let followed := { s.data with sid := s.new_sid }
      if SID_GET_TERM data.sid ≠ SID_GET_TERM s.new_sid then
        let r := server_to_follower followed value events
        { r with posted := s.posted ++ r.posted }
      else ⟨followed, .running, s.posted, events⟩
    else ⟨s.data, .running, s.posted, []⟩

/-- The loop of `hb_send_cb`: the heartbeats are reset up to one that is not below the own SID. -/
def find_hb_reply (data : dare_server_data_t) : List Nat → Bool × dare_server_data_t
  | [] => (false, data)
  | i :: is =>
    if i = data.idx ∨ data.is_on i = false then find_hb_reply data is
    else
      let hb := data.hb i
      let data := { data with hb := Function.update data.hb i 0 }
      if hb < data.sid then find_hb_reply data is else (true, data)

/-- A leader that finds such a heartbeat goes to follower state with its own SID. -/
def hb_send_cb (data : dare_server_data_t) (value : Nat) : handled :=
  let r := find_hb_reply data (List.range (get_group_size data.cid))
  if r.1 then server_to_follower r.2 value []
  else ⟨r.2, .running, rc_send_hb r.2, []⟩

/-- The heartbeat of the leader is kept for `hb_receive_cb`. -/
def to_adjust_cb (data : dare_server_data_t) : dare_server_data_t :=
  let leader := SID_GET_IDX data.sid
  { data with
    hb := Function.update data.hb leader 0
    latest_hb_received := if data.hb leader ≠ 0 then data.hb leader else data.latest_hb_received }

end heartbeats

section votes

/-- The vote ACK of server `i` counts. -/
def has_ack (data : dare_server_data_t) (i : Nat) : Bool :=
  i ≠ data.idx && decide (data.vote_ack i ≠ data.log.len)

/-- The votes in a group of the given size, the own one included. -/
def vote_count (data : dare_server_data_t) (size : Nat) : Nat :=
  1 + ((List.range (get_group_size data.cid)).filter fun i => has_ack data i && decide (i < size)).length

/-- Record the commit offset in the vote ACK of server `i`. -/
def record_ack (data : dare_server_data_t) (i : Nat) : dare_server_data_t :=
  let commit := data.vote_ack i
  let data := data.set_log_offsets i { data.log_offsets i with commit := commit }
  let data := data.set_server i { data.servers i with next_lr_step := .LR_GET_NCE_LEN }
  if log_is_offset_larger data.log commit data.log.commit then
    data.set_log { data.log with commit := commit }
  else data

def has_majority (data : dare_server_data_t) : Bool :=
  decide (data.cid.size_0.toNat / 2 + 1 ≤ vote_count data data.cid.size_0.toNat) &&
    (decide (data.cid.state = CID_STABLE) ||
      decide (data.cid.size_1.toNat / 2 + 1 ≤ vote_count data data.cid.size_1.toNat))

/-- Without the work on the log of a new leader, which the system takes as steps of their own. -/
def poll_vote_count (data : dare_server_data_t) (value : Nat) : handled :=
  let counted :=
    ((List.range (get_group_size data.cid)).filter (has_ack data)).foldl record_ack data
  if !has_majority data then continues counted
  else
    let new_sid := SID_SET_L data.sid
    let size := get_extended_group_size data.cid
    let leader := { counted with
      sid := new_sid
      hb_event := .hb_send_cb
      apply_offsets := fun i => if i < size then counted.log.head else counted.apply_offsets i }
    let r := rc_restore_log_access leader value
    ⟨r.2, if r.1 ≠ 0 then .exited else .running, [], [⟨data.idx, .votes, new_sid⟩]⟩

/-- The vote request of server `i` is dropped. -/
def drop_request (vote_req : Nat → vote_req_t) (i : Nat) : Nat → vote_req_t :=
  Function.update vote_req i { vote_req i with sid := 0 }

/-- The first loop of `poll_vote_requests`, with the best SID so far. -/
def find_best_sid (own : Nat) (s : UInt64 × (Nat → vote_req_t)) (i : Nat) : UInt64 × (Nat → vote_req_t) :=
  if i = own then s
  else if s.1 ≥ (s.2 i).sid then (s.1, drop_request s.2 i)
  else ((s.2 i).sid, s.2)

/-- The accumulators of the second loop of `poll_vote_requests`. -/
structure request_scan where
  best : vote_req_t
  highest_term : UInt64
  vote_req : Nat → vote_req_t

def find_best_request (s : request_scan) (i : Nat) : request_scan :=
  let request := s.vote_req i
  if s.best.sid > request.sid then { s with vote_req := drop_request s.vote_req i }
  else
    let s := { s with
      highest_term := if s.highest_term < SID_GET_TERM request.sid then SID_GET_TERM request.sid
        else s.highest_term
      vote_req := drop_request s.vote_req i }
    if s.best.term > request.term ∨ (s.best.term = request.term ∧ s.best.index > request.index) then s
    else { s with best := request }

/-- Index and term of the last local entry, after the entries that are not committed are published. -/
def local_last_entry (data : dare_server_data_t) : UInt64 × UInt64 :=
  let len := nc_buf_len data.log data.idx
  if len = 0 then
    if log_get_tail data.log = data.log.len then (0, 0) else last_entry data.log
  else
    let det := nc_buf_det data.log data.idx (len - 1)
    (det.idx, det.term)

/-- Nothing if the server finds itself removed and shuts down. -/
def update_cid (data : dare_server_data_t) (cid : dare_cid_t) : Option dare_server_data_t :=
  if data.cid = cid then some data
  else
    let gone := (List.range (max cid.size_0.toNat cid.size_1.toNat)).filter fun i =>
      !CID_IS_SERVER_ON cid i && data.is_on i
    if gone.contains data.idx then none
    else
      some { gone.foldl (fun data i =>
        data.set_server i { data.servers i with rc_connected := false }) data with cid := cid }

/-- The last part of `poll_vote_requests`: the vote is cast, its replication left out. -/
def cast_vote (data : dare_server_data_t) (request : vote_req_t) (value : Nat) : handled :=
  let events : List event_t := [⟨data.idx, .vote, request.sid⟩]
  let voter := { data with sid := request.sid, hb_event := .stopped }
  match update_cid voter request.cid with
  | none => ⟨voter, .exited, [], events⟩
  | some voter =>
    let voter := { voter with vote_sid := Function.update voter.vote_sid voter.idx voter.sid }
    let r := rc_restore_log_access voter value
    if r.1 ≠ 0 then ⟨r.2, .exited, [], events⟩ else send_vote_ack r.2 events

/-- The branch of `poll_vote_requests` for a local log that is better than those of the candidates. -/
def decline_vote (data : dare_server_data_t) (highest_term : UInt64) : handled :=
  let new_sid := SID_SET_IDX (SID_SET_TERM data.sid highest_term) data.idx
  ⟨{ data with sid := new_sid }, .running, [], [⟨data.idx, .decline, new_sid⟩]⟩

/-- The request to vote for after both loops, the highest term among the requests, and the data, if
    there is a request with a better SID. -/
def choose_candidate (data : dare_server_data_t) (best_sid : UInt64) : request_scan × dare_server_data_t :=
  let data := publish_nc_buf (rc_revoke_log_access data)
  let last := local_last_entry data
  let scan := (List.range (get_group_size data.cid)).foldl find_best_request
    ⟨⟨SID_SET_L data.sid, last.1, last.2, data.cid⟩, SID_GET_TERM best_sid, data.vote_req⟩
  (scan, { data with vote_req := scan.vote_req })

def poll_vote_requests (data : dare_server_data_t) (value : Nat) : handled :=
  if SID_GET_L data.sid then continues data
  else
    let hb := data.hb (SID_GET_IDX data.sid)
    if hb ≠ 0 ∧ SID_GET_TERM hb = SID_GET_TERM data.sid then
      ⟨{ data with sid := hb }, .running, [], [⟨data.idx, .heartbeat, hb⟩]⟩
    else
      let best := (List.range (get_group_size data.cid)).foldl (find_best_sid data.idx)
        (SID_SET_L data.sid, data.vote_req)
      let data := { data with vote_req := best.2 }
      if best.1 = SID_SET_L data.sid then continues data
      else
        let r := choose_candidate data best.1
        if r.1.best.sid = SID_SET_L data.sid then decline_vote r.2 r.1.highest_term
        else cast_vote r.2 r.1.best value

end votes

section recovery

/-- Read the SIDs of other servers; a better leader is followed. -/
def rc_verify_leadership (data : dare_server_data_t) (sids : List UInt64) (value : Nat) : handled :=
  let new_sid := sids.foldl (fun best sid => if best < sid ∧ SID_GET_L sid then sid else best) data.sid
  if new_sid ≠ data.sid then
    server_to_follower { data with sid := new_sid } value [⟨data.idx, .verification, new_sid⟩]
  else continues data

/-- The data of a server that has joined: cleared memory, with the SID, the configuration and the log that
    its recovery has found. -/
def joined_data (i : Nat) (cid : dare_cid_t) (sid : UInt64) (log : dare_log_t) : dare_server_data_t where
  idx := i
  cid := cid
  cid_offset := 0
  servers := fun _ => ⟨⟨0, 0⟩, 0, 0, .LR_GET_WRITE, true, 0, false, false⟩
  sid := sid
  vote_req := fun _ => ⟨0, 0, 0, ⟨0, 0, 0, 0, 0⟩⟩
  log_offsets := fun _ => ⟨0, 0⟩
  hb := fun _ => 0
  vote_ack := fun _ => 0
  vote_sid := fun _ => 0
  apply_offsets := fun _ => 0
  log := log
  ssn := 0
  latest_hb_received := 0
  hb_event := .stopped

/-- The last step of the recovery. -/
def recover_log_cb (data : dare_server_data_t) (value : Nat) : handled :=
  if SID_GET_TERM data.sid = 0 then start_election data else server_to_follower data value []

/-- The SID of a server that starts alone. -/
def alone_sid (data : dare_server_data_t) : UInt64 := SID_SET_IDX (SID_SET_L (SID_SET_TERM data.sid 1)) 0

end recovery

section system

/-- A group of servers: their data, what they do, the writes that each has posted for each other one and
    that are not delivered, and all writes to state identifiers, the last one first. -/
structure group_t where
  server : Nat → dare_server_data_t
  mode : Nat → mode_t
  wire : Nat → Nat → List ctrl_write
  trace : List event_t

/-- Server `i` has run a handler. -/
def handle (g : group_t) (i : Nat) (r : handled) : group_t where
  server := Function.update g.server i r.data
  mode := Function.update g.mode i r.mode
  wire := Function.update g.wire i fun k =>
    g.wire i k ++ (r.posted.filter fun p => p.1 = k).map Prod.snd
  trace := r.events ++ g.trace

/-- The data of a server after a write by server `i`. -/
def receive (data : dare_server_data_t) (i : Nat) : ctrl_write → dare_server_data_t
  | .hb sid => { data with hb := Function.update data.hb i sid }
  | .vote_req request => { data with vote_req := Function.update data.vote_req i request }
  | .vote_ack commit => { data with vote_ack := Function.update data.vote_ack i commit }

/-- The oldest write of server `i` for server `j` is executed. -/
def deliver (g : group_t) (i j : Nat) : group_t :=
  match g.wire i j with
  | [] => g
  | w :: rest =>
    let g := { g with
      server := Function.update g.server j (receive (g.server j) i w)
      wire := Function.update g.wire i (Function.update (g.wire i) j rest) }
    match w with
    | .vote_ack _ =>
      if g.mode i = .waiting j then handle g i (vote_ack_sent (g.server i) true) else g
    | _ => g

/-- The vote ACK of server `i` does not get through, nor does anything before it in the same queue. -/
def fail_ack (g : group_t) (i : Nat) : group_t :=
  match g.mode i with
  | .waiting j =>
    handle { g with wire := Function.update g.wire i (Function.update (g.wire i) j []) } i
      (vote_ack_sent (g.server i) false)
  | _ => g

/-- What can happen in a group: the handlers of the servers, with the value that they read from
    `rc_qp_reset_to_rts`; the delivery of writes; changes of connections, logs and configurations by
    the rest of the program; and the recovery of servers that join. -/
inductive Action where
  | start (i : Nat)
  | hb_receive_cb (i value : Nat)
  | hb_send_cb (i value : Nat)
  | to_adjust_cb (i : Nat)
  | poll_vote_count (i value : Nat)
  | poll_vote_requests (i value : Nat)
  | deliver (i j : Nat)
  | fail_ack (i : Nat)
  | connect (i j : Nat) (connected : Bool)
  | log (i : Nat) (log : dare_log_t)
  | cid (i : Nat) (cid : dare_cid_t)
  | verify_leadership (i : Nat) (sids : List UInt64) (value : Nat)
  | join (i : Nat) (cid : dare_cid_t) (sid : UInt64) (log : dare_log_t)
  | recover_log_cb (i value : Nat)

def start (g : group_t) (i : Nat) : group_t :=
  let data := g.server i
  if g.mode i = .starting ∧ data.sid = SID_NULL ∧ i < get_group_size data.cid then
    if data.cid.size_0 = 1 then
      handle g i ⟨{ data with sid := alone_sid data }, .starting, [], [⟨i, .alone, alone_sid data⟩]⟩
    else handle g i (start_election data)
  else g

/-- A server runs a handler if it is running. -/
def run_handler (g : group_t) (i : Nat) (handler : dare_server_data_t → handled) : group_t :=
  if g.mode i = .running then handle g i (handler (g.server i)) else g

def set_data (g : group_t) (i : Nat) (data : dare_server_data_t) : group_t :=
  { g with server := Function.update g.server i data }

/-- A server that joins has new queues. -/
def join (g : group_t) (i : Nat) (cid : dare_cid_t) (sid : UInt64) (log : dare_log_t) : group_t where
  server := Function.update g.server i (joined_data i cid sid log)
  mode := Function.update g.mode i .recovering
  wire := fun j k => if j = i ∨ k = i then [] else g.wire j k
  trace := ⟨i, .recovery, sid⟩ :: g.trace

def step (g : group_t) : Action → group_t
  | .start i => start g i
  | .hb_receive_cb i value =>
    if (g.server i).hb_event = .hb_receive_cb then run_handler g i (hb_receive_cb · value) else g
  | .hb_send_cb i value =>
    if (g.server i).hb_event = .hb_send_cb then run_handler g i (hb_send_cb · value) else g
  | .to_adjust_cb i => run_handler g i fun data => continues (to_adjust_cb data)
  | .poll_vote_count i value =>
    if IS_CANDIDATE (g.server i) then run_handler g i (poll_vote_count · value) else g
  | .poll_vote_requests i value => run_handler g i (poll_vote_requests · value)
  | .deliver i j => deliver g i j
  | .fail_ack i => fail_ack g i
  | .connect i j connected =>
    set_data g i
      ((g.server i).set_server j { (g.server i).servers j with rc_connected := connected })
  | .log i log => set_data g i { g.server i with log := { log with len := (g.server i).log.len } }
  | .cid i cid => set_data g i { g.server i with cid := cid }
  | .verify_leadership i sids value => run_handler g i (rc_verify_leadership · sids value)
  | .join i cid sid log => join g i cid sid log
  | .recover_log_cb i value =>
    if g.mode i = .recovering then handle g i (recover_log_cb (g.server i) value) else g

/-- A group of the given size before its servers start. -/
def group_init (group_size : UInt8) (server : Nat → dare_server_data_t)
    (_ : ∀ i, init_server_data i group_size = some (server i)) : group_t where
  server := server
  mode := fun _ => .starting
  wire := fun _ _ => []
  trace := []

end system

end dare.election
