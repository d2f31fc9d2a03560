import ReliableSocket.Dare.Server.Data

open memory
open dare.log dare.server

namespace dare.rc

/-- The RDMA operations on the log of a follower. Words are sent inline and so fixed when they are
    posted; the bytes of log entries are fetched when the request is executed. -/
inductive log_operation where
  | read_nc_len
  | read_nc_entries (len : Nat)
  | write_end (offset : Nat)
  | write_commit (offset : Nat)
  | write_entries (offset len : Nat)
deriving DecidableEq, Repr

structure work_request where
  wr_id : wr_id_t
  signaled : Bool
  operation : log_operation
deriving DecidableEq, Repr

/-- Stop posting for a server until the completion of this request arrives. -/
def post_lr (data : dare_server_data_t) (i : Nat) (operations : List log_operation) :
    dare_server_data_t × List work_request :=
  let wr_id : wr_id_t := { ssn := data.ssn, conn := i }
  (data.set_server i { data.servers i with send_flag := false, next_wr_id := wr_id },
    operations.map fun operation => { wr_id, signaled := true, operation })

/-- The step `LR_GET_NCE_LEN` of `log_adjustment`. -/
def get_nce_len (data : dare_server_data_t) (i : Nat) : dare_server_data_t × List work_request :=
  let remote_commit := data.vote_ack i
  let data :=
    if log_is_offset_larger data.log remote_commit data.log.commit then
      data.set_log { data.log with commit := remote_commit }
    else data
  post_lr data i [.read_nc_len]

/-- The body of the loop of `log_adjustment` continues only for another server of the configuration
    that is not suspected, waits for no completion, is connected and has sent a vote ACK. -/
def adjusts_log (data : dare_server_data_t) (i : Nat) : Bool :=
  i ≠ data.idx && data.is_on i && decide ((data.servers i).fail_count < PERMANENT_FAILURE) &&
    (data.servers i).send_flag && (data.servers i).rc_connected && data.log.len ≠ data.vote_ack i

/-- The step of log adjustment that server `i` is at. -/
def adjustment_step (data : dare_server_data_t) (i : Nat) : dare_server_data_t × List work_request :=
  let server := data.servers i
  match server.next_lr_step with
  | .LR_GET_WRITE =>
    -- the commit offset came with the vote ACK; the source falls through to the next step
    let data := { data with ssn := data.ssn + 1 }
    let data := data.set_log_offsets i { data.log_offsets i with commit := data.vote_ack i }
    get_nce_len (data.set_server i { server with next_lr_step := .LR_GET_NCE_LEN }) i
  | .LR_GET_NCE_LEN => get_nce_len { data with ssn := data.ssn + 1 } i
  | .LR_GET_NCE =>
    let data := { data with ssn := data.ssn + 1 }
    if nc_buf_len data.log i = 0 then
      let data := data.set_log_offsets i
        { data.log_offsets i with end_ := (data.log_offsets i).commit }
      (data.set_server i { server with next_lr_step := .LR_UPDATE_LOG }, [])
    else post_lr data i [.read_nc_entries (nc_buf_len data.log i * SIZEOF_DET)]
  | .LR_SET_END =>
    let data := { data with ssn := data.ssn + 1 }
    let remote_end := log_find_remote_end_offset data.log i
    let data := data.set_log_offsets i { data.log_offsets i with end_ := remote_end }
    post_lr data i [.write_end remote_end]
  | .LR_UPDATE_LOG => (data, [])
  | .LR_UPDATE_END => (data, [])

/-- The body of the loop of `log_adjustment` for server `i`. Each posted request gets a sequence
    number of its own; the source shares one between the servers of a call. -/
def log_adjustment (data : dare_server_data_t) (i : Nat) : dare_server_data_t × List work_request :=
  if adjusts_log data i then adjustment_step data i else (data, [])

/-- The parts in which the log from `remote_end` to `end_` is written; a second part of no bytes is
    not written. -/
def log_parts (len remote_end end_ : Nat) : List log_operation :=
  if remote_end < end_ then [.write_entries remote_end (end_ - remote_end)]
  else .write_entries remote_end (len - remote_end) ::
    if 0 < end_ then [.write_entries 0 end_] else []

/-- The first loop of `update_remote_logs` goes on only for another server of the configuration that
    is not suspected, waits for no completion and is connected. -/
def updates_log (data : dare_server_data_t) (i : Nat) : Bool :=
  i ≠ data.idx && data.is_on i && decide ((data.servers i).fail_count < PERMANENT_FAILURE) &&
    (data.servers i).send_flag && (data.servers i).rc_connected

/-- The step of log update that server `i` is at: write the missing part of the log, then the new
    end offset. -/
def update_step (data : dare_server_data_t) (i : Nat) : dare_server_data_t × List work_request :=
  let server := data.servers i
  let remote_end := (data.log_offsets i).end_
  match server.next_lr_step with
  | .LR_UPDATE_LOG =>
    if log_offset_end_distance data.log remote_end = 0 then (data, [])
    else
      let data := { data with ssn := data.ssn + 1 }
      let data := data.set_server i
        { server with
          cached_end_offset := data.log.end_
          send_count := if remote_end < data.log.end_ then 1 else 2 }
      post_lr data i (log_parts data.log.len remote_end data.log.end_)
  | .LR_UPDATE_END =>
    let data := { data with ssn := data.ssn + 1 }
    let data := data.set_log_offsets i { data.log_offsets i with end_ := server.cached_end_offset }
    post_lr data i [.write_end server.cached_end_offset]
  | _ => (data, [])

/-- The body of the first loop of `update_remote_logs` for server `i`. -/
def update_remote_log (data : dare_server_data_t) (i : Nat) : dare_server_data_t × List work_request :=
  if updates_log data i then update_step data i else (data, [])

/-- The offset up to which the log of server `i` is known to be valid. -/
def valid_offset (data : dare_server_data_t) (i : Nat) : Nat :=
  if i = data.idx then data.log.end_
  else if !data.is_on i ∨ PERMANENT_FAILURE ≤ (data.servers i).fail_count ∨
      (data.servers i).next_lr_step ≠ .LR_UPDATE_LOG then data.log.commit
  else (data.log_offsets i).end_

/-- Server `i` counts as one whose valid offset is beyond `min_offset`. -/
def counts_as_larger (data : dare_server_data_t) (min_offset i : Nat) : Bool :=
  i ≠ data.idx && data.is_on i && decide ((data.servers i).fail_count < PERMANENT_FAILURE) &&
    (data.servers i).next_lr_step = .LR_UPDATE_LOG &&
    log_is_offset_larger data.log (data.log_offsets i).end_ min_offset

/-- The insertion sort of the offsets, in numerical order. -/
def insert_offset (offset : Nat) : List Nat → List Nat
  | [] => [offset]
  | x :: xs => if x > offset then offset :: x :: xs else x :: insert_offset offset xs

def sort_offsets (offsets : List Nat) : List Nat :=
  offsets.foldl (fun sorted offset => insert_offset offset sorted) []

/-- The offset that a majority of the first `size` servers has, if enough of them are beyond
    `min_offset`. -/
def median_offset (data : dare_server_data_t) (min_offset size : Nat) : Option Nat :=
  if ((List.range size).filter (counts_as_larger data min_offset)).length < size / 2 then none
  else (sort_offsets ((List.range size).map (valid_offset data)))[(size - 1) / 2]?

/-- The search for committed entries in `update_remote_logs`. -/
def min_offset (data : dare_server_data_t) : Nat :=
  let first := median_offset data data.log.commit data.cid.size_0.toNat
  if data.cid.state ≠ CID_TRANSIT then first.getD data.log.commit
  else
    let min_offset := first.getD data.log.commit
    match median_offset data min_offset data.cid.size_1.toNat with
    | none => min_offset
    | some median => if log_is_offset_larger data.log min_offset median then median else min_offset

/-- The part of `update_remote_logs` that moves the local commit offset. -/
def update_commit (data : dare_server_data_t) : dare_server_data_t :=
  if log_is_offset_larger data.log (min_offset data) data.log.commit then
    { data with
      log := { data.log with commit := min_offset data }
      cid_offset := min_offset data }
  else data

/-- The last loop of `update_remote_logs` goes on only for another server of the configuration that
    is not suspected, is connected, has its log adjusted, and lacks a new commit offset. -/
def updates_commit (data : dare_server_data_t) (i : Nat) : Bool :=
  i ≠ data.idx && data.is_on i && decide ((data.servers i).fail_count < PERMANENT_FAILURE) &&
    (data.servers i).rc_connected && (data.servers i).next_lr_step = .LR_UPDATE_LOG &&
    (data.log_offsets i).commit ≠ (data.log_offsets i).end_ &&
    (data.log_offsets i).commit ≠ data.log.commit

/-- The body of the last loop of `update_remote_logs` for server `i`: lazily update its commit
    offset, not beyond its end offset. -/
def update_remote_commit (data : dare_server_data_t) (i : Nat) :
    dare_server_data_t × List work_request :=
  if updates_commit data i then
    let offsets := data.log_offsets i
    let remote_commit :=
      if log_is_offset_larger data.log data.log.commit offsets.end_ then offsets.end_
      else data.log.commit
    let data := { data with ssn := data.ssn + 1 }
    (data.set_log_offsets i { offsets with commit := remote_commit },
      [{ wr_id := { ssn := data.ssn, conn := i }, signaled := false,
         operation := .write_commit remote_commit }])
  else (data, [])

/-- What a successful log replication request changes for its server. The log is updated once both
    parts of it are written. -/
def lr_success (server : server_t) : server_t :=
  match server.next_lr_step with
  | .LR_UPDATE_LOG =>
    match server.send_count with
    | 0 => { server with send_flag := true }
    | 1 => { server with next_lr_step := .LR_UPDATE_END, send_flag := true }
    | 2 => { server with send_count := 1 }
    | _ => server
  | .LR_GET_WRITE => { server with next_lr_step := .LR_GET_NCE_LEN, send_flag := true }
  | .LR_GET_NCE_LEN => { server with next_lr_step := .LR_GET_NCE, send_flag := true }
  | .LR_GET_NCE => { server with next_lr_step := .LR_SET_END, send_flag := true }
  | .LR_SET_END => { server with next_lr_step := .LR_UPDATE_LOG, send_flag := true }
  | .LR_UPDATE_END => { server with next_lr_step := .LR_UPDATE_LOG, send_flag := true }

/-- What a failed log replication request changes for its server. -/
def lr_failure (server : server_t) : server_t :=
  match server.next_lr_step with
  | .LR_UPDATE_LOG =>
    match server.send_count with
    | 0 => { server with send_flag := true }
    | 1 => { server with send_flag := true }
    | 2 => { server with send_count := 0 }
    | _ => server
  | _ => { server with send_flag := true }

/-- Handle the completion of a log replication request; the completion of any request but the last
    one is ignored. -/
def handle_lr_work_completion (data : dare_server_data_t) (wr_id : wr_id_t) (success : Bool) :
    dare_server_data_t :=
  let server := data.servers wr_id.conn
  if wr_id = server.next_wr_id then
    data.set_server wr_id.conn (if success then lr_success server else lr_failure server)
  else data

end dare.rc
