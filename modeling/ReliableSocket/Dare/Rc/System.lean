import ReliableSocket.Dare.Log.Run
import ReliableSocket.Dare.Rc.Replication
import ReliableSocket.Run

open memory
open dare.log dare.server

namespace dare.rc

/-- A leader that replicates its log: its own data, the logs of the other servers, and for each of
    them the requests that wait in the queue of its log QP. -/
structure State where
  leader : dare_server_data_t
  remote : Nat → dare_log_t
  posted : Nat → List work_request

/-- The length of the data that a request transfers. -/
def log_operation.len : log_operation → Nat
  | .read_nc_len => 8
  | .read_nc_entries len => len
  | .write_end _ => 8
  | .write_commit _ => 8
  | .write_entries _ len => len

/-- The effect of a request for server `i` of which the first `bytes` bytes are transferred: on the
    log of the leader and on the remote log. Words are transferred as a whole. -/
def execute (i : Nat) (operation : log_operation) (bytes : Nat) (log remote : dare_log_t) :
    dare_log_t × dare_log_t :=
  match operation with
  | .read_nc_len =>
    ({ log with mem := if bytes < 8 then log.mem else copy remote.mem log.mem (nc_buf_addr i) 8 }, remote)
  | .read_nc_entries len =>
    ({ log with mem := copy remote.mem log.mem (nc_det_addr i 0) (min len bytes) }, remote)
  | .write_end offset => (log, { remote with end_ := if bytes < 8 then remote.end_ else offset })
  | .write_commit offset => (log, { remote with commit := if bytes < 8 then remote.commit else offset })
  | .write_entries offset len =>
    (log, { remote with mem := copy log.mem remote.mem (ENTRIES_OFFSET + offset) (min len bytes) })

/-- What happens in the system: the steps of the leader, the completion of the oldest request in a
    queue, and changes from outside. -/
inductive Action where
  | append (req_id : UInt64) (clt_id : UInt16) (data : log_data)
  | log_adjustment (i : Nat)
  | update_remote_log (i : Nat)
  | update_commit
  | update_remote_commit (i : Nat)
  | complete (i : Nat) (success : Bool) (bytes : Nat)
  | vote_ack (i offset : Nat)
  | fail_count (i count : Nat)
  | remote (i : Nat) (log : dare_log_t)

/-- A step of the leader that posts requests for server `i`. -/
def post (s : State) (i : Nat) (result : dare_server_data_t × List work_request) : State :=
  { s with
    leader := result.1
    posted := Function.update s.posted i (s.posted i ++ result.2) }

/-- The oldest request for server `i` is executed and leaves the queue. A request that fails may have
    transferred any part of its data. -/
def complete (s : State) (i : Nat) (success : Bool) (bytes : Nat) : State :=
  match s.posted i with
  | [] => s
  | wr :: rest =>
    let bytes := if success then wr.operation.len else bytes
    let logs := execute i wr.operation bytes s.leader.log (s.remote i)
    let leader := s.leader.set_log logs.1
    { leader := if wr.signaled then handle_lr_work_completion leader wr.wr_id success else leader
      remote := Function.update s.remote i logs.2
      posted := Function.update s.posted i rest }

/-- The loops of the leader go over the servers of the configuration. -/
def step (s : State) : Action → State
  | .append req_id clt_id data =>
    let log := (log_append_entry s.leader.log (SID_GET_TERM s.leader.sid) req_id clt_id data).1
    { s with leader := s.leader.set_log log }
  | .log_adjustment i =>
    if i < get_extended_group_size s.leader.cid then post s i (log_adjustment s.leader i) else s
  | .update_remote_log i =>
    if i < get_extended_group_size s.leader.cid then post s i (update_remote_log s.leader i) else s
  | .update_commit => { s with leader := update_commit s.leader }
  | .update_remote_commit i =>
    if i < get_extended_group_size s.leader.cid then post s i (update_remote_commit s.leader i) else s
  | .complete i success bytes => complete s i success bytes
  | .vote_ack i offset =>
    { s with leader := { s.leader with vote_ack := Function.update s.leader.vote_ack i offset } }
  | .fail_count i count =>
    { s with leader := s.leader.set_server i { s.leader.servers i with fail_count := count } }
  | .remote i log => { s with remote := Function.update s.remote i log }

/-- The servers to which the leader replicates its log. -/
def Peer (s : State) (i : Nat) : Prop :=
  i ≠ s.leader.idx ∧ i < get_extended_group_size s.leader.cid

/-- Runs whose steps all meet a condition. -/
inductive Run (Ok : State → Action → Prop) (start : State) : State → Prop where
  | start : Run Ok start start
  | step {s : State} (a : Action) (hrun : Run Ok start s) (hok : Ok s a) : Run Ok start (step s a)

theorem run_steps {Ok : State → Action → Prop} {start s : State} {actions : List Action}
    (hrun : Run Ok start s) (hok : run.AllOk step Ok s actions) : Run Ok start (run.steps step s actions) := by
  induction actions generalizing s with
  | nil => exact hrun
  | cons a actions ih => exact ih (.step a hrun hok.1) hok.2

end dare.rc
