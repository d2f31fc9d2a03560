import Mathlib.Logic.Function.Basic
import ReliableSocket.Dare.Sid
import ReliableSocket.Dare.Log.NcBuf

open dare.log

namespace dare.server

def PERMANENT_FAILURE : Nat := 2

/-- The steps of log replication towards one server, in order. -/
inductive lr_step where
  | LR_GET_WRITE
  | LR_GET_NCE_LEN
  | LR_GET_NCE
  | LR_SET_END
  | LR_UPDATE_LOG
  | LR_UPDATE_END
deriving DecidableEq, Repr

/-- The identifier of a work request without its tag and wrap-around bits: send sequence number and
    connection. -/
structure wr_id_t where
  ssn : Nat
  conn : Nat
deriving DecidableEq, Repr

/-- What a server keeps about another one, the flags of its endpoint included. -/
structure server_t where
  next_wr_id : wr_id_t
  cached_end_offset : Nat
  fail_count : Nat
  next_lr_step : lr_step
  send_flag : Bool
  send_count : Nat
  rc_connected : Bool
  log_access : Bool
deriving DecidableEq, Repr

structure vote_req_t where
  sid : UInt64
  index : UInt64
  term : UInt64
  cid : dare_cid_t
deriving DecidableEq, Repr

/-- The offsets of a remote log that the leader keeps. -/
structure log_offsets_t where
  commit : Nat
  end_ : Nat
deriving DecidableEq, Repr

/-- The callback of the heartbeat timer, if the timer is armed. -/
inductive hb_event_t where
  | stopped
  | hb_receive_cb
  | hb_send_cb
deriving DecidableEq, Repr

/-- The data of one server: configuration, control data, log, and the globals of the consensus
    thread that the modelled handlers use. -/
structure dare_server_data_t where
  idx : Nat
  cid : dare_cid_t
  cid_offset : Nat
  servers : Nat → server_t
  sid : UInt64
  vote_req : Nat → vote_req_t
  log_offsets : Nat → log_offsets_t
  hb : Nat → UInt64
  vote_ack : Nat → Nat
  vote_sid : Nat → UInt64
  apply_offsets : Nat → Nat
  log : dare_log_t
  ssn : Nat
  latest_hb_received : UInt64
  hb_event : hb_event_t

namespace dare_server_data_t

def set_server (data : dare_server_data_t) (i : Nat) (server : server_t) : dare_server_data_t :=
  { data with servers := Function.update data.servers i server }

def set_log_offsets (data : dare_server_data_t) (i : Nat) (offsets : log_offsets_t) :
    dare_server_data_t :=
  { data with log_offsets := Function.update data.log_offsets i offsets }

def set_log (data : dare_server_data_t) (log : dare_log_t) : dare_server_data_t :=
  { data with log := log }

/-- The server is in the configuration. -/
def is_on (data : dare_server_data_t) (i : Nat) : Bool := CID_IS_SERVER_ON data.cid i

end dare_server_data_t

def IS_NONE (data : dare_server_data_t) : Bool :=
  decide (SID_GET_IDX data.sid = data.idx) && !SID_GET_L data.sid && decide (SID_GET_TERM data.sid = 0)

def IS_LEADER (data : dare_server_data_t) : Bool :=
  !IS_NONE data && decide (SID_GET_IDX data.sid = data.idx) && SID_GET_L data.sid

def IS_CANDIDATE (data : dare_server_data_t) : Bool :=
  !IS_NONE data && decide (SID_GET_IDX data.sid = data.idx) && !SID_GET_L data.sid

/-- The data of a server that starts: all zero but for the configuration, the step and flag of each
    server, the SID and the new log. There is nothing for a group that is too large. -/
def init_server_data (server_idx : Nat) (group_size : UInt8) : Option dare_server_data_t :=
  if MAX_SERVER_COUNT < group_size.toNat then none
  else
    some {
      idx := server_idx
      cid := (List.range group_size.toNat).foldl CID_SERVER_ADD
        { epoch := 0, size_0 := group_size, size_1 := 0, state := CID_STABLE, bitmask := 0 }
      cid_offset := 0
      servers := fun _ => ⟨⟨0, 0⟩, 0, 0, .LR_GET_WRITE, true, 0, false, false⟩
      sid := SID_NULL
      vote_req := fun _ => ⟨0, 0, 0, ⟨0, 0, 0, 0, 0⟩⟩
      log_offsets := fun _ => ⟨0, 0⟩
      hb := fun _ => 0
      vote_ack := fun _ => 0
      vote_sid := fun _ => 0
      apply_offsets := fun _ => 0
      log := log_new
      ssn := 0
      latest_hb_received := 0
      hb_event := .stopped }

theorem admits_three : (init_server_data 0 3).isSome = true := by decide

end dare.server
