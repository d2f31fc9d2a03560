import Mathlib.Logic.Function.Basic
import ReliableSocket.Dare.Sid
import ReliableSocket.Dare.Config

namespace dare.ibv

/-- The states that the code gives a queue pair. -/
inductive ibv_qp_state where
  | IBV_QPS_RESET
  | IBV_QPS_INIT
  | IBV_QPS_RTR
  | IBV_QPS_RTS
deriving DecidableEq, Repr

open ibv_qp_state

/-- A queue pair takes part in remote writes of the other side from RTR on. -/
def ibv_qp_state.accepts_writes : ibv_qp_state → Bool
  | IBV_QPS_RESET | IBV_QPS_INIT => false
  | IBV_QPS_RTR | IBV_QPS_RTS => true

/-- What the device does when a queue pair is modified: from the old state and the one that is asked for to the
    result of the call and the new state. -/
abbrev modify_qp_t := ibv_qp_state → ibv_qp_state → Nat × ibv_qp_state

/-- The device allows the transitions of the verbs interface: from any state to RESET, and one step
    forward. -/
structure ModifySucceeds (ibv_modify_qp : modify_qp_t) : Prop where
  reset : ∀ old, ibv_modify_qp old IBV_QPS_RESET = (0, IBV_QPS_RESET)
  init : ibv_modify_qp IBV_QPS_RESET IBV_QPS_INIT = (0, IBV_QPS_INIT)
  rtr : ibv_modify_qp IBV_QPS_INIT IBV_QPS_RTR = (0, IBV_QPS_RTR)
  rts : ibv_modify_qp IBV_QPS_RTR IBV_QPS_RTS = (0, IBV_QPS_RTS)

/-- The two queue pairs of an endpoint. -/
inductive qp_id where
  | CTRL_QP
  | LOG_QP
deriving DecidableEq, Repr

open qp_id

/-- A global identifier. -/
abbrev ibv_gid := BitVec 128

/-- An address handle, made from the LID of a work completion and a global identifier. -/
structure ibv_ah where
  dlid : UInt16
  dgid : ibv_gid
deriving DecidableEq, Repr

structure ud_ep_t where
  lid : UInt16
  gid : ibv_gid
  qpn : UInt32
  ah : Option ibv_ah
deriving DecidableEq, Repr

structure rem_mem_t where
  raddr : UInt64
  rkey : UInt32
deriving DecidableEq, Repr

def RC_QP_ACTIVE : UInt8 := 0

/-- A queue pair: its state in the device, its own number and the number of its remote partner, and
    the bookkeeping of posted sends. -/
structure rc_qp_t where
  qp_state : ibv_qp_state
  qp_num : UInt32
  qpn : UInt32
  signaled_wr_id : UInt64
  send_count : UInt32
  state : UInt8
deriving DecidableEq, Repr

structure rc_ep_t where
  rmt_mr : qp_id → rem_mem_t
  rc_qp : qp_id → rc_qp_t

structure dare_ib_ep_t where
  ud_ep : ud_ep_t
  rc_ep : rc_ep_t
  mtu : Nat
  rc_connected : Bool
  log_access : Bool

namespace dare_ib_ep_t

def qp_state (ep : dare_ib_ep_t) (q : qp_id) : ibv_qp_state := (ep.rc_ep.rc_qp q).qp_state

def set_qp (ep : dare_ib_ep_t) (q : qp_id) (qp : rc_qp_t) : dare_ib_ep_t :=
  { ep with rc_ep := { ep.rc_ep with rc_qp := Function.update ep.rc_ep.rc_qp q qp } }

end dare_ib_ep_t

section calls

variable (ibv_modify_qp : modify_qp_t)

/-- `ibv_modify_qp` on a queue pair of an endpoint; an error is reported as 1. -/
def modify_qp (ep : dare_ib_ep_t) (q : qp_id) (new : ibv_qp_state) : Nat × dare_ib_ep_t :=
  let r := ibv_modify_qp (ep.qp_state q) new
  (if r.1 ≠ 0 then 1 else 0, ep.set_qp q { ep.rc_ep.rc_qp q with qp_state := r.2 })

def rc_qp_reset (ep : dare_ib_ep_t) (q : qp_id) : Nat × dare_ib_ep_t := modify_qp ibv_modify_qp ep q IBV_QPS_RESET

/-- The bookkeeping of sends starts again with the new state. -/
def rc_qp_reset_to_init (ep : dare_ib_ep_t) (q : qp_id) : Nat × dare_ib_ep_t :=
  let ep := ep.set_qp q
    { ep.rc_ep.rc_qp q with signaled_wr_id := 0, send_count := 0, state := RC_QP_ACTIVE }
  modify_qp ibv_modify_qp ep q IBV_QPS_INIT

def rc_qp_init_to_rtr (ep : dare_ib_ep_t) (q : qp_id) : Nat × dare_ib_ep_t := modify_qp ibv_modify_qp ep q IBV_QPS_RTR

def rc_qp_rtr_to_rts (ep : dare_ib_ep_t) (q : qp_id) : Nat × dare_ib_ep_t := modify_qp ibv_modify_qp ep q IBV_QPS_RTS

/-- The next call, unless the last one failed; a failure is returned as 1. -/
def and_then (r : Nat × dare_ib_ep_t) (next : dare_ib_ep_t → Nat × dare_ib_ep_t) :
    Nat × dare_ib_ep_t :=
  if r.1 ≠ 0 then (1, r.2) else next r.2

/-- RESET → INIT → RTR → RTS, with a reset before if the queue pair is in another state. -/
def rc_connect_server (ep : dare_ib_ep_t) (q : qp_id) : Nat × dare_ib_ep_t :=
  and_then (if ep.qp_state q ≠ IBV_QPS_RESET then rc_qp_reset ibv_modify_qp ep q else (0, ep)) fun ep =>
  and_then (rc_qp_reset_to_init ibv_modify_qp ep q) fun ep =>
  and_then (rc_qp_init_to_rtr ibv_modify_qp ep q) fun ep =>
  and_then (rc_qp_rtr_to_rts ibv_modify_qp ep q) fun ep => (0, ep)

/-- The function ends without a `return`: on success its caller reads an undetermined `value`. -/
def rc_qp_reset_to_rts (ep : dare_ib_ep_t) (q : qp_id) (value : Nat) : Nat × dare_ib_ep_t :=
  and_then (rc_qp_reset ibv_modify_qp ep q) fun ep =>
  and_then (rc_qp_reset_to_init ibv_modify_qp ep q) fun ep =>
  and_then (rc_qp_init_to_rtr ibv_modify_qp ep q) fun ep =>
  and_then (rc_qp_rtr_to_rts ibv_modify_qp ep q) fun ep => (value, ep)

/-- No RC data is kept of an endpoint that is not connected. -/
def rc_disconnect_server (ep : dare_ib_ep_t) : Nat × dare_ib_ep_t :=
  if ep.rc_connected = false then (0, ep)
  else
    let ep := { ep with ud_ep := { ep.ud_ep with lid := 0, ah := none }, rc_connected := false }
    and_then (rc_qp_reset ibv_modify_qp ep LOG_QP) fun ep =>
    and_then (rc_qp_reset ibv_modify_qp ep CTRL_QP) fun ep => (0, ep)

end calls

namespace dare_ib_ep_t

/-- The endpoint with one queue pair in a new state. -/
def moved (ep : dare_ib_ep_t) (q : qp_id) (new : ibv_qp_state) : dare_ib_ep_t :=
  ep.set_qp q { ep.rc_ep.rc_qp q with qp_state := new }

/-- The endpoint with one queue pair ready to send. -/
def ready (ep : dare_ib_ep_t) (q : qp_id) : dare_ib_ep_t :=
  ep.set_qp q
    { ep.rc_ep.rc_qp q with
      qp_state := IBV_QPS_RTS, signaled_wr_id := 0, send_count := 0, state := RC_QP_ACTIVE }

section fields

variable (ep : dare_ib_ep_t) (q : qp_id)

@[simp] theorem set_qp_rc_qp (qp : rc_qp_t) : (ep.set_qp q qp).rc_ep.rc_qp q = qp := by
  simp [set_qp]

@[simp] theorem set_qp_set_qp (qp qp' : rc_qp_t) : (ep.set_qp q qp).set_qp q qp' = ep.set_qp q qp' := by
  simp [set_qp]

@[simp] theorem set_qp_qp_state (qp : rc_qp_t) : (ep.set_qp q qp).qp_state q = qp.qp_state := by
  simp [qp_state]

@[simp] theorem qp_state_moved (new : ibv_qp_state) : (ep.moved q new).qp_state q = new := by
  simp [moved]

theorem qp_state_moved_ne {q p : qp_id} (hne : p ≠ q) (new : ibv_qp_state) :
    (ep.moved q new).qp_state p = ep.qp_state p := by
  simp [moved, set_qp, qp_state, hne]

@[simp] theorem qp_state_ready : (ep.ready q).qp_state q = IBV_QPS_RTS := by
  simp [ready]

theorem qp_state_ready_ne {q p : qp_id} (hne : p ≠ q) : (ep.ready q).qp_state p = ep.qp_state p := by
  simp [ready, set_qp, qp_state, hne]

@[simp] theorem moved_rc_connected (new : ibv_qp_state) :
    (ep.moved q new).rc_connected = ep.rc_connected := rfl

@[simp] theorem moved_log_access (new : ibv_qp_state) :
    (ep.moved q new).log_access = ep.log_access := rfl

@[simp] theorem ready_rc_connected : (ep.ready q).rc_connected = ep.rc_connected := rfl

@[simp] theorem ready_log_access : (ep.ready q).log_access = ep.log_access := rfl

@[simp] theorem moved_ready (new : ibv_qp_state) : (ep.moved q new).ready q = ep.ready q := by
  simp [moved, ready]

end fields

end dare_ib_ep_t

section results

variable {ibv_modify_qp : modify_qp_t} (hmodify : ModifySucceeds ibv_modify_qp) (ep : dare_ib_ep_t) (q : qp_id)
include hmodify

theorem rc_qp_reset_eq : rc_qp_reset ibv_modify_qp ep q = (0, ep.moved q IBV_QPS_RESET) := by
  simp [rc_qp_reset, modify_qp, hmodify.reset, dare_ib_ep_t.moved]

/-- From RESET the three forward transitions lead to RTS without an error. -/
theorem reset_to_rts {ep : dare_ib_ep_t} {q : qp_id} (hreset : ep.qp_state q = IBV_QPS_RESET)
    (value : Nat) :
    (and_then (rc_qp_reset_to_init ibv_modify_qp ep q) fun ep =>
      and_then (rc_qp_init_to_rtr ibv_modify_qp ep q) fun ep =>
      and_then (rc_qp_rtr_to_rts ibv_modify_qp ep q) fun ep => (value, ep)) = (value, ep.ready q) := by
  have hstate : (ep.rc_ep.rc_qp q).qp_state = IBV_QPS_RESET := hreset
  simp [rc_qp_reset_to_init, rc_qp_init_to_rtr, rc_qp_rtr_to_rts, modify_qp, and_then, hstate,
    hmodify.init, hmodify.rtr, hmodify.rts, dare_ib_ep_t.ready]

theorem rc_connect_server_eq : rc_connect_server ibv_modify_qp ep q = (0, ep.ready q) := by
  by_cases hreset : ep.qp_state q = IBV_QPS_RESET
  · simp only [rc_connect_server, hreset, ne_eq, not_true_eq_false, if_false]
    exact reset_to_rts hmodify hreset 0
  · have hmoved := reset_to_rts hmodify (ep.qp_state_moved q IBV_QPS_RESET) 0
    rw [dare_ib_ep_t.moved_ready] at hmoved
    simp only [rc_connect_server, hreset, ne_eq, not_false_eq_true, if_true, rc_qp_reset_eq hmodify]
    exact hmoved

theorem rc_qp_reset_to_rts_eq (value : Nat) :
    rc_qp_reset_to_rts ibv_modify_qp ep q value = (value, ep.ready q) := by
  have hmoved := reset_to_rts hmodify (ep.qp_state_moved q IBV_QPS_RESET) value
  rw [dare_ib_ep_t.moved_ready] at hmoved
  rw [rc_qp_reset_to_rts, rc_qp_reset_eq hmodify]
  exact hmoved

/-- A connected endpoint loses its address, its flag and both queue pairs. The access flag stays. -/
theorem rc_disconnect_server_eq (hconnected : ep.rc_connected = true) :
    rc_disconnect_server ibv_modify_qp ep = (0,
      (({ ep with ud_ep := { ep.ud_ep with lid := 0, ah := none }, rc_connected := false }).moved
        LOG_QP IBV_QPS_RESET).moved CTRL_QP IBV_QPS_RESET) := by
  simp [rc_disconnect_server, hconnected, rc_qp_reset_eq hmodify, and_then]

end results
end dare.ibv
