import ReliableSocket.Run
import ReliableSocket.Dare.Ibv.Endpoint

namespace dare.ibv

open ibv_qp_state qp_id

/-- The parts of the device that are announced to other servers: MTU, global identifier, the name of
    this host as a LID, and the registered memory regions. -/
structure dare_ib_device_t where
  mtu : Nat
  gid : ibv_gid
  slid : UInt16
  lcl_mr : qp_id → rem_mem_t

/-- The connection state of one server: own index, configuration, state identifier, device, and the
    endpoints of all servers. -/
structure ib_state where
  idx : Nat
  cid : dare_cid_t
  sid : UInt64
  dev : dare_ib_device_t
  ep : Nat → dare_ib_ep_t

def ib_state.set_ep (s : ib_state) (i : Nat) (ep : dare_ib_ep_t) : ib_state :=
  { s with ep := Function.update s.ep i ep }

namespace ib_state

@[simp] theorem set_ep_ep (s : ib_state) (i : Nat) (ep : dare_ib_ep_t) : (s.set_ep i ep).ep i = ep := by
  simp [set_ep]

theorem set_ep_ep_ne (s : ib_state) {i j : Nat} (hne : j ≠ i) (ep : dare_ib_ep_t) :
    (s.set_ep i ep).ep j = s.ep j := by
  simp [set_ep, hne]

end ib_state

/-- The sender of a datagram, from its work completion. -/
structure ibv_wc where
  slid : UInt16
  src_qp : UInt32
deriving DecidableEq, Repr

/-- The message of the types RC_SYN and RC_SYNACK, with the QPNs that follow it. -/
structure rc_syn_t where
  id : UInt64
  gid : ibv_gid
  slid : UInt16
  log_rm : rem_mem_t
  ctrl_rm : rem_mem_t
  mtu : Nat
  idx : Nat
  size : Nat
  qpns : Nat → UInt32

structure rc_ack_t where
  id : UInt64
  idx : Nat
deriving DecidableEq, Repr

def REQ_MAJORITY : Nat := 13

/-- The UD endpoint from a work completion; an address handle can always be created. -/
def wc_to_ud_ep (wc : ibv_wc) (dest_gid : ibv_gid) (slid : UInt16) : ud_ep_t where
  lid := slid
  gid := dest_gid
  qpn := wc.src_qp
  ah := some { dlid := wc.slid, dgid := dest_gid }

/-- What a handshake message says about the sender: addresses, memory regions, remote QPNs, MTU. -/
def set_rc_info (ep : dare_ib_ep_t) (wc : ibv_wc) (msg : rc_syn_t) (log_qpn ctrl_qpn : UInt32)
    (mtu : Nat) : dare_ib_ep_t :=
  { ep with
    ud_ep := wc_to_ud_ep wc msg.gid msg.slid
    rc_ep :=
      { rmt_mr := fun q => match q with | LOG_QP => msg.log_rm | CTRL_QP => msg.ctrl_rm
        rc_qp := fun q => match q with
          | LOG_QP => { ep.rc_ep.rc_qp LOG_QP with qpn := log_qpn }
          | CTRL_QP => { ep.rc_ep.rc_qp CTRL_QP with qpn := ctrl_qpn } }
    mtu := if msg.mtu > mtu then mtu else msg.mtu }

/-- The leader flag is set for this server; the handlers do not look at the term. -/
def is_leading (s : ib_state) : Bool := SID_GET_L s.sid && decide (SID_GET_IDX s.sid = s.idx)

section handlers

variable (ibv_modify_qp : modify_qp_t)

/-- The CTRL QP is connected, and a leader connects the LOG QP too. -/
def connect_qps (s : ib_state) (ep : dare_ib_ep_t) : Nat × dare_ib_ep_t :=
  and_then (rc_connect_server ibv_modify_qp ep CTRL_QP) fun ep =>
    if is_leading s then rc_connect_server ibv_modify_qp ep LOG_QP else (0, ep)

/-- The servers of the group with an established connection, this one not included. -/
def connections (s : ib_state) : Nat :=
  ((List.range (get_group_size s.cid)).filter fun i =>
    i ≠ s.idx && CID_IS_SERVER_ON s.cid i && (s.ep i).rc_connected).length

/-- The answer to an RC_SYN with the QPNs of the endpoint of its sender. -/
def rc_synack (s : ib_state) (id : UInt64) (ep : dare_ib_ep_t) : rc_syn_t where
  id := id
  gid := s.dev.gid
  slid := s.dev.slid
  log_rm := s.dev.lcl_mr LOG_QP
  ctrl_rm := s.dev.lcl_mr CTRL_QP
  mtu := s.dev.mtu
  idx := s.idx
  size := 1
  qpns := fun j =>
    if j = 0 then (ep.rc_ep.rc_qp LOG_QP).qp_num
    else if j = 1 then (ep.rc_ep.rc_qp CTRL_QP).qp_num else 0

/-- Result, new state, and the answer if one is sent. The connection is not yet marked. -/
def handle_rc_syn (s : ib_state) (wc : ibv_wc) (msg : rc_syn_t) : Nat × ib_state × Option rc_syn_t :=
  if CID_IS_SERVER_ON s.cid msg.idx = false then (0, s, none)
  else if s.idx ≥ msg.size then (0, s, none)
  else if (s.ep msg.idx).rc_connected = false then
    let ep := set_rc_info (s.ep msg.idx) wc msg (msg.qpns (2 * s.idx)) (msg.qpns (2 * s.idx + 1)) s.dev.mtu
    let r := connect_qps ibv_modify_qp s ep
    let s := s.set_ep msg.idx r.2
    if r.1 ≠ 0 then (1, s, none) else (0, s, some (rc_synack s msg.id r.2))
  else (0, s, some (rc_synack s msg.id (s.ep msg.idx)))

/-- The connection is marked before its queue pairs are connected. -/
def handle_rc_synack (s : ib_state) (wc : ibv_wc) (msg : rc_syn_t) :
    Nat × ib_state × Option rc_ack_t :=
  let reply := some { id := msg.id, idx := s.idx }
  if CID_IS_SERVER_ON s.cid msg.idx = false then (0, s, none)
  else if (s.ep msg.idx).rc_connected = false then
    let ep := set_rc_info (s.ep msg.idx) wc msg (msg.qpns 0) (msg.qpns 1) s.dev.mtu
    let r := connect_qps ibv_modify_qp s { ep with rc_connected := true }
    let s := s.set_ep msg.idx r.2
    if r.1 ≠ 0 then (1, s, none)
    else (if connections s ≥ get_group_size s.cid / 2 then REQ_MAJORITY else 0, s, reply)
  else (0, s, reply)

/-- Only the flag is set: neither the queue pairs nor the remote data are looked at. -/
def handle_rc_ack (s : ib_state) (msg : rc_ack_t) : Nat × ib_state :=
  if CID_IS_SERVER_ON s.cid msg.idx = false then (0, s)
  else if (s.ep msg.idx).rc_connected = false then
    let s := s.set_ep msg.idx { s.ep msg.idx with rc_connected := true }
    (if connections s < get_group_size s.cid / 2 then 0 else REQ_MAJORITY, s)
  else (0, s)

/-- Server `i` is in the configuration and connected, and not this server. -/
def is_reachable (s : ib_state) (i : Nat) : Bool :=
  i ≠ s.idx && CID_IS_SERVER_ON s.cid i && (s.ep i).rc_connected

/-- The loop of `rc_revoke_log_access` over the servers in `is`. -/
def revoke_loop (ibv_modify_qp : modify_qp_t) (s : ib_state) : List Nat → Nat × ib_state
  | [] => (0, s)
  | i :: is =>
    if is_reachable s i = false then revoke_loop ibv_modify_qp s is
    else if (s.ep i).log_access = false then revoke_loop ibv_modify_qp s is
    else
      let r := rc_qp_reset ibv_modify_qp (s.ep i) LOG_QP
      if r.1 ≠ 0 then (1, s.set_ep i r.2)
      else revoke_loop ibv_modify_qp (s.set_ep i { r.2 with log_access := false }) is

def rc_revoke_log_access (s : ib_state) : Nat × ib_state :=
  revoke_loop ibv_modify_qp s (List.range (get_extended_group_size s.cid))

/-- The loop of `rc_restore_log_access` at the leader; `value` is what `rc_qp_reset_to_rts` leaves
    to its caller. -/
def restore_loop (ibv_modify_qp : modify_qp_t) (s : ib_state) (value : Nat) : List Nat → Nat × ib_state
  | [] => (0, s)
  | i :: is =>
    if is_reachable s i = false then restore_loop ibv_modify_qp s value is
    else if (s.ep i).log_access = true then restore_loop ibv_modify_qp s value is
    else
      let r := rc_qp_reset_to_rts ibv_modify_qp (s.ep i) LOG_QP value
      if r.1 ≠ 0 then (1, s.set_ep i r.2)
      else restore_loop ibv_modify_qp (s.set_ep i { r.2 with log_access := true }) value is

/-- A follower gives access to the server named in its state identifier, a leader to all. -/
def rc_restore_log_access (s : ib_state) (value : Nat) : Nat × ib_state :=
  let leader_idx := SID_GET_IDX s.sid
  if leader_idx ≠ s.idx then
    if CID_IS_SERVER_ON s.cid leader_idx = false then (1, s)
    else if (s.ep leader_idx).rc_connected = false then (1, s)
    else if (s.ep leader_idx).log_access = true then (0, s)
    else
      let r := rc_qp_reset_to_rts ibv_modify_qp (s.ep leader_idx) LOG_QP value
      if r.1 ≠ 0 then (1, s.set_ep leader_idx r.2)
      else (0, s.set_ep leader_idx { r.2 with log_access := true })
  else if SID_GET_L s.sid then
    restore_loop ibv_modify_qp s value (List.range (get_extended_group_size s.cid))
  else (0, s)

/-- A server that joins takes the place `i`: its UD endpoint is known, its connection is not. -/
def init_new_server (s : ib_state) (wc : ibv_wc) (gid : ibv_gid) (slid : UInt16) (i : Nat) : ib_state :=
  s.set_ep i { s.ep i with ud_ep := wc_to_ud_ep wc gid slid, rc_connected := false }

/-- What can happen to the connections of a server: messages, the removal and the arrival of servers,
    changes of the log access, and changes of configuration and role. -/
inductive Action where
  | rc_syn (wc : ibv_wc) (msg : rc_syn_t)
  | rc_synack (wc : ibv_wc) (msg : rc_syn_t)
  | rc_ack (msg : rc_ack_t)
  | disconnect (i : Nat)
  | join (wc : ibv_wc) (gid : ibv_gid) (slid : UInt16) (i : Nat)
  | revoke
  | restore (value : Nat)
  | cid (cid : dare_cid_t)
  | sid (sid : UInt64)

def step (s : ib_state) : Action → ib_state
  | .rc_syn wc msg => (handle_rc_syn ibv_modify_qp s wc msg).2.1
  | .rc_synack wc msg => (handle_rc_synack ibv_modify_qp s wc msg).2.1
  | .rc_ack msg => (handle_rc_ack s msg).2
  | .disconnect i => s.set_ep i (rc_disconnect_server ibv_modify_qp (s.ep i)).2
  | .join wc gid slid i => init_new_server s wc gid slid i
  | .revoke => (rc_revoke_log_access ibv_modify_qp s).2
  | .restore value => (rc_restore_log_access ibv_modify_qp s value).2
  | .cid cid => { s with cid := cid }
  | .sid sid => { s with sid := sid }

end handlers

/-- The endpoints after `rc_init`: cleared memory and fresh queue pairs. -/
def Created (s : ib_state) : Prop :=
  ∀ i, (s.ep i).rc_connected = false ∧ (s.ep i).log_access = false ∧
    ∀ q, (s.ep i).qp_state q = IBV_QPS_RESET

/-- The endpoint after both queue pairs that the role asks for are connected. -/
def connected_ep (leading : Bool) (ep : dare_ib_ep_t) : dare_ib_ep_t :=
  if leading then (ep.ready CTRL_QP).ready LOG_QP else ep.ready CTRL_QP

variable {ibv_modify_qp : modify_qp_t}

theorem connect_qps_eq (hmodify : ModifySucceeds ibv_modify_qp) (s : ib_state) (ep : dare_ib_ep_t) :
    connect_qps ibv_modify_qp s ep = (0, connected_ep (is_leading s) ep) := by
  cases h : is_leading s <;> simp [connect_qps, connected_ep, rc_connect_server_eq hmodify, and_then, h]

/-- The endpoint after an accepted RC_SYN. -/
def syn_ep (s : ib_state) (wc : ibv_wc) (msg : rc_syn_t) : dare_ib_ep_t :=
  connected_ep (is_leading s)
    (set_rc_info (s.ep msg.idx) wc msg (msg.qpns (2 * s.idx)) (msg.qpns (2 * s.idx + 1)) s.dev.mtu)

/-- The endpoint after an accepted RC_SYNACK. -/
def synack_ep (s : ib_state) (wc : ibv_wc) (msg : rc_syn_t) : dare_ib_ep_t :=
  connected_ep (is_leading s)
    { set_rc_info (s.ep msg.idx) wc msg (msg.qpns 0) (msg.qpns 1) s.dev.mtu with rc_connected := true }

/-- The RC_SYN sets up a connection. -/
def accepts_syn (s : ib_state) (msg : rc_syn_t) : Bool :=
  CID_IS_SERVER_ON s.cid msg.idx && decide (s.idx < msg.size) && !(s.ep msg.idx).rc_connected

/-- The handshake message with index `i` sets up, or marks, a connection. -/
def accepts (s : ib_state) (i : Nat) : Bool := CID_IS_SERVER_ON s.cid i && !(s.ep i).rc_connected

section steps

variable (s : ib_state)

theorem step_rc_syn (hmodify : ModifySucceeds ibv_modify_qp) (wc : ibv_wc) (msg : rc_syn_t) :
    step ibv_modify_qp s (.rc_syn wc msg) =
      if accepts_syn s msg then s.set_ep msg.idx (syn_ep s wc msg) else s := by
  by_cases hon : CID_IS_SERVER_ON s.cid msg.idx = false
  · simp [step, handle_rc_syn, accepts_syn, hon]
  by_cases hsize : s.idx ≥ msg.size
  · simp [step, handle_rc_syn, accepts_syn, hon, hsize]
  by_cases hrc : (s.ep msg.idx).rc_connected = false
  · simp [step, handle_rc_syn, accepts_syn, hon, hsize, hrc, connect_qps_eq hmodify, syn_ep]
  · simp [step, handle_rc_syn, accepts_syn, hon, hsize, hrc]

theorem step_rc_synack (hmodify : ModifySucceeds ibv_modify_qp) (wc : ibv_wc) (msg : rc_syn_t) :
    step ibv_modify_qp s (.rc_synack wc msg) =
      if accepts s msg.idx then s.set_ep msg.idx (synack_ep s wc msg) else s := by
  by_cases hon : CID_IS_SERVER_ON s.cid msg.idx = false
  · simp [step, handle_rc_synack, accepts, hon]
  by_cases hrc : (s.ep msg.idx).rc_connected = false
  · simp [step, handle_rc_synack, accepts, hon, hrc, connect_qps_eq hmodify, synack_ep]
  · simp [step, handle_rc_synack, accepts, hon, hrc]

theorem step_rc_ack (msg : rc_ack_t) :
    step ibv_modify_qp s (.rc_ack msg) = if accepts s msg.idx then
      s.set_ep msg.idx { s.ep msg.idx with rc_connected := true } else s := by
  by_cases hon : CID_IS_SERVER_ON s.cid msg.idx = false
  · simp [step, handle_rc_ack, accepts, hon]
  by_cases hrc : (s.ep msg.idx).rc_connected = false
  · simp [step, handle_rc_ack, accepts, hon, hrc]
  · simp [step, handle_rc_ack, accepts, hon, hrc]

end steps

/-- A server that loses, or gets, log access, or is left alone. The flag decides whether the loops
    touch the queue pair. -/
def access_set (access : Bool) (new : dare_ib_ep_t → dare_ib_ep_t) (s : ib_state) (is : List Nat)
    (i : Nat) : dare_ib_ep_t :=
  if i ∈ is ∧ is_reachable s i = true ∧ (s.ep i).log_access = !access then
    { new (s.ep i) with log_access := access }
  else s.ep i

/-- What one round of either loop leaves for the rest of the loop. -/
theorem access_set_cons {access : Bool} {new : dare_ib_ep_t → dare_ib_ep_t} {s : ib_state} {i : Nat}
    (is : List Nat) (hi : is_reachable s i = true) (hflag : (s.ep i).log_access = !access) :
    access_set access new (s.set_ep i { new (s.ep i) with log_access := access }) is =
      access_set access new s (i :: is) := by
  funext j
  by_cases hj : j = i
  · subst j
    simp [access_set, hi, hflag]
  · have hep := s.set_ep_ep_ne hj { new (s.ep i) with log_access := access }
    have hreach : is_reachable (s.set_ep i { new (s.ep i) with log_access := access }) j =
        is_reachable s j := by
      simp only [is_reachable, hep]
      rfl
    simp only [access_set, hreach, hep, List.mem_cons, hj, false_or]

theorem access_set_skip {access : Bool} {new : dare_ib_ep_t → dare_ib_ep_t} {s : ib_state} {i : Nat}
    (is : List Nat) (hi : ¬(is_reachable s i = true ∧ (s.ep i).log_access = !access)) :
    access_set access new s (i :: is) = access_set access new s is := by
  funext j
  by_cases hj : j = i
  · subst j
    simp only [access_set, hi, and_false, if_false]
  · simp [access_set, hj]

theorem access_set_nil (access : Bool) (new : dare_ib_ep_t → dare_ib_ep_t) (s : ib_state) :
    access_set access new s [] = s.ep := by
  funext j
  simp [access_set]

/-- All reachable servers with access lose it, and no call fails. -/
theorem revoke_loop_eq (hmodify : ModifySucceeds ibv_modify_qp) (s : ib_state) (is : List Nat) :
    revoke_loop ibv_modify_qp s is =
      (0, { s with ep := access_set false (·.moved LOG_QP IBV_QPS_RESET) s is }) := by
  induction is generalizing s with
  | nil => simp only [revoke_loop, access_set_nil]
  | cons i is ih =>
    by_cases hi : is_reachable s i = true ∧ (s.ep i).log_access = true
    · rw [← access_set_cons is hi.1 (by simpa using hi.2)]
      simp [revoke_loop, hi.1, hi.2, rc_qp_reset_eq hmodify, ih, ib_state.set_ep]
    · rw [access_set_skip is (by simpa using hi)]
      rw [not_and, Bool.not_eq_true] at hi
      cases hreach : is_reachable s i
      · simp [revoke_loop, hreach, ih]
      · simp [revoke_loop, hreach, hi hreach, ih]

/-- With 0 as the value that is read, all reachable servers without access get it. -/
theorem restore_loop_eq (hmodify : ModifySucceeds ibv_modify_qp) (s : ib_state) (is : List Nat) :
    restore_loop ibv_modify_qp s 0 is = (0, { s with ep := access_set true (·.ready LOG_QP) s is }) := by
  induction is generalizing s with
  | nil => simp only [restore_loop, access_set_nil]
  | cons i is ih =>
    by_cases hi : is_reachable s i = true ∧ (s.ep i).log_access = false
    · rw [← access_set_cons is hi.1 (by simpa using hi.2)]
      simp [restore_loop, hi.1, hi.2, rc_qp_reset_to_rts_eq hmodify, ih, ib_state.set_ep]
    · rw [access_set_skip is (by simpa using hi)]
      rw [not_and, Bool.not_eq_false] at hi
      cases hreach : is_reachable s i
      · simp [restore_loop, hreach, ih]
      · simp [restore_loop, hreach, hi hreach, ih]

/-- The servers to which a server gives access: its leader, or all if it is the leader itself. -/
def restored (s : ib_state) : List Nat :=
  if SID_GET_IDX s.sid ≠ s.idx then [SID_GET_IDX s.sid]
  else if SID_GET_L s.sid then List.range (get_extended_group_size s.cid) else []

theorem step_restore (hmodify : ModifySucceeds ibv_modify_qp) (s : ib_state) :
    step ibv_modify_qp s (.restore 0) = { s with ep := access_set true (·.ready LOG_QP) s (restored s) } := by
  by_cases hidx : SID_GET_IDX s.sid = s.idx
  · by_cases hl : SID_GET_L s.sid = true
    · simp [step, rc_restore_log_access, restored, hidx, hl, restore_loop_eq hmodify]
    · simp [step, rc_restore_log_access, restored, hidx, hl, access_set_nil]
  · have hloop := restore_loop_eq hmodify s [SID_GET_IDX s.sid]
    have hreach : is_reachable s (SID_GET_IDX s.sid) =
        (CID_IS_SERVER_ON s.cid (SID_GET_IDX s.sid) && (s.ep (SID_GET_IDX s.sid)).rc_connected) := by
      simp [is_reachable, hidx]
    -- The branch of a follower is one round of the loop with other return values.
    have hbranch : (rc_restore_log_access ibv_modify_qp s 0).2 =
        (restore_loop ibv_modify_qp s 0 [SID_GET_IDX s.sid]).2 := by
      cases hon : CID_IS_SERVER_ON s.cid (SID_GET_IDX s.sid)
      · simp [rc_restore_log_access, restore_loop, hidx, hreach, hon]
      cases hrc : (s.ep (SID_GET_IDX s.sid)).rc_connected
      · simp [rc_restore_log_access, restore_loop, hidx, hreach, hon, hrc]
      cases hlog : (s.ep (SID_GET_IDX s.sid)).log_access
      · simp [rc_restore_log_access, restore_loop, hidx, hreach, hon, hrc, hlog,
          rc_qp_reset_to_rts_eq hmodify]
      · simp [rc_restore_log_access, restore_loop, hidx, hreach, hon, hrc, hlog]
    rw [step, hbranch, hloop]
    simp [restored, hidx]

theorem step_revoke (hmodify : ModifySucceeds ibv_modify_qp) (s : ib_state) :
    step ibv_modify_qp s .revoke = { s with
      ep := access_set false (·.moved LOG_QP IBV_QPS_RESET) s
        (List.range (get_extended_group_size s.cid)) } := by
  simp [step, rc_revoke_log_access, revoke_loop_eq hmodify]

end dare.ibv
