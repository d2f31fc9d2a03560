import ReliableSocket.Dare.Ibv.Connection
import ReliableSocket.Dare.Server.Election

open dare.server run

namespace dare.ibv

open ibv_qp_state qp_id

@[simp] theorem qp_state_set_rc_info (ep : dare_ib_ep_t) (wc : ibv_wc) (msg : rc_syn_t)
    (log_qpn ctrl_qpn : UInt32) (mtu : Nat) (q : qp_id) :
    (set_rc_info ep wc msg log_qpn ctrl_qpn mtu).qp_state q = ep.qp_state q := by
  cases q <;> rfl

/-- The access flag of an endpoint says whether its LOG QP is ready, and without a connection there
    is no access. -/
structure Honest (ep : dare_ib_ep_t) : Prop where
  flag : ep.qp_state LOG_QP = if ep.log_access then IBV_QPS_RTS else IBV_QPS_RESET
  unconnected : ep.rc_connected = false → ep.log_access = false

/-- Every endpoint is honest, and a server has no access to itself. -/
structure Truthful (s : ib_state) : Prop where
  honest : ∀ i, Honest (s.ep i)
  own : (s.ep s.idx).log_access = false

/-- The steps after which the flags are right. A connection is not set up by a leader, which connects
    the LOG QP and leaves the flag. A server is not disconnected, and its place is not given to a new
    one, while it has access. The value read from `rc_qp_reset_to_rts` is 0. -/
def KeepsFlag (s : ib_state) : Action → Prop
  | .rc_syn _ msg => accepts_syn s msg = true → is_leading s = false
  | .rc_synack _ msg => accepts s msg.idx = true → is_leading s = false
  | .disconnect i => (s.ep i).rc_connected = true → (s.ep i).log_access = false
  | .join _ _ _ i => (s.ep i).log_access = false
  | .restore value => value = 0
  | .rc_ack _ | .revoke | .cid _ | .sid _ => True

theorem truthful_of_created {s : ib_state} (hs : Created s) : Truthful s where
  honest i := by
    obtain ⟨hrc, hlog, hstate⟩ := hs i
    exact ⟨by simp [hstate, hlog], fun _ => hlog⟩
  own := (hs s.idx).2.1

theorem Truthful.set_ep {s : ib_state} (hs : Truthful s) {i : Nat} {ep : dare_ib_ep_t}
    (hep : Honest ep) (hown : i = s.idx → ep.log_access = false) : Truthful (s.set_ep i ep) where
  honest j := by
    by_cases hj : j = i
    · subst j
      simpa using hep
    · rw [s.set_ep_ep_ne hj]
      exact hs.honest j
  own := by
    change ((s.set_ep i ep).ep s.idx).log_access = false
    by_cases hj : s.idx = i
    · subst i
      simpa using hown rfl
    · rw [s.set_ep_ep_ne hj]
      exact hs.own

/-- A connection that a follower sets up leaves flag and LOG QP as they are. -/
theorem Honest.connected {ep : dare_ib_ep_t} (hep : Honest ep) (hlog : ep.log_access = false) :
    Honest (connected_ep false ep) := by
  have hne : LOG_QP ≠ CTRL_QP := by decide
  refine ⟨?_, fun _ => hlog⟩
  simp only [connected_ep, Bool.false_eq_true, if_false, ep.qp_state_ready_ne hne,
    dare_ib_ep_t.ready_log_access]
  exact hep.flag

/-- The loops over the servers keep the flags right, in both directions. -/
theorem Truthful.access_set {s : ib_state} (hs : Truthful s) (access : Bool)
    (new : dare_ib_ep_t → dare_ib_ep_t) (is : List Nat)
    (hstate : ∀ ep, (new ep).qp_state LOG_QP = if access then IBV_QPS_RTS else IBV_QPS_RESET)
    (hrc : ∀ ep, (new ep).rc_connected = ep.rc_connected) :
    Truthful { s with ep := access_set access new s is } where
  honest i := by
    change Honest (dare.ibv.access_set access new s is i)
    rw [dare.ibv.access_set]
    split
    · rename_i hset
      have hconnected : (s.ep i).rc_connected = true := by
        have hreach := hset.2.1
        simp only [is_reachable, Bool.and_eq_true] at hreach
        exact hreach.2
      refine ⟨hstate (s.ep i), fun hunconnected => ?_⟩
      have hfalse : (s.ep i).rc_connected = false := (hrc (s.ep i)).symm.trans hunconnected
      simp [hconnected] at hfalse
    · exact hs.honest i
  own := by
    change (dare.ibv.access_set access new s is s.idx).log_access = false
    have hself : is_reachable s s.idx = false := by simp [is_reachable]
    simp [dare.ibv.access_set, hself, hs.own]

variable {ibv_modify_qp : modify_qp_t}

theorem Truthful.step (hmodify : ModifySucceeds ibv_modify_qp) {s : ib_state} {a : Action} (hs : Truthful s)
    (hok : KeepsFlag s a) :
    Truthful (step ibv_modify_qp s a) := by
  cases a with
  | rc_syn wc msg =>
    rw [step_rc_syn s hmodify]
    split
    · rename_i hacc
      have hleading := hok hacc
      simp only [accepts_syn, Bool.and_eq_true, Bool.not_eq_true'] at hacc
      have hlog := (hs.honest msg.idx).unconnected hacc.2
      rw [syn_ep, hleading]
      apply hs.set_ep
      · refine Honest.connected ⟨?_, fun _ => hlog⟩ hlog
        rw [qp_state_set_rc_info]
        exact (hs.honest msg.idx).flag
      · exact fun _ => hlog
    · exact hs
  | rc_synack wc msg =>
    rw [step_rc_synack s hmodify]
    split
    · rename_i hacc
      have hleading := hok hacc
      simp only [accepts, Bool.and_eq_true, Bool.not_eq_true'] at hacc
      have hlog := (hs.honest msg.idx).unconnected hacc.2
      rw [synack_ep, hleading]
      apply hs.set_ep
      · refine Honest.connected ⟨?_, fun _ => hlog⟩ hlog
        exact (hs.honest msg.idx).flag
      · exact fun _ => hlog
    · exact hs
  | rc_ack msg =>
    rw [step_rc_ack]
    split
    · rename_i hacc
      simp only [accepts, Bool.and_eq_true, Bool.not_eq_true'] at hacc
      have hlog := (hs.honest msg.idx).unconnected hacc.2
      exact hs.set_ep ⟨(hs.honest msg.idx).flag, fun _ => hlog⟩ fun _ => hlog
    · exact hs
  | disconnect i =>
    change Truthful (s.set_ep i (rc_disconnect_server ibv_modify_qp (s.ep i)).2)
    cases hrc : (s.ep i).rc_connected
    · rw [rc_disconnect_server, if_pos hrc]
      exact hs.set_ep (hs.honest i) fun _ => (hs.honest i).unconnected hrc
    · rw [rc_disconnect_server_eq hmodify _ hrc]
      have hlog : (s.ep i).log_access = false := hok hrc
      refine hs.set_ep ⟨?_, fun _ => hlog⟩ fun _ => hlog
      rw [dare_ib_ep_t.qp_state_moved_ne _ (by decide)]
      simp [hlog]
  | join wc gid slid i =>
    have hlog : (s.ep i).log_access = false := hok
    exact hs.set_ep ⟨(hs.honest i).flag, fun _ => hlog⟩ fun _ => hlog
  | revoke =>
    rw [step_revoke hmodify]
    exact hs.access_set false _ _ (by simp) (by simp)
  | restore value =>
    have hvalue : value = 0 := hok
    subst value
    rw [step_restore hmodify]
    exact hs.access_set true _ _ (by simp) (by simp)
  | cid cid => exact ⟨hs.honest, hs.own⟩
  | sid sid => exact ⟨hs.honest, hs.own⟩

/-- After `rc_revoke_log_access` every LOG QP of the configuration is reset. -/
theorem Truthful.revoked (hmodify : ModifySucceeds ibv_modify_qp) {s : ib_state} (hs : Truthful s) {i : Nat}
    (hon : CID_IS_SERVER_ON s.cid i = true) (hi : i < get_extended_group_size s.cid) :
    ((rc_revoke_log_access ibv_modify_qp s).2.ep i).qp_state LOG_QP = IBV_QPS_RESET := by
  have hflag := (hs.honest i).flag
  rw [rc_revoke_log_access, revoke_loop_eq hmodify]
  change (dare.ibv.access_set false _ s _ i).qp_state LOG_QP = _
  rw [dare.ibv.access_set]
  split
  · rename_i hset
    exact (s.ep i).qp_state_moved LOG_QP IBV_QPS_RESET
  · rename_i hkept
    -- A server that the loop leaves alone has no access.
    have hlog : (s.ep i).log_access = false := by
      by_contra haccess
      rw [Bool.not_eq_false] at haccess
      apply hkept
      have hne : i ≠ s.idx := by
        intro heq
        rw [heq, hs.own] at haccess
        cases haccess
      have hrc : (s.ep i).rc_connected = true := by
        by_contra hunconnected
        rw [Bool.not_eq_true] at hunconnected
        rw [(hs.honest i).unconnected hunconnected] at haccess
        cases haccess
      exact ⟨List.mem_range.mpr hi, by simp [is_reachable, hne, hon, hrc], haccess⟩
    simpa [hlog] using hflag

/-- In every run from fresh endpoints in which no leader sets up a connection and no server is
    disconnected or replaced while it has access, the access flag of each connected server says
    whether its LOG QP is ready, and after a revocation no LOG QP of the configuration takes remote
    writes. The device is assumed to allow the transitions of the verbs interface. -/
theorem log_access_flag_is_truthful (hmodify : ModifySucceeds ibv_modify_qp) {s : ib_state} (hs : Created s)
    (actions : List Action) (hok : AllOk (step ibv_modify_qp) KeepsFlag s actions) :
    (∀ i, ((steps (step ibv_modify_qp) s actions).ep i).rc_connected = true →
      (((steps (step ibv_modify_qp) s actions).ep i).qp_state LOG_QP = IBV_QPS_RTS ↔
        ((steps (step ibv_modify_qp) s actions).ep i).log_access = true)) ∧
    ∀ i, CID_IS_SERVER_ON (steps (step ibv_modify_qp) s actions).cid i = true →
      i < get_extended_group_size (steps (step ibv_modify_qp) s actions).cid →
      (((rc_revoke_log_access ibv_modify_qp (steps (step ibv_modify_qp) s actions)).2.ep i).qp_state
        LOG_QP).accepts_writes = false := by
  have hend : Truthful (steps (step ibv_modify_qp) s actions) :=
    hok.invariant (fun _ _ hs hok => hs.step hmodify hok) (truthful_of_created hs)
  constructor
  · intro i _
    rw [(hend.honest i).flag]
    cases ((steps (step ibv_modify_qp) s actions).ep i).log_access <;> simp
  · intro i hon hi
    rw [hend.revoked hmodify hon hi]
    rfl

def EINVAL : Nat := 22

/-- A device on which exactly the transitions of the verbs interface succeed. -/
def verbs_modify_qp : modify_qp_t
  | _, IBV_QPS_RESET => (0, IBV_QPS_RESET)
  | IBV_QPS_RESET, IBV_QPS_INIT => (0, IBV_QPS_INIT)
  | IBV_QPS_INIT, IBV_QPS_RTR => (0, IBV_QPS_RTR)
  | IBV_QPS_RTR, IBV_QPS_RTS => (0, IBV_QPS_RTS)
  | old, _ => (EINVAL, old)

theorem verbs_modify_succeeds : ModifySucceeds verbs_modify_qp where
  reset old := by cases old <;> rfl
  init := rfl
  rtr := rfl
  rts := rfl

/-- An endpoint as `rc_init` leaves it. -/
def fresh_ep : dare_ib_ep_t where
  ud_ep := { lid := 0, gid := 0, qpn := 0, ah := none }
  rc_ep :=
    { rmt_mr := fun _ => { raddr := 0, rkey := 0 }
      rc_qp := fun _ =>
        { qp_state := IBV_QPS_RESET, qp_num := 0, qpn := 0, signaled_wr_id := 0, send_count := 0,
          state := RC_QP_ACTIVE } }
  mtu := 0
  rc_connected := false
  log_access := false

/-- Server 0 of a group of three, with the given state identifier and without connections. -/
def fresh_state (sid : UInt64) : ib_state where
  idx := 0
  cid := { epoch := 0, size_0 := 3, size_1 := 0, state := CID_STABLE, bitmask := 7 }
  sid := sid
  dev := { mtu := 4, gid := 0, slid := 1, lcl_mr := fun _ => { raddr := 4096, rkey := 9 } }
  ep := fun _ => fresh_ep

theorem fresh_state_created (sid : UInt64) : Created (fresh_state sid) :=
  fun _ => ⟨rfl, rfl, fun _ => rfl⟩

/-- The handshake message of server 1. -/
def hello : rc_syn_t where
  id := 1
  gid := 1
  slid := 1
  log_rm := { raddr := 8192, rkey := 5 }
  ctrl_rm := { raddr := 16384, rkey := 6 }
  mtu := 4
  idx := 1
  size := 3
  qpns := fun j => UInt32.ofNat (20 + j)

def hello_wc : ibv_wc := { slid := 1, src_qp := 3 }

/-- A follower of server 1 connects to it, gives it access and takes the access back. -/
def follower_actions : List Action := [.rc_synack hello_wc hello, .restore 0, .revoke, .restore 0]

theorem follower_flag_is_truthful :
    AllOk (step verbs_modify_qp) KeepsFlag (fresh_state (mk_sid 1 true 1)) follower_actions ∧
    ((steps (step verbs_modify_qp) (fresh_state (mk_sid 1 true 1)) follower_actions).ep 1).rc_connected = true ∧
    (((steps (step verbs_modify_qp) (fresh_state (mk_sid 1 true 1)) follower_actions).ep 1).qp_state LOG_QP =
        IBV_QPS_RTS ↔
      ((steps (step verbs_modify_qp) (fresh_state (mk_sid 1 true 1)) follower_actions).ep 1).log_access = true) := by
  have hleading : is_leading (fresh_state (mk_sid 1 true 1)) = false := by decide +kernel
  have hok : AllOk (step verbs_modify_qp) KeepsFlag (fresh_state (mk_sid 1 true 1)) follower_actions :=
    ⟨fun _ => hleading, rfl, trivial, rfl, trivial⟩
  have hconnected :
      ((steps (step verbs_modify_qp) (fresh_state (mk_sid 1 true 1)) follower_actions).ep 1).rc_connected = true := by
    decide +kernel
  exact ⟨hok, hconnected,
    (log_access_flag_is_truthful verbs_modify_succeeds (fresh_state_created _) follower_actions hok).1 1 hconnected⟩

/-- A server that is disconnected while it has access keeps the flag. After it has come back, its LOG QP
    stays in RESET although access is restored. -/
example :
    let s := steps (step verbs_modify_qp) (fresh_state (mk_sid 1 true 1))
      [.rc_synack hello_wc hello, .restore 0, .disconnect 1, .rc_synack hello_wc hello, .restore 0]
    (s.ep 1).rc_connected = true ∧ (s.ep 1).qp_state LOG_QP = IBV_QPS_RESET ∧
      (s.ep 1).log_access = true := by
  decide +kernel

/-- A leader that sets up a connection gives access without the flag, and the access survives the
    revocation that follows when the leader has lost its role. -/
theorem connecting_leader_leaves_access :
    let s := steps (step verbs_modify_qp) (fresh_state (mk_sid 1 true 0))
      [.rc_synack hello_wc hello, .sid (mk_sid 2 false 2)]
    (s.ep 1).rc_connected = true ∧ (s.ep 1).qp_state LOG_QP = IBV_QPS_RTS ∧
      (s.ep 1).log_access = false ∧ CID_IS_SERVER_ON s.cid 1 = true ∧
      (((rc_revoke_log_access verbs_modify_qp s).2.ep 1).qp_state LOG_QP).accepts_writes = true := by
  decide +kernel

/-! ## The flags in the data of a server

The handlers of the election see the flags only, not the queue pairs. -/

/-- The data of a server say of each connection what its endpoint says. -/
structure Agrees (data : dare_server_data_t) (s : ib_state) : Prop where
  idx : data.idx = s.idx
  cid : data.cid = s.cid
  sid : data.sid = s.sid
  connected : ∀ i, (data.servers i).rc_connected = (s.ep i).rc_connected
  access : ∀ i, (data.servers i).log_access = (s.ep i).log_access

section agrees

variable {data : dare_server_data_t} {s : ib_state}

theorem Agrees.is_on (h : Agrees data s) (i : Nat) : data.is_on i = CID_IS_SERVER_ON s.cid i := by
  rw [dare_server_data_t.is_on, h.cid]

theorem Agrees.reachable (h : Agrees data s) (i : Nat) : election.is_reachable data i = is_reachable s i := by
  rw [election.is_reachable, is_reachable, h.idx, h.is_on, h.connected]

/-- A queue pair that is made ready without its flag. -/
theorem Agrees.ready (h : Agrees data s) (i : Nat) : Agrees data (s.set_ep i ((s.ep i).ready LOG_QP)) := by
  refine ⟨h.idx, h.cid, h.sid, fun j => (h.connected j).trans ?_, fun j => (h.access j).trans ?_⟩
  all_goals
    by_cases hj : j = i
    · subst hj
      simp
    · rw [s.set_ep_ep_ne hj]

theorem Agrees.access_set (h : Agrees data s) (access : Bool) {new : dare_ib_ep_t → dare_ib_ep_t} {is : List Nat}
    {servers : Nat → server_t} (hrc : ∀ ep, (new ep).rc_connected = ep.rc_connected)
    (hservers : ∀ i, (servers i).rc_connected = (data.servers i).rc_connected ∧
      ((servers i).log_access = if i ∈ is ∧ is_reachable s i = true ∧ (s.ep i).log_access = !access then access
        else (data.servers i).log_access)) :
    Agrees { data with servers := servers } { s with ep := access_set access new s is } := by
  refine ⟨h.idx, h.cid, h.sid, fun i => (hservers i).1.trans ?_, fun i => (hservers i).2.trans ?_⟩
  · change _ = (dare.ibv.access_set access new s is i).rc_connected
    rw [h.connected, dare.ibv.access_set]
    split
    · exact (hrc _).symm
    · rfl
  · change _ = (dare.ibv.access_set access new s is i).log_access
    rw [h.access, dare.ibv.access_set]
    split
    · rfl
    · rfl

/-- Revoking the access changes the flags as the election has it. -/
theorem Agrees.revoke (hmodify : ModifySucceeds ibv_modify_qp) (h : Agrees data s) :
    (rc_revoke_log_access ibv_modify_qp s).1 = 0 ∧
      Agrees (election.rc_revoke_log_access data) (rc_revoke_log_access ibv_modify_qp s).2 := by
  rw [rc_revoke_log_access, revoke_loop_eq hmodify]
  refine ⟨rfl, h.access_set false (by simp) fun i => ?_⟩
  rw [h.reachable, h.cid, ← h.access]
  simp only [List.mem_range, Bool.not_false]
  by_cases hreach : i < get_extended_group_size s.cid ∧ is_reachable s i = true
  · rw [if_pos hreach]
    cases haccess : (data.servers i).log_access <;> simp [hreach]
  · rw [if_neg hreach]
    exact ⟨rfl, by rw [if_neg fun hall => hreach ⟨hall.1, hall.2.1⟩]⟩

/-- The servers that the loop of a leader would give access to. -/
def closed (data : dare_server_data_t) (is : List Nat) : List Nat :=
  is.filter fun i => election.is_reachable data i && !(data.servers i).log_access

/-- A value other than 0 ends the loop at the first of them, without its flag. -/
theorem Agrees.restore_loop_failed (hmodify : ModifySucceeds ibv_modify_qp) (h : Agrees data s) {value : Nat}
    (hvalue : value ≠ 0) (is : List Nat) :
    (restore_loop ibv_modify_qp s value is).1 = (if closed data is = [] then 0 else 1) ∧
      Agrees data (restore_loop ibv_modify_qp s value is).2 := by
  induction is with
  | nil => exact ⟨rfl, h⟩
  | cons i is ih =>
    rw [restore_loop, closed, List.filter_cons, h.reachable, h.access]
    cases hreach : is_reachable s i with
    | false => exact ih
    | true =>
      cases haccess : (s.ep i).log_access with
      | true => exact ih
      | false => simpa [rc_qp_reset_to_rts_eq hmodify, hvalue] using h.ready i

theorem Agrees.restore_loop (hmodify : ModifySucceeds ibv_modify_qp) (h : Agrees data s) (is : List Nat) :
    (restore_loop ibv_modify_qp s 0 is).1 = 0 ∧
      Agrees ((closed data is).foldl (fun data i => election.set_log_access data i true) data)
        (restore_loop ibv_modify_qp s 0 is).2 := by
  rw [restore_loop_eq hmodify, election.set_log_accesses]
  refine ⟨rfl, h.access_set true (by simp) fun i => ?_⟩
  have hmem : i ∈ closed data is ↔ i ∈ is ∧ is_reachable s i = true ∧ (s.ep i).log_access = false := by
    simp [closed, h.reachable, h.access]
  rw [Bool.not_true]
  by_cases hi : i ∈ closed data is
  · rw [if_pos hi, if_pos (hmem.mp hi)]
    exact ⟨rfl, rfl⟩
  · rw [if_neg hi, if_neg (mt hmem.mpr hi)]
    exact ⟨rfl, rfl⟩

/-- Restoring the access has the result, and changes the flags, as the election has it, whatever the caller
    reads after `rc_qp_reset_to_rts`. -/
theorem Agrees.restore (hmodify : ModifySucceeds ibv_modify_qp) (h : Agrees data s) (value : Nat) :
    (rc_restore_log_access ibv_modify_qp s value).1 = (election.rc_restore_log_access data value).1 ∧
      Agrees (election.rc_restore_log_access data value).2 (rc_restore_log_access ibv_modify_qp s value).2 := by
  rw [election.rc_restore_log_access, rc_restore_log_access, h.sid, h.idx, h.cid]
  dsimp only
  by_cases hidx : SID_GET_IDX s.sid = s.idx
  · rw [if_neg (not_not.mpr hidx), if_neg (not_not.mpr hidx)]
    by_cases hl : SID_GET_L s.sid = true
    · rw [if_pos hl, if_pos hl]
      by_cases hvalue : value = 0
      · rw [if_neg (fun hfailed => hfailed.1 hvalue), hvalue]
        exact h.restore_loop hmodify _
      · obtain ⟨hresult, hagrees⟩ :=
          h.restore_loop_failed hmodify hvalue (List.range (get_extended_group_size s.cid))
        by_cases hclosed : closed data (List.range (get_extended_group_size s.cid)) = []
        · rw [if_pos hclosed] at hresult
          rw [if_neg (fun hfailed => hfailed.2 hclosed)]
          rw [show List.filter _ _ = [] from hclosed]
          exact ⟨hresult, hagrees⟩
        · rw [if_neg hclosed] at hresult
          rw [if_pos ⟨hvalue, hclosed⟩]
          exact ⟨hresult, hagrees⟩
    · rw [if_neg hl, if_neg hl]
      exact ⟨rfl, h⟩
  · rw [if_pos hidx, if_pos hidx, h.is_on, h.connected, h.access]
    cases hon : CID_IS_SERVER_ON s.cid (SID_GET_IDX s.sid)
    · exact ⟨rfl, h⟩
    cases hrc : (s.ep (SID_GET_IDX s.sid)).rc_connected
    · exact ⟨rfl, h⟩
    cases haccess : (s.ep (SID_GET_IDX s.sid)).log_access
    · -- one round of the loop of a leader
      have hclosed : closed data [SID_GET_IDX s.sid] = [SID_GET_IDX s.sid] := by
        simp [closed, h.reachable, h.access, is_reachable, hidx, hon, hrc, haccess]
      by_cases hvalue : value = 0
      · have hloop := h.restore_loop hmodify [SID_GET_IDX s.sid]
        rw [hclosed] at hloop
        simpa [dare.ibv.restore_loop, is_reachable, hidx, hon, hrc, haccess, rc_qp_reset_to_rts_eq hmodify,
          hvalue] using hloop
      · simpa [rc_qp_reset_to_rts_eq hmodify, hvalue] using h.ready (SID_GET_IDX s.sid)
    · exact ⟨rfl, h⟩

end agrees

end dare.ibv
