import ReliableSocket.Dare.Ibv.Access

open run

namespace dare.ibv

open ibv_qp_state qp_id

/-- What a server needs to know of another one to reach its memory. -/
structure rc_info_t where
  log_rm : rem_mem_t
  ctrl_rm : rem_mem_t
  log_qpn : UInt32
  ctrl_qpn : UInt32
deriving DecidableEq, Repr

/-- The remote QPNs and memory keys that an endpoint stores. -/
def dare_ib_ep_t.rc_info (ep : dare_ib_ep_t) : rc_info_t where
  log_rm := ep.rc_ep.rmt_mr LOG_QP
  ctrl_rm := ep.rc_ep.rmt_mr CTRL_QP
  log_qpn := (ep.rc_ep.rc_qp LOG_QP).qpn
  ctrl_qpn := (ep.rc_ep.rc_qp CTRL_QP).qpn

/-- An RC_SYN lists two QPNs for each server of the group. -/
def rc_syn_t.syn_info (msg : rc_syn_t) (idx : Nat) : rc_info_t where
  log_rm := msg.log_rm
  ctrl_rm := msg.ctrl_rm
  log_qpn := msg.qpns (2 * idx)
  ctrl_qpn := msg.qpns (2 * idx + 1)

/-- An RC_SYNACK carries the two QPNs for its receiver. -/
def rc_syn_t.synack_info (msg : rc_syn_t) : rc_info_t where
  log_rm := msg.log_rm
  ctrl_rm := msg.ctrl_rm
  log_qpn := msg.qpns 0
  ctrl_qpn := msg.qpns 1

/-- For each server, what the last handshake message said that was accepted from it after its last
    disconnection. -/
abbrev History := Nat → Option rc_info_t

/-- The history after an action in state `s`. -/
def accepted (s : ib_state) (h : History) : Action → History
  | .rc_syn _ msg =>
    if accepts_syn s msg then Function.update h msg.idx (some (msg.syn_info s.idx)) else h
  | .rc_synack _ msg =>
    if accepts s msg.idx then Function.update h msg.idx (some msg.synack_info) else h
  | .disconnect i => Function.update h i none
  | .rc_ack _ | .join .. | .revoke | .restore _ | .cid _ | .sid _ => h

variable (ibv_modify_qp : modify_qp_t)

/-- A step of the server, recorded in the history. -/
def recorded_step (t : ib_state × History) (a : Action) : ib_state × History :=
  (step ibv_modify_qp t.1 a, accepted t.1 t.2 a)

variable {ibv_modify_qp}

/-- Each connected server has its CTRL QP ready, and what is stored about it is what it said after
    its last disconnection. -/
def ConnectedIsConnected (t : ib_state × History) : Prop :=
  ∀ i, (t.1.ep i).rc_connected = true →
    (t.1.ep i).qp_state CTRL_QP = IBV_QPS_RTS ∧ t.2 i = some (t.1.ep i).rc_info

/-- An RC_ACK that marks a connection finds that a handshake message was accepted from its sender
    after the last disconnection. -/
def AckIsCurrent (t : ib_state × History) : Action → Prop
  | .rc_ack msg => accepts t.1 msg.idx = true → t.2 msg.idx ≠ none
  | _ => True

/-- The state agrees with the history. -/
structure Recorded (t : ib_state × History) : Prop where
  info : ∀ i info, t.2 i = some info →
    (t.1.ep i).qp_state CTRL_QP = IBV_QPS_RTS ∧ (t.1.ep i).rc_info = info
  connected : ∀ i, (t.1.ep i).rc_connected = true → t.2 i ≠ none

theorem Recorded.safe {t : ib_state × History} (ht : Recorded t) : ConnectedIsConnected t := by
  intro i hi
  obtain ⟨info, hinfo⟩ := Option.ne_none_iff_exists'.mp (ht.connected i hi)
  obtain ⟨hstate, heq⟩ := ht.info i info hinfo
  exact ⟨hstate, by rw [hinfo, heq]⟩

@[simp] theorem rc_info_ready (ep : dare_ib_ep_t) (q : qp_id) : (ep.ready q).rc_info = ep.rc_info := by
  cases q <;> rfl

@[simp] theorem rc_info_moved (ep : dare_ib_ep_t) (q : qp_id) (new : ibv_qp_state) :
    (ep.moved q new).rc_info = ep.rc_info := by
  cases q <;> rfl

@[simp] theorem rc_info_connected_ep (leading : Bool) (ep : dare_ib_ep_t) :
    (connected_ep leading ep).rc_info = ep.rc_info := by
  cases leading <;> simp [connected_ep]

@[simp] theorem ctrl_connected_ep (leading : Bool) (ep : dare_ib_ep_t) :
    (connected_ep leading ep).qp_state CTRL_QP = IBV_QPS_RTS := by
  cases leading
  · simp [connected_ep]
  · simp [connected_ep, dare_ib_ep_t.qp_state_ready_ne _ (show CTRL_QP ≠ LOG_QP by decide)]

/-- A step that changes one endpoint and what the history says about it. -/
theorem Recorded.update {s : ib_state} {h : History} (ht : Recorded (s, h)) (i : Nat)
    (ep : dare_ib_ep_t) {known : Option rc_info_t}
    (hinfo : ∀ info, known = some info → ep.qp_state CTRL_QP = IBV_QPS_RTS ∧ ep.rc_info = info)
    (hconnected : ep.rc_connected = true → known ≠ none) :
    Recorded (s.set_ep i ep, Function.update h i known) where
  info j info hj := by
    by_cases hji : j = i
    · subst j
      simpa using hinfo info (by simpa using hj)
    · rw [s.set_ep_ep_ne hji]
      exact ht.info j info (by simpa [Function.update_of_ne hji] using hj)
  connected j hj := by
    by_cases hji : j = i
    · subst j
      simpa using hconnected (by simpa using hj)
    · rw [s.set_ep_ep_ne hji] at hj
      simpa [Function.update_of_ne hji] using ht.connected j hj

/-- The two endpoints differ at most in their LOG QP and its flag. -/
structure SameCtrl (ep ep' : dare_ib_ep_t) : Prop where
  state : ep'.qp_state CTRL_QP = ep.qp_state CTRL_QP
  info : ep'.rc_info = ep.rc_info
  connected : ep'.rc_connected = ep.rc_connected

theorem SameCtrl.refl (ep : dare_ib_ep_t) : SameCtrl ep ep := ⟨rfl, rfl, rfl⟩

theorem SameCtrl.ready (ep : dare_ib_ep_t) (access : Bool) :
    SameCtrl ep { ep.ready LOG_QP with log_access := access } :=
  ⟨ep.qp_state_ready_ne (by decide), rc_info_ready ep LOG_QP, rfl⟩

theorem SameCtrl.moved (ep : dare_ib_ep_t) (access : Bool) (new : ibv_qp_state) :
    SameCtrl ep { ep.moved LOG_QP new with log_access := access } :=
  ⟨ep.qp_state_moved_ne (by decide) new, rc_info_moved ep LOG_QP new, rfl⟩

theorem SameCtrl.set_ep {s : ib_state} {i : Nat} {ep : dare_ib_ep_t} (hep : SameCtrl (s.ep i) ep)
    (j : Nat) : SameCtrl (s.ep j) ((s.set_ep i ep).ep j) := by
  by_cases hji : j = i
  · subst j
    simpa using hep
  · rw [s.set_ep_ep_ne hji]
    exact .refl _

theorem SameCtrl.trans {ep₁ ep₂ ep₃ : dare_ib_ep_t} (h₁ : SameCtrl ep₁ ep₂) (h₂ : SameCtrl ep₂ ep₃) :
    SameCtrl ep₁ ep₃ :=
  ⟨h₂.state.trans h₁.state, h₂.info.trans h₁.info, h₂.connected.trans h₁.connected⟩

/-- Whatever the caller reads after `rc_qp_reset_to_rts`, the loop touches LOG QPs only. -/
theorem sameCtrl_restore_loop (hmodify : ModifySucceeds ibv_modify_qp) (s : ib_state) (value : Nat)
    (is : List Nat) (j : Nat) :
    SameCtrl (s.ep j) ((restore_loop ibv_modify_qp s value is).2.ep j) := by
  induction is generalizing s with
  | nil => exact .refl _
  | cons i is ih =>
    rw [restore_loop]
    split
    · exact ih s
    split
    · exact ih s
    simp only [rc_qp_reset_to_rts_eq hmodify]
    split
    · exact SameCtrl.set_ep (.ready (s.ep i) (s.ep i).log_access) j
    · exact (SameCtrl.set_ep (.ready (s.ep i) true) j).trans (ih _)

theorem sameCtrl_restore (hmodify : ModifySucceeds ibv_modify_qp) (s : ib_state) (value j : Nat) :
    SameCtrl (s.ep j) ((rc_restore_log_access ibv_modify_qp s value).2.ep j) := by
  simp only [rc_restore_log_access, rc_qp_reset_to_rts_eq hmodify]
  split
  · split
    · exact .refl _
    split
    · exact .refl _
    split
    · exact .refl _
    split
    · exact SameCtrl.set_ep (.ready _ (s.ep (SID_GET_IDX s.sid)).log_access) j
    · exact SameCtrl.set_ep (.ready _ true) j
  split
  · exact sameCtrl_restore_loop hmodify s value _ j
  · exact .refl _

theorem sameCtrl_revoke (hmodify : ModifySucceeds ibv_modify_qp) (s : ib_state) (j : Nat) :
    SameCtrl (s.ep j) ((rc_revoke_log_access ibv_modify_qp s).2.ep j) := by
  rw [rc_revoke_log_access, revoke_loop_eq hmodify]
  simp only [access_set]
  split
  · exact .moved (s.ep j) false IBV_QPS_RESET
  · exact .refl _

theorem Recorded.sameCtrl {s s' : ib_state} {h : History} (ht : Recorded (s, h))
    (hep : ∀ i, SameCtrl (s.ep i) (s'.ep i)) : Recorded (s', h) where
  info i info hi := by
    change (s'.ep i).qp_state CTRL_QP = _ ∧ (s'.ep i).rc_info = _
    rw [(hep i).state, (hep i).info]
    exact ht.info i info hi
  connected i hi := ht.connected i ((hep i).connected.symm.trans hi)

theorem Recorded.step (hmodify : ModifySucceeds ibv_modify_qp) {t : ib_state × History} {a : Action}
    (ht : Recorded t) (hok : AckIsCurrent t a) :
    Recorded (recorded_step ibv_modify_qp t a) := by
  obtain ⟨s, h⟩ := t
  cases a with
  | rc_syn wc msg | rc_synack wc msg =>
    simp only [recorded_step, step_rc_syn _ hmodify, step_rc_synack _ hmodify, accepted]
    split
    · refine ht.update msg.idx _ (fun info hinfo => ?_) (fun _ => by simp)
      obtain rfl := Option.some.inj hinfo
      exact ⟨ctrl_connected_ep _ _, rc_info_connected_ep _ _⟩
    · exact ht
  | rc_ack msg =>
    simp only [recorded_step, step_rc_ack, accepted]
    split
    · rename_i hacc
      have hknown := ht.update msg.idx { s.ep msg.idx with rc_connected := true }
        (ht.info msg.idx) (fun _ => hok hacc)
      rwa [Function.update_eq_self] at hknown
    · exact ht
  | disconnect i =>
    refine ht.update i _ (by simp) (fun hi => ?_)
    -- A disconnected endpoint is not connected, whether or not there was anything to do.
    cases hrc : (s.ep i).rc_connected
    · simp [rc_disconnect_server, hrc] at hi
    · simp [rc_disconnect_server_eq hmodify _ hrc] at hi
  | join wc gid slid i =>
    have hnew := ht.update i { s.ep i with ud_ep := wc_to_ud_ep wc gid slid, rc_connected := false }
      (ht.info i) (by simp)
    rwa [Function.update_eq_self] at hnew
  | revoke => exact ht.sameCtrl (sameCtrl_revoke hmodify s)
  | restore value => exact ht.sameCtrl (sameCtrl_restore hmodify s value)
  | cid cid => exact ht.sameCtrl fun i => .refl _
  | sid sid => exact ht.sameCtrl fun i => .refl _

theorem recorded_of_created {s : ib_state} (hs : Created s) : Recorded (s, fun _ => none) where
  info _ _ hinfo := by simp at hinfo
  connected i hi := by simp [(hs i).1] at hi

/-- An RC_ACK without an accepted message breaks the law at once. -/
theorem ackIsCurrent_of_connected {t : ib_state × History} {a : Action}
    (hnext : ConnectedIsConnected (recorded_step ibv_modify_qp t a)) : AckIsCurrent t a := by
  cases a with
  | rc_ack msg =>
    intro hacc hnone
    have hmarked : ((recorded_step ibv_modify_qp t (.rc_ack msg)).1.ep msg.idx).rc_connected = true := by
      simp [recorded_step, step_rc_ack, hacc]
    have hknown := (hnext msg.idx hmarked).2
    rw [show (recorded_step ibv_modify_qp t (.rc_ack msg)).2 = t.2 from rfl, hnone] at hknown
    cases hknown
  | _ => trivial

/-- In every run from fresh endpoints, with handshake messages in any order and any number: a connected
    server always has its CTRL QP ready, and the stored data are those of the message accepted after
    its last disconnection, exactly when every RC_ACK that marks a connection follows such a
    message. The device is assumed to allow the transitions of the verbs interface. -/
theorem connected_means_connected (hmodify : ModifySucceeds ibv_modify_qp) {s : ib_state} (hs : Created s)
    (actions : List Action) :
    Always (recorded_step ibv_modify_qp) ConnectedIsConnected (s, fun _ => none) actions ↔
      AllOk (recorded_step ibv_modify_qp) AckIsCurrent (s, fun _ => none) actions :=
  always_iff_allOk (fun _ _ ht hok => ht.step hmodify hok) (fun _ _ _ => ackIsCurrent_of_connected)
    (fun _ ht => ht.safe) (recorded_of_created hs) actions

/-- The whole handshake, once from each side. -/
def handshake_actions : List Action :=
  [.rc_syn hello_wc hello, .rc_ack { id := 1, idx := 1 }, .rc_synack hello_wc { hello with idx := 2 }]

theorem handshake_connects :
    Always (recorded_step verbs_modify_qp) ConnectedIsConnected (fresh_state (mk_sid 1 true 1), fun _ => none)
      handshake_actions := by
  refine (connected_means_connected verbs_modify_succeeds (fresh_state_created _) handshake_actions).mpr
    ⟨trivial, fun _ => ?_, trivial, trivial⟩
  decide +kernel

/-- The configuration without server 1. -/
def without_one : dare_cid_t :=
  { epoch := 0, size_0 := 3, size_1 := 0, state := CID_STABLE, bitmask := 5 }

/-- Server 1 is removed after a complete handshake and admitted again. A late copy of its old RC_ACK
    then marks a connection whose CTRL QP is in RESET. -/
theorem late_ack_marks_connection :
    let t := steps (recorded_step verbs_modify_qp) (fresh_state (mk_sid 1 true 2), fun _ => none)
      [.rc_syn hello_wc hello, .rc_ack { id := 1, idx := 1 }, .disconnect 1, .cid without_one,
        .cid (fresh_state 0).cid, .rc_ack { id := 1, idx := 1 }]
    (t.1.ep 1).rc_connected = true ∧ (t.1.ep 1).qp_state CTRL_QP = IBV_QPS_RESET ∧ t.2 1 = none := by
  decide +kernel

end dare.ibv
