import ReliableSocket.Dare.Rc.Vote
import ReliableSocket.Dare.Server.Recovery
import ReliableSocket.Dare.Server.Terms
import ReliableSocket.Run

open memory
open dare.log dare.server

/-! # Start-up and recovery of a server

The timer of a server runs one callback after another until the server takes part in the protocol. The
polls in between set the flags of `dare_state` and replace the callback. -/

namespace dare.startup

inductive timer_cb where
  | init_network_cb
  | join_cluster_cb
  | exchange_rc_info_cb
  | update_rc_info_cb
  | get_replicated_vote_cb
  | send_sm_request_cb
  | recover_log_cb
deriving DecidableEq, Repr

/-- What another server writes when its snapshot can be read. -/
structure sm_rep_t where
  sid : UInt64
  raddr : UInt64
  rkey : UInt32
  len : UInt32
deriving DecidableEq, Repr

/-- The flags of `dare_state`, and what else the callbacks read and change. A timer without a callback is
    stopped. -/
structure startup_t where
  joining : joining_t
  srv_type_join : Bool
  timer : Option timer_cb
  poll_event : Bool
  running : Bool
  sm_rep : Nat → sm_rep_t
  INIT : Bool
  JOINED : Bool
  RC_ESTABLISHED : Bool
  SM_RECOVERED : Bool
  LOG_RECOVERED : Bool
  TERMINATE : Bool

/-- What the network calls of a callback give: their result, and the data that was read. -/
structure network_t where
  rc : Int
  posted_sends : Nat → Int
  rsid : Nat → UInt64
  logs : Nat → dare_log_t
  ok : Nat → Bool
  entries : Nat → Option Mem
  value : Nat

/-- The messages for which `poll_ud` does something. `majority` is an RC_SYNACK or RC_ACK that completes
    the connections to half of the group. -/
inductive ud_message where
  | none
  | error
  | cfg_reply (reply : reconf_rep_t)
  | majority

namespace startup_t

variable (s : startup_t)

def data : dare_server_data_t := s.joining.node.data

def set_data (data : dare_server_data_t) : startup_t :=
  { s with joining := { s.joining with node := { s.joining.node with data := data } } }

def set_sid (sid : UInt64) : startup_t := s.set_data { s.data with sid := sid }

def set_timer (callback : timer_cb) : startup_t := { s with timer := some callback }

def dare_server_shutdown : startup_t := { s with running := false, timer := none }

end startup_t

section callbacks

variable (s : startup_t) (net : network_t)

def init_network_cb : startup_t :=
  if net.rc ≠ 0 then s.dare_server_shutdown
  else
    let s := { s with INIT := true, poll_event := true }
    if s.srv_type_join then s.set_timer .join_cluster_cb
    else if s.data.cid.size_0 = 1 then
      { s.set_sid (election.alone_sid s.data) with timer := none }
    else s.set_timer .exchange_rc_info_cb

/-- The callbacks that send something and are called again after some time. -/
def send_periodically : startup_t := if net.rc ≠ 0 then s.dare_server_shutdown else s

def join_cluster_cb : startup_t := send_periodically s net

def exchange_rc_info_cb : startup_t := send_periodically s net

def update_rc_info_cb : startup_t := send_periodically s net

def send_sm_request_cb : startup_t := send_periodically s net

def get_replicated_vote_cb : startup_t :=
  let s := s.set_sid (rc.recovery_sid s.data.sid s.data.idx)
  if s.data.cid.size_0 = 2 then s.set_timer .send_sm_request_cb
  else if net.rc > 1 then s.dare_server_shutdown
  else if net.rc ≠ 0 then s
  else
    let sid := rc.best_vote net.posted_sends net.rsid s.data.sid (get_group_size s.data.cid)
    (s.set_sid sid).set_timer .send_sm_request_cb

def recover_log_cb : startup_t :=
  let r := rc_recover_log s.data net.logs net.ok net.entries
  let s := s.set_data r.1
  if r.2 > 1 then s.dare_server_shutdown
  else if r.2 ≠ 0 then s
  else
    let s := { s with LOG_RECOVERED := true }.set_timer .update_rc_info_cb
    s.set_data (election.recover_log_cb s.data net.value).data

def run_callback : timer_cb → startup_t
  | .init_network_cb => init_network_cb s net
  | .join_cluster_cb => join_cluster_cb s net
  | .exchange_rc_info_cb => exchange_rc_info_cb s net
  | .update_rc_info_cb => update_rc_info_cb s net
  | .get_replicated_vote_cb => get_replicated_vote_cb s net
  | .send_sm_request_cb => send_sm_request_cb s net
  | .recover_log_cb => recover_log_cb s net

end callbacks

/-- An old reply changes no configuration, but like a new one it restarts the exchange of the RC
    information. -/
def poll_ud (s : startup_t) : ud_message → startup_t
  | .none => s
  | .error => s.dare_server_shutdown
  | .cfg_reply reply =>
    { s with joining := handle_server_join_reply s.joining reply, JOINED := true }.set_timer .exchange_rc_info_cb
  | .majority =>
    if s.RC_ESTABLISHED then s
    else
      let s := { s with RC_ESTABLISHED := true }
      if !s.JOINED then
        let s := { s with LOG_RECOVERED := true, SM_RECOVERED := true }.set_timer .update_rc_info_cb
        s.set_data (election.start_election s.data).data
      else s.set_timer .get_replicated_vote_cb

/-- The first server whose reply has a higher SID. -/
def sm_target (s : startup_t) : Option Nat :=
  (List.range (get_group_size s.data.cid)).find? fun target =>
    let reply := s.sm_rep target
    decide (target ≠ s.data.idx ∧ s.data.sid < reply.sid ∧ reply.raddr ≠ 0 ∧ reply.rkey ≠ 0 ∧ reply.len ≠ 0)

/-- The SID is taken from the reply even if the snapshot cannot be read. A server that never ends loading
    a snapshot does nothing else any more. -/
def poll_sm_reply (s : startup_t) (snapshot : Option snapshot_t) : startup_t :=
  match sm_target s with
  | none => s
  | some target =>
    let s := s.set_sid (s.sm_rep target).sid
    match rc_recover_sm s.joining snapshot with
    | none => { s with running := false }
    | some (joining, rc) =>
      let s := { s with joining := joining }
      if rc > 1 then s.dare_server_shutdown
      else if rc ≠ 0 then s
      else { s with sm_rep := fun _ => ⟨0, 0, 0, 0⟩, SM_RECOVERED := true }.set_timer .recover_log_cb

/-- `polling` up to the point where a server that is not recovered stops. -/
def polling (s : startup_t) (message : ud_message) (snapshot : Option snapshot_t) : startup_t :=
  if s.TERMINATE then s.dare_server_shutdown
  else
    let s := poll_ud s message
    if s.running && s.RC_ESTABLISHED && !s.SM_RECOVERED then poll_sm_reply s snapshot else s

/-- What can happen to a server: a callback, a poll, the reply of another server, its writes to the control
    data, entries of the tail queue, of join requests and of a leader, SIGINT, and the rest of `polling` and
    the other timers once the server is recovered. -/
inductive event where
  | timer (net : network_t)
  | poll (message : ud_message) (snapshot : Option snapshot_t)
  | sm_reply (target : Nat) (reply : sm_rep_t)
  | ctrl_write (servers : Nat → server_t) (hb : Nat → UInt64) (vote_req : Nat → vote_req_t)
    (vote_ack apply_offsets : Nat → Nat)
  | append (log : dare_log_t) (cid : dare_cid_t)
  | signal
  | work (data : dare_server_data_t)

def step (s : startup_t) (e : event) : startup_t :=
  if !s.running then s
  else
    match e with
    | .timer net => s.timer.elim s (run_callback s net)
    | .poll message snapshot => if s.poll_event then polling s message snapshot else s
    | .sm_reply target reply => { s with sm_rep := Function.update s.sm_rep target reply }
    | .ctrl_write servers hb vote_req vote_ack apply_offsets =>
      s.set_data { s.data with
        servers := servers, hb := hb, vote_req := vote_req, vote_ack := vote_ack, apply_offsets := apply_offsets }
    | .append log cid => s.set_data { s.data with log := log, cid := cid }
    | .signal => { s with TERMINATE := true }
    | .work data => if s.LOG_RECOVERED then s.set_data data else s

theorem step_timer {s : startup_t} (hrunning : s.running = true) {callback : timer_cb}
    (htimer : s.timer = some callback) (net : network_t) :
    step s (.timer net) = run_callback s net callback := by
  rw [step, if_neg (by simp [hrunning]), htimer]
  rfl

theorem step_poll {s : startup_t} (hrunning : s.running = true) (hpolls : s.poll_event = true)
    (message : ud_message) (snapshot : Option snapshot_t) :
    step s (.poll message snapshot) = polling s message snapshot := by
  rw [step, if_neg (by simp [hrunning])]
  exact if_pos hpolls

/-- A server before its first callback. -/
structure Initial (s : startup_t) : Prop where
  timer : s.timer = some .init_network_cb
  polls : s.poll_event = false
  flags : s.INIT = false ∧ s.JOINED = false ∧ s.RC_ESTABLISHED = false ∧ s.SM_RECOVERED = false ∧
    s.LOG_RECOVERED = false
  silent : s.data.hb_event = .stopped

/-- When the timer can have a callback. -/
def Allowed (s : startup_t) : timer_cb → Prop
  | .init_network_cb => s.INIT = false
  | .join_cluster_cb => s.INIT = true
  | .exchange_rc_info_cb => s.INIT = true
  | .update_rc_info_cb => s.LOG_RECOVERED = true
  | .get_replicated_vote_cb => s.RC_ESTABLISHED = true ∧ s.JOINED = true ∧ s.SM_RECOVERED = false
  | .send_sm_request_cb => s.RC_ESTABLISHED = true ∧ s.JOINED = true ∧ s.SM_RECOVERED = false
  | .recover_log_cb => s.SM_RECOVERED = true ∧ s.LOG_RECOVERED = false

/-- The flags are set one after the other, the server polls from the first of them on, and the heartbeat
    timer only starts after the last of them. -/
structure Ordered (s : startup_t) : Prop where
  init : s.JOINED = true ∨ s.RC_ESTABLISHED = true → s.INIT = true
  polls : s.poll_event = s.INIT
  sm : s.SM_RECOVERED = true → s.RC_ESTABLISHED = true
  log : s.LOG_RECOVERED = true → s.SM_RECOVERED = true
  silent : s.LOG_RECOVERED = false → s.data.hb_event = .stopped
  timer : ∀ callback, s.timer = some callback → Allowed s callback

section ordered

variable {s : startup_t}

theorem Initial.ordered (hinit : Initial s) : Ordered s := by
  obtain ⟨htimer, hpolls, ⟨hinit, hjoined, hrc, hsm, hlog⟩, hsilent⟩ := hinit
  refine ⟨by simp [hjoined, hrc], hpolls.trans hinit.symm, by simp [hsm], by simp [hlog], fun _ => hsilent,
    fun callback h => ?_⟩
  rw [htimer, Option.some.injEq] at h
  subst h
  exact hinit

theorem Ordered.sm_false (hs : Ordered s) (hrc : s.RC_ESTABLISHED = false) : s.SM_RECOVERED = false :=
  Bool.eq_false_iff.mpr fun h => Bool.eq_false_iff.mp hrc (hs.sm h)

theorem Ordered.log_false (hs : Ordered s) (hsm : s.SM_RECOVERED = false) : s.LOG_RECOVERED = false :=
  Bool.eq_false_iff.mpr fun h => Bool.eq_false_iff.mp hsm (hs.log h)

/-- A server that has connections polls. -/
theorem Ordered.polls_of_rc (hs : Ordered s) (hrc : s.RC_ESTABLISHED = true) : s.poll_event = true :=
  hs.polls.trans (hs.init (.inr hrc))

theorem Ordered.shutdown (hs : Ordered s) : Ordered s.dare_server_shutdown :=
  ⟨hs.init, hs.polls, hs.sm, hs.log, hs.silent, nofun⟩

theorem Ordered.set_data (hs : Ordered s) {data : dare_server_data_t}
    (hdata : s.LOG_RECOVERED = false → data.hb_event = s.data.hb_event) : Ordered (s.set_data data) :=
  ⟨hs.init, hs.polls, hs.sm, hs.log, fun h => (hdata h).trans (hs.silent h), hs.timer⟩

theorem Ordered.set_timer (hs : Ordered s) (callback : timer_cb) (hallowed : Allowed s callback) :
    Ordered (s.set_timer callback) := by
  refine ⟨hs.init, hs.polls, hs.sm, hs.log, hs.silent, fun callback' h => ?_⟩
  obtain rfl := Option.some.inj h
  cases callback <;> exact hallowed

theorem rc_recover_log_hb_event (data : dare_server_data_t) (logs : Nat → dare_log_t) (ok : Nat → Bool)
    (entries : Nat → Option Mem) : (rc_recover_log data logs ok entries).1.hb_event = data.hb_event := by
  unfold rc_recover_log
  dsimp only
  split
  · rfl
  · split
    · rfl
    · split <;> rfl

theorem rc_recover_sm_hb_event {s s' : joining_t} {snapshot : Option snapshot_t} {rc : Int}
    (h : rc_recover_sm s snapshot = some (s', rc)) : s'.node.data.hb_event = s.node.data.hb_event := by
  cases snapshot with
  | none =>
    obtain ⟨rfl, -⟩ := Prod.mk.inj (Option.some.inj h)
    rfl
  | some snapshot =>
    obtain ⟨r, -, heq⟩ := Option.map_eq_some_iff.mp h
    obtain ⟨rfl, -⟩ := Prod.mk.inj heq
    rfl

theorem join_reply_data (s : joining_t) (reply : reconf_rep_t) :
    (handle_server_join_reply s reply).node.data.hb_event = s.node.data.hb_event ∧
      (handle_server_join_reply s reply).node.data.sid = s.node.data.sid := by
  unfold handle_server_join_reply
  split <;> exact ⟨rfl, rfl⟩

theorem send_periodically_cases (s : startup_t) (net : network_t) :
    send_periodically s net = s ∨ send_periodically s net = s.dare_server_shutdown := by
  unfold send_periodically
  split
  · exact .inr rfl
  · exact .inl rfl

theorem Ordered.callback (hs : Ordered s) (net : network_t) {callback : timer_cb}
    (htimer : s.timer = some callback) : Ordered (run_callback s net callback) := by
  have hallowed := hs.timer callback htimer
  have hperiodic : Ordered (send_periodically s net) := by
    obtain h | h := send_periodically_cases s net
    · rwa [h]
    · rw [h]
      exact hs.shutdown
  cases callback with
  | init_network_cb =>
    simp only [run_callback, init_network_cb]
    split
    · exact hs.shutdown
    · have hstarted : Ordered { s with INIT := true, poll_event := true, timer := none } :=
        ⟨fun _ => rfl, rfl, hs.sm, hs.log, hs.silent, nofun⟩
      split
      · exact hstarted.set_timer .join_cluster_cb rfl
      · split
        · exact ⟨fun _ => rfl, rfl, hs.sm, hs.log, hs.silent, nofun⟩
        · exact hstarted.set_timer .exchange_rc_info_cb rfl
  | join_cluster_cb => exact hperiodic
  | exchange_rc_info_cb => exact hperiodic
  | update_rc_info_cb => exact hperiodic
  | send_sm_request_cb => exact hperiodic
  | get_replicated_vote_cb =>
    have hsid : ∀ sid, Ordered (s.set_sid sid) := fun sid => hs.set_data fun _ => rfl
    simp only [run_callback, get_replicated_vote_cb]
    split
    · exact (hsid _).set_timer .send_sm_request_cb hallowed
    · split
      · exact (hsid _).shutdown
      · split
        · exact hsid _
        · exact ((hsid _).set_data fun _ => rfl).set_timer .send_sm_request_cb hallowed
  | recover_log_cb =>
    have hdata := hs.set_data fun _ => rc_recover_log_hb_event s.data net.logs net.ok net.entries
    simp only [run_callback, recover_log_cb]
    split
    · exact hdata.shutdown
    · split
      · exact hdata
      · refine ⟨hs.init, hs.polls, hs.sm, fun _ => hallowed.1, fun h => Bool.noConfusion h, fun callback h => ?_⟩
        obtain rfl := Option.some.inj h
        rfl

theorem Ordered.poll_ud (hs : Ordered s) (hpoll : s.poll_event = true) (message : ud_message) :
    Ordered (poll_ud s message) := by
  have hinit : s.INIT = true := hs.polls ▸ hpoll
  cases message with
  | none => exact hs
  | error => exact hs.shutdown
  | cfg_reply reply =>
    have hjoined : Ordered { s with
        joining := handle_server_join_reply s.joining reply, JOINED := true, timer := none } :=
      ⟨fun _ => hinit, hs.polls, hs.sm, hs.log, fun h => (join_reply_data _ _).1.trans (hs.silent h), nofun⟩
    exact hjoined.set_timer .exchange_rc_info_cb hinit
  | majority =>
    simp only [startup.poll_ud]
    split
    · exact hs
    · rename_i hrc
      split
      · refine ⟨fun _ => hinit, hs.polls, fun _ => rfl, fun _ => rfl, fun h => Bool.noConfusion h,
          fun callback h => ?_⟩
        obtain rfl := Option.some.inj h
        rfl
      · rename_i hjoined
        have hest : Ordered { s with RC_ESTABLISHED := true, timer := none } :=
          ⟨fun _ => hinit, hs.polls, fun _ => rfl, hs.log, hs.silent, nofun⟩
        have hsm := hs.sm_false (Bool.eq_false_iff.mpr hrc)
        exact hest.set_timer .get_replicated_vote_cb ⟨rfl, by simpa using hjoined, hsm⟩

theorem Ordered.poll_sm_reply (hs : Ordered s) (hrc : s.RC_ESTABLISHED = true) (hsm : s.SM_RECOVERED = false)
    (snapshot : Option snapshot_t) : Ordered (poll_sm_reply s snapshot) := by
  have hlog := hs.log_false hsm
  unfold startup.poll_sm_reply
  split
  · exact hs
  · dsimp only
    split
    · exact ⟨hs.init, hs.polls, hs.sm, hs.log, hs.silent, hs.timer⟩
    · rename_i target _ _ joining rc hrecover
      have hread : Ordered { s with joining := joining } :=
        ⟨hs.init, hs.polls, hs.sm, hs.log, fun h => (rc_recover_sm_hb_event hrecover).trans (hs.silent h), hs.timer⟩
      split
      · exact hread.shutdown
      · split
        · exact hread
        · have hdone : Ordered { s with
              joining := joining, sm_rep := fun _ => ⟨0, 0, 0, 0⟩, SM_RECOVERED := true, timer := none } :=
            ⟨hs.init, hs.polls, fun _ => hrc, fun _ => rfl, hread.silent, nofun⟩
          exact hdone.set_timer .recover_log_cb ⟨rfl, hlog⟩

theorem Ordered.step (hs : Ordered s) (e : event) : Ordered (step s e) := by
  unfold startup.step
  split
  · exact hs
  cases e with
  | timer net =>
    cases htimer : s.timer with
    | none => exact hs
    | some callback => exact hs.callback net htimer
  | poll message snapshot =>
    dsimp only
    split
    · rename_i hpoll
      unfold polling
      split
      · exact hs.shutdown
      · have hud := hs.poll_ud hpoll message
        dsimp only
        split
        · rename_i hguard
          simp only [Bool.and_eq_true, Bool.not_eq_true'] at hguard
          exact hud.poll_sm_reply hguard.1.2 hguard.2 snapshot
        · exact hud
    · exact hs
  | sm_reply target reply => exact ⟨hs.init, hs.polls, hs.sm, hs.log, hs.silent, hs.timer⟩
  | ctrl_write servers hb vote_req vote_ack apply_offsets => exact hs.set_data fun _ => rfl
  | append log cid => exact hs.set_data fun _ => rfl
  | signal => exact ⟨hs.init, hs.polls, hs.sm, hs.log, hs.silent, hs.timer⟩
  | work data =>
    dsimp only
    split
    · rename_i hlog
      exact hs.set_data fun h => by simp [hlog] at h
    · exact hs

theorem Initial.steps_ordered (hinit : Initial s) (events : List event) : Ordered (run.steps step s events) :=
  run.steps_invariant (fun _ e hs => hs.step e) hinit.ordered events

end ordered

/-- A server before its first callback, with the data of `init_server_data`. -/
def new_server (data : dare_server_data_t) (srv_type_join : Bool) : startup_t where
  joining := ⟨⟨data, 0, 0, false, ⟨0, 0, 0⟩, 0, true, []⟩, 0, 0, proxy.initialize_db, []⟩
  srv_type_join := srv_type_join
  timer := some .init_network_cb
  poll_event := false
  running := true
  sm_rep := fun _ => ⟨0, 0, 0, 0⟩
  INIT := false
  JOINED := false
  RC_ESTABLISHED := false
  SM_RECOVERED := false
  LOG_RECOVERED := false
  TERMINATE := false

theorem new_server_initial {data : dare_server_data_t} (hsilent : data.hb_event = .stopped) (join : Bool) :
    Initial (new_server data join) := ⟨rfl, rfl, ⟨rfl, rfl, rfl, rfl, rfl⟩, hsilent⟩

/-- Server 2 of a group of three, connected to the others. -/
def joining_server : startup_t :=
  new_server
    { (init_server_data 2 3).get (by
        unfold init_server_data
        rfl) with
      servers := fun _ => ⟨⟨0, 0⟩, 0, 0, .LR_GET_WRITE, true, 0, true, false⟩ } true

theorem joining_server_initial : Initial joining_server := new_server_initial rfl true

/-- Network calls that succeed and read nothing. -/
def quiet_network : network_t := ⟨0, fun _ => 0, fun _ => 0, fun _ => log_new, fun _ => false, fun _ => none, 0⟩

/-- The reply of the leader to the join request. -/
def accepted : reconf_rep_t := ⟨0, 2, joining_server.data.cid, 0, 0⟩

/-- The server joins, is connected, gets its vote back and is told where the snapshot of server 0 is. -/
def join_events : List event :=
  [.timer quiet_network, .poll (.cfg_reply accepted) none, .poll .majority none, .timer quiet_network,
    .sm_reply 0 ⟨mk_sid 1 true 0, 1, 1, 1⟩]

/-- The snapshot of a server that has stored nothing. -/
def empty_snapshot : snapshot_t := ⟨⟨0, 0, 0⟩, 0, []⟩

/-- In every run the connections are established after the network is initialised, the state machine is
    recovered after that and the log last. Each callback of the timer has its place in this order, and no
    heartbeat is sent or waited for before its end. -/
theorem startup_in_order {s : startup_t} (hinit : Initial s) (events : List event) :
    let s' := run.steps step s events
    (s'.RC_ESTABLISHED = true → s'.INIT = true) ∧ (s'.SM_RECOVERED = true → s'.RC_ESTABLISHED = true) ∧
      (s'.LOG_RECOVERED = true → s'.SM_RECOVERED = true) ∧
      (s'.LOG_RECOVERED = false → s'.data.hb_event = .stopped) ∧
      ∀ callback, s'.timer = some callback → Allowed s' callback := by
  have hs := hinit.steps_ordered events
  exact ⟨fun h => hs.init (.inr h), hs.sm, hs.log, hs.silent, hs.timer⟩

theorem joining_server_in_order :
    (run.steps step joining_server join_events).RC_ESTABLISHED = true ∧
      (run.steps step joining_server join_events).INIT = true :=
  ⟨rfl, (startup_in_order joining_server_initial join_events).1 rfl⟩

/-! ## Servers that wait -/

/-- What an event leaves as it is while the callback of the timer only sends something. -/
structure Waits (e : event) (s s' : startup_t) : Prop where
  init : s'.INIT = s.INIT
  rc : s'.RC_ESTABLISHED = s.RC_ESTABLISHED
  sm : s'.SM_RECOVERED = s.SM_RECOVERED
  log : s'.LOG_RECOVERED = s.LOG_RECOVERED
  sid : s'.data.sid = s.data.sid
  idx : s'.data.idx = s.data.idx ∨ ∃ reply snapshot, e = .poll (.cfg_reply reply) snapshot
  timer : s'.timer = s.timer ∨ s'.timer = none ∨ s'.timer = some .exchange_rc_info_cb
  sm_rep : ∀ target, s'.sm_rep target = s.sm_rep target ∨ e = .sm_reply target (s'.sm_rep target)

section waits

variable {s s' : startup_t} {e : event}

theorem Waits.refl (e : event) (s : startup_t) : Waits e s s :=
  ⟨rfl, rfl, rfl, rfl, rfl, .inl rfl, .inl rfl, fun _ => .inl rfl⟩

theorem Waits.shutdown (e : event) (s : startup_t) : Waits e s s.dare_server_shutdown :=
  ⟨rfl, rfl, rfl, rfl, rfl, .inl rfl, .inr (.inl rfl), fun _ => .inl rfl⟩

theorem Waits.timer_ne (hw : Waits e s s') {callback : timer_cb} (htimer : s.timer ≠ some callback)
    (hother : callback ≠ .exchange_rc_info_cb) : s'.timer ≠ some callback := by
  obtain h | h | h := hw.timer
  · rwa [h]
  · rw [h]
    exact nofun
  · rw [h]
    exact fun heq => hother (Option.some.inj heq).symm

/-- Once the network is initialised, only two callbacks do more than to send something. -/
theorem Ordered.callback_waits (hs : Ordered s) (hinit : s.INIT = true) {callback : timer_cb}
    (htimer : s.timer = some callback) (hvote : callback ≠ .get_replicated_vote_cb)
    (hlog : callback ≠ .recover_log_cb) (net : network_t) :
    Waits (.timer net) s (run_callback s net callback) := by
  have hperiodic : Waits (.timer net) s (send_periodically s net) := by
    obtain h | h := send_periodically_cases s net
    · rw [h]
      exact .refl _ s
    · rw [h]
      exact .shutdown _ s
  cases callback with
  | init_network_cb =>
    have hfirst : s.INIT = false := hs.timer _ htimer
    simp [hinit] at hfirst
  | join_cluster_cb => exact hperiodic
  | exchange_rc_info_cb => exact hperiodic
  | update_rc_info_cb => exact hperiodic
  | get_replicated_vote_cb => exact absurd rfl hvote
  | send_sm_request_cb => exact hperiodic
  | recover_log_cb => exact absurd rfl hlog

theorem poll_ud_waits {message : ud_message} (hmajority : message = .majority → s.RC_ESTABLISHED = true)
    (snapshot : Option snapshot_t) : Waits (.poll message snapshot) s (poll_ud s message) := by
  cases message with
  | none => exact .refl _ s
  | error => exact .shutdown _ s
  | cfg_reply reply =>
    exact ⟨rfl, rfl, rfl, rfl, (join_reply_data _ _).2, .inr ⟨reply, snapshot, rfl⟩, .inr (.inr rfl),
      fun _ => .inl rfl⟩
  | majority =>
    rw [poll_ud, if_pos (hmajority rfl)]
    exact .refl _ s

theorem poll_sm_reply_of_not_higher (hreply : ∀ target, ¬s.data.sid < (s.sm_rep target).sid)
    (snapshot : Option snapshot_t) : poll_sm_reply s snapshot = s := by
  have hnone : sm_target s = none := List.find?_eq_none.mpr fun target _ => by simp [hreply target]
  rw [poll_sm_reply, hnone]

/-- A server that is not recovered waits, if its timer has none of the two callbacks, and its polls find
    neither the majority that it waits for nor a snapshot. -/
theorem Ordered.step_waits (hs : Ordered s) (hinit : s.INIT = true) (hlog : s.LOG_RECOVERED = false)
    (hvote : s.timer ≠ some .get_replicated_vote_cb) (hrecover : s.timer ≠ some .recover_log_cb)
    (hmajority : ∀ snapshot, e = .poll .majority snapshot → s.RC_ESTABLISHED = true)
    (hreply : s.RC_ESTABLISHED = true → s.SM_RECOVERED = false →
      ∀ target, ¬s.data.sid < (s.sm_rep target).sid) : Waits e s (startup.step s e) := by
  unfold startup.step
  split
  · exact .refl e s
  cases e with
  | timer net =>
    cases htimer : s.timer with
    | none => exact .refl _ s
    | some callback =>
      exact hs.callback_waits hinit htimer (fun h => hvote (h ▸ htimer)) (fun h => hrecover (h ▸ htimer)) net
  | poll message snapshot =>
    dsimp only
    split
    · unfold polling
      split
      · exact .shutdown _ s
      · have hud : Waits (.poll message snapshot) s (startup.poll_ud s message) :=
          poll_ud_waits (fun h => hmajority snapshot (h ▸ rfl)) snapshot
        dsimp only
        split
        · rename_i hguard
          simp only [Bool.and_eq_true, Bool.not_eq_true'] at hguard
          rw [poll_sm_reply_of_not_higher]
          · exact hud
          · intro target
            obtain h | h := hud.sm_rep target
            · rw [h, hud.sid]
              exact hreply (hud.rc ▸ hguard.1.2) (hud.sm ▸ hguard.2) target
            · cases h
        · exact hud
    · exact .refl _ s
  | sm_reply target reply =>
    refine ⟨rfl, rfl, rfl, rfl, rfl, .inl rfl, .inl rfl, fun i => ?_⟩
    by_cases hi : i = target
    · subst hi
      exact .inr (by simp)
    · exact .inl (Function.update_of_ne hi _ _)
  | ctrl_write servers hb vote_req vote_ack apply_offsets =>
    exact ⟨rfl, rfl, rfl, rfl, rfl, .inl rfl, .inl rfl, fun _ => .inl rfl⟩
  | append log cid => exact ⟨rfl, rfl, rfl, rfl, rfl, .inl rfl, .inl rfl, fun _ => .inl rfl⟩
  | signal => exact ⟨rfl, rfl, rfl, rfl, rfl, .inl rfl, .inl rfl, fun _ => .inl rfl⟩
  | work data =>
    dsimp only
    rw [if_neg (by simp [hlog])]
    exact .refl _ s

end waits

/-! ## A recovery that is given up

A reply to a join request that arrives while the log is being recovered replaces the callback of the
timer. -/

/-- The log is not recovered, and the timer does not recover it. -/
structure GivenUp (s : startup_t) : Prop where
  ordered : Ordered s
  sm : s.SM_RECOVERED = true
  log : s.LOG_RECOVERED = false
  timer : s.timer ≠ some .recover_log_cb

section givenUp

variable {s : startup_t}

theorem GivenUp.step (hs : GivenUp s) (e : event) : GivenUp (step s e) := by
  have hrc := hs.ordered.sm hs.sm
  have hvote : s.timer ≠ some .get_replicated_vote_cb := by
    intro h
    have hsm := (hs.ordered.timer _ h).2.2
    simp [hs.sm] at hsm
  have hw : Waits e s (startup.step s e) :=
    hs.ordered.step_waits (hs.ordered.init (.inr hrc)) hs.log hvote hs.timer (fun _ _ => hrc)
      fun _ hsm => by simp [hs.sm] at hsm
  exact ⟨hs.ordered.step e, hw.sm.trans hs.sm, hw.log.trans hs.log, hw.timer_ne hs.timer nofun⟩

theorem GivenUp.steps_log (hs : GivenUp s) (events : List event) :
    (run.steps startup.step s events).LOG_RECOVERED = false :=
  (run.steps_invariant (fun _ e hs => hs.step e) hs events).log

/-- A join reply takes the callback of the timer away. -/
theorem Ordered.join_reply_givenUp (hs : Ordered s) (hrunning : s.running = true)
    (hsm : s.SM_RECOVERED = true) (hlog : s.LOG_RECOVERED = false) (reply : reconf_rep_t)
    (snapshot : Option snapshot_t) : GivenUp (startup.step s (.poll (.cfg_reply reply) snapshot)) := by
  have hkept : (polling s (.cfg_reply reply) snapshot).SM_RECOVERED = true ∧
      (polling s (.cfg_reply reply) snapshot).LOG_RECOVERED = false ∧
      (polling s (.cfg_reply reply) snapshot).timer ≠ some .recover_log_cb := by
    have hud : Waits (.poll (.cfg_reply reply) snapshot) s (startup.poll_ud s (.cfg_reply reply)) :=
      poll_ud_waits (fun h => by cases h) snapshot
    unfold polling
    split
    · exact ⟨hsm, hlog, nofun⟩
    · dsimp only
      rw [if_neg (by simp [hud.sm, hsm])]
      exact ⟨hsm, hlog, nofun⟩
  rw [← step_poll hrunning (hs.polls_of_rc (hs.sm hsm))] at hkept
  exact ⟨hs.step _, hkept.1, hkept.2.1, hkept.2.2⟩

/-- Another server that can be read lets the callback succeed. -/
theorem recover_log_cb_succeeds (hrunning : s.running = true) (htimer : s.timer = some .recover_log_cb)
    {i : Nat} (hlt : i < get_group_size s.data.cid) (hother : i ≠ s.data.idx) (hon : s.data.is_on i = true)
    (hconnected : (s.data.servers i).rc_connected = true) :
    ∃ net, (step s (.timer net)).LOG_RECOVERED = true := by
  -- an empty log is taken over without a read of its entries
  let net : network_t :=
    { quiet_network with logs := fun _ => { s.data.log with end_ := s.data.log.len }, ok := fun _ => true }
  have hsome : (recover_target s.data net.ok).isSome = true :=
    List.find?_isSome.mpr ⟨i, List.mem_range.mpr hlt, by simp [hother, hon, hconnected, net]⟩
  obtain ⟨target, htarget⟩ := Option.isSome_iff_exists.mp hsome
  have hread : (rc_recover_log s.data net.logs net.ok net.entries).2 = 0 := by
    have htarget' : recover_target { s.data with ssn := s.data.ssn + 1 } net.ok = some target := htarget
    rw [rc_recover_log]
    dsimp only
    rw [htarget']
    exact congrArg Prod.snd (if_pos rfl)
  refine ⟨net, ?_⟩
  rw [step_timer hrunning htimer, run_callback, recover_log_cb]
  dsimp only
  rw [hread]
  rfl

end givenUp

/-- When the state machine is recovered, the log can still be recovered exactly while the timer has the
    callback for it. A reply to a join request, even an old one, takes the callback away: from then on the
    server never takes part in the protocol. -/
theorem log_recovery_ends_with_join_reply {s : startup_t} (hinit : Initial s) (before : List event)
    (hrunning : (run.steps step s before).running = true)
    (hsm : (run.steps step s before).SM_RECOVERED = true)
    (hlog : (run.steps step s before).LOG_RECOVERED = false)
    (hother : ∃ i, i < get_group_size (run.steps step s before).data.cid ∧
      i ≠ (run.steps step s before).data.idx ∧ (run.steps step s before).data.is_on i = true ∧
      ((run.steps step s before).data.servers i).rc_connected = true) :
    ((∃ events, (run.steps step s (before ++ events)).LOG_RECOVERED = true) ↔
      (run.steps step s before).timer = some .recover_log_cb) ∧
    ∀ reply snapshot events,
      (run.steps step s (before ++ .poll (.cfg_reply reply) snapshot :: events)).LOG_RECOVERED = false := by
  have hs := hinit.steps_ordered before
  simp only [run.steps_append, run.steps_cons]
  generalize run.steps step s before = r at *
  refine ⟨⟨fun ⟨events, hrecovered⟩ => ?_, fun htimer => ?_⟩, fun reply snapshot events => ?_⟩
  · by_contra htimer
    have hnever := (GivenUp.mk hs hsm hlog htimer).steps_log events
    simp [hrecovered] at hnever
  · obtain ⟨i, hlt, hne, hon, hconnected⟩ := hother
    obtain ⟨net, hnet⟩ := recover_log_cb_succeeds hrunning htimer hlt hne hon hconnected
    exact ⟨[.timer net], hnet⟩
  · exact (hs.join_reply_givenUp hrunning hsm hlog reply snapshot).steps_log events

theorem joining_server_given_up :
    (∃ events, (run.steps step joining_server
      (join_events ++ [.poll .none (some empty_snapshot)] ++ events)).LOG_RECOVERED = true) ∧
    ∀ events, (run.steps step joining_server (join_events ++ [.poll .none (some empty_snapshot)] ++
      .poll (.cfg_reply accepted) none :: events)).LOG_RECOVERED = false := by
  have h := log_recovery_ends_with_join_reply joining_server_initial
    (join_events ++ [.poll .none (some empty_snapshot)]) rfl rfl rfl ⟨0, by decide, by decide, by decide, rfl⟩
  exact ⟨h.1.mpr rfl, h.2 accepted none⟩

/-! ## A snapshot that could not be read -/

/-- No reply has a higher SID than the server itself, which still waits for a snapshot. -/
structure Unanswered (sid : UInt64) (s : startup_t) : Prop where
  ordered : Ordered s
  rc : s.RC_ESTABLISHED = true
  sm : s.SM_RECOVERED = false
  timer : s.timer ≠ some .get_replicated_vote_cb
  sid_eq : s.data.sid = sid
  replies : ∀ target, (s.sm_rep target).sid ≤ sid

section unanswered

variable {s : startup_t} {sid : UInt64}

theorem Unanswered.step (hs : Unanswered sid s) {e : event}
    (hreply : ∀ target reply, e = .sm_reply target reply → reply.sid ≤ sid) : Unanswered sid (step s e) := by
  have hrecover : s.timer ≠ some .recover_log_cb := by
    intro h
    have hsm := (hs.ordered.timer _ h).1
    simp [hs.sm] at hsm
  have hw : Waits e s (startup.step s e) :=
    hs.ordered.step_waits (hs.ordered.init (.inr hs.rc)) (hs.ordered.log_false hs.sm) hs.timer hrecover
      (fun _ _ => hs.rc) fun _ _ target => by
        rw [hs.sid_eq, UInt64.not_lt]
        exact hs.replies target
  refine ⟨hs.ordered.step e, hw.rc.trans hs.rc, hw.sm.trans hs.sm, hw.timer_ne hs.timer nofun,
    hw.sid.trans hs.sid_eq, fun target => ?_⟩
  obtain h | h := hw.sm_rep target
  · rw [h]
    exact hs.replies target
  · exact hreply target _ h

theorem Unanswered.steps (hs : Unanswered sid s) {events : List event}
    (hreplies : ∀ target reply, .sm_reply target reply ∈ events → reply.sid ≤ sid) :
    Unanswered sid (run.steps startup.step s events) :=
  @run.steps_history _ _ startup.step (fun _ => Unanswered sid)
    (fun e => ∀ target reply, e = .sm_reply target reply → reply.sid ≤ sid) (fun _ _ _ hs h => hs.step h) [] s hs
    events fun _ he target reply h => hreplies target reply (h ▸ he)

/-- The SID of the reply stays when its snapshot cannot be read. -/
theorem poll_sm_reply_failed {target : Nat} (htarget : sm_target s = some target) :
    (poll_sm_reply s none).data.sid = (s.sm_rep target).sid ∧
      (poll_sm_reply s none).RC_ESTABLISHED = s.RC_ESTABLISHED ∧
      (poll_sm_reply s none).SM_RECOVERED = s.SM_RECOVERED ∧ (poll_sm_reply s none).timer = s.timer ∧
      (poll_sm_reply s none).sm_rep = s.sm_rep := by
  rw [poll_sm_reply, htarget]
  exact ⟨rfl, rfl, rfl, rfl, rfl⟩

theorem Ordered.failed_read_unanswered (hs : Ordered s) (hrunning : s.running = true)
    (hsignal : s.TERMINATE = false) (hsm : s.SM_RECOVERED = false)
    (htimer : s.timer = some .send_sm_request_cb) {target : Nat} (htarget : sm_target s = some target)
    (hhighest : ∀ i, (s.sm_rep i).sid ≤ (s.sm_rep target).sid) :
    Unanswered (s.sm_rep target).sid (startup.step s (.poll .none none)) := by
  have hrc := (hs.timer _ htimer).1
  have hstep : startup.step s (.poll .none none) = startup.poll_sm_reply s none := by
    rw [step_poll hrunning (hs.polls_of_rc hrc), polling, if_neg (by simp [hsignal])]
    exact if_pos (by simp [startup.poll_ud, hrunning, hrc, hsm])
  obtain ⟨hsid, hrc', hsm', htimer', hrep⟩ := poll_sm_reply_failed htarget
  refine ⟨hs.step _, ?_, ?_, ?_, ?_, ?_⟩ <;> rw [hstep]
  · exact hrc'.trans hrc
  · exact hsm'.trans hsm
  · rw [htimer', htimer]
    exact nofun
  · exact hsid
  · rw [hrep]
    exact hhighest

end unanswered

/-- A snapshot that could not be read is not read again: the server has taken the SID of the reply, and
    waits for a reply with a higher one. As long as none comes, which is as long as the leader does not
    change, its state machine is not recovered. -/
theorem failed_snapshot_is_not_read_again {s : startup_t} (hinit : Initial s) (before after : List event)
    (hrunning : (run.steps step s before).running = true)
    (hsignal : (run.steps step s before).TERMINATE = false)
    (hsm : (run.steps step s before).SM_RECOVERED = false)
    (htimer : (run.steps step s before).timer = some .send_sm_request_cb) (target : Nat)
    (htarget : sm_target (run.steps step s before) = some target)
    (hhighest : ∀ i, ((run.steps step s before).sm_rep i).sid ≤ ((run.steps step s before).sm_rep target).sid)
    (hreplies : ∀ i reply, .sm_reply i reply ∈ after →
      reply.sid ≤ ((run.steps step s before).sm_rep target).sid) :
    (run.steps step s (before ++ .poll .none none :: after)).SM_RECOVERED = false ∧
      (run.steps step s (before ++ .poll .none none :: after)).LOG_RECOVERED = false ∧
      (run.steps step s (before ++ .poll .none none :: after)).data.hb_event = .stopped := by
  have hs := hinit.steps_ordered before
  rw [run.steps_append, run.steps_cons]
  generalize run.steps step s before = r at *
  have hwaiting := hs.failed_read_unanswered hrunning hsignal hsm htimer htarget hhighest
  have hend := hwaiting.steps hreplies
  have hlog := hend.ordered.log_false hend.sm
  exact ⟨hend.sm, hlog, hend.ordered.silent hlog⟩

theorem joining_server_unanswered :
    (run.steps step joining_server (join_events ++ .poll .none none ::
      [.sm_reply 0 ⟨mk_sid 1 true 0, 1, 1, 1⟩, .poll .none (some empty_snapshot)])).SM_RECOVERED = false :=
  (failed_snapshot_is_not_read_again joining_server_initial join_events
    [.sm_reply 0 ⟨mk_sid 1 true 0, 1, 1, 1⟩, .poll .none (some empty_snapshot)] rfl rfl rfl rfl
    0 (by decide) (fun i => by
      change (Function.update (fun _ => (⟨0, 0, 0, 0⟩ : sm_rep_t)) 0 ⟨mk_sid 1 true 0, 1, 1, 1⟩ i).sid ≤
        mk_sid 1 true 0
      by_cases hi : i = 0
      · subst hi
        simp
      · rw [Function.update_of_ne hi]
        decide)
    (fun i reply h => by
      simp only [List.mem_cons, event.sm_reply.injEq, reduceCtorEq, List.not_mem_nil, or_false] at h
      rw [h.2]
      decide)).1

/-! ## A server that starts alone -/

/-- A server without connections, with a SID that names it. -/
structure Alone (sid : UInt64) (s : startup_t) : Prop where
  ordered : Ordered s
  init : s.INIT = true
  rc : s.RC_ESTABLISHED = false
  sid_eq : s.data.sid = sid
  idx : s.data.idx = 0

section alone

variable {s : startup_t} {sid : UInt64}

theorem Alone.step (hs : Alone sid s) {e : event}
    (hquiet : ∀ message snapshot, e = .poll message snapshot → message = .none ∨ message = .error) :
    Alone sid (step s e) := by
  have hsm := hs.ordered.sm_false hs.rc
  have hw : Waits e s (startup.step s e) := by
    refine hs.ordered.step_waits hs.init (hs.ordered.log_false hsm) ?_ ?_ ?_ ?_
    · intro h
      have hrc := (hs.ordered.timer _ h).1
      simp [hs.rc] at hrc
    · intro h
      have hsm' := (hs.ordered.timer _ h).1
      simp [hsm] at hsm'
    · intro snapshot h
      obtain h | h := hquiet _ snapshot h <;> cases h
    · intro h
      simp [hs.rc] at h
  refine ⟨hs.ordered.step e, hw.init.trans hs.init, hw.rc.trans hs.rc, hw.sid.trans hs.sid_eq, ?_⟩
  obtain h | ⟨reply, snapshot, h⟩ := hw.idx
  · exact h.trans hs.idx
  · obtain h | h := hquiet _ snapshot h <;> cases h

theorem Alone.steps (hs : Alone sid s) {events : List event}
    (hquiet : ∀ message snapshot, .poll message snapshot ∈ events → message = .none ∨ message = .error) :
    Alone sid (run.steps startup.step s events) :=
  @run.steps_history _ _ startup.step (fun _ => Alone sid)
    (fun e => ∀ message snapshot, e = .poll message snapshot → message = .none ∨ message = .error)
    (fun _ _ _ hs h => hs.step h) [] s hs events fun _ he message snapshot h => hquiet message snapshot (h ▸ he)

theorem Initial.alone (hinit : Initial s) (hjoin : s.srv_type_join = false) (hsize : s.data.cid.size_0 = 1)
    (hidx : s.data.idx = 0) (hrunning : s.running = true) {net : network_t} (hnet : net.rc = 0) :
    Alone (election.alone_sid s.data) (step s (.timer net)) := by
  have hstep : step s (.timer net) =
      { { s with INIT := true, poll_event := true }.set_sid (election.alone_sid s.data) with timer := none } := by
    rw [step_timer hrunning hinit.timer, run_callback, init_network_cb, if_neg (by simp [hnet])]
    dsimp only
    rw [if_neg (by simp [hjoin])]
    exact if_pos hsize
  refine ⟨hinit.ordered.step _, ?_, ?_, ?_, ?_⟩ <;> rw [hstep]
  · rfl
  · exact hinit.flags.2.2.1
  · rfl
  · exact hidx

end alone

/-- A server that starts alone takes itself for the leader, but its log never counts as recovered: it
    sends no heartbeat, and `polling` always stops before the point where entries are committed and
    applied. -/
theorem lone_leader_never_works {s : startup_t} (hinit : Initial s) (hjoin : s.srv_type_join = false)
    (hdata : init_server_data 0 1 = some s.data) (hrunning : s.running = true) (net : network_t)
    (hnet : net.rc = 0) (events : List event)
    (hquiet : ∀ message snapshot, .poll message snapshot ∈ events → message = .none ∨ message = .error) :
    IS_LEADER (run.steps step s (.timer net :: events)).data = true ∧
      (run.steps step s (.timer net :: events)).LOG_RECOVERED = false ∧
      (run.steps step s (.timer net :: events)).data.hb_event = .stopped := by
  have hfields : s.data.sid = SID_NULL ∧ s.data.idx = 0 ∧ s.data.cid.size_0 = 1 := by
    rw [← Option.some.inj hdata]
    exact ⟨rfl, rfl, rfl⟩
  obtain ⟨hsid, hidx, hsize⟩ := hfields
  have hfirst := hinit.alone hjoin hsize hidx hrunning hnet
  have hend := hfirst.steps hquiet
  rw [run.steps_cons]
  have hlog := hend.ordered.log_false (hend.ordered.sm_false hend.rc)
  obtain ⟨-, hl, hnamed⟩ := election.alone_sid_spec hsid
  refine ⟨?_, hlog, hend.ordered.silent hlog⟩
  simp [IS_LEADER, IS_NONE, hend.sid_eq, hend.idx, hl, hnamed]

/-- The only server of its group. -/
def lone_server : startup_t :=
  new_server ((init_server_data 0 1).get (by
    unfold init_server_data
    rfl)) false

theorem lone_server_never_works :
    IS_LEADER (run.steps step lone_server [.timer quiet_network, .poll .none none]).data = true ∧
      (run.steps step lone_server [.timer quiet_network, .poll .none none]).LOG_RECOVERED = false := by
  have h := lone_leader_never_works (s := lone_server) (new_server_initial rfl false) rfl rfl rfl
    quiet_network rfl [.poll .none none] (fun message snapshot h => by
      simp only [List.mem_cons, event.poll.injEq, List.not_mem_nil, or_false] at h
      exact .inl h.1)
  exact ⟨h.1, h.2.1⟩

end dare.startup
