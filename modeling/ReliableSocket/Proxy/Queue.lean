import ReliableSocket.Run
import ReliableSocket.Dare.Log.Run
import ReliableSocket.Dare.Server.Apply
import ReliableSocket.Proxy.Storage

open memory ring dare dare.log dare.server run

namespace proxy

/-- The requests that are submitted. -/
inductive req_type where
  | CONNECT
  | SEND
  | CLOSE
  | RAW
  | TCPNEWCON
deriving DecidableEq, Repr

/-- The number of a request in the `type` field of its entry. -/
def req_type.val : req_type → UInt8
  | .CONNECT => proxy.CONNECT
  | .SEND => proxy.SEND
  | .CLOSE => proxy.CLOSE
  | .RAW => proxy.RAW
  | .TCPNEWCON => proxy.TCPNEWCON

theorem req_type.is_cmd (type : req_type) :
    type.val ≠ NOOP ∧ type.val ≠ CONFIG ∧ type.val ≠ HEAD := by
  cases type <;> decide

/-- The command of a queue entry: the length is a 16-bit field, and `cmd` the part of the array that
    was written. -/
structure tailq_cmd_t where
  len : UInt16
  cmd : List UInt8
deriving DecidableEq

structure tailq_entry_t where
  type : req_type
  connection_id : UInt16
  req_id : UInt64
  cmd : tailq_cmd_t
deriving DecidableEq

/-- What `log_append_entry` copies from a queue entry: as many bytes as the length field says. -/
def tailq_entry_t.data (e : tailq_entry_t) : log_data :=
  .cmd ⟨e.type.val, e.type.is_cmd⟩ ⟨e.cmd.cmd.take e.cmd.len.toNat, by
    have hlen := e.cmd.len.toNat_lt
    rw [List.length_take]
    omega⟩

/-- A client descriptor with its connection. -/
structure socket_pair where
  clt_id : Int
  req_id : UInt64
  connection_id : UInt16
deriving DecidableEq

/-- The hash map keeps the newest pair of a descriptor in front. -/
structure proxy_node where
  leader_hash_map : List socket_pair
  highest_rec : UInt64
  cur_rec : UInt64
  pair_count : UInt8
deriving DecidableEq

def gen_key (node_id node_count : UInt8) : UInt16 :=
  (node_id.toUInt16 <<< 8) ||| node_count.toUInt16

/-- The arguments of `leader_handle_submit_req`, and what its variables `req_id` and `connection_id`
    hold before they are assigned. -/
structure request where
  type : req_type
  buf : List UInt8
  clt_id : Int
  req_id : UInt64
  connection_id : UInt16
deriving DecidableEq

/-- The switch over the type: the new hash map and count, `req_id` and `connection_id`. SEND and CLOSE
    dereference the pair that they look for, so there is no result without one. -/
def submit_pair (node_id : UInt8) (p : proxy_node) (r : request) :
    Option (proxy_node × UInt64 × UInt16) :=
  match r.type with
  | .CONNECT =>
    let pair : socket_pair := ⟨r.clt_id, 1, gen_key node_id p.pair_count⟩
    some ({ p with leader_hash_map := pair :: p.leader_hash_map, pair_count := p.pair_count + 1 },
      pair.req_id, pair.connection_id)
  | .SEND =>
    (p.leader_hash_map.find? (·.clt_id = r.clt_id)).map fun pair =>
      let pair' := { pair with req_id := pair.req_id + 1 }
      ({ p with leader_hash_map := pair' :: p.leader_hash_map.erase pair }, pair'.req_id,
        pair'.connection_id)
  | .CLOSE =>
    (p.leader_hash_map.find? (·.clt_id = r.clt_id)).map fun pair =>
      ({ p with leader_hash_map := p.leader_hash_map.erase pair }, pair.req_id + 1, pair.connection_id)
  | .RAW | .TCPNEWCON => some (p, r.req_id, r.connection_id)

/-- The queue entry of a request. The length is cut to 16 bits, the data are copied as a whole. -/
def submit_entry (r : request) (req_id : UInt64) (connection_id : UInt16) : tailq_entry_t where
  type := r.type
  connection_id := connection_id
  req_id := req_id
  cmd := { len := UInt16.ofNat r.buf.length, cmd := r.buf }

/-- The part of `leader_handle_submit_req` under the lock: the proxy, the new queue entry and the
    number that the request waits for. -/
def leader_handle_submit_req (node_id : UInt8) (p : proxy_node) (r : request) :
    Option (proxy_node × tailq_entry_t × UInt64) :=
  let p := { p with cur_rec := p.cur_rec + 1 }
  (submit_pair node_id p r).map fun (p, req_id, connection_id) =>
    (p, submit_entry r req_id connection_id, p.cur_rec)

/-- A call of `log_append_entry` in `get_tailq_message`. -/
structure append_call where
  is_leader : Bool
  before : dare_log_t
  after : dare_log_t
  entry : dare_log_entry_t

/-- A server with its proxy. `checked` are the requests of the threads that have found the server to
    be the leader and have not taken the lock yet; `appends` records the calls of
    `log_append_entry`. -/
structure proxy_server where
  data : dare_server_data_t
  node : proxy_node
  tailhead : List tailq_entry_t
  last_write_csm_idx : UInt64
  checked : List request
  appends : List append_call

/-- One turn of the loop of `get_tailq_message`. The result of the append is only remembered. -/
def append_first (s : proxy_server) (e : tailq_entry_t) (rest : List tailq_entry_t) : proxy_server :=
  let term := SID_GET_TERM s.data.sid
  let result := log_append_entry s.data.log term e.req_id e.connection_id e.data
  { s with
    data := s.data.set_log result.1
    last_write_csm_idx := result.2
    tailhead := rest
    appends := s.appends ++ [{
      is_leader := IS_LEADER s.data
      before := s.data.log
      after := result.1
      entry := new_entry s.data.log term e.req_id e.connection_id e.data }] }

def tailq_loop (s : proxy_server) : List tailq_entry_t → proxy_server
  | [] => s
  | e :: rest => tailq_loop (append_first s e rest) rest

def get_tailq_message (s : proxy_server) : proxy_server := tailq_loop s s.tailhead

/-- What the threads of the proxy and the consensus thread do. `role` and `log` stand for every other
    handler: they may change the SID, and the log in any way that keeps its offsets in range. -/
inductive Action where
  | check (r : request)
  | enqueue (i : Nat)
  | poll
  | role (sid : UInt64)
  | log (log : { log : dare_log_t // LogOk log })

/-- A thread takes the lock and adds its request to the queue. -/
def enqueue (s : proxy_server) (i : Nat) : proxy_server :=
  match s.checked[i]? with
  | none => s
  | some r =>
    let s := { s with checked := s.checked.eraseIdx i }
    match leader_handle_submit_req (UInt8.ofNat s.data.idx) s.node r with
    | none => s
    | some (p, e, _) => { s with node := p, tailhead := s.tailhead ++ [e] }

def step (s : proxy_server) : Action → proxy_server
  | .check r => if IS_LEADER s.data then { s with checked := s.checked ++ [r] } else s
  | .enqueue i => enqueue s i
  | .poll => get_tailq_message s
  | .role sid => { s with data := { s.data with sid := sid } }
  | .log log => { s with data := s.data.set_log log }

/-- The append was made by the leader and has succeeded. -/
def append_call.Good (call : append_call) : Prop :=
  call.is_leader = true ∧ Appended call.before call.after call.entry

/-- The log has place for all entries of the queue. -/
def TakesAll (term : UInt64) : dare_log_t → List tailq_entry_t → Prop
  | _, [] => True
  | log, e :: rest =>
    TakesEntry log e.data ∧
      TakesAll term (log_append_entry log term e.req_id e.connection_id e.data).1 rest

/-- A queue with entries is polled by the leader only, and when the log has place for them. -/
def DrainsAsLeader (s : proxy_server) : Action → Prop
  | .poll => s.tailhead ≠ [] →
      IS_LEADER s.data = true ∧ TakesAll (SID_GET_TERM s.data.sid) s.data.log s.tailhead
  | .check _ | .enqueue _ | .role _ | .log _ => True

/-- One call: the entry is appended exactly if the log has place for it. -/
theorem append_first_good {s : proxy_server} (hlog : LogOk s.data.log) (e : tailq_entry_t)
    (rest : List tailq_entry_t) :
    ((∀ call ∈ (append_first s e rest).appends, call.Good) ↔
      (∀ call ∈ s.appends, call.Good) ∧ IS_LEADER s.data = true ∧ TakesEntry s.data.log e.data) ∧
      LogOk (append_first s e rest).data.log := by
  obtain ⟨hiff, hlog'⟩ := appended_iff_takesEntry hlog (SID_GET_TERM s.data.sid)
    e.req_id e.connection_id e.data
  refine ⟨?_, hlog'⟩
  rw [append_first, List.forall_mem_append, List.forall_mem_singleton]
  exact and_congr_right fun _ => and_congr_right fun _ => hiff

/-- The loop: all entries are appended exactly if this server leads and the log has place for
    them. -/
theorem tailq_loop_good {s : proxy_server} (hlog : LogOk s.data.log) (queue : List tailq_entry_t) :
    ((∀ call ∈ (tailq_loop s queue).appends, call.Good) ↔
      (∀ call ∈ s.appends, call.Good) ∧ (queue ≠ [] →
        IS_LEADER s.data = true ∧ TakesAll (SID_GET_TERM s.data.sid) s.data.log queue)) ∧
      LogOk (tailq_loop s queue).data.log := by
  induction queue generalizing s with
  | nil => exact ⟨by simp [tailq_loop], hlog⟩
  | cons e rest ih =>
    obtain ⟨hfirst, hlog'⟩ := append_first_good hlog e rest
    obtain ⟨hrest, hlog''⟩ := ih hlog'
    refine ⟨?_, hlog''⟩
    rw [tailq_loop, hrest, hfirst]
    have hleader : IS_LEADER (append_first s e rest).data = IS_LEADER s.data := rfl
    have hterm : SID_GET_TERM (append_first s e rest).data.sid = SID_GET_TERM s.data.sid := rfl
    rw [hleader, hterm]
    cases rest with
    | nil => simp [TakesAll]
    | cons e' rest =>
      simp only [ne_eq, reduceCtorEq, not_false_eq_true, forall_const, TakesAll.eq_2 _ _ e]
      constructor
      · rintro ⟨⟨hold, hlead, htakes⟩, -, hall⟩
        exact ⟨hold, hlead, htakes, hall⟩
      · rintro ⟨hold, hlead, htakes, hall⟩
        exact ⟨⟨hold, hlead, htakes⟩, hlead, hall⟩

theorem enqueue_keeps (s : proxy_server) (i : Nat) :
    (enqueue s i).data = s.data ∧ (enqueue s i).appends = s.appends := by
  unfold enqueue
  split
  · exact ⟨rfl, rfl⟩
  · dsimp only
    split <;> exact ⟨rfl, rfl⟩

theorem step_good {s : proxy_server} (hlog : LogOk s.data.log) (a : Action) :
    ((∀ call ∈ (step s a).appends, call.Good) ↔
      (∀ call ∈ s.appends, call.Good) ∧ DrainsAsLeader s a) ∧ LogOk (step s a).data.log := by
  cases a with
  | check r =>
    rw [step]
    split <;> exact ⟨by simp [DrainsAsLeader], hlog⟩
  | enqueue i =>
    obtain ⟨hdata, happends⟩ := enqueue_keeps s i
    rw [step, hdata, happends]
    exact ⟨by simp [DrainsAsLeader], hlog⟩
  | poll => exact tailq_loop_good hlog s.tailhead
  | role sid => exact ⟨by simp [step, DrainsAsLeader], hlog⟩
  | log log => exact ⟨by simp [step, DrainsAsLeader], log.property⟩

theorem steps_good {s : proxy_server} (hlog : LogOk s.data.log) (actions : List Action) :
    (∀ call ∈ (steps step s actions).appends, call.Good) ↔
      (∀ call ∈ s.appends, call.Good) ∧ AllOk step DrainsAsLeader s actions := by
  induction actions generalizing s with
  | nil => simp [AllOk]
  | cons a actions ih =>
    obtain ⟨hstep, hlog'⟩ := step_good hlog a
    rw [steps_cons, ih hlog', hstep, AllOk, and_assoc]

/-- In every interleaving of submitting threads, changes of the role and of the log, and polls of
    the queue: each entry that is taken from the queue is appended to the log while this server
    leads, exactly when each poll of a queue with entries happens while this server leads and its log
    has place for them. -/
theorem drained_entries_are_appended {s : proxy_server} (hlog : LogOk s.data.log)
    (hstart : s.appends = []) (actions : List Action) :
    (∀ call ∈ (steps step s actions).appends,
      call.is_leader = true ∧ Appended call.before call.after call.entry) ↔
      AllOk step DrainsAsLeader s actions := by
  have hgood := steps_good hlog actions
  simpa [hstart, append_call.Good] using hgood

/-- Server 0 of three after its start, with the given SID. -/
def started (sid : UInt64) : proxy_server where
  data := { (init_server_data 0 3).get admits_three with sid := sid }
  node := ⟨[], 0, 0, 0⟩
  tailhead := []
  last_write_csm_idx := 0
  checked := []
  appends := []

/-- A packet of one byte. -/
def one_byte : request := ⟨.RAW, [42], 0, 0, 0⟩

theorem leader_appends_packet :
    let s := steps step (started (mk_sid 1 true 0)) [.check one_byte, .enqueue 0, .poll]
    s.appends.length = 1 ∧
      ∀ call ∈ s.appends, call.is_leader = true ∧ Appended call.before call.after call.entry := by
  refine ⟨by decide +kernel, (drained_entries_are_appended ⟨rfl, Nat.le_refl _⟩ rfl _).mpr
    ⟨trivial, trivial, fun _ => ⟨by decide +kernel, by decide +kernel, trivial⟩, trivial⟩⟩

/-- A log whose end has caught up with its head. -/
def full_log : { log : dare_log_t // LogOk log } :=
  ⟨{ log_new with head := 96, end_ := 96, tail := 48 }, rfl, by decide⟩

/-- The server loses its leadership between the check and the poll: its follower log gets the entry.
    And a leader whose log is full takes the entry from the queue and forgets it. -/
theorem follower_appends_and_leader_loses :
    let deposed := steps step (started (mk_sid 1 true 0))
      [.check one_byte, .role (mk_sid 2 true 1), .enqueue 0, .poll]
    let full := steps step (started (mk_sid 1 true 0))
      [.check one_byte, .enqueue 0, .log full_log, .poll]
    (deposed.appends.map (·.is_leader) = [false] ∧ deposed.data.log.end_ = 49) ∧
      full.tailhead = [] ∧ full.last_write_csm_idx = 0 ∧
      full.appends.map (fun call => (call.before.end_, call.after.end_)) = [(96, 96)] := by
  decide +kernel

def TAP_BUFSIZE : Nat := 4096 + 65536

/-- A packet is submitted by the leader and dropped otherwise. `req_id` and `connection_id` are what
    `leader_handle_submit_req` finds in its variables of these names. -/
def msg_handle (is_leader : Bool) (node_id : UInt8) (p : proxy_node) (buf : List UInt8)
    (req_id : UInt64) (connection_id : UInt16) : Option (proxy_node × tailq_entry_t × UInt64) :=
  if is_leader then leader_handle_submit_req node_id p ⟨.RAW, buf, 0, req_id, connection_id⟩ else none

section payload

variable {node_id : UInt8} {p p' : proxy_node} {buf : List UInt8} {req_id cur_rec : UInt64}
  {connection_id : UInt16} {e : tailq_entry_t}

theorem msg_handle_entry
    (hsubmit : msg_handle true node_id p buf req_id connection_id = some (p', e, cur_rec)) :
    e = ⟨.RAW, connection_id, req_id, ⟨UInt16.ofNat buf.length, buf⟩⟩ := by
  simp only [msg_handle, leader_handle_submit_req, submit_pair, submit_entry, if_true,
    Option.map_some, Option.some.injEq, Prod.mk.injEq] at hsubmit
  exact hsubmit.2.1.symm

/-- The entry that the leader writes for a queue entry, and where it starts. -/
def logged_entry (log : dare_log_t) (term : UInt64) (e : tailq_entry_t) : dare_log_entry_t :=
  new_entry log term e.req_id e.connection_id e.data

def entry_offset (log : dare_log_t) (term : UInt64) (e : tailq_entry_t) : Nat :=
  entry_format.place log.len log.end_ (logged_entry log term e)

/-- A memory has the bytes of the entry that the leader has appended. -/
def HasCopy (m : Mem) (log : dare_log_t) (term : UInt64) (e : tailq_entry_t) : Prop :=
  ∀ b, entry_offset log term e ≤ b → b < entry_offset log term e + (logged_entry log term e).len →
    (log_append_entry log term e.req_id e.connection_id e.data).1.entries b = m b

/-- The entry can be read from every copy. -/
theorem HasCopy.read_entry_eq {m : Mem} {log : dare_log_t} {term : UInt64}
    (hcopy : HasCopy m log term e) (hlog : LogOk log) (htakes : TakesEntry log e.data) :
    read_entry m (entry_offset log term e) = logged_entry log term e := by
  have happ := (appended_iff_takesEntry hlog term e.req_id e.connection_id e.data).1.mpr htakes
  have hstored : read_entry (log_append_entry log term e.req_id e.connection_id e.data).1.entries
      (entry_offset log term e) = logged_entry log term e := happ.stored
  rw [← hstored]
  refine (read_entry_congr fun b hlow hhigh => hcopy b hlow ?_).symm
  rwa [← read_entry_len, hstored] at hhigh

/-- What a follower that has a copy of the entry of a packet passes on. -/
theorem raw_calls
    (hsubmit : msg_handle true node_id p buf req_id connection_id = some (p', e, cur_rec))
    {log : dare_log_t} (hlog : LogOk log) (htakes : TakesEntry log e.data) (term : UInt64)
    {s : apply_t} (hfollower : IS_LEADER s.data = false) (hcopy : HasCopy s.log.entries log term e) :
    (apply_step s (entry_offset log term e)).calls = s.calls ++
      [.proxy_store_cmd (logged_entry log term e), .proxy_do_action connection_id proxy.RAW
        (UInt16.ofNat buf.length) (buf.take (UInt16.ofNat buf.length).toNat)] := by
  have hread := hcopy.read_entry_eq hlog htakes
  have hentry := msg_handle_entry hsubmit
  have hclient : is_client (entry_type s.log.entries (entry_offset log term e)) = true := by
    rw [(hasHeader_of_read_entry hread).type, hentry]
    rfl
  have hle : (UInt16.ofNat buf.length).toNat ≤ buf.length := by
    rw [UInt16.toNat_ofNat']
    exact Nat.mod_le _ _
  have hcut : UInt16.ofNat (buf.take (UInt16.ofNat buf.length).toNat).length =
      UInt16.ofNat buf.length := by
    rw [List.length_take, Nat.min_eq_left hle, UInt16.ofNat_toNat]
  rw [apply_step_follower hfollower hclient, hread, do_action_call_eq hread rfl]
  subst hentry
  simp only [sm_cmd_t.len, hcut]
  rfl

/-- A follower that has a copy of the entry of a packet passes on exactly the bytes and the length
    that were submitted, if and only if the length fits into 16 bits. -/
theorem raw_payload_is_intact (_htap : buf.length ≤ TAP_BUFSIZE)
    (hsubmit : msg_handle true node_id p buf req_id connection_id = some (p', e, cur_rec))
    {log : dare_log_t} (hlog : LogOk log) (htakes : TakesEntry log e.data) (term : UInt64)
    {s : apply_t} (hfollower : IS_LEADER s.data = false) (hcopy : HasCopy s.log.entries log term e) :
    (∃ entry size, (apply_step s (entry_offset log term e)).calls = s.calls ++
        [.proxy_store_cmd entry, .proxy_do_action connection_id proxy.RAW size buf] ∧
      size.toNat = buf.length) ↔ buf.length < 2 ^ 16 := by
  constructor
  · rintro ⟨-, size, -, hsize⟩
    rw [← hsize]
    exact size.toNat_lt
  · intro hshort
    have hlen : (UInt16.ofNat buf.length).toNat = buf.length := by
      rw [UInt16.toNat_ofNat']
      exact Nat.mod_eq_of_lt hshort
    refine ⟨logged_entry log term e, UInt16.ofNat buf.length, ?_, hlen⟩
    rw [raw_calls hsubmit hlog htakes term hfollower hcopy, hlen, List.take_length]

end payload

/-- A follower with the given log. -/
def follower (log : dare_log_t) : apply_t where
  data := { (started (mk_sid 1 true 1)).data with log := log }
  req_id := 0
  clt_id := 0
  die_af_commit := false
  last_applied_entry := ⟨0, 0, 0⟩
  last_cmt_write_csm_idx := 0
  running := true
  calls := []

/-- The queue entry of a packet whose `req_id` and `connection_id` happen to be zero. -/
def packet_entry (buf : List UInt8) : tailq_entry_t := ⟨.RAW, 0, 0, ⟨UInt16.ofNat buf.length, buf⟩⟩

/-- A follower with a copy of the new log into which the leader has put the packet. -/
def packet_follower (buf : List UInt8) : apply_t :=
  follower (log_append_entry log_new 1 (packet_entry buf).req_id (packet_entry buf).connection_id
    (packet_entry buf).data).1

theorem log_new_takes (data : log_data) : TakesEntry log_new data := by
  refine ⟨by decide, fun _ hheader => ?_⟩
  have hnot : ¬HeaderFits log_new log_new.end_ := by decide
  exact absurd hheader hnot

theorem follower_log (log : dare_log_t) : (follower log).log = log := rfl

theorem packet_follower_has_copy (buf : List UInt8) :
    HasCopy (packet_follower buf).log.entries log_new 1 (packet_entry buf) := by
  intro b _ _
  rw [packet_follower, follower_log]

theorem follower_not_leader (log : dare_log_t) : IS_LEADER (follower log).data = false := by
  have hother : decide (SID_GET_IDX (mk_sid 1 true 1) = 0) = false := by decide +kernel
  change (!IS_NONE (follower log).data && decide (SID_GET_IDX (mk_sid 1 true 1) = 0) &&
    SID_GET_L (mk_sid 1 true 1)) = false
  rw [hother, Bool.and_false, Bool.false_and]

theorem payload_of_one_byte :
    ∃ entry size, (apply_step (packet_follower [42]) (entry_offset log_new 1 (packet_entry [42]))).calls =
        [] ++ [.proxy_store_cmd entry, .proxy_do_action 0 proxy.RAW size [42]] ∧ size.toNat = 1 := by
  have hsubmit : msg_handle true 0 ⟨[], 0, 0, 0⟩ [42] 0 0 =
      some (⟨[], 0, 1, 0⟩, packet_entry [42], 1) := rfl
  exact (raw_payload_is_intact (by decide) hsubmit ⟨rfl, Nat.le_refl _⟩ (log_new_takes _) 1
    (follower_not_leader _) (packet_follower_has_copy [42])).mpr (by decide)

/-- A packet of 65536 bytes, which a tap device may deliver, reaches the follower without data. -/
theorem long_payload_is_lost :
    let buf := List.replicate 65536 (42 : UInt8)
    buf.length ≤ TAP_BUFSIZE ∧
      (apply_step (packet_follower buf) (entry_offset log_new 1 (packet_entry buf))).calls =
        [.proxy_store_cmd (logged_entry log_new 1 (packet_entry buf)),
          .proxy_do_action 0 proxy.RAW 0 []] := by
  intro buf
  have hlen : buf.length = 65536 := List.length_replicate
  have hsize : UInt16.ofNat buf.length = 0 := by rw [hlen]; rfl
  have hsubmit : msg_handle true 0 ⟨[], 0, 0, 0⟩ buf 0 0 = some (⟨[], 0, 1, 0⟩, packet_entry buf, 1) := rfl
  refine ⟨by rw [hlen]; decide, ?_⟩
  have hcalls := raw_calls hsubmit ⟨rfl, Nat.le_refl _⟩ (log_new_takes _) 1
    (s := packet_follower buf) (follower_not_leader _) (packet_follower_has_copy buf)
  rw [hcalls, hsize]
  rfl

end proxy
