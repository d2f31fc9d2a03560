import ReliableSocket.Dare.Log.Index
import ReliableSocket.Dare.Rc.Phase

open memory ring
open dare.log dare.server

namespace dare.rc

/-- The state in which a leader starts to replicate its log to server `i`. `F` is the log of the server
    when it voted: its commit offset `c` came with the vote ACK, or still has to come, and `ys` are its
    entries from there on, which it has published. In the log of the leader `count` of the `live` entries come before
    `c`; the ones after it match those of the server. -/
structure Starts (i c count : Nat) (F : dare_log_t) (ys live : List dare_log_entry_t) (s : State) :
    Prop where
  group : get_extended_group_size s.leader.cid ≤ MAX_SERVER_COUNT
  server : i < MAX_SERVER_COUNT
  readable : Readable s.leader.log live
  boundary : (c, count) ∈ log_positions s.leader.log
  vote_ack : s.leader.vote_ack i = c ∨ s.leader.vote_ack i = LOG_SIZE
  step : (s.leader.servers i).next_lr_step = .LR_GET_WRITE ∨
    (s.leader.servers i).next_lr_step = .LR_GET_NCE_LEN ∧ (s.leader.log_offsets i).commit = c
  posted : ∀ j, s.posted j = []
  len : F.len = s.leader.log.len
  commit : F.commit = c
  entries : (ys = [] ∧ F.end_ = F.len) ∨ Path F c ys
  published : log_entries_to_nc_buf F i = some (s.remote i)
  matching : LogMatching (live.drop count) ys

/-- The steps of a run in which log matching is kept and server `i` leaves its log to the leader: the
    leader appends where it has room, and never another entry with the index and term of one of
    `ys`. -/
def Matches (i c : Nat) (ys : List dare_log_entry_t) (s : State) : Action → Prop
  | .append req_id clt_id data =>
    RoomyAppend s.leader.log (SID_GET_TERM s.leader.sid) req_id clt_id data ∧
      ∀ y ∈ ys, y.idx = next_idx (append_prepare s.leader.log data) →
        y.term = SID_GET_TERM s.leader.sid →
        new_entry s.leader.log (SID_GET_TERM s.leader.sid) req_id clt_id data = y
  | .vote_ack j offset => j = i → offset = c
  | .remote j _ => j ≠ i
  | _ => True

/-- When the leader searches for the last matching entry, the end of its log is not followed by a
    stale header of an entry in `ys`. -/
def FreshEnd (i c : Nat) (ys : List dare_log_entry_t) (s : State) : Action → Prop
  | .log_adjustment j =>
    j = i → (s.leader.servers i).next_lr_step = .LR_SET_END → NoStaleHeader s.leader.log c ys
  | _ => True

/-- The steps after which replication is known to work. -/
def Replicates (i c : Nat) (ys : List dare_log_entry_t) (s : State) (a : Action) : Prop :=
  Matches i c ys s a ∧ FreshEnd i c ys s a ∧ ShortBuffers s a

/-- What such a run keeps, as long as no server has published too many entries. -/
structure Tracks (i c : Nat) (ys before es : List dare_log_entry_t) (s : State) : Prop where
  read : ReadableFrom s.leader.log before c es
  matching : LogMatching es ys
  len : (s.remote i).len = s.leader.log.len
  records : Records (s.remote i) i s.leader.log.len c ys
  vote_ack : s.leader.vote_ack i = c ∨ s.leader.vote_ack i = LOG_SIZE
  idle : (s.leader.servers i).send_flag = true → pending s i = []
  ids : ∀ wr ∈ pending s i, wr.wr_id = (s.leader.servers i).next_wr_id
  unsignaled : ∀ wr ∈ s.posted i, wr.signaled = false → ∃ offset, wr.operation = .write_commit offset
  phase : Phase i c ys es s.leader.log (s.remote i) (s.leader.servers i) (s.leader.log_offsets i)
    ((pending s i).map (·.operation))

section phase

variable {i c : Nat} {ys es : List dare_log_entry_t} {log remote : dare_log_t}
  {server server' : server_t} {offsets offsets' : log_offsets_t} {operations : List log_operation}

/-- The phase depends on three fields of the server. -/
theorem Phase.congr_server (hphase : Phase i c ys es log remote server offsets operations)
    (hstep : server'.next_lr_step = server.next_lr_step)
    (hcount : server'.send_count = server.send_count)
    (hcached : server'.cached_end_offset = server.cached_end_offset) :
    Phase i c ys es log remote server' offsets operations := by
  cases hphase with
  | get_write hat hheld hops => exact .get_write (hstep.trans hat) hheld hops
  | get_nce_len hat hheld hcommit hops => exact .get_nce_len (hstep.trans hat) hheld hcommit hops
  | get_nce hat hheld hcommit hlen hops => exact .get_nce (hstep.trans hat) hheld hcommit hlen hops
  | set_end hat hheld hne hrecords hops => exact .set_end (hstep.trans hat) hheld hne hrecords hops
  | update_log k n hat hkn hn hheld hend hwrites hsends hcopied =>
    refine .update_log k n (hstep.trans hat) hkn hn hheld hend hwrites ?_ ?_
    · rwa [hcount]
    · rwa [hcount, hcached]
  | update_end n hat hn hheld hat_end hops =>
    refine .update_end n (hstep.trans hat) hn hheld (hcached.trans hat_end) ?_
    rwa [hcached]

/-- While the log is updated, the phase does not depend on the remote commit offset. -/
theorem Phase.congr_commit (hphase : Phase i c ys es log remote server offsets operations)
    (hat : server.next_lr_step = .LR_UPDATE_LOG) (hend : offsets'.end_ = offsets.end_) :
    Phase i c ys es log remote server offsets' operations := by
  cases hphase with
  | update_log k n hstep hkn hn hheld hboundary hwrites hcount hcopied =>
    refine .update_log k n hstep hkn hn hheld ?_ hwrites hcount ?_
    · rwa [hend]
    · rwa [hend]
  | get_write hstep => rw [hat] at hstep; cases hstep
  | get_nce_len hstep => rw [hat] at hstep; cases hstep
  | get_nce hstep => rw [hat] at hstep; cases hstep
  | set_end hstep => rw [hat] at hstep; cases hstep
  | update_end n hstep => rw [hat] at hstep; cases hstep

/-- Moving the offsets of the remote log does not matter for its entries. -/
theorem Phase.congr_remote {remote' : dare_log_t}
    (hphase : Phase i c ys es log remote server offsets operations) (hmem : remote'.mem = remote.mem) :
    Phase i c ys es log remote' server offsets operations := by
  have hentries : remote'.entries = remote.entries := by
    funext b
    simp only [dare_log_t.entries, hmem]
  cases hphase with
  | get_write hat hheld hops => exact .get_write hat (by rwa [hentries]) hops
  | get_nce_len hat hheld hcommit hops => exact .get_nce_len hat (by rwa [hentries]) hcommit hops
  | get_nce hat hheld hcommit hlen hops => exact .get_nce hat (by rwa [hentries]) hcommit hlen hops
  | set_end hat hheld hne hrecords hops => exact .set_end hat (by rwa [hentries]) hne hrecords hops
  | update_log k n hat hkn hn hheld hend hwrites hsends hcopied =>
    refine .update_log k n hat hkn hn (by rwa [hentries]) hend hwrites hsends fun hne hparts => ?_
    obtain ⟨hcached, hcopied⟩ := hcopied hne hparts
    refine ⟨hcached, fun b hb hbetween hnear hrest => ?_⟩
    rw [hentries]
    exact hcopied b hb hbetween hnear hrest
  | update_end n hat hn hheld hcached hops => exact .update_end n hat hn (by rwa [hentries]) hcached hops

section inversion

variable (hphase : Phase i c ys es log remote server offsets operations)
include hphase

theorem Phase.of_get_write (hat : server.next_lr_step = .LR_GET_WRITE) :
    entry_format.Holds log.len remote.entries c ys := by
  cases hphase
  case get_write hheld _ => exact hheld
  all_goals simp_all

theorem Phase.of_get_nce_len (hat : server.next_lr_step = .LR_GET_NCE_LEN) :
    entry_format.Holds log.len remote.entries c ys ∧ offsets.commit = c := by
  cases hphase
  case get_nce_len hheld hcommit _ => exact ⟨hheld, hcommit⟩
  all_goals simp_all

theorem Phase.of_get_nce (hat : server.next_lr_step = .LR_GET_NCE) :
    entry_format.Holds log.len remote.entries c ys ∧ offsets.commit = c ∧
      nc_buf_len log i = ys.length := by
  cases hphase
  case get_nce hheld hcommit hlen _ => exact ⟨hheld, hcommit, hlen⟩
  all_goals simp_all

theorem Phase.of_set_end (hat : server.next_lr_step = .LR_SET_END) :
    entry_format.Holds log.len remote.entries c ys ∧ ys ≠ [] ∧ Records log i log.len c ys := by
  cases hphase
  case set_end hheld hne hrecords _ => exact ⟨hheld, hne, hrecords⟩
  all_goals simp_all

theorem Phase.of_update_log (hat : server.next_lr_step = .LR_UPDATE_LOG) :
    ∃ k ≤ es.length, entry_format.Holds log.len remote.entries c (es.take k) ∧
      Boundary log.len c es k offsets.end_ := by
  cases hphase
  case update_log k n _ hkn hn hheld hend _ _ _ => exact ⟨k, Nat.le_trans hkn hn, hheld, hend⟩
  all_goals simp_all

theorem Phase.of_update_end (hat : server.next_lr_step = .LR_UPDATE_END) :
    ∃ n ≤ es.length, entry_format.Holds log.len remote.entries c (es.take n) ∧
      server.cached_end_offset = entry_format.advance log.len c (es.take n) := by
  cases hphase
  case update_end n _ hn hheld hcached _ => exact ⟨n, hn, hheld, hcached⟩
  all_goals simp_all

end inversion
end phase

section tracks

variable {i c : Nat} {ys before es : List dare_log_entry_t} {s s' : State}

/-- A step that posts nothing for server `i` and does not touch its log. -/
theorem Tracks.quiet (htracks : Tracks i c ys before es s)
    (halike : Alike i s.leader.log s'.leader.log) (hremote : s'.remote i = s.remote i)
    (hpending : pending s' i = pending s i)
    (hunsignaled : ∀ wr ∈ s'.posted i, wr.signaled = false → wr ∈ s.posted i ∨
      ∃ offset, wr.operation = .write_commit offset)
    (hflag : (s'.leader.servers i).send_flag = (s.leader.servers i).send_flag)
    (hids : (s'.leader.servers i).next_wr_id = (s.leader.servers i).next_wr_id)
    (hack : s'.leader.vote_ack i = s.leader.vote_ack i)
    (hphase : Phase i c ys es s'.leader.log (s.remote i) (s'.leader.servers i)
      (s'.leader.log_offsets i) ((pending s i).map (·.operation))) :
    Tracks i c ys before es s' := by
  refine ⟨halike.readableFrom htracks.read, htracks.matching, ?_, ?_, (by rw [hack]; exact htracks.vote_ack),
    ?_, ?_, ?_, ?_⟩
  · rw [hremote, halike.len, htracks.len]
  · rw [hremote, halike.len]
    exact htracks.records
  · rw [hflag, hpending]
    exact htracks.idle
  · rw [hids, hpending]
    exact htracks.ids
  · intro wr hmem hsignaled
    exact (hunsignaled wr hmem hsignaled).elim (htracks.unsignaled wr · hsignaled) id
  · rw [hremote, hpending]
    exact hphase

/-- Steps that do not concern server `i`. -/
theorem Tracks.frame (htracks : Tracks i c ys before es s) (hslots : ys.length ≤ MAX_NC_ENTRIES)
    (halike : Alike i s.leader.log s'.leader.log) (hremote : s'.remote i = s.remote i)
    (hposted : s'.posted i = s.posted i)
    (hserver : ∃ count, s'.leader.servers i = { s.leader.servers i with fail_count := count })
    (hoffsets : s'.leader.log_offsets i = s.leader.log_offsets i)
    (hack : s'.leader.vote_ack i = s.leader.vote_ack i) : Tracks i c ys before es s' := by
  obtain ⟨count, hserver⟩ := hserver
  refine htracks.quiet halike hremote ?_ ?_ (by rw [hserver]) (by rw [hserver]) hack ?_
  · rw [pending, pending, hposted]
  · rw [hposted]
    exact fun wr hmem _ => .inl hmem
  · rw [hserver, hoffsets]
    exact (htracks.phase.alike hslots halike).congr_server rfl rfl rfl

theorem Tracks.post_other {j : Nat} {result : dare_server_data_t × List work_request}
    (htracks : Tracks i c ys before es s) (hslots : ys.length ≤ MAX_NC_ENTRIES) (hne : i ≠ j)
    (honly : Only j s.leader result.1) : Tracks i c ys before es (post s j result) := by
  refine htracks.frame hslots (honly.alike i) rfl (post_posted_ne s j result hne) ?_
    (honly.log_offsets i hne) (by rw [post_leader, honly.vote_ack])
  exact ⟨(s.leader.servers i).fail_count, by rw [post_leader, honly.servers i hne]⟩

theorem Tracks.post_nothing (htracks : Tracks i c ys before es s)
    (hslots : ys.length ≤ MAX_NC_ENTRIES) :
    Tracks i c ys before es (post s i (s.leader, [])) := by
  refine htracks.frame hslots (alike_commit i _ _) rfl ?_ ⟨(s.leader.servers i).fail_count, rfl⟩ rfl rfl
  rw [post_posted_self, List.append_nil]

theorem Tracks.posts {result : dare_server_data_t × List work_request} {server : server_t}
    {offsets : log_offsets_t} {commit : Nat} {operations : List log_operation}
    (htracks : Tracks i c ys before es s) (hslots : ys.length ≤ MAX_NC_ENTRIES)
    (hflag : (s.leader.servers i).send_flag = true)
    (hposts : Posts i s.leader result server offsets commit operations)
    (hphase : Phase i c ys es s.leader.log (s.remote i) server offsets operations) :
    Tracks i c ys before es (post s i result) := by
  have hidle := htracks.idle hflag
  have halike := hposts.only.alike i
  have hpending : pending (post s i result) i = result.2 := by
    rw [pending, post_posted_self, List.filter_append, ← pending, hidle, List.nil_append]
    rw [List.filter_eq_self, hposts.posted]
    simp
  have hops : result.2.map (·.operation) = operations := by
    rw [hposts.posted, List.map_map]
    exact List.map_id _
  refine ⟨halike.readableFrom htracks.read, htracks.matching, ?_, ?_, ?_, ?_, ?_, ?_, ?_⟩
  · rw [post_leader, post_remote, halike.len, htracks.len]
  · rw [post_leader, post_remote, halike.len]
    exact htracks.records
  · rw [post_leader, hposts.only.vote_ack]
    exact htracks.vote_ack
  · rw [post_leader, hposts.servers]
    simp
  · rw [hpending, post_leader, hposts.servers, hposts.posted]
    simp
  · rw [post_posted_self, hposts.posted]
    intro wr hmem hsignaled
    obtain hold | hnew := List.mem_append.mp hmem
    · exact htracks.unsignaled wr hold hsignaled
    · obtain ⟨_, -, rfl⟩ := List.mem_map.mp hnew
      cases hsignaled
  · rw [hpending, hops, post_leader, post_remote, hposts.servers, hposts.log_offsets]
    exact (hphase.alike hslots halike).congr_server rfl rfl rfl

/-- What the completion of the oldest request for server `i` does: one that is not signaled moves the remote
    commit offset, any other one moves the server on or makes the leader try again. -/
structure Dequeues (i : Nat) (success : Bool) (bytes : Nat) (wr : work_request) (rest : List work_request)
    (s s' : State) : Prop where
  posted : s.posted i = wr :: rest
  queue : s'.posted i = rest
  inside : ReadsInside i wr.operation
  logs : ∃ logs, logs = execute i wr.operation (if success then wr.operation.len else bytes) s.leader.log
    (s.remote i) ∧ s'.leader.log = logs.1 ∧ s'.remote i = logs.2
  vote_ack : s'.leader.vote_ack = s.leader.vote_ack
  log_offsets : s'.leader.log_offsets = s.leader.log_offsets
  server :
    (∃ offset, wr.operation = .write_commit offset) ∧ s'.leader.servers i = s.leader.servers i ∧
      pending s' i = pending s i ∨
    pending s i = wr :: pending s' i ∧ s'.leader.servers i =
      if success then lr_success (s.leader.servers i) else lr_failure (s.leader.servers i)

theorem Tracks.dequeues (htracks : Tracks i c ys before es s) (hsafe : Safe s) (success : Bool) (bytes : Nat) :
    complete s i success bytes = s ∨
      ∃ wr rest, Dequeues i success bytes wr rest s (complete s i success bytes) := by
  obtain heq | ⟨wr, rest, logs, hposted, hlogs, heq⟩ := complete_cases s i success bytes
  · exact .inl heq
  have hmem : wr ∈ s.posted i := by rw [hposted]; exact List.mem_cons_self ..
  obtain ⟨hconn, hinside⟩ := hsafe.queued i wr hmem
  refine .inr ⟨wr, rest, ?_⟩
  cases hsignaled : wr.signaled with
  | false =>
    rw [hsignaled, if_neg Bool.false_ne_true] at heq
    rw [heq]
    refine ⟨hposted, Function.update_self .., hinside, ⟨logs, hlogs, rfl, Function.update_self ..⟩, rfl, rfl,
      .inl ⟨?_, rfl, ?_⟩⟩
    · exact htracks.unsignaled wr hmem hsignaled
    · simp [pending, hposted, hsignaled]
  | true =>
    have hpending : pending s i = wr :: rest.filter (·.signaled) := by simp [pending, hposted, hsignaled]
    have hid : wr.wr_id = (s.leader.servers i).next_wr_id :=
      htracks.ids wr (by rw [hpending]; exact List.mem_cons_self ..)
    have hhandle : handle_lr_work_completion (s.leader.set_log logs.1) wr.wr_id success = _ :=
      handle_waited success hconn hid
    rw [hsignaled, if_pos rfl, hhandle] at heq
    rw [heq]
    refine ⟨hposted, Function.update_self .., hinside, ⟨logs, hlogs, rfl, Function.update_self ..⟩, rfl, rfl,
      .inr ⟨?_, set_server_self _ _ _⟩⟩
    simp [pending, hposted, hsignaled]

theorem Tracks.complete (htracks : Tracks i c ys before es s) (hsafe : Safe s)
    (hslots : ys.length ≤ MAX_NC_ENTRIES) (success : Bool) (bytes : Nat) :
    Tracks i c ys before es (complete s i success bytes) := by
  obtain heq | ⟨wr, rest, hdequeues⟩ := htracks.dequeues hsafe success bytes
  · rwa [heq]
  generalize rc.complete s i success bytes = s' at hdequeues ⊢
  have hinside := hdequeues.inside
  obtain ⟨logs, hlogs, hlog, hremote⟩ := hdequeues.logs
  have hregion := nc_buf_addr_le hinside.1
  obtain ⟨m, heq, hframe⟩ := execute_log_outside (if success then wr.operation.len else bytes) s.leader.log
    (s.remote i) hinside
  rw [← hlogs, ← hlog] at heq
  have hentries : s'.leader.log.entries = s.leader.log.entries := by
    funext b
    rw [heq]
    exact hframe _ (.inr (by omega))
  have hlen : s'.leader.log.len = s.leader.log.len := by rw [heq]
  have hread := readableFrom_congr htracks.read (by rw [heq]) (by rw [heq]) hlen hentries
  have hlen' : (s'.remote i).len = s'.leader.log.len := by
    rw [hlen, hremote, hlogs, execute_remote_len, htracks.len]
  have hrecords : Records (s'.remote i) i s'.leader.log.len c ys := by
    rw [hlen, hremote, hlogs]
    exact records_congr hslots (fun a _ hhigh => execute_remote_nc_buf (by omega)) htracks.records
  have hack : s'.leader.vote_ack i = c ∨ s'.leader.vote_ack i = LOG_SIZE := by
    rw [hdequeues.vote_ack]
    exact htracks.vote_ack
  have hunsignaled : ∀ wr' ∈ s'.posted i, wr'.signaled = false → ∃ offset, wr'.operation = .write_commit offset := by
    rw [hdequeues.queue]
    exact fun wr' hmem => htracks.unsignaled wr' (by rw [hdequeues.posted]; exact List.mem_cons_of_mem _ hmem)
  obtain ⟨⟨offset, hop⟩, hserver, hpending⟩ | ⟨hpending, hserver⟩ := hdequeues.server
  · refine ⟨hread, htracks.matching, hlen', hrecords, hack, ?_, ?_, hunsignaled, ?_⟩
    · rw [hserver, hpending]
      exact htracks.idle
    · rw [hserver, hpending]
      exact htracks.ids
    · rw [hserver, hpending, hdequeues.log_offsets, hlog, hremote, hlogs, hop]
      exact htracks.phase.congr_remote rfl
  · have hbusy : (s.leader.servers i).send_flag = false := by
      by_contra hflag
      have hidle := htracks.idle (by simpa using hflag)
      rw [hpending] at hidle
      cases hidle
    have hphase := htracks.phase
    rw [hpending, List.map_cons] at hphase
    refine ⟨hread, htracks.matching, hlen', hrecords, hack, ?_, fun wr' hmem => ?_, hunsignaled, ?_⟩
    · rw [hserver]
      exact fun hflag => List.map_eq_nil_iff.mp (hphase.idle hbusy success hflag)
    · rw [htracks.ids wr' (by rw [hpending]; exact List.mem_cons_of_mem _ hmem), hserver]
      cases success with
      | false => exact (lr_failure_kept _).2.symm
      | true => exact (lr_success_kept _).2.symm
    · rw [hserver, hdequeues.log_offsets, hlog, hremote, hlogs]
      cases success with
      | false => exact hphase.failure htracks.read bytes
      | true => exact hphase.success htracks.read htracks.records

/-- The search for the last matching entry finds a boundary of the leader's log. -/
theorem find_boundary {log : dare_log_t} (hread : ReadableFrom log before c es)
    (hmatch : LogMatching es ys) (hne : ys ≠ []) (hrecords : Records log i log.len c ys)
    (hstale : NoStaleHeader log c ys) :
    ∃ n ≤ es.length, es.take n = ys.take n ∧
      Boundary log.len c es n (log_find_remote_end_offset log i) := by
  obtain ⟨-, rfl, hempty, -, -⟩ | ⟨-, hpath, -⟩ := hread.paths
  · have hlen := hread.len
    rw [LOG_SIZE_eq] at hlen
    unfold log_find_remote_end_offset
    rw [hrecords.nc_len]
    cases ys with
    | nil => exact absurd rfl hne
    | cons y ys =>
      refine ⟨0, Nat.le_refl _, rfl, .inr ?_⟩
      exact find_end_empty hempty (by omega) (by omega) (hrecords.det 0 (by simp))
  · refine ⟨common_entries es ys, (common_entries_le es ys).1, common_entries_take es ys, ?_⟩
    rw [find_end_of_records hpath hne hread.len hmatch hrecords (hstale.not_matched hpath)]
    split
    · exact .inl rfl
    · exact .inr rfl

theorem Tracks.append {req_id : UInt64} {clt_id : UInt16} {data : log_data}
    (htracks : Tracks i c ys before es s) (hslots : ys.length ≤ MAX_NC_ENTRIES)
    (hi : i < MAX_SERVER_COUNT) (hok : Matches i c ys s (.append req_id clt_id data)) :
    ∃ x, Tracks i c ys before (es ++ [x]) (step s (.append req_id clt_id data)) := by
  obtain ⟨hroom, hnew⟩ := hok
  set term := SID_GET_TERM s.leader.sid with hterm
  obtain ⟨log', idx, happend⟩ : ∃ log' idx,
      log_append_entry s.leader.log term req_id clt_id data = (log', idx) := ⟨_, _, rfl⟩
  have hstep : step s (.append req_id clt_id data) = { s with leader := s.leader.set_log log' } := by
    simp only [step, ← hterm, happend]
  obtain ⟨hidx, hkept, hread, hagree⟩ := htracks.read.append hroom happend
  have hregion := nc_buf_addr_le hi
  refine ⟨⟨idx, term, req_id, clt_id, data⟩, ?_⟩
  rw [hstep]
  refine ⟨hread, ?_, htracks.len.trans hkept.len.symm, ?_, htracks.vote_ack, htracks.idle, htracks.ids,
    htracks.unsignaled, htracks.phase.mono hslots hkept.len (fun a _ _ => hkept.nc_buf a (by omega)) hagree _⟩
  · intro k x y hsame hx hy hidx_eq hterm_eq
    by_cases hk : k < es.length
    · rw [List.getElem?_append_left hk] at hx
      rw [List.take_append_of_le_length (Nat.le_of_lt hk)] at hsame
      exact htracks.matching k x y hsame hx hy hidx_eq hterm_eq
    · rw [List.getElem?_append_right (by omega)] at hx
      obtain rfl := List.mem_singleton.mp (List.mem_of_getElem? hx)
      have hmem := List.mem_of_getElem? hy
      have hsame := hnew y hmem (by rw [← hidx_eq]; exact hidx) hterm_eq.symm
      rw [← hsame, new_entry, ← hidx]
  · change Records (s.remote i) i log'.len c ys
    rw [hkept.len]
    exact htracks.records

theorem Tracks.log_adjustment (htracks : Tracks i c ys before es s)
    (hslots : ys.length ≤ MAX_NC_ENTRIES)
    (hstale : (s.leader.servers i).next_lr_step = .LR_SET_END → NoStaleHeader s.leader.log c ys) :
    Tracks i c ys before es (post s i (log_adjustment s.leader i)) := by
  have hphase := htracks.phase
  obtain ⟨hnone, -⟩ | ⟨hflag, hacked, hcases⟩ := log_adjustment_cases s.leader i
  · rw [hnone]
    exact htracks.post_nothing hslots
  rw [htracks.idle hflag, List.map_nil] at hphase
  obtain ⟨hat, hposts⟩ | ⟨hat, hposts⟩ | ⟨hat, hzero, heq⟩ | ⟨hat, hnonzero, hposts⟩ | ⟨hat, hposts⟩ :=
    hcases
  · obtain hheld := hphase.of_get_write hat
    rw [htracks.read.len] at hacked
    exact htracks.posts hslots hflag hposts
      (.get_nce_len rfl hheld (htracks.vote_ack.resolve_right hacked) (.inr rfl))
  · obtain ⟨hheld, hcommit⟩ := hphase.of_get_nce_len hat
    exact htracks.posts hslots hflag hposts (.get_nce_len hat hheld hcommit (.inr rfl))
  · -- nothing to adjust: the remote log ends at its commit offset
    obtain ⟨hheld, hcommit, -⟩ := hphase.of_get_nce hat
    rw [heq]
    refine htracks.quiet (alike_commit i _ _) rfl ?_ ?_ ?_ ?_ rfl ?_
    · simp [pending]
    · simp only [post_posted_self, List.append_nil]
      exact fun wr hmem _ => .inl hmem
    · simp
    · simp
    · rw [htracks.idle hflag]
      refine phase_update_log_idle (k := 0) ?_ (Nat.zero_le _) trivial (.inl ?_)
      · simp
      · simp only [post_leader, set_server_log_offsets, set_log_offsets_self]
        exact hcommit
  · obtain ⟨hheld, hcommit, hlen⟩ := hphase.of_get_nce hat
    refine htracks.posts hslots hflag hposts (.get_nce hat hheld hcommit hlen (.inr ⟨?_, ?_⟩))
    · intro hnil
      rw [hlen, hnil] at hnonzero
      exact hnonzero rfl
    · rw [hlen]
  · obtain ⟨hheld, hne, hrecords⟩ := hphase.of_set_end hat
    obtain ⟨n, hn, hsame, hend⟩ := find_boundary htracks.read htracks.matching hne hrecords (hstale hat)
    generalize log_find_remote_end_offset s.leader.log i = remote_end at hposts hend
    exact htracks.posts hslots hflag hposts
      (.set_end hat hheld hne hrecords (.inr ⟨rfl, n, hn, hsame, hend⟩))

theorem Tracks.update_remote_log (htracks : Tracks i c ys before es s)
    (hslots : ys.length ≤ MAX_NC_ENTRIES) :
    Tracks i c ys before es (post s i (update_remote_log s.leader i)) := by
  have hphase := htracks.phase
  obtain ⟨hnone, -⟩ | ⟨hflag, ⟨hat, hdistance, hposts⟩ | ⟨hat, hposts⟩⟩ := update_remote_log_cases s.leader i
  · rw [hnone]
    exact htracks.post_nothing hslots
  · rw [htracks.idle hflag, List.map_nil] at hphase
    obtain ⟨k, hk, hheld, hend⟩ := hphase.of_update_log hat
    refine htracks.posts hslots hflag hposts
      (.update_log k es.length hat hk (Nat.le_refl _) hheld hend ?_ ?_ ?_)
    · exact log_parts_writes
    · intro _
      dsimp only
      unfold log_parts
      split
      · simp
      · split <;> simp
    · intro _ _
      rw [List.take_length]
      refine ⟨?_, fun b hb hbetween _ hrest => ?_⟩
      · obtain ⟨-, -, hempty, -⟩ | ⟨-, hpath, -⟩ := htracks.read.paths
        · simp [log_offset_end_distance, hempty] at hdistance
        · exact hpath.reaches.symm
      · obtain ⟨offset, m, hmem, hin⟩ := log_parts_cover hb hbetween
        exact absurd hin (hrest offset m hmem)
  · rw [htracks.idle hflag, List.map_nil] at hphase
    obtain ⟨n, hn, hheld, hcached⟩ := hphase.of_update_end hat
    exact htracks.posts hslots hflag hposts (.update_end n hat hn hheld hcached (.inr ⟨rfl, rfl⟩))

theorem Tracks.update_remote_commit (htracks : Tracks i c ys before es s)
    (hslots : ys.length ≤ MAX_NC_ENTRIES) :
    Tracks i c ys before es (post s i (update_remote_commit s.leader i)) := by
  obtain hnone | ⟨hat, honly, hservers, hend, hlog, wr_id, offset, -, hposted⟩ :=
    update_remote_commit_cases s.leader i
  · rw [hnone]
    exact htracks.post_nothing hslots
  refine htracks.quiet (honly.alike i) rfl ?_ ?_ ?_ ?_ (by rw [post_leader, honly.vote_ack]) ?_
  · simp [pending, hposted]
  · rw [post_posted_self, hposted]
    intro wr hmem _
    obtain hold | hnew := List.mem_append.mp hmem
    · exact .inl hold
    · rw [List.mem_singleton.mp hnew]
      exact .inr ⟨offset, rfl⟩
  · rw [post_leader, hservers]
  · rw [post_leader, hservers]
  · rw [post_leader, hservers, hlog]
    exact htracks.phase.congr_commit hat hend

theorem Tracks.complete_other {j : Nat} (htracks : Tracks i c ys before es s) (hsafe : Safe s)
    (hslots : ys.length ≤ MAX_NC_ENTRIES) (hne : i ≠ j) (success : Bool) (bytes : Nat) :
    Tracks i c ys before es (rc.complete s j success bytes) := by
  obtain heq | ⟨wr, rest, logs, hposted, hlogs, heq⟩ := complete_cases s j success bytes
  · rwa [heq]
  obtain ⟨hconn, hinside⟩ := hsafe.queued j wr (by rw [hposted]; exact List.mem_cons_self ..)
  have halike : Alike i s.leader.log logs.1 := by
    rw [hlogs]
    exact execute_alike hinside (Ne.symm hne)
  have honly := handle_only (s.leader.set_log logs.1) wr.wr_id success
  rw [hconn] at honly
  rw [heq]
  refine htracks.frame hslots ?_ (Function.update_of_ne hne _ _) (Function.update_of_ne hne _ _)
    ⟨(s.leader.servers i).fail_count, ?_⟩ ?_ ?_
  all_goals dsimp only; split
  · rw [(handle_log _ _ _).1]
    exact halike
  · exact halike
  · exact honly.servers i hne
  · rfl
  · exact honly.log_offsets i hne
  · rfl
  · rw [honly.vote_ack]
    rfl
  · rfl

/-- Every step keeps the invariant; an append extends the entries of the leader. -/
theorem tracks_step {a : Action} (htracks : Tracks i c ys before es s) (hsafe : Safe s)
    (hi : i < MAX_SERVER_COUNT) (hslots : ys.length ≤ MAX_NC_ENTRIES) (hok : Matches i c ys s a)
    (hfresh : FreshEnd i c ys s a) :
    ∃ es', Tracks i c ys before es' (step s a) := by
  cases a with
  | append req_id clt_id data =>
    obtain ⟨x, htracks'⟩ := htracks.append hslots hi hok
    exact ⟨_, htracks'⟩
  | log_adjustment j =>
    refine ⟨es, ?_⟩
    simp only [step]
    split
    swap
    · exact htracks
    by_cases hj : i = j
    · subst hj
      exact htracks.log_adjustment hslots (hfresh rfl)
    · exact htracks.post_other hslots hj (log_adjustment_only _ _)
  | update_remote_log j =>
    refine ⟨es, ?_⟩
    simp only [step]
    split
    swap
    · exact htracks
    by_cases hj : i = j
    · subst hj
      exact htracks.update_remote_log hslots
    · exact htracks.post_other hslots hj (update_remote_log_only _ _)
  | update_commit =>
    refine ⟨es, ?_⟩
    simp only [step, update_commit]
    split
    · exact htracks.frame hslots (alike_commit i _ _) rfl rfl
        ⟨(s.leader.servers i).fail_count, rfl⟩ rfl rfl
    · exact htracks
  | update_remote_commit j =>
    refine ⟨es, ?_⟩
    simp only [step]
    split
    swap
    · exact htracks
    by_cases hj : i = j
    · subst hj
      exact htracks.update_remote_commit hslots
    · exact htracks.post_other hslots hj (update_remote_commit_only _ _)
  | complete j success bytes =>
    by_cases hj : i = j
    · subst hj
      exact ⟨es, htracks.complete hsafe hslots success bytes⟩
    · exact ⟨es, htracks.complete_other hsafe hslots hj success bytes⟩
  | vote_ack j offset =>
    refine ⟨es, htracks.read, htracks.matching, htracks.len, htracks.records, ?_, htracks.idle,
      htracks.ids, htracks.unsignaled, htracks.phase⟩
    by_cases hj : j = i
    · subst hj
      exact .inl ((Function.update_self _ _ _).trans (hok rfl))
    · simp only [step, Function.update_of_ne (Ne.symm hj)]
      exact htracks.vote_ack
  | fail_count j count =>
    refine ⟨es, htracks.frame hslots (alike_commit i _ _) rfl rfl ?_ rfl rfl⟩
    by_cases hj : j = i
    · subst hj
      exact ⟨count, set_server_self _ _ _⟩
    · exact ⟨(s.leader.servers i).fail_count, Function.update_of_ne (Ne.symm hj) _ _⟩
  | remote j log =>
    exact ⟨es, htracks.frame hslots (alike_commit i _ _) (Function.update_of_ne (Ne.symm hok) _ _) rfl
      ⟨(s.leader.servers i).fail_count, rfl⟩ rfl rfl⟩

/-- The log of a server that has published its entries still holds them. -/
theorem Starts.published_log {count : Nat} {F : dare_log_t} {live : List dare_log_entry_t}
    (hstarts : Starts i c count F ys live s) (hregion : nc_det_addr i ys.length ≤ ENTRIES_OFFSET) :
    (s.remote i).len = s.leader.log.len ∧ Records (s.remote i) i s.leader.log.len c ys ∧
      entry_format.Holds s.leader.log.len (s.remote i).entries c ys := by
  have hlen := hstarts.len
  obtain ⟨rfl, hempty⟩ | hpath := hstarts.entries
  · have hpublish := log_entries_to_nc_buf_empty i hempty
    rw [hstarts.published, Option.some.injEq] at hpublish
    rw [hpublish, ← hlen]
    exact ⟨rfl, records_empty F i _ c, trivial⟩
  · rw [← hstarts.commit] at hpath
    obtain ⟨m, hpublish, hentries, hrecords⟩ :=
      log_entries_to_nc_buf_path hpath hregion
    rw [hstarts.published, Option.some.injEq] at hpublish
    rw [hpublish, hentries, ← hlen, ← hstarts.commit]
    exact ⟨rfl, hrecords, hpath.holds⟩

theorem Starts.tracks {count : Nat} {F : dare_log_t} {live : List dare_log_entry_t}
    (hstarts : Starts i c count F ys live s) (hslots : ys.length ≤ MAX_NC_ENTRIES) :
    Safe s ∧ Tracks i c ys (live.take count) (live.drop count) s := by
  obtain ⟨hlen, hrecords, hheld⟩ := hstarts.published_log (nc_det_addr_fits hstarts.server hslots)
  have hpending : pending s i = [] := by rw [pending, hstarts.posted i, List.filter_nil]
  refine ⟨⟨hstarts.group, fun j wr hmem => ?_⟩, ?_⟩
  · rw [hstarts.posted j] at hmem
    cases hmem
  · refine ⟨readableFrom_of_mem_positions hstarts.readable hstarts.boundary, hstarts.matching, hlen,
      hrecords, hstarts.vote_ack, fun _ => hpending, ?_, ?_, ?_⟩
    · rw [hpending]
      exact fun _ hmem => absurd hmem (by simp)
    · rw [hstarts.posted i]
      exact fun _ hmem => absurd hmem (by simp)
    · rw [hpending]
      obtain hwrite | ⟨hnce, hcommit⟩ := hstarts.step
      · exact .get_write hwrite hheld rfl
      · exact .get_nce_len hnce hheld hcommit (.inl rfl)

theorem tracks_of_run {count : Nat} {F : dare_log_t} {live : List dare_log_entry_t}
    (hstarts : Starts i c count F ys live s) (hslots : ys.length ≤ MAX_NC_ENTRIES)
    (hrun : Run (Replicates i c ys) s s') :
    Safe s' ∧ ∃ es, Tracks i c ys (live.take count) es s' := by
  induction hrun with
  | start =>
    obtain ⟨hsafe, htracks⟩ := hstarts.tracks hslots
    exact ⟨hsafe, _, htracks⟩
  | step a _ hok ih =>
    obtain ⟨hsafe, es, htracks⟩ := ih
    obtain ⟨hmatches, hfresh, hshort⟩ := hok
    exact ⟨safe_step hsafe hshort, tracks_step htracks hsafe hstarts.server hslots hmatches hfresh⟩

/-- A log that holds a part of the leader's entries, with its end behind them, is read as this part. -/
theorem log_walk_of_holds {log L : dare_log_t} {n : Nat} (hread : ReadableFrom L before c es)
    (hlen : log.len = L.len) (hheld : entry_format.Holds L.len log.entries c (es.take n))
    (hend : log.end_ = entry_format.advance L.len c (es.take n)) :
    log_walk log (log.len + 1) c = some (es.take n, log.end_) := by
  have hc := start_le_of_readableFrom hread
  have hspan := span_lt_of_readableFrom hread n
  rw [← hlen] at hheld hend hspan hc
  cases hes : es.take n with
  | nil =>
    have hat : log.end_ = c := by rw [hend, hes]; rfl
    have hget : log_get_entry log c = none := by
      simp [log_get_entry, log_offset_end_distance, hat]
    simp only [log_walk, hget, hat]
  | cons x xs =>
    rw [hes] at hheld hend hspan
    have hlt : log.end_ < log.len := by
      rw [hend]
      exact RecordFormat.advance_lt (o := entry_format.next log.len c x) hheld.2.2.2 hheld.2.2.1
    have hpath : Path log c (x :: xs) := ⟨hlt, hc, hheld, hend.symm, hspan⟩
    have hlength := hpath.length_le
    unfold SIZEOF_ENTRY at hlength
    exact hpath.log_walk_eq (by omega)

end tracks

/-- The request that ends the update of server `i` sets the end offset of its log and nothing else. -/
theorem complete_update_end {i c bytes : Nat} {ys before es : List dare_log_entry_t} {s : State}
    (htracks : Tracks i c ys before es s)
    (hat : (s.leader.servers i).next_lr_step = .LR_UPDATE_END)
    (hdone : ((step s (.complete i true bytes)).leader.servers i).next_lr_step = .LR_UPDATE_LOG) :
    (step s (.complete i true bytes)).leader.log = s.leader.log ∧
      (step s (.complete i true bytes)).remote i =
        { s.remote i with end_ := (s.leader.servers i).cached_end_offset } := by
  simp only [step] at hdone ⊢
  obtain heq | ⟨wr, rest, logs, hposted, hlogs, heq⟩ := complete_cases s i true bytes
  · rw [heq, hat] at hdone
    cases hdone
  have hsignaled : wr.signaled = true := by
    by_contra hnot
    rw [heq] at hdone
    simp only [hnot, Bool.false_eq_true, if_false, set_log_servers, hat] at hdone
    cases hdone
  have hop : wr.operation = .write_end (s.leader.servers i).cached_end_offset := by
    have hpending : (pending s i).map (·.operation) =
        wr.operation :: (rest.filter (·.signaled)).map (·.operation) := by
      simp [pending, hposted, hsignaled]
    have hphase := htracks.phase
    rw [hpending] at hphase
    cases hphase
    case update_end hops =>
      obtain hnil | ⟨hops, -⟩ := hops
      · cases hnil
      · exact (List.cons.inj hops).1
    all_goals simp_all
  rw [hop] at hlogs
  rw [heq]
  simp only [hsignaled, if_true, (handle_log _ _ _).1, set_log_log, Function.update_self]
  rw [hlogs]
  exact ⟨rfl, rfl⟩

/-- Replication makes the logs equal. Take any run of the leader and its queues in which no server
    has published more entries than its buffer has slots, and a state in which the leader has
    written the entries and posted the new end offset for server `i`. Once this request has
    succeeded, a reader of the server's log that starts at the old commit offset `c` meets the same
    entries up to the new end as a reader of the leader's log up to the cached end offset. -/
theorem replication_makes_logs_equal {i c count bytes : Nat} {F : dare_log_t}
    {ys live : List dare_log_entry_t} {start s : State} (hstarts : Starts i c count F ys live start)
    (hslots : ys.length ≤ MAX_NC_ENTRIES)
    (hrun : Run (Replicates i c ys) start s)
    (hat : (s.leader.servers i).next_lr_step = .LR_UPDATE_END)
    (hdone : ((step s (.complete i true bytes)).leader.servers i).next_lr_step = .LR_UPDATE_LOG) :
    let s' := step s (.complete i true bytes)
    let cached_end := (s.leader.servers i).cached_end_offset
    (s'.remote i).end_ = cached_end ∧
      ∃ entries, log_walk (s'.remote i) ((s'.remote i).len + 1) c = some (entries, cached_end) ∧
        log_walk { s'.leader.log with end_ := cached_end } (s'.leader.log.len + 1) c =
          some (entries, cached_end) := by
  intro s' cached_end
  obtain ⟨-, es, htracks⟩ := tracks_of_run hstarts hslots hrun
  obtain ⟨hlog, hremote⟩ := complete_update_end htracks hat hdone
  obtain ⟨n, -, hheld, hcached⟩ := htracks.phase.of_update_end hat
  have hread := htracks.read
  have hend : (s'.remote i).end_ = cached_end := by rw [hremote]
  refine ⟨hend, es.take n, ?_, ?_⟩
  · rw [← hend]
    refine log_walk_of_holds hread ?_ ?_ (hend.trans hcached)
    · rw [hremote]
      exact htracks.len
    · rw [hremote]
      exact hheld
  · rw [hlog]
    exact log_walk_of_holds hread rfl
      (holds_take_of_readableFrom hread n) hcached

/-- A server that the leader is connected to and waits for nothing from. -/
def fresh_server : server_t where
  next_wr_id := ⟨0, 0⟩
  cached_end_offset := 0
  fail_count := 0
  next_lr_step := .LR_GET_WRITE
  send_flag := true
  send_count := 0
  rc_connected := true
  log_access := true

/-- Server 0 as the leader of a stable group of `size` servers that are all on. -/
def fresh_leader (size : UInt8) (term : Nat) (log : dare_log_t) (vote_ack : Nat → Nat) :
    dare_server_data_t where
  idx := 0
  cid := ⟨0, size, 0, CID_STABLE, UInt32.ofNat (2 ^ size.toNat - 1)⟩
  cid_offset := 0
  servers := fun _ => fresh_server
  sid := mk_sid term true 0
  vote_req := fun _ => ⟨0, 0, 0, ⟨0, 0, 0, 0, 0⟩⟩
  log_offsets := fun _ => ⟨0, 0⟩
  hb := fun _ => 0
  vote_ack := vote_ack
  vote_sid := fun _ => 0
  apply_offsets := fun _ => 0
  log := log
  ssn := 0
  latest_hb_received := 0
  hb_event := .hb_send_cb

/-- A leader with the entries `es` and a server with the entries `ys`, none of which is committed: the
    server has voted and published its entries. -/
theorem starts_of_entries {i : Nat} {es ys : List dare_log_entry_t} {s : State}
    (hgroup : get_extended_group_size s.leader.cid ≤ MAX_SERVER_COUNT) (hi : i < MAX_SERVER_COUNT)
    (hne : es ≠ []) (hidx : ∀ k (hk : k < es.length), es[k].idx.toNat = k + 1)
    (hsize : (es.map dare_log_entry_t.len).sum < LOG_SIZE)
    (hidx' : ∀ k (hk : k < ys.length), ys[k].idx.toNat = k + 1)
    (hsize' : (ys.map dare_log_entry_t.len).sum < LOG_SIZE) (hregion : nc_det_addr i ys.length ≤ ENTRIES_OFFSET)
    (hlog : s.leader.log = log_of es) (hack : s.leader.vote_ack i = 0)
    (hstep : (s.leader.servers i).next_lr_step = .LR_GET_WRITE) (hposted : ∀ j, s.posted j = [])
    (hremote : s.remote i = (log_entries_to_nc_buf (log_of ys) i).getD (log_of ys))
    (hmatch : LogMatching es ys) : Starts i 0 0 (log_of ys) ys es s := by
  obtain ⟨hrun, hhead, -⟩ := run_log_of es hidx hsize
  obtain ⟨hrun', -, hcommit', -⟩ := run_log_of ys hidx' hsize'
  have hpath := path_log_of hne hidx hsize
  have hentries : (ys = [] ∧ (log_of ys).end_ = (log_of ys).len) ∨ Path (log_of ys) 0 ys := by
    obtain rfl | hne' := eq_or_ne ys []
    · exact .inl ⟨rfl, rfl⟩
    · exact .inr (path_log_of hne' hidx' hsize')
  have hpublished : ∃ log, log_entries_to_nc_buf (log_of ys) i = some log := by
    obtain ⟨-, hempty⟩ | hpath' := hentries
    · exact ⟨_, log_entries_to_nc_buf_empty i hempty⟩
    · rw [← hcommit'] at hpath'
      obtain ⟨m, hfill, -⟩ := log_entries_to_nc_buf_path hpath' hregion
      exact ⟨_, hfill⟩
  have hlen : (log_of ys).len = s.leader.log.len := by
    rw [hlog, (indexed_of_short_run hrun).len, (indexed_of_short_run hrun').len]
  refine ⟨hgroup, hi, ?_, ?_, .inl hack, .inl hstep, hposted, hlen, hcommit', hentries, ?_, hmatch⟩
  · rw [hlog]
    exact readable_of_short_run hrun
  · rw [hlog]
    rw [← hhead] at hpath
    have hlength := hpath.length_le
    unfold SIZEOF_ENTRY at hlength
    have hat : entry_format.AtRecord (log_of es).len (log_of es).head es 0 0 := .inl hhead.symm
    exact hpath.mem_positions 0 ((log_of es).len + 1) (Nat.zero_le _) hat (by omega)
  · obtain ⟨log, hfill⟩ := hpublished
    rw [hremote, hfill]
    rfl

/-- The log of the leader of term 3 of three servers: what it has appended as the leader of term 2, and
    its blank entry. -/
def leader_entries : List dare_log_entry_t :=
  [⟨1, 2, 0, 0, .noop⟩, ⟨2, 2, 7, 4, zero_cmd 5 (by decide)⟩, ⟨3, 3, 0, 0, .noop⟩]

/-- Server 1 has what it has appended as the leader of term 1, server 2 nothing. -/
def server_entries (i : Nat) : List dare_log_entry_t :=
  if i = 1 then [⟨1, 1, 0, 0, .noop⟩, ⟨2, 1, 3, 5, zero_cmd 2 (by decide)⟩] else []

/-- None of these entries is committed when the leader is elected. -/
def diverged_start : State where
  leader := fresh_leader 3 3 (log_of leader_entries) fun _ => 0
  remote := fun i => (log_entries_to_nc_buf (log_of (server_entries i)) i).getD (log_of (server_entries i))
  posted := fun _ => []

/-- The steps of log adjustment and log update for server 1, up to the request that sets the end. -/
def diverged_actions : List Action :=
  [.log_adjustment 1, .complete 1 true 0, .log_adjustment 1, .complete 1 true 0, .log_adjustment 1,
    .complete 1 true 0, .update_remote_log 1, .complete 1 true 0, .update_remote_log 1]

theorem server_entries_cases (i : Nat) : (i = 1 ∧ server_entries i = server_entries 1) ∨ server_entries i = [] := by
  by_cases hi : i = 1
  · exact .inl ⟨hi, by rw [hi]⟩
  · exact .inr (if_neg hi)

theorem diverged_starts {i : Nat} (hi : i < MAX_SERVER_COUNT) :
    Starts i 0 0 (log_of (server_entries i)) (server_entries i) leader_entries diverged_start := by
  have hslots : (server_entries i).length ≤ MAX_NC_ENTRIES := by
    obtain ⟨-, heq⟩ | heq := server_entries_cases i <;> rw [heq] <;> decide
  refine starts_of_entries (by decide) hi (by simp [leader_entries]) (by decide) (by decide) ?_ ?_
    (nc_det_addr_fits hi hslots) rfl rfl rfl (fun _ => rfl) rfl ?_
  all_goals obtain ⟨-, heq⟩ | heq := server_entries_cases i
  all_goals rw [heq]
  · decide
  · decide
  · decide
  · decide
  · exact logMatching_of_term_ne _ _ (by decide)
  · exact logMatching_nil _

/-- A header that fits at the end of the log is no stale one. -/
theorem noStaleHeader_of_fits {log : dare_log_t} (c : Nat) (ys : List dare_log_entry_t)
    (hfits : HeaderFits log log.end_) : NoStaleHeader log c ys := by
  unfold HeaderFits at hfits
  intro k y stop _ _ hshort
  omega

theorem diverged_allOk :
    run.AllOk step (Replicates 1 0 (server_entries 1)) diverged_start diverged_actions := by
  have hother : True ∧ True ∧ True := ⟨trivial, trivial, trivial⟩
  simp only [diverged_actions, run.AllOk, and_true]
  refine ⟨⟨trivial, fun _ _ => noStaleHeader_of_fits _ _ ?_, fun _ => ?_⟩, hother,
    ⟨trivial, fun _ _ => noStaleHeader_of_fits _ _ ?_, fun _ => ?_⟩, hother,
    ⟨trivial, fun _ _ => noStaleHeader_of_fits _ _ ?_, fun _ => ?_⟩, hother, hother, hother, hother⟩
  all_goals decide +kernel

theorem diverged_log_replaced :
    let s := run.steps step diverged_start diverged_actions
    let s' := step s (.complete 1 true 0)
    let cached_end := (s.leader.servers 1).cached_end_offset
    log_walk (diverged_start.remote 1) (LOG_SIZE + 1) 0 = some (server_entries 1, 98) ∧
      cached_end = 149 ∧ (s'.remote 1).end_ = cached_end ∧
      ∃ entries, log_walk (s'.remote 1) ((s'.remote 1).len + 1) 0 = some (entries, cached_end) ∧
        log_walk { s'.leader.log with end_ := cached_end } (s'.leader.log.len + 1) 0 =
          some (entries, cached_end) :=
  ⟨by decide +kernel, by decide +kernel,
    replication_makes_logs_equal (diverged_starts (by decide)) (by decide)
      (run_steps .start diverged_allOk) (by decide +kernel) (by decide +kernel)⟩

end dare.rc
