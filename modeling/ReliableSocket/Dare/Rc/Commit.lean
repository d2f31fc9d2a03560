import ReliableSocket.Dare.Rc.Counting

open memory ring
open dare.log dare.server

namespace dare.rc

/-- A new leader, which has appended a blank entry of its term to the entries `old`. The logs of the
    other servers are as they were when these servers voted, before there was an entry of this term. -/
structure Elected (c count : Nat → Nat) (F : Nat → dare_log_t) (ys : Nat → List dare_log_entry_t)
    (old : List dare_log_entry_t) (blank : dare_log_entry_t) (s : State) : Prop where
  group : get_extended_group_size s.leader.cid ≤ MAX_SERVER_COUNT
  readable : Readable s.leader.log (old ++ [blank])
  posted : ∀ i, s.posted i = []
  commit : ∃ k, (s.leader.log.commit, k) ∈ log_positions s.leader.log
  term : blank.term = SID_GET_TERM s.leader.sid
  starts : ∀ i, Peer s i → Starts i (c i) (count i) (F i) (ys i) (old ++ [blank]) s
  slots : ∀ i, Peer s i → (ys i).length ≤ MAX_NC_ENTRIES
  before : ∀ i, Peer s i → count i ≤ old.length
  earlier : ∀ i, Peer s i → ∀ y ∈ ys i, y.term ≠ SID_GET_TERM s.leader.sid

/-- When the leader searches for the last entry that it shares with a server, none of the entries that
    the server has published is one of the leader's entries that are not committed. -/
def NotShared (ys : Nat → List dare_log_entry_t) (s : State) : Action → Prop
  | .log_adjustment i => (s.leader.servers i).next_lr_step = .LR_SET_END →
    ∀ es stop, log_walk s.leader.log (s.leader.log.len + 1) s.leader.log.commit = some (es, stop) →
      ∀ x ∈ es, ∀ y ∈ ys i, ¬(x.idx = y.idx ∧ x.term = y.term)
  | _ => True

/-- The steps of a new leader: it appends where its log has room, a vote ACK that comes late has the commit
    offset of its server, and the servers leave their logs to the leader. -/
def ReplicatesAll (c : Nat → Nat) (s : State) : Action → Prop
  | .append req_id clt_id data =>
    RoomyAppend s.leader.log (SID_GET_TERM s.leader.sid) req_id clt_id data
  | .vote_ack i offset => Peer s i → offset = c i
  | .remote i _ => ¬Peer s i
  | _ => True

/-- What a run keeps. The leader has the entries `live`, those from number `blank` on being of its own
    term. -/
structure Counted (c count : Nat → Nat) (ys : Nat → List dare_log_entry_t) (blank : Nat)
    (live : List dare_log_entry_t) (s : State) : Prop where
  safe : Safe s
  len : s.leader.log.len = LOG_SIZE
  path : Path s.leader.log s.leader.log.head live
  pos : 0 < blank
  le : blank ≤ live.length
  terms : ∀ k x, blank ≤ k + 1 → live[k]? = some x → x.term = SID_GET_TERM s.leader.sid
  slots : ∀ i, Peer s i → (ys i).length ≤ MAX_NC_ENTRIES
  before : ∀ i, Peer s i → count i < blank
  earlier : ∀ i, Peer s i → ∀ y ∈ ys i, y.term ≠ SID_GET_TERM s.leader.sid
  tracks : ∀ i, Peer s i → Tracks i (c i) (ys i) (live.take (count i)) (live.drop (count i)) s
  acks : ∀ i, Peer s i → At s.leader.log live (count i) (c i)

/-- The part of it that is about counting: the leader has committed `commit` entries, and the offsets of the
    servers are those of committed entries or have at least `bound` entries before them. -/
structure Committed (count : Nat → Nat) (bound commit : Nat) (live : List dare_log_entry_t)
    (s : State) : Prop where
  at_commit : At s.leader.log live commit s.leader.log.commit
  servers : ∀ i, Peer s i → PeerCount (count i) commit bound s.leader.log live (s.leader.servers i)
    (s.leader.log_offsets i) (pending s i ≠ [])

section counted

variable {c count : Nat → Nat} {ys : Nat → List dare_log_entry_t} {blank bound commit : Nat}
  {live : List dare_log_entry_t} {s : State} {a : Action}

theorem post_only {j : Nat} {result : dare_server_data_t × List work_request} (honly : Only j s.leader result.1)
    (p : Prop) [Decidable p] : Only j s.leader (if p then post s j result else s).leader := by
  split
  · exact honly
  · exact Only.refl _ _

theorem step_kept (s : State) (a : Action) : (step s a).leader.idx = s.leader.idx ∧
    (step s a).leader.cid = s.leader.cid ∧ (step s a).leader.sid = s.leader.sid := by
  have hkept {j : Nat} {data : dare_server_data_t} (honly : Only j s.leader data) :
      data.idx = s.leader.idx ∧ data.cid = s.leader.cid ∧ data.sid = s.leader.sid :=
    ⟨honly.idx, honly.cid, honly.sid⟩
  cases a with
  | append req_id clt_id data => exact ⟨rfl, rfl, rfl⟩
  | log_adjustment j => exact hkept (post_only (log_adjustment_only _ _) _)
  | update_remote_log j => exact hkept (post_only (update_remote_log_only _ _) _)
  | update_commit =>
    simp only [step, update_commit]
    split <;> exact ⟨rfl, rfl, rfl⟩
  | update_remote_commit j => exact hkept (post_only (update_remote_commit_only _ _) _)
  | complete j success bytes =>
    simp only [step]
    obtain heq | ⟨wr, rest, logs, -, -, heq⟩ := complete_cases s j success bytes
    · rw [heq]
      exact ⟨rfl, rfl, rfl⟩
    · rw [heq]
      have honly := handle_only (s.leader.set_log logs.1) wr.wr_id success
      dsimp only
      split
      · exact ⟨honly.idx, honly.cid, honly.sid⟩
      · exact ⟨rfl, rfl, rfl⟩
  | vote_ack j offset => exact ⟨rfl, rfl, rfl⟩
  | fail_count j n => exact ⟨rfl, rfl, rfl⟩
  | remote j log => exact ⟨rfl, rfl, rfl⟩

theorem peer_step {i : Nat} : Peer (step s a) i ↔ Peer s i := by
  obtain ⟨hidx, hcid, -⟩ := step_kept s a
  rw [Peer, Peer, hidx, hcid]

/-- All steps but an append leave the entries and the ends of the leader's log alone. -/
theorem step_log (hsafe : Safe s) (hother : ∀ req_id clt_id data, a ≠ .append req_id clt_id data) :
    (step s a).leader.log.head = s.leader.log.head ∧ (step s a).leader.log.end_ = s.leader.log.end_ ∧
      (step s a).leader.log.len = s.leader.log.len ∧
      (step s a).leader.log.entries = s.leader.log.entries := by
  have hkept {j : Nat} {data : dare_server_data_t} (honly : Only j s.leader data) :
      data.log.head = s.leader.log.head ∧ data.log.end_ = s.leader.log.end_ ∧
        data.log.len = s.leader.log.len ∧ data.log.entries = s.leader.log.entries := by
    have halike := honly.alike 0
    exact ⟨halike.head, halike.end_, halike.len, halike.entries⟩
  cases a with
  | append req_id clt_id data => exact absurd rfl (hother req_id clt_id data)
  | log_adjustment j => exact hkept (post_only (log_adjustment_only _ _) _)
  | update_remote_log j => exact hkept (post_only (update_remote_log_only _ _) _)
  | update_commit =>
    simp only [step, update_commit]
    split <;> exact ⟨rfl, rfl, rfl, rfl⟩
  | update_remote_commit j => exact hkept (post_only (update_remote_commit_only _ _) _)
  | complete j success bytes =>
    simp only [step]
    obtain heq | ⟨wr, rest, logs, hposted, hlogs, heq⟩ := complete_cases s j success bytes
    · rw [heq]
      exact ⟨rfl, rfl, rfl, rfl⟩
    · obtain ⟨-, hinside⟩ := hsafe.queued j wr (by rw [hposted]; exact List.mem_cons_self ..)
      obtain ⟨m, hlog, hframe⟩ := execute_log_outside _ _ _ hinside
      rw [← hlogs] at hlog
      have hleader : (complete s j success bytes).leader.log = { s.leader.log with mem := m } := by
        rw [heq, ← hlog]
        dsimp only
        split
        · exact (handle_log _ _ _).1
        · rfl
      rw [hleader]
      refine ⟨rfl, rfl, rfl, ?_⟩
      funext b
      exact hframe _ (.inr (Nat.le_trans (nc_buf_addr_le hinside.1) (Nat.le_add_right _ _)))
  | vote_ack j offset => exact ⟨rfl, rfl, rfl, rfl⟩
  | fail_count j n => exact ⟨rfl, rfl, rfl, rfl⟩
  | remote j log => exact ⟨rfl, rfl, rfl, rfl⟩

theorem path_unique {log : dare_log_t} {offset : Nat} {es es' : List dare_log_entry_t}
    (hpath : Path log offset es) (hpath' : Path log offset es') : es = es' := by
  have hwalk : log_walk log (2 * (es.length + es'.length) + 1) offset = some (es, log.end_) :=
    hpath.log_walk_eq (by omega)
  rw [hpath'.log_walk_eq (by omega)] at hwalk
  exact (Prod.mk.inj (Option.some.inj hwalk)).1.symm

/-- A step extends the entries of the leader by what it appends, which is of its own term. -/
theorem path_step (hsafe : Safe s) (hlen : s.leader.log.len = LOG_SIZE)
    (hpath : Path s.leader.log s.leader.log.head live) (hok : ReplicatesAll c s a) :
    ∃ rest, Path (step s a).leader.log (step s a).leader.log.head (live ++ rest) ∧
      (step s a).leader.log.len = s.leader.log.len ∧ (step s a).leader.log.head = s.leader.log.head ∧
      (∀ x ∈ rest, x.term = SID_GET_TERM s.leader.sid) ∧
      ((∃ req_id clt_id data, a = .append req_id clt_id data) ∨ rest = []) := by
  by_cases happend : ∃ req_id clt_id data, a = .append req_id clt_id data
  · obtain ⟨req_id, clt_id, data, rfl⟩ := happend
    set term := SID_GET_TERM s.leader.sid
    obtain ⟨log', idx, happ⟩ : ∃ log' idx,
        log_append_entry s.leader.log term req_id clt_id data = (log', idx) := ⟨_, _, rfl⟩
    have hstep : (step s (.append req_id clt_id data)).leader.log = log' := by
      change (log_append_entry s.leader.log term req_id clt_id data).1 = log'
      rw [happ]
    have hread : Readable s.leader.log live := ⟨hlen, .inr hpath⟩
    obtain ⟨-, happended, hnext, hspan⟩ := roomy_appended hread hok happ
    rw [hstep, happended.head]
    refine ⟨_, hpath.appended happended (hspan hpath) hnext, happended.len, rfl, ?_, .inl ⟨_, _, _, rfl⟩⟩
    simp
  · simp only [not_exists] at happend
    obtain ⟨hhead, hend, hlen', hentries⟩ := step_log hsafe happend
    refine ⟨[], ?_, hlen', hhead, by simp, .inr rfl⟩
    rw [List.append_nil, hhead]
    exact hpath.congr_log hend hlen' hentries

/-- The entries of the leader from the commit offset of each server on are followed by all of them. -/
theorem Tracks.of_path {i c count : Nat} {ys rest : List dare_log_entry_t} {s' : State}
    (htracks : ∃ es, Tracks i c ys (live.take count) es s') (hcount : count ≤ live.length)
    (hpath : Path s'.leader.log s'.leader.log.head (live ++ rest)) :
    Tracks i c ys ((live ++ rest).take count) ((live ++ rest).drop count) s' := by
  obtain ⟨es, htracks⟩ := htracks
  have hlength : (live.take count).length = count := by
    rw [List.length_take]
    omega
  obtain ⟨-, hempty, -⟩ | hpath' := htracks.read.readable.path
  · have hlt := hpath.end_lt
    omega
  · have hsame := path_unique hpath' hpath
    rw [← hsame, List.take_left' hlength, List.drop_left' hlength]
    exact htracks

/-- A server has not published all entries of the leader: the last one is of the leader's own term. -/
theorem Counted.parts (hcounted : Counted c count ys blank live s) {i n : Nat} (hi : Peer s i)
    (hsame : (live.drop (count i)).take n = (ys i).take n) : n < (live.drop (count i)).length := by
  have hbefore := hcounted.before i hi
  have hle := hcounted.le
  have hlength : (live.drop (count i)).length = live.length - count i := List.length_drop
  by_contra hall
  have hlast : live[live.length - 1]? = some live[live.length - 1] :=
    List.getElem?_eq_getElem (by omega)
  have hmem : live[live.length - 1] ∈ (live.drop (count i)).take n := by
    rw [List.take_of_length_le (by omega)]
    refine List.mem_of_getElem? (i := live.length - 1 - count i) ?_
    rw [List.getElem?_drop, Nat.add_sub_cancel' (by omega)]
    exact hlast
  rw [hsame] at hmem
  exact hcounted.earlier i hi _ (List.mem_of_mem_take hmem) (hcounted.terms _ _ (by omega) hlast)

/-- The leader's entries from the commit offset of a server on. -/
theorem Counted.path_from (hcounted : Counted c count ys blank live s) {i : Nat} (hi : Peer s i) :
    Path s.leader.log (c i) (live.drop (count i)) := by
  obtain ⟨-, -, hempty, -⟩ | ⟨-, hpath, -⟩ := (hcounted.tracks i hi).read.paths
  · have hlt := hcounted.path.end_lt
    omega
  · exact hpath

/-- So a stale header behind the end of the leader's log is never reached. -/
theorem Counted.fresh (hcounted : Counted c count ys blank live s) {i : Nat} (hi : Peer s i) :
    NoStaleHeader s.leader.log (c i) (ys i) := by
  intro k y stop _ hwalk
  have hpath := hcounted.path_from hi
  have hlength := hpath.length_le
  unfold SIZEOF_ENTRY at hlength
  rw [hpath.log_walk_eq (by omega)] at hwalk
  have hall : live.drop (count i) = (ys i).take k := (Prod.mk.inj (Option.some.inj hwalk)).1
  have hparts := hcounted.parts (n := (live.drop (count i)).length) hi <| by
    rw [List.take_length, hall, List.length_take, List.take_eq_take_iff]
    omega
  exact absurd hparts (Nat.lt_irrefl _)

/-- What the steps of a new leader mean for one server. -/
theorem Counted.matches_of_replicates (hcounted : Counted c count ys blank live s) {i : Nat} (hi : Peer s i)
    (hok : ReplicatesAll c s a) : Matches i (c i) (ys i) s a := by
  cases a with
  | append req_id clt_id data =>
    exact ⟨hok, fun y hy _ hterm => absurd hterm (hcounted.earlier i hi y hy)⟩
  | vote_ack j offset =>
    rintro rfl
    exact hok hi
  | remote j log =>
    rintro rfl
    exact hok hi
  | _ => trivial

theorem Counted.short (hcounted : Counted c count ys blank live s) (a : Action) : ShortBuffers s a := by
  cases a with
  | log_adjustment j =>
    intro hj hat
    rw [((hcounted.tracks j hj).phase.of_get_nce hat).2.2]
    exact hcounted.slots j hj
  | _ => trivial

theorem Counted.step (hcounted : Counted c count ys blank live s) (hok : ReplicatesAll c s a) :
    ∃ rest, Counted c count ys blank (live ++ rest) (step s a) ∧
      (step s a).leader.log.len = s.leader.log.len ∧ (step s a).leader.log.head = s.leader.log.head ∧
      ((∃ req_id clt_id data, a = .append req_id clt_id data) ∨ rest = []) := by
  obtain ⟨rest, hpath, hlen, hhead, hterms, hrest⟩ :=
    path_step hcounted.safe hcounted.len hcounted.path hok
  obtain ⟨hidx, hcid, hsid⟩ := step_kept s a
  have hle := hcounted.le
  refine ⟨rest, ⟨safe_step hcounted.safe (hcounted.short a), hlen.trans hcounted.len, hpath, hcounted.pos, ?_, ?_,
    ?_, ?_, ?_, ?_, ?_⟩, hlen, hhead, hrest⟩
  · rw [List.length_append]
    omega
  · intro k x hk hx
    rw [hsid]
    by_cases hold : k < live.length
    · rw [List.getElem?_append_left hold] at hx
      exact hcounted.terms k x hk hx
    · rw [List.getElem?_append_right (by omega)] at hx
      exact hterms x (List.mem_of_getElem? hx)
  · exact fun i hi => hcounted.slots i (peer_step.mp hi)
  · exact fun i hi => hcounted.before i (peer_step.mp hi)
  · rw [hsid]
    exact fun i hi => hcounted.earlier i (peer_step.mp hi)
  · intro i hi
    have hpeer := peer_step.mp hi
    have hserver : i < MAX_SERVER_COUNT := Nat.lt_of_lt_of_le hpeer.2 hcounted.safe.group
    have hfresh : FreshEnd i (c i) (ys i) s a := by
      cases a with
      | log_adjustment j => exact fun _ _ => hcounted.fresh hpeer
      | _ => trivial
    exact Tracks.of_path (tracks_step (hcounted.tracks i hpeer) hcounted.safe hserver
      (hcounted.slots i hpeer) (hcounted.matches_of_replicates hpeer hok) hfresh) (hcounted.acks i hpeer).1 hpath
  · exact fun i hi => (hcounted.acks i (peer_step.mp hi)).mono hlen hhead rest

theorem Counted.raised (hcounted : Counted c count ys blank live s)
    (hcommit : At s.leader.log live commit s.leader.log.commit) {i : Nat} (hi : Peer s i)
    (hack : s.leader.vote_ack i ≠ s.leader.log.len) :
    ∃ commit', commit ≤ commit' ∧ count i ≤ commit' ∧ At s.leader.log live commit' (raised_commit s.leader i) ∧
      AtOrBefore s.leader.log s.leader.log.commit (raised_commit s.leader i) := by
  rw [hcounted.len] at hack
  have hat := hcounted.acks i hi
  rw [← (hcounted.tracks i hi).vote_ack.resolve_right hack] at hat
  unfold raised_commit
  split
  · rename_i hlarger
    exact ⟨count i, hcommit.le_of_larger hcounted.path hat hlarger, Nat.le_refl _, hat,
      hcommit.before_of_larger hcounted.path hat hlarger⟩
  · rename_i hlarger
    refine ⟨commit, Nat.le_refl _, ?_, hcommit, Nat.le_refl _⟩
    by_contra hlt
    exact hlarger (hcommit.larger hcounted.path hat (by omega))

/-- What is found at a boundary, be it an entry or a header, is at a boundary. -/
theorem atRecord_of_boundary {log : dare_log_t} {k n b r : Nat}
    (hholds : entry_format.Holds log.len log.entries log.head live)
    (hat : entry_format.AtRecord log.len log.head live k b)
    (hn : n < (live.drop k).length) (hboundary : Boundary log.len b (live.drop k) n r) :
    entry_format.AtRecord log.len log.head live (k + n) r := by
  have hadvance := hat.advance hholds (Nat.le_of_lt hn)
  obtain rfl | rfl := hboundary
  · exact hadvance
  unfold met_offset
  split
  · exact hadvance
  · rename_i hheader
    have hlt : k + n < live.length := by
      rw [List.length_drop] at hn
      omega
    have hx : live[k + n]? = some live[k + n] := List.getElem?_eq_getElem hlt
    have hsize := live[k + n].le_len
    have hcases := entry_format.write_cases log.len
      (entry_format.advance log.len log.head (live.take (k + n))) live[k + n]
    rw [entry_size] at hcases
    refine .inr ⟨live[k + n], hx, ?_⟩
    obtain heq | ⟨y, hy, heq⟩ := hadvance
    · omega
    · obtain rfl : live[k + n] = y := Option.some.inj (hx.symm.trans hy)
      omega

/-- The offset that log adjustment finds is a boundary of the leader's log, up to which the leader has the
    entries that the server has published. -/
theorem Counted.found (hcounted : Counted c count ys blank live s) {i : Nat} (hi : Peer s i)
    (hstep : (s.leader.servers i).next_lr_step = .LR_SET_END) :
    ∃ n, (live.drop (count i)).take n = (ys i).take n ∧
      At s.leader.log live (count i + n) (log_find_remote_end_offset s.leader.log i) := by
  have htracks := hcounted.tracks i hi
  obtain ⟨-, hne, hrecords⟩ := htracks.phase.of_set_end hstep
  obtain ⟨n, hn, hsame, hboundary⟩ :=
    find_boundary htracks.read htracks.matching hne hrecords (hcounted.fresh hi)
  have hcount := (hcounted.acks i hi).1
  rw [List.length_drop] at hn
  refine ⟨n, hsame, by omega, ?_⟩
  exact atRecord_of_boundary hcounted.path.holds (hcounted.acks i hi).2 (hcounted.parts hi hsame) hboundary

/-- It does not count entries of earlier terms. -/
theorem Counted.find (hcounted : Counted c count ys blank live s)
    (hcommitted : Committed count blank commit live s) {i : Nat} (hi : Peer s i)
    (hstep : (s.leader.servers i).next_lr_step = .LR_SET_END) (hshared : NotShared ys s (.log_adjustment i)) :
    Counts s.leader.log live commit blank (log_find_remote_end_offset s.leader.log i) := by
  obtain ⟨n, hsame, hat⟩ := hcounted.found hi hstep
  have hle := hat.1
  have hcount := (hcommitted.servers i hi).set_end hstep |>.1
  refine ⟨count i + n, hat, .inl ?_⟩
  by_contra hlt
  have hx : live[count i + (n - 1)]? = some live[count i + (n - 1)] :=
    List.getElem?_eq_getElem (by omega)
  have hpath := hcounted.path.at_record hcommitted.at_commit.1 hcommitted.at_commit.2
  have hfuel := hpath.length_le
  unfold SIZEOF_ENTRY at hfuel
  have hwalk : log_walk s.leader.log (s.leader.log.len + 1) _ = some _ :=
    hpath.log_walk_eq (by omega)
  refine hshared hstep _ _ hwalk live[count i + (n - 1)] ?_ live[count i + (n - 1)] ?_ ⟨rfl, rfl⟩
  · refine List.mem_of_getElem? (i := count i + (n - 1) - commit) ?_
    rw [List.getElem?_drop, Nat.add_sub_cancel' (by omega)]
    exact hx
  · refine List.mem_of_mem_take (i := n) ?_
    rw [← hsame]
    refine List.mem_of_getElem? (i := n - 1) ?_
    rw [List.getElem?_take_of_lt (by omega), List.getElem?_drop]
    exact hx

/-- A step for server `j` that moves the commit offset of the leader at most forward. -/
theorem Committed.post {j commit' : Nat} {result : dare_server_data_t × List work_request}
    (hcommitted : Committed count bound commit live s) (honly : Only j s.leader result.1)
    (hcommit : commit ≤ commit') (hat : At s.leader.log live commit' result.1.log.commit)
    (hself : Peer s j → PeerCount (count j) commit' bound s.leader.log live (result.1.servers j)
      (result.1.log_offsets j) (pending (post s j result) j ≠ [])) :
    Committed count bound commit' live (post s j result) := by
  obtain ⟨_, hlog⟩ := honly.log
  have hsame : Continues s.leader.log live (rc.post s j result).leader.log live := by
    rw [post_leader, hlog]
    exact ⟨rfl, rfl, List.prefix_rfl⟩
  refine ⟨hsame.at hat, fun i hi => ?_⟩
  have hpeer : Peer s i := by
    rw [Peer, post_leader, honly.idx, honly.cid] at hi
    exact hi
  by_cases hij : i = j
  · subst hij
    exact (hself hpeer).mono (Nat.le_refl _) hsame rfl rfl rfl id
  · have hpending : pending (rc.post s j result) i = pending s i := by
      rw [pending, pending, post_posted_ne s j result hij]
    rw [hpending]
    refine (hcommitted.servers i hpeer).mono hcommit hsame ?_ ?_ ?_ id
    · rw [post_leader, honly.servers i hij]
    · rw [post_leader, honly.servers i hij]
    · rw [post_leader, honly.log_offsets i hij]

/-- A step that leaves the servers and their queues as they are. -/
theorem Committed.frame {s' : State} (hcommitted : Committed count bound commit live s)
    (hpeer : ∀ i, Peer s' i → Peer s i) (hlog : Continues s.leader.log live s'.leader.log live)
    (hcommit : s'.leader.log.commit = s.leader.log.commit)
    (hservers : ∀ i, (s'.leader.servers i).next_lr_step = (s.leader.servers i).next_lr_step ∧
      (s'.leader.servers i).cached_end_offset = (s.leader.servers i).cached_end_offset)
    (hoffsets : s'.leader.log_offsets = s.leader.log_offsets) (hposted : s'.posted = s.posted) :
    Committed count bound commit live s' := by
  refine ⟨?_, fun i hi => ?_⟩
  · rw [hcommit]
    exact hlog.at hcommitted.at_commit
  · have hpending : pending s' i = pending s i := by rw [pending, pending, hposted]
    rw [hpending]
    refine (hcommitted.servers i (hpeer i hi)).mono (Nat.le_refl _) hlog (hservers i).1 (hservers i).2 ?_ id
    rw [hoffsets]

theorem Committed.post_nothing (hcommitted : Committed count bound commit live s) (j : Nat) :
    Committed count bound commit live (rc.post s j (s.leader, [])) := by
  refine hcommitted.post (Only.refl _ _) (Nat.le_refl _) hcommitted.at_commit fun hi => ?_
  have hpending : pending (rc.post s j (s.leader, [])) j = pending s j := by
    rw [pending, pending, post_posted_self, List.append_nil]
  rw [hpending]
  exact hcommitted.servers j hi

theorem Committed.posts {j commit' : Nat} {result : dare_server_data_t × List work_request}
    {server : server_t} {offsets : log_offsets_t} {o : Nat} {operations : List log_operation}
    (hcommitted : Committed count bound commit live s)
    (hposts : Posts j s.leader result server offsets o operations) (hcommit : commit ≤ commit')
    (hat : At s.leader.log live commit' o)
    (hself : Peer s j → PeerCount (count j) commit' bound s.leader.log live server offsets True) :
    Committed count bound commit' live (rc.post s j result) := by
  refine hcommitted.post hposts.only hcommit ?_ fun hi => ?_
  · rw [hposts.log]
    exact hat
  · rw [hposts.servers, hposts.log_offsets]
    exact (hself hi).mono (Nat.le_refl _) (.refl _ _) rfl rfl rfl fun _ => trivial

theorem Committed.log_adjustment (hcommitted : Committed count bound commit live s)
    (hcounted : Counted c count ys blank live s) {j : Nat}
    (hfound : Peer s j → (s.leader.servers j).next_lr_step = .LR_SET_END →
      Counts s.leader.log live commit bound (log_find_remote_end_offset s.leader.log j))
    (hj : j < get_extended_group_size s.leader.cid) :
    ∃ commit', Committed count bound commit' live (rc.post s j (rc.log_adjustment s.leader j)) ∧
      AtOrBefore s.leader.log s.leader.log.commit (rc.log_adjustment s.leader j).1.log.commit := by
  by_cases hself : j = s.leader.idx
  · rw [hself, log_adjustment_self]
    exact ⟨commit, hcommitted.post_nothing _, Nat.le_refl _⟩
  have hpeer : Peer s j := ⟨hself, hj⟩
  have hcount := hcommitted.servers j hpeer
  obtain ⟨hnone, -⟩ | ⟨hflag, hack, hcases⟩ := log_adjustment_cases s.leader j
  · rw [hnone]
    exact ⟨commit, hcommitted.post_nothing _, Nat.le_refl _⟩
  have hsame : AtOrBefore s.leader.log s.leader.log.commit s.leader.log.commit := Nat.le_refl _
  obtain ⟨hat, hposts⟩ | ⟨hat, hposts⟩ | ⟨hat, hzero, heq⟩ | ⟨hat, -, hposts⟩ | ⟨hat, hposts⟩ := hcases
  · obtain ⟨commit', hle, hle', hraised, hforward⟩ := hcounted.raised hcommitted.at_commit hpeer hack
    exact ⟨commit', hcommitted.posts hposts hle hraised fun _ => .of_get_nce_len rfl fun _ => hle',
      by rwa [hposts.log]⟩
  · obtain ⟨commit', hle, hle', hraised, hforward⟩ := hcounted.raised hcommitted.at_commit hpeer hack
    exact ⟨commit', hcommitted.posts hposts hle hraised fun _ => .of_get_nce_len hat fun _ => hle',
      by rwa [hposts.log]⟩
  · -- the server has published nothing: its log ends at its commit offset
    have htracks := hcounted.tracks j hpeer
    obtain ⟨-, hcommit, -⟩ := htracks.phase.of_get_nce hat
    have honly := log_adjustment_only s.leader j
    rw [heq] at honly ⊢
    refine ⟨commit, hcommitted.post honly (Nat.le_refl _) hcommitted.at_commit fun _ => ?_, hsame⟩
    refine .of_update_log (by simp) ?_ fun hbusy => absurd ?_ hbusy
    · simp only [set_server_log_offsets, set_log_offsets_self, hcommit]
      exact ⟨count j, hcounted.acks j hpeer, .inl (hcount.get_nce hat)⟩
    · rw [pending, post_posted_self, List.append_nil]
      exact htracks.idle hflag
  · exact ⟨commit, hcommitted.posts hposts (Nat.le_refl _) hcommitted.at_commit fun _ =>
      .of_get_nce hat (hcount.get_nce hat), by rwa [hposts.log]⟩
  · have hfind := hfound hpeer hat
    generalize log_find_remote_end_offset s.leader.log j = remote_end at hposts hfind
    exact ⟨commit, hcommitted.posts hposts (Nat.le_refl _) hcommitted.at_commit fun _ =>
      .of_set_end hat (hcount.set_end hat).1 fun _ => hfind, by rwa [hposts.log]⟩

/-- Every boundary is at or before the end of the log. -/
theorem Counted.before_end (hcounted : Counted c count ys blank live s) {k o : Nat} (hat : At s.leader.log live k o) :
    AtOrBefore s.leader.log o s.leader.log.end_ := by
  have hend : At s.leader.log live live.length s.leader.log.end_ := ⟨Nat.le_refl _, hcounted.path.end_at⟩
  obtain hlt | rfl := Nat.lt_or_eq_of_le hat.1
  · exact (hat.before_iff hcounted.path hend).mpr (hat.not_larger hcounted.path hend hlt)
  · have hspan := (hcounted.path.at_record hend.1 hend.2).end_distance
    have hposition := hat.position hcounted.path
    have hposition' := hend.position hcounted.path
    rw [List.drop_length] at hspan
    simp only [RecordFormat.span] at hspan
    unfold AtOrBefore
    omega

theorem Committed.update_remote_log (hcommitted : Committed count bound commit live s)
    (hcounted : Counted c count ys blank live s) (hbound : bound ≤ blank) (j : Nat) :
    Committed count bound commit live (rc.post s j (rc.update_remote_log s.leader j)) := by
  have hend : ∃ k, At s.leader.log live k s.leader.log.end_ ∧ bound ≤ k :=
    ⟨live.length, ⟨Nat.le_refl _, hcounted.path.end_at⟩, Nat.le_trans hbound hcounted.le⟩
  obtain ⟨hnone, -⟩ | ⟨-, ⟨hat, -, hposts⟩ | ⟨hat, hposts⟩⟩ := update_remote_log_cases s.leader j
  · rw [hnone]
    exact hcommitted.post_nothing j
  · refine hcommitted.posts hposts (Nat.le_refl _) hcommitted.at_commit fun hi => ?_
    obtain ⟨k, hk, hcase⟩ := ((hcommitted.servers j hi).update_log hat).1
    exact .of_update_log hat ⟨k, hk, hcase⟩ fun _ => ⟨hcounted.before_end hk, hend⟩
  · refine hcommitted.posts hposts (Nat.le_refl _) hcommitted.at_commit fun hi => ?_
    have hcached := ((hcommitted.servers j hi).update_end hat).2
    exact .of_update_end hat hcached.counts hcached.self

theorem Committed.update_remote_commit (hcommitted : Committed count bound commit live s) (j : Nat) :
    Committed count bound commit live (rc.post s j (rc.update_remote_commit s.leader j)) ∧
      (rc.update_remote_commit s.leader j).1.log.commit = s.leader.log.commit := by
  obtain hnone | ⟨hat, honly, hservers, hend, hlog, wr_id, offset, -, hposted⟩ :=
    update_remote_commit_cases s.leader j
  · rw [hnone]
    exact ⟨hcommitted.post_nothing j, rfl⟩
  · refine ⟨hcommitted.post honly (Nat.le_refl _) ?_ fun hi => ?_, by rw [hlog]⟩
    · rw [hlog]
      exact hcommitted.at_commit
    · have hpending : pending (rc.post s j (rc.update_remote_commit s.leader j)) j = pending s j := by
        rw [pending, post_posted_self, hposted, List.filter_append]
        simp [pending]
      rw [hpending, hservers]
      exact (hcommitted.servers j hi).mono (Nat.le_refl _) (.refl _ _) rfl rfl hend id

/-- Every offset that may become the commit offset counts. -/
theorem Counted.candidate (hcounted : Counted c count ys blank live s)
    (hcommitted : Committed count bound commit live s) (hbound : bound ≤ blank) {o : Nat}
    (hcandidate : Candidate s.leader o) : Counts s.leader.log live commit bound o := by
  obtain rfl | rfl | ⟨i, hother, hi, hstep, rfl⟩ := hcandidate
  · exact ⟨commit, hcommitted.at_commit, .inl (Nat.le_refl _)⟩
  · exact ⟨live.length, ⟨Nat.le_refl _, hcounted.path.end_at⟩, .inr (Nat.le_trans hbound hcounted.le)⟩
  · exact ((hcommitted.servers i ⟨hother, hi⟩).update_log hstep).1

/-- The commit offset of the leader moves over no entries or over those of its own term. -/
theorem Committed.update_commit (hcommitted : Committed count bound commit live s)
    (hcounted : Counted c count ys blank live s) (hbound : bound ≤ blank) :
    ∃ commit', Committed count bound commit' live (rc.step s .update_commit) ∧
      At s.leader.log live commit' (rc.step s .update_commit).leader.log.commit ∧
      (commit' ≤ commit ∨ bound ≤ commit') ∧
      AtOrBefore s.leader.log s.leader.log.commit (rc.step s .update_commit).leader.log.commit := by
  simp only [rc.step, rc.update_commit]
  split
  · rename_i hlarger
    obtain ⟨commit', hat, hcase⟩ := hcounted.candidate hcommitted hbound candidate_min_offset
    have hle := hcommitted.at_commit.le_of_larger hcounted.path hat hlarger
    refine ⟨commit', ⟨hat, fun i hi => ?_⟩, hat, hcase,
      hcommitted.at_commit.before_of_larger hcounted.path hat hlarger⟩
    exact (hcommitted.servers i hi).mono hle ⟨rfl, rfl, List.prefix_rfl⟩ rfl rfl rfl id
  · exact ⟨commit, hcommitted, hcommitted.at_commit, .inl (Nat.le_refl _), Nat.le_refl _⟩

/-- What a completion for server `j` leaves as it is. -/
theorem complete_kept (hsafe : Safe s) (j : Nat) (success : Bool) (bytes : Nat) :
    (rc.complete s j success bytes).leader.log.commit = s.leader.log.commit ∧
      (rc.complete s j success bytes).leader.log.apply = s.leader.log.apply ∧
      ∀ i, i ≠ j → (rc.complete s j success bytes).remote i = s.remote i ∧
        (rc.complete s j success bytes).posted i = s.posted i ∧
        (rc.complete s j success bytes).leader.servers i = s.leader.servers i ∧
        (rc.complete s j success bytes).leader.log_offsets i = s.leader.log_offsets i := by
  obtain heq | ⟨wr, rest, logs, hposted, hlogs, heq⟩ := complete_cases s j success bytes
  · rw [heq]
    exact ⟨rfl, rfl, fun _ _ => ⟨rfl, rfl, rfl, rfl⟩⟩
  obtain ⟨hconn, hinside⟩ := hsafe.queued j wr (by rw [hposted]; exact List.mem_cons_self ..)
  obtain ⟨mem, hlog, -⟩ := execute_log_outside _ _ _ hinside
  rw [← hlogs] at hlog
  have honly : Only j (s.leader.set_log logs.1) (rc.complete s j success bytes).leader := by
    rw [heq, ← hconn]
    dsimp only
    split
    · exact handle_only _ _ _
    · exact Only.refl _ _
  have hleader : (rc.complete s j success bytes).leader.log = { s.leader.log with mem := mem } := by
    rw [heq]
    dsimp only
    split
    · rw [(handle_log _ _ _).1, set_log_log, hlog]
    · rw [set_log_log, hlog]
  refine ⟨by rw [hleader], by rw [hleader], fun i hij => ?_⟩
  rw [honly.servers i hij, honly.log_offsets i hij, heq]
  exact ⟨Function.update_of_ne hij _ _, Function.update_of_ne hij _ _, rfl, rfl⟩

theorem Committed.complete (hcommitted : Committed count bound commit live s)
    (hcounted : Counted c count ys blank live s) (j : Nat) (success : Bool) (bytes : Nat) :
    Committed count bound commit live (rc.complete s j success bytes) := by
  obtain ⟨hhead, -, hlen, -⟩ := step_log (a := .complete j success bytes) hcounted.safe nofun
  have hlog : Continues s.leader.log live (rc.complete s j success bytes).leader.log live :=
    ⟨hlen, hhead, List.prefix_rfl⟩
  obtain ⟨hcommit, -, hother⟩ := complete_kept hcounted.safe j success bytes
  refine ⟨?_, fun i hmember => ?_⟩
  · rw [hcommit]
    exact hlog.at hcommitted.at_commit
  have hi : Peer s i := (peer_step (a := .complete j success bytes)).mp hmember
  have hcount := hcommitted.servers i hi
  by_cases hij : i = j
  swap
  · obtain ⟨-, hposted, hserver, hoffsets⟩ := hother i hij
    rw [hserver, hoffsets, pending, hposted]
    exact hcount.mono (Nat.le_refl _) hlog rfl rfl rfl id
  subst hij
  have htracks := hcounted.tracks i hi
  obtain heq | ⟨wr, rest, hdequeues⟩ := htracks.dequeues hcounted.safe success bytes
  · rw [heq]
    exact hcount
  rw [hdequeues.log_offsets]
  obtain ⟨-, hserver, hpending⟩ | ⟨hpending, hserver⟩ := hdequeues.server
  · rw [hserver, hpending]
    exact hcount.mono (Nat.le_refl _) hlog rfl rfl rfl id
  · have hphase := htracks.phase
    rw [hpending, List.map_cons] at hphase
    have hcount' : PeerCount (count i) commit bound (rc.complete s i success bytes).leader.log live
        (s.leader.servers i) (s.leader.log_offsets i) True :=
      hcount.mono (Nat.le_refl _) hlog rfl rfl rfl fun _ => by rw [hpending]; exact List.cons_ne_nil _ _
    rw [hserver]
    cases success with
    | false => exact hcount'.failure
    | true =>
      refine hcount'.success fun hrest => ?_
      obtain hnil | ⟨hstep, -⟩ := hphase.last
      · exact absurd (List.map_eq_nil_iff.mp hnil) hrest
      · exact hstep

/-- Every step keeps the invariant, and the commit offset of the leader never moves backwards. What is found
    by log adjustment has to be counted. -/
theorem Committed.step (hcommitted : Committed count bound commit live s)
    (hcounted : Counted c count ys blank live s) (hbound : bound ≤ blank) (hok : ReplicatesAll c s a)
    (hfound : ∀ i, a = .log_adjustment i → Peer s i → (s.leader.servers i).next_lr_step = .LR_SET_END →
      Counts s.leader.log live commit bound (log_find_remote_end_offset s.leader.log i)) :
    ∃ commit' rest, Counted c count ys blank (live ++ rest) (rc.step s a) ∧
      Committed count bound commit' (live ++ rest) (rc.step s a) ∧
      AtOrBefore s.leader.log s.leader.log.commit (rc.step s a).leader.log.commit := by
  obtain ⟨rest, hcounted', hlen, hhead, hrest⟩ := hcounted.step hok
  have hsame {o : Nat} (heq : o = s.leader.log.commit) : AtOrBefore s.leader.log s.leader.log.commit o := by
    rw [heq]
    exact Nat.le_refl _
  have hold : rest = [] → (∃ commit', Committed count bound commit' live (rc.step s a) ∧
        AtOrBefore s.leader.log s.leader.log.commit (rc.step s a).leader.log.commit) →
      ∃ commit' rest, Counted c count ys blank (live ++ rest) (rc.step s a) ∧
        Committed count bound commit' (live ++ rest) (rc.step s a) ∧
        AtOrBefore s.leader.log s.leader.log.commit (rc.step s a).leader.log.commit := by
    rintro rfl ⟨commit', hcommitted', hforward⟩
    refine ⟨commit', [], hcounted', ?_, hforward⟩
    rwa [List.append_nil]
  have hpost : ∀ j (result : dare_server_data_t × List work_request),
      (j < get_extended_group_size s.leader.cid →
        ∃ commit', Committed count bound commit' live (rc.post s j result) ∧
          AtOrBefore s.leader.log s.leader.log.commit result.1.log.commit) →
      ∃ commit', Committed count bound commit' live
          (if j < get_extended_group_size s.leader.cid then rc.post s j result else s) ∧
        AtOrBefore s.leader.log s.leader.log.commit
          (if j < get_extended_group_size s.leader.cid then rc.post s j result else s).leader.log.commit := by
    intro j result hcommitted'
    split
    · exact hcommitted' ‹_›
    · exact ⟨commit, hcommitted, hsame rfl⟩
  cases a with
  | append req_id clt_id data =>
    have hcommit : (rc.step s (.append req_id clt_id data)).leader.log.commit = s.leader.log.commit := by
      obtain ⟨-, happended, -, -⟩ := roomy_appended ⟨hcounted.len, .inr hcounted.path⟩ hok rfl
      exact happended.commit
    have hlog : Continues s.leader.log live (rc.step s (.append req_id clt_id data)).leader.log (live ++ rest) :=
      ⟨hlen, hhead, List.prefix_append _ _⟩
    refine ⟨commit, rest, hcounted', ⟨?_, fun i hi => ?_⟩, hsame hcommit⟩
    · rw [hcommit]
      exact hlog.at hcommitted.at_commit
    · exact (hcommitted.servers i hi).mono (Nat.le_refl _) hlog rfl rfl rfl id
  | log_adjustment j =>
    refine hold (hrest.resolve_left (by simp)) (hpost j _ fun hj => ?_)
    exact hcommitted.log_adjustment hcounted (hfound j rfl) hj
  | update_remote_log j =>
    refine hold (hrest.resolve_left (by simp)) (hpost j _ fun _ => ⟨commit, ?_, hsame ?_⟩)
    · exact hcommitted.update_remote_log hcounted hbound j
    · obtain ⟨hnone, -⟩ | ⟨-, ⟨-, -, hposts⟩ | ⟨-, hposts⟩⟩ := update_remote_log_cases s.leader j
      · rw [hnone]
      · rw [hposts.log]
      · rw [hposts.log]
  | update_commit =>
    obtain ⟨commit', hcommitted', -, -, hforward⟩ := hcommitted.update_commit hcounted hbound
    exact hold (hrest.resolve_left (by simp)) ⟨commit', hcommitted', hforward⟩
  | update_remote_commit j =>
    obtain ⟨hcommitted', hcommit⟩ := hcommitted.update_remote_commit j
    exact hold (hrest.resolve_left (by simp)) (hpost j _ fun _ => ⟨commit, hcommitted', hsame hcommit⟩)
  | complete j success bytes =>
    exact hold (hrest.resolve_left (by simp)) ⟨commit, hcommitted.complete hcounted j success bytes,
      hsame (complete_kept hcounted.safe j success bytes).1⟩
  | vote_ack j offset =>
    exact hold (hrest.resolve_left (by simp)) ⟨commit, hcommitted.frame (fun _ hi => hi) (.refl _ _)
      rfl (fun _ => ⟨rfl, rfl⟩) rfl rfl, hsame rfl⟩
  | fail_count j n =>
    refine hold (hrest.resolve_left (by simp)) ⟨commit, hcommitted.frame (fun _ hi => hi) (.refl _ _)
      rfl (fun i => ?_) rfl rfl, hsame rfl⟩
    by_cases hij : i = j
    · subst hij
      simp [rc.step]
    · simp [rc.step, dare_server_data_t.set_server, Function.update_of_ne hij]
  | remote j log =>
    exact hold (hrest.resolve_left (by simp)) ⟨commit, hcommitted.frame (fun _ hi => hi) (.refl _ _)
      rfl (fun _ => ⟨rfl, rfl⟩) rfl rfl, hsame rfl⟩

theorem Elected.counted {F : Nat → dare_log_t} {old : List dare_log_entry_t} {x : dare_log_entry_t}
    (helected : Elected c count F ys old x s) :
    Counted c count ys (old.length + 1) (old ++ [x]) s ∧
      ∀ bound, ∃ commit, Committed count bound commit (old ++ [x]) s := by
  have hpath : Path s.leader.log s.leader.log.head (old ++ [x]) := by
    obtain ⟨hnil, -⟩ | hpath := helected.readable.path
    · simp at hnil
    · exact hpath
  have hpending : ∀ i, pending s i = [] := fun i => by rw [pending, helected.posted i, List.filter_nil]
  obtain ⟨commit, hcommit⟩ := helected.commit
  refine ⟨⟨⟨helected.group, fun i wr hmem => ?_⟩, helected.readable.len, hpath, Nat.succ_pos _, by simp,
    fun k y hk hy => ?_, helected.slots, fun i hi => Nat.lt_succ_of_le (helected.before i hi),
    helected.earlier, fun i hi => ((helected.starts i hi).tracks (helected.slots i hi)).2,
    fun i hi => .of_mem_positions hpath (helected.starts i hi).boundary⟩, fun bound => ⟨commit,
    .of_mem_positions hpath hcommit, fun i hi => ?_⟩⟩
  · rw [helected.posted i] at hmem
    cases hmem
  · rw [List.getElem?_append_right (by omega)] at hy
    obtain rfl := List.mem_singleton.mp (List.mem_of_getElem? hy)
    exact helected.term
  · obtain hstep | ⟨hstep, -⟩ := (helected.starts i hi).step
    · constructor <;> intro h <;> rw [hstep] at h <;> cases h
    · exact .of_get_nce_len hstep fun hbusy => absurd (hpending i) hbusy

theorem committed_of_run {F : Nat → dare_log_t} {old : List dare_log_entry_t} {x : dare_log_entry_t}
    {start : State} (helected : Elected c count F ys old x start)
    (hrun : Run (fun s a => ReplicatesAll c s a ∧ NotShared ys s a) start s) :
    ∃ live, Counted c count ys (old.length + 1) live s ∧
      ∃ commit, Committed count (old.length + 1) commit live s := by
  induction hrun with
  | start => exact ⟨_, helected.counted.1, helected.counted.2 _⟩
  | step a _ hok ih =>
    obtain ⟨live, hcounted, commit, hcommitted⟩ := ih
    obtain ⟨commit', rest, hcounted', hcommitted', -⟩ := hcommitted.step hcounted (Nat.le_refl _) hok.1
      fun i ha hi hat => hcounted.find hcommitted hi hat (ha ▸ hok.2)
    exact ⟨live ++ rest, hcounted', commit', hcommitted'⟩

end counted

/-- A leader commits entries of earlier terms only together with one of its own. In every run of a new
    leader in which no server shares an entry with the leader that the leader has not yet committed,
    a reader meets the commit offset before and after `update_remote_logs` has moved it, and if it has
    moved over some entries, the last of them is of the leader's own term. -/
theorem commit_ends_with_own_term {c count : Nat → Nat} {F : Nat → dare_log_t}
    {ys : Nat → List dare_log_entry_t} {old : List dare_log_entry_t} {blank : dare_log_entry_t}
    {start s : State} (helected : Elected c count F ys old blank start)
    (hrun : Run (fun s a => ReplicatesAll c s a ∧ NotShared ys s a) start s) :
    let log := s.leader.log
    let log' := (step s .update_commit).leader.log
    (∃ k, (log.commit, k) ∈ log_positions log) ∧ (∃ k, (log'.commit, k) ∈ log_positions log) ∧
      ∃ entries, log_walk log (log.len + 1) log.head = some (entries, log.end_) ∧
        ∀ k k', (log.commit, k) ∈ log_positions log → (log'.commit, k') ∈ log_positions log → k < k' →
          ∃ x, entries[k' - 1]? = some x ∧ x.term = SID_GET_TERM s.leader.sid := by
  intro log log'
  obtain ⟨live, hcounted, commit, hcommitted⟩ := committed_of_run helected hrun
  obtain ⟨commit', -, hat', hcase, -⟩ := hcommitted.update_commit hcounted (Nat.le_refl _)
  have hpath := hcounted.path
  have hat := hcommitted.at_commit
  have hlength := hpath.length_le
  unfold SIZEOF_ENTRY at hlength
  refine ⟨⟨commit, hat.mem_positions hpath⟩, ⟨commit', hat'.mem_positions hpath⟩, live,
    hpath.log_walk_eq (show _ ≤ s.leader.log.len + 1 by omega), fun k k' hk hk' hlt => ?_⟩
  obtain rfl := hat.unique hpath (.of_mem_positions hpath hk)
  obtain rfl := hat'.unique hpath (.of_mem_positions hpath hk')
  have hbehind := hcase.resolve_left (Nat.not_le_of_lt hlt)
  have hlast : commit' - 1 < live.length := by
    have hle := hat'.1
    omega
  refine ⟨live[commit' - 1], List.getElem?_eq_getElem hlast, ?_⟩
  exact hcounted.terms _ _ (by omega) (List.getElem?_eq_getElem hlast)

instance (ys : Nat → List dare_log_entry_t) (s : State) : (a : Action) → Decidable (NotShared ys s a)
  | .log_adjustment i =>
    decidable_of_iff ((s.leader.servers i).next_lr_step = .LR_SET_END →
      ∀ result ∈ log_walk s.leader.log (s.leader.log.len + 1) s.leader.log.commit,
        ∀ x ∈ result.1, ∀ y ∈ ys i, ¬(x.idx = y.idx ∧ x.term = y.term))
      ⟨fun hall hat es stop hwalk => hall hat (es, stop) hwalk,
        fun hall hat result hwalk => hall hat result.1 result.2 hwalk⟩
  | .append _ _ _ | .update_remote_log _ | .update_commit | .update_remote_commit _ | .complete _ _ _
  | .vote_ack _ _ | .fail_count _ _ | .remote _ _ => isTrue trivial

theorem diverged_elected :
    Elected (fun _ => 0) (fun _ => 0) (fun i => log_of (server_entries i)) server_entries
      (leader_entries.take 2) ⟨3, 3, 0, 0, .noop⟩ diverged_start where
  group := by decide
  readable := (diverged_starts (show 1 < MAX_SERVER_COUNT by decide)).readable
  posted := fun _ => rfl
  commit := ⟨0, (diverged_starts (show 1 < MAX_SERVER_COUNT by decide)).boundary⟩
  term := by decide
  starts := fun i hi => diverged_starts (Nat.lt_of_lt_of_le hi.2 (by decide))
  slots := fun i _ => by
    obtain ⟨-, heq⟩ | heq := server_entries_cases i <;> rw [heq] <;> decide
  before := fun _ _ => Nat.zero_le _
  earlier := fun i _ => by
    obtain ⟨-, heq⟩ | heq := server_entries_cases i <;> rw [heq] <;> decide

theorem diverged_replicates :
    run.AllOk step (ReplicatesAll fun _ => 0) diverged_start (diverged_actions ++ [.complete 1 true 0]) := by
  simp only [diverged_actions, List.cons_append, List.nil_append, run.AllOk, ReplicatesAll, and_true]

/-- The entries of term 2, which no other server has, are committed together with the blank entry. -/
theorem old_entries_committed_with_blank :
    let s := run.steps step diverged_start (diverged_actions ++ [.complete 1 true 0])
    let log := s.leader.log
    let log' := (step s .update_commit).leader.log
    (log.commit = 0 ∧ log'.commit = 149) ∧
    (∃ k, (log.commit, k) ∈ log_positions log) ∧ (∃ k, (log'.commit, k) ∈ log_positions log) ∧
      ∃ entries, log_walk log (log.len + 1) log.head = some (entries, log.end_) ∧
        ∀ k k', (log.commit, k) ∈ log_positions log → (log'.commit, k') ∈ log_positions log → k < k' →
          ∃ x, entries[k' - 1]? = some x ∧ x.term = SID_GET_TERM s.leader.sid :=
  ⟨by decide +kernel, commit_ends_with_own_term diverged_elected
    (run_steps .start (diverged_replicates.and (by decide +kernel)))⟩

/-- A log with one entry of term 1. -/
def old_log : dare_log_t := (log_append_entry log_new 1 0 0 .noop).1

def old_entry : dare_log_entry_t := ⟨(log_append_entry log_new 1 0 0 .noop).2, 1, 0, 0, .noop⟩

def blank_entry : dare_log_entry_t := ⟨(log_append_entry old_log 2 0 0 .noop).2, 2, 0, 0, .noop⟩

/-- The leader of term 2 of three servers has an entry of term 1 that is not committed, and its blank
    entry. Server 1 has the entry of term 1, too; the log of server 2 is empty. -/
def old_entry_start : State where
  leader := fresh_leader 3 2 (log_append_entry old_log 2 0 0 .noop).1 fun _ => 0
  remote := fun i =>
    if i = 1 then (log_entries_to_nc_buf old_log 1).getD old_log
    else write_word log_new (nc_buf_addr i) 0
  posted := fun _ => []

/-- The steps of log adjustment for server 1. -/
def old_entry_actions : List Action :=
  [.log_adjustment 1, .complete 1 true 0, .log_adjustment 1, .complete 1 true 0, .log_adjustment 1,
    .complete 1 true 0]

theorem readable_old_log : Readable old_log [old_entry] ∧
    Readable (log_append_entry old_log 2 0 0 .noop).1 [old_entry, blank_entry] := by
  have hroom : RoomyAppend log_new 1 0 0 .noop := by
    unfold RoomyAppend HasRoom EndsAtLen
    decide
  have hroom' : RoomyAppend old_log 2 0 0 .noop := by
    unfold RoomyAppend HasRoom EndsAtLen
    decide +kernel
  have hrun := Run.append 1 0 0 .noop Run.new hroom rfl
  exact ⟨(readable_of_run hrun).2, (readable_of_run (Run.append 2 0 0 .noop hrun hroom' rfl)).2⟩

theorem old_entry_starts {i : Nat} (hi : i < MAX_SERVER_COUNT) :
    Starts i 0 0 (if i = 1 then old_log else log_new) (if i = 1 then [old_entry] else [])
      [old_entry, blank_entry] old_entry_start where
  group := by decide
  server := hi
  readable := readable_old_log.2
  boundary := by decide +kernel
  vote_ack := .inl rfl
  step := .inl rfl
  posted := fun _ => rfl
  len := by split <;> decide +kernel
  commit := by split <;> decide +kernel
  entries := by
    split
    · right
      obtain ⟨hnil, -⟩ | hpath := readable_old_log.1.path
      · cases hnil
      · exact hpath
    · exact .inl ⟨rfl, rfl⟩
  published := by
    simp only [old_entry_start]
    split
    · rename_i hone
      have hsome : (log_entries_to_nc_buf old_log 1).isSome = true := by
        obtain ⟨hnil, -⟩ | hpath := readable_old_log.1.path
        · cases hnil
        · obtain ⟨m, heq, -⟩ := log_entries_to_nc_buf_path hpath
            (nc_det_addr_fits (show 1 < MAX_SERVER_COUNT by decide) (by simp [MAX_NC_ENTRIES]))
          rw [heq]
          rfl
      rw [hone, ← Option.some_get hsome, Option.getD_some]
    · exact log_entries_to_nc_buf_empty i rfl
  matching := by
    intro k x y _ hx hy _ _
    split at hy
    · cases k with
      | zero => exact (Option.some.inj hx).symm.trans (Option.some.inj hy)
      | succ k => simp at hy
    · simp at hy

theorem old_entry_elected :
    Elected (fun _ => 0) (fun _ => 0) (fun i => if i = 1 then old_log else log_new)
      (fun i => if i = 1 then [old_entry] else []) [old_entry] blank_entry old_entry_start where
  group := by decide
  readable := readable_old_log.2
  posted := fun _ => rfl
  commit := ⟨0, by decide +kernel⟩
  term := by decide
  starts := fun i hi => old_entry_starts (Nat.lt_of_lt_of_le hi.2 (by decide))
  slots := fun i _ => by
    split <;> simp [MAX_NC_ENTRIES]
  before := fun _ _ => Nat.zero_le _
  earlier := fun i _ y hy => by
    split at hy
    · rw [List.mem_singleton.mp hy]
      decide
    · simp at hy

/-- The conditions on the steps, all but the one on shared entries. -/
theorem old_entry_replicates :
    run.AllOk step (ReplicatesAll fun _ => 0) old_entry_start old_entry_actions := by
  simp only [old_entry_actions, run.AllOk, ReplicatesAll, and_true]

/-- Log adjustment alone makes entries of earlier terms count: server 1 has nothing of the leader's own
    term yet, and still the leader commits the entry of term 1. -/
theorem old_entry_is_committed :
    Elected (fun _ => 0) (fun _ => 0) (fun i => if i = 1 then old_log else log_new)
      (fun i => if i = 1 then [old_entry] else []) [old_entry] blank_entry old_entry_start ∧
    run.AllOk step (ReplicatesAll fun _ => 0) old_entry_start old_entry_actions ∧
    let s := run.steps step old_entry_start old_entry_actions
    let log := s.leader.log
    let log' := (step s .update_commit).leader.log
    log_walk log (log.len + 1) log.head = some ([old_entry, blank_entry], log.end_) ∧
      (log.commit, 0) ∈ log_positions log ∧ (log'.commit, 1) ∈ log_positions log ∧
      old_entry.term ≠ SID_GET_TERM s.leader.sid :=
  ⟨old_entry_elected, old_entry_replicates, by decide +kernel⟩

end dare.rc
