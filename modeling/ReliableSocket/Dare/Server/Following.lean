import ReliableSocket.Dare.Server.Elected

open dare.log dare.server run

namespace dare.election

/-- Server `w` has access to the log, and no other one has. -/
def Grants (data : dare_server_data_t) (w : Nat) : Prop :=
  (data.servers w).log_access = true ∧
    ∀ k < MAX_SERVER_COUNT, k ≠ data.idx → k ≠ w → (data.servers k).log_access = false

/-- Whoever has access to the log is in the configuration and connected, so that it can be revoked. -/
def AccessInGroup (data : dare_server_data_t) : Prop :=
  ∀ k < MAX_SERVER_COUNT, k ≠ data.idx → (data.servers k).log_access = true →
    k < get_extended_group_size data.cid ∧ is_reachable data k = true

/-- A heartbeat of the own term names the server that is in the own state identifier. -/
def NamesOwn (data : dare_server_data_t) (hb : UInt64) : Prop :=
  hb ≠ 0 → SID_GET_TERM hb = SID_GET_TERM data.sid → SID_GET_IDX hb = SID_GET_IDX data.sid

section access

variable {data data' : dare_server_data_t} {w : Nat}

theorem Grants.congr (h : Grants data w) (hidx : data'.idx = data.idx)
    (hflags : ∀ k, (data'.servers k).log_access = (data.servers k).log_access) : Grants data' w := by
  refine ⟨(hflags w).trans h.1, fun k hk hown hne => ?_⟩
  rw [hidx] at hown
  exact (hflags k).trans (h.2 k hk hown hne)

/-- No server has access. -/
def Cleared (data : dare_server_data_t) : Prop :=
  ∀ k < MAX_SERVER_COUNT, k ≠ data.idx → (data.servers k).log_access = false

theorem revoke_clears (h : AccessInGroup data) : Cleared (rc_revoke_log_access data) := by
  intro k hk hown
  simp only [rc_revoke_log_access]
  split_ifs with hreach
  · rfl
  · by_contra haccess
    exact hreach (h k hk hown (by simpa using haccess))

/-- The access to the log is revoked before the requests are compared. -/
theorem choose_candidate_access (h : AccessInGroup data) (best_sid : UInt64) :
    Cleared (choose_candidate data best_sid).2 ∧ (choose_candidate data best_sid).2.idx = data.idx ∧
      (choose_candidate data best_sid).2.hb_event = data.hb_event := by
  have hclear := revoke_clears h
  simp only [choose_candidate, publish_nc_buf, Cleared, rc_revoke_log_access, and_true] at hclear ⊢
  exact hclear

/-- If the log access is restored without an error, it is for the server in the state identifier. -/
theorem restore_grants (hclear : Cleared data) (hother : SID_GET_IDX data.sid ≠ data.idx) {value : Nat}
    (hok : (rc_restore_log_access data value).1 = 0) :
    Grants (rc_restore_log_access data value).2 (SID_GET_IDX data.sid) := by
  simp only [rc_restore_log_access, if_pos hother] at hok ⊢
  split_ifs at hok ⊢ with hoff hunconnected haccess hvalue
  · exact ⟨haccess, fun k hk hown _ => hclear k hk hown⟩
  · refine ⟨by simp [set_log_access, dare_server_data_t.set_server], fun k hk hown hne => ?_⟩
    simp only [set_log_access, dare_server_data_t.set_server, Function.update_of_ne hne]
    exact hclear k hk hown

theorem restore_ok (hother : SID_GET_IDX data.sid ≠ data.idx) (hon : data.is_on (SID_GET_IDX data.sid) = true)
    (hconnected : (data.servers (SID_GET_IDX data.sid)).rc_connected = true) :
    (rc_restore_log_access data 0).1 = 0 := by
  simp only [rc_restore_log_access, if_pos hother, hon, hconnected, Bool.true_eq_false, if_false]
  split_ifs
  · rfl
  · contradiction
  · rfl

end access

/-- What a handler leaves: a new leader and a candidate that gets the vote have access to the log, and only a
    leader sends heartbeats. -/
structure Follows (data : dare_server_data_t) (r : handled) : Prop where
  idx : r.data.idx = data.idx
  granted : r.data.sid ≠ data.sid → SID_GET_L r.data.sid = true → SID_GET_IDX r.data.sid ≠ data.idx →
    r.mode ≠ .exited → r.data.is_on (SID_GET_IDX r.data.sid) = true →
    (r.data.servers (SID_GET_IDX r.data.sid)).rc_connected = true →
    Grants r.data (SID_GET_IDX r.data.sid)
  voter : r.mode ≠ .exited → SID_GET_L r.data.sid = false → SID_GET_IDX r.data.sid ≠ data.idx →
    Grants r.data (SID_GET_IDX r.data.sid)
  sender : r.data.hb_event = .hb_send_cb → SID_GET_L r.data.sid = true ∧ SID_GET_IDX r.data.sid = data.idx

/-- The same for a server that runs. -/
structure Following (data : dare_server_data_t) : Prop where
  voter : SID_GET_L data.sid = false → SID_GET_IDX data.sid ≠ data.idx → Grants data (SID_GET_IDX data.sid)
  sender : data.hb_event = .hb_send_cb → SID_GET_L data.sid = true ∧ SID_GET_IDX data.sid = data.idx

/-- Nothing is written that the access to the log depends on. -/
structure Kept (data data' : dare_server_data_t) : Prop where
  idx : data'.idx = data.idx
  sid : data'.sid = data.sid
  access : ∀ k, (data'.servers k).log_access = (data.servers k).log_access
  event : data'.hb_event = .hb_send_cb → data.hb_event = .hb_send_cb

section handlers

variable {data data' : dare_server_data_t} {r : handled} {value : Nat}

theorem Following.of_kept (h : Following data) (hkept : Kept data data') : Following data' where
  voter hl hother := by
    rw [hkept.sid] at hl hother ⊢
    rw [hkept.idx] at hother
    exact (h.voter hl hother).congr hkept.idx hkept.access
  sender hsends := by
    rw [hkept.sid, hkept.idx]
    exact h.sender (hkept.event hsends)

theorem follows_of_kept (h : Following data) (hkept : Kept data r.data) : Follows data r where
  idx := hkept.idx
  granted hchanged := absurd hkept.sid hchanged
  voter _ hl hother := (h.of_kept hkept).voter hl (by rwa [hkept.idx])
  sender hsends := by
    rw [← hkept.idx]
    exact (h.of_kept hkept).sender hsends

theorem follows_of_own (hidx : r.data.idx = data.idx) (hown : SID_GET_IDX r.data.sid = data.idx)
    (hevent : r.data.hb_event = .hb_send_cb → SID_GET_L r.data.sid = true) : Follows data r where
  idx := hidx
  granted _ _ hother := absurd hown hother
  voter _ _ hother := absurd hown hother
  sender hsends := ⟨hevent hsends, hown⟩

/-- A server that starts an election names itself. -/
theorem follows_election (hidx : data'.idx = data.idx) (hsmall : data.idx < 256)
    (hr : r.data = (start_election data').data) : Follows data r := by
  rw [start_election_data] at hr
  refine follows_of_own ?_ ?_ fun hsends => ?_
  · rw [hr]
    exact hidx
  · rw [hr, ← hidx]
    exact (election_sid_fields (by rwa [hidx])).2.2
  · rw [hr] at hsends
    cases hsends

/-- A vote ACK does not change the access. -/
theorem send_vote_ack_access (data : dare_server_data_t) (events : List event_t) :
    (send_vote_ack data events).data.servers = data.servers ∧
      ((send_vote_ack data events).data.hb_event = data.hb_event ∨
        (send_vote_ack data events).data.hb_event = .hb_receive_cb) := by
  simp only [send_vote_ack]
  split
  · exact ⟨rfl, .inl rfl⟩
  · exact ⟨rfl, .inr rfl⟩

theorem hb_event_restore (data : dare_server_data_t) (value : Nat) :
    (rc_restore_log_access data value).2.hb_event = data.hb_event := by
  simp only [rc_restore_log_access, set_log_accesses]
  split_ifs
  · rfl
  · rfl
  · rfl
  · rfl
  · rfl
  · rfl
  · rfl
  · rfl

/-- A server that goes to follower state gives access to the leader, if it is connected. -/
theorem follower_access (haccess : AccessInGroup data) (value : Nat) (events : List event_t) :
    (server_to_follower data value events).data.hb_event ≠ .hb_send_cb ∧
      (value = 0 → SID_GET_IDX data.sid ≠ data.idx → data.is_on (SID_GET_IDX data.sid) = true →
        (data.servers (SID_GET_IDX data.sid)).rc_connected = true →
        Grants (server_to_follower data value events).data (SID_GET_IDX data.sid)) := by
  have hclear : Cleared (publish_nc_buf (rc_revoke_log_access { data with hb_event := .stopped })) :=
    revoke_clears haccess
  have hevent : (publish_nc_buf (rc_revoke_log_access { data with hb_event := .stopped })).hb_event =
    .stopped := rfl
  have hconnected : ∀ i, ((publish_nc_buf (rc_revoke_log_access { data with hb_event := .stopped })).servers
      i).rc_connected = (data.servers i).rc_connected := connected_revoke _
  have hstopped : SameControl data { data with hb_event := .stopped } :=
    ⟨⟨rfl, rfl, rfl, rfl, rfl⟩, rfl, rfl, rfl⟩
  have hcontrol := (hstopped.trans (sameControl_revoke _)).trans (sameControl_publish _)
  unfold server_to_follower
  simp only
  generalize publish_nc_buf (rc_revoke_log_access { data with hb_event := .stopped }) = published
    at hclear hevent hconnected hcontrol
  have hrestored := hcontrol.trans (sameControl_restore published value)
  have hevent' := (hb_event_restore published value).trans hevent
  have hgrants : value = 0 → SID_GET_IDX data.sid ≠ data.idx → data.is_on (SID_GET_IDX data.sid) = true →
      (data.servers (SID_GET_IDX data.sid)).rc_connected = true →
      Grants (rc_restore_log_access published value).2 (SID_GET_IDX data.sid) := by
    rintro rfl hother hon hserver
    rw [← hcontrol.sid] at hother hon hserver ⊢
    rw [← hcontrol.idx] at hother
    rw [← hcontrol.is_on] at hon
    rw [← hconnected] at hserver
    exact restore_grants hclear hother (restore_ok hother hon hserver)
  generalize (rc_restore_log_access published value).2 = restored at hrestored hevent' hgrants
  split_ifs
  · obtain ⟨hservers, hsent⟩ := send_vote_ack_access restored events
    have hidx := (send_vote_ack_spec restored events).1.idx
    refine ⟨?_, fun h₁ h₂ h₃ h₄ => (hgrants h₁ h₂ h₃ h₄).congr hidx fun k => by rw [hservers]⟩
    obtain hsame | hreceives := hsent
    · rw [hsame, hevent']
      nofun
    · rw [hreceives]
      nofun
  · exact ⟨nofun, fun h₁ h₂ h₃ h₄ => (hgrants h₁ h₂ h₃ h₄).congr rfl fun _ => rfl⟩

theorem server_to_follower_connected (data : dare_server_data_t) (value : Nat) (events : List event_t) (k : Nat) :
    ((server_to_follower data value events).data.servers k).rc_connected = (data.servers k).rc_connected := by
  have hrestored := (connected_restore (publish_nc_buf (rc_revoke_log_access
    { data with hb_event := .stopped })) value k).trans (connected_revoke { data with hb_event := .stopped } k)
  simp only [server_to_follower]
  split_ifs
  · rw [(send_vote_ack_access _ events).1]
    exact hrestored
  · exact hrestored

/-- A server that follows a leader with a new state identifier, or the one that it has. -/
theorem follows_follower (hidx : data'.idx = data.idx) (haccess : AccessInGroup data')
    (hreachable : SID_GET_L data'.sid = false → SID_GET_IDX data'.sid ≠ data.idx →
      data'.is_on (SID_GET_IDX data'.sid) = true ∧ (data'.servers (SID_GET_IDX data'.sid)).rc_connected = true)
    (events : List event_t) : Follows data (server_to_follower data' 0 events) := by
  obtain ⟨hevent, hgrants⟩ := follower_access haccess 0 events
  have hcontrol := (server_to_follower_spec data' 0 events).1
  rw [hidx] at hgrants
  refine ⟨hcontrol.idx.trans hidx, ?_, ?_, fun hsends => absurd hsends hevent⟩
  · intro _ hl hother _ hon hconnected
    rw [hcontrol.sid] at hl hother hon hconnected ⊢
    rw [hcontrol.is_on] at hon
    rw [server_to_follower_connected] at hconnected
    exact hgrants rfl hother hon hconnected
  · intro _ hl hother
    rw [hcontrol.sid] at hl hother ⊢
    obtain ⟨hon, hconnected⟩ := hreachable hl hother
    exact hgrants rfl hother hon hconnected

theorem AccessInGroup.congr (h : AccessInGroup data) (hsame : SameBallot data data')
    (hservers : data'.servers = data.servers) : AccessInGroup data' := by
  intro k hk hown haccess
  rw [hsame.idx] at hown
  rw [hservers] at haccess
  rw [hsame.cid, is_reachable, hsame.idx, hsame.is_on, hservers]
  exact h k hk hown haccess

/-- All heartbeats of leaders of the own term name the server that is in the own state identifier. -/
def HeartbeatsNameOwn (data : dare_server_data_t) : Prop :=
  (∀ k < get_group_size data.cid, SID_GET_L (data.hb k) = true → NamesOwn data (data.hb k)) ∧
    (SID_GET_L data.latest_hb_received = true → NamesOwn data data.latest_hb_received)

theorem follows_hb_receive_cb (h : Following data) (hsmall : data.idx < 256) (haccess : AccessInGroup data)
    (hnames : HeartbeatsNameOwn data) : Follows data (hb_receive_cb data 0) := by
  have hscan := scanned_loop data
  unfold hb_receive_cb
  by_cases hmember : data.idx ≥ get_group_size data.cid
  · rw [if_pos hmember]
    exact follows_of_kept h ⟨rfl, rfl, fun _ => rfl, id⟩
  rw [if_neg hmember]
  simp only
  generalize hb_receive_loop data = s at hscan
  have hidx := hscan.dropped.idx
  split_ifs with htimeout hnew hterm
  · exact follows_election hidx hsmall rfl
  · -- a new term
    obtain ⟨-, hl, -⟩ := hscan.better hnew
    have hscanned : AccessInGroup s.data := haccess.congr hscan.dropped.toSameBallot hscan.servers
    have hadopted : AccessInGroup { s.data with sid := s.new_sid } := hscanned
    have hfollows : Follows data (server_to_follower { s.data with sid := s.new_sid } 0
        [⟨data.idx, .heartbeat, s.new_sid⟩]) :=
      follows_follower (by exact hidx) hadopted (fun hunset => absurd (hl.symm.trans hunset) nofun) _
    exact ⟨hfollows.idx, hfollows.granted, hfollows.voter, hfollows.sender⟩
  · -- the own term: the server is already in the state identifier, and has access
    obtain ⟨hbetter, hl, hsource⟩ := hscan.better hnew
    rw [not_ne_iff] at hterm
    have hname : SID_GET_IDX s.new_sid = SID_GET_IDX data.sid := by
      obtain ⟨k, hk, hsid⟩ | hsid := hsource
      · rw [hsid] at hl hterm hbetter ⊢
        exact hnames.1 k hk hl (lt_ne_zero hbetter) hterm.symm
      · rw [hsid] at hl hterm hbetter ⊢
        exact hnames.2 hl (lt_ne_zero hbetter) hterm.symm
    have hunset : SID_GET_L data.sid = false := by
      by_contra hset
      rw [Bool.not_eq_false] at hset
      exact hnew (sid_ext hterm.symm (hl.trans hset.symm) hname)
    refine ⟨hidx, fun _ _ hother _ _ _ => ?_, fun _ hunset' => ?_, fun hsends => ?_⟩
    · change SID_GET_IDX s.new_sid ≠ data.idx at hother
      change Grants { s.data with sid := s.new_sid } (SID_GET_IDX s.new_sid)
      rw [hname] at hother ⊢
      exact (h.voter hunset hother).congr hidx fun k => by rw [hscan.servers]
    · rw [show SID_GET_L s.new_sid = false from hunset'] at hl
      cases hl
    · have hleader := (h.sender (hscan.event.symm.trans hsends)).1
      rw [hunset] at hleader
      cases hleader
  · exact follows_of_kept h ⟨hidx, hscan.dropped.sid, fun k => by rw [hscan.servers],
      fun hsends => hscan.event.symm.trans hsends⟩

theorem find_hb_reply_event (data : dare_server_data_t) (is : List Nat) :
    (find_hb_reply data is).2.hb_event = data.hb_event := by
  induction is generalizing data with
  | nil => rfl
  | cons i is ih =>
    simp only [find_hb_reply]
    split_ifs
    · exact ih data
    · exact ih _
    · rfl

/-- Whoever sends heartbeats has its own index in the state identifier. -/
theorem follows_hb_send_cb (h : Following data) (hevent : data.hb_event = .hb_send_cb) (value : Nat) :
    Follows data (hb_send_cb data value) := by
  have hdropped := find_hb_reply_dropped data (List.range (get_group_size data.cid))
  have hservers := find_hb_reply_servers data (List.range (get_group_size data.cid))
  have hsame := find_hb_reply_event data (List.range (get_group_size data.cid))
  unfold hb_send_cb
  simp only
  generalize find_hb_reply data (List.range (get_group_size data.cid)) = found at hdropped hservers hsame
  split_ifs
  · obtain ⟨hleader, hown⟩ := h.sender hevent
    have hcontrol := (server_to_follower_spec found.2 value []).1
    have hsid := hcontrol.sid.trans hdropped.sid
    exact follows_of_own (hcontrol.idx.trans hdropped.idx) (by rw [hsid]; exact hown) fun _ => by
      rw [hsid]
      exact hleader
  · exact follows_of_kept h ⟨hdropped.idx, hdropped.sid, fun k => by rw [hservers],
      fun hsends => hsame.symm.trans hsends⟩

theorem kept_counted (data : dare_server_data_t) :
    Kept data (((List.range (get_group_size data.cid)).filter (has_ack data)).foldl record_ack data) := by
  have hall : ∀ (is : List Nat) (data' : dare_server_data_t), Kept data data' →
      Kept data (is.foldl record_ack data') := by
    intro is
    induction is with
    | nil => exact fun _ hkept => hkept
    | cons i is ih =>
      intro data' hkept
      refine ih _ ?_
      have hcontrol := sameControl_record_ack data' i
      refine ⟨hcontrol.idx.trans hkept.idx, hcontrol.sid.trans hkept.sid, fun k => ?_, fun hsends => ?_⟩
      · rw [← hkept.access k]
        by_cases hk : k = i
        · subst hk
          simp only [record_ack]
          split_ifs <;> simp [dare_server_data_t.set_server, dare_server_data_t.set_log_offsets,
            dare_server_data_t.set_log]
        · simp only [record_ack]
          split_ifs <;> simp [dare_server_data_t.set_server, dare_server_data_t.set_log_offsets,
            dare_server_data_t.set_log, Function.update_of_ne hk]
      · refine hkept.event ?_
        rw [← hsends, record_ack]
        dsimp only
        split_ifs <;> rfl
  exact hall _ data ⟨rfl, rfl, fun _ => rfl, id⟩

/-- The winner of an election names itself. -/
theorem follows_poll_vote_count (h : Following data) (hcandidate : IS_CANDIDATE data = true) (value : Nat) :
    Follows data (poll_vote_count data value) := by
  have hkept := kept_counted data
  have hown : SID_GET_IDX data.sid = data.idx := by
    simp only [IS_CANDIDATE, Bool.and_eq_true, decide_eq_true_eq] at hcandidate
    exact hcandidate.1.2
  unfold poll_vote_count
  simp only
  generalize ((List.range (get_group_size data.cid)).filter (has_ack data)).foldl record_ack data = counted
    at hkept
  split_ifs
  · exact follows_of_kept h hkept
  all_goals
    have hcontrol := sameControl_restore { counted with
      sid := SID_SET_L data.sid
      hb_event := .hb_send_cb
      apply_offsets := fun i => if i < get_extended_group_size data.cid then counted.log.head
        else counted.apply_offsets i } value
    refine follows_of_own (hcontrol.idx.trans hkept.idx) ?_ fun _ => ?_
    · rw [hcontrol.sid]
      exact (sid_set_l_fields data.sid).2.2.trans hown
    · rw [hcontrol.sid]
      exact (sid_set_l_fields data.sid).2.1

/-- A server that takes over a configuration closes connections, but does not change the access. -/
theorem update_cid_access {cid : dare_cid_t} (hupdate : update_cid data cid = some data') :
    (∀ k, (data'.servers k).log_access = (data.servers k).log_access) ∧ data'.hb_event = data.hb_event := by
  have hgone : ∀ (is : List Nat) (data : dare_server_data_t),
      (∀ k, ((is.foldl (fun data i => data.set_server i { data.servers i with rc_connected := false })
        data).servers k).log_access = (data.servers k).log_access) ∧
      (is.foldl (fun data i => data.set_server i { data.servers i with rc_connected := false })
        data).hb_event = data.hb_event := by
    intro is
    induction is with
    | nil => exact fun _ => ⟨fun _ => rfl, rfl⟩
    | cons i is ih =>
      intro data
      obtain ⟨haccess, hevent⟩ := ih (data.set_server i { data.servers i with rc_connected := false })
      refine ⟨fun k => (haccess k).trans ?_, hevent⟩
      by_cases hk : k = i
      · subst hk
        simp [dare_server_data_t.set_server]
      · simp [dare_server_data_t.set_server, hk]
  unfold update_cid at hupdate
  by_cases hsame : data.cid = cid
  · rw [if_pos hsame] at hupdate
    cases hupdate
    exact ⟨fun _ => rfl, rfl⟩
  · rw [if_neg hsame] at hupdate
    simp only at hupdate
    split_ifs at hupdate
    cases hupdate
    exact hgone _ data

/-- A voter gives access to its candidate, or exits. -/
theorem follows_cast_vote (hidx : data'.idx = data.idx) (hclear : Cleared data') (request : vote_req_t)
    (value : Nat) : Follows data (cast_vote data' request value) := by
  unfold cast_vote
  simp only
  cases hupdate : update_cid { data' with sid := request.sid, hb_event := .stopped } request.cid with
  | none => exact ⟨hidx, fun _ _ _ hmode => absurd rfl hmode, fun hmode => absurd rfl hmode, nofun⟩
  | some updated =>
    obtain ⟨haccess, hevent⟩ := update_cid_access hupdate
    have hupdated := update_cid_spec hupdate
    have hidx' : updated.idx = data.idx := hupdated.idx.trans hidx
    simp only
    generalize hvoter : ({ updated with
      vote_sid := Function.update updated.vote_sid updated.idx updated.sid } : dare_server_data_t) = voter
    have hstopped : voter.hb_event = .stopped := by
      rw [← hvoter]
      exact hevent
    have hidx'' : voter.idx = data.idx := by rw [← hvoter]; exact hidx'
    have hclear' : Cleared voter := by
      intro k hk hown
      rw [hidx'', ← hidx] at hown
      rw [← hvoter]
      exact (haccess k).trans (hclear k hk hown)
    have hrestored := sameControl_restore voter value
    have hevent' := (hb_event_restore voter value).trans hstopped
    have hgrants : (rc_restore_log_access voter value).1 = 0 → SID_GET_IDX voter.sid ≠ data.idx →
        Grants (rc_restore_log_access voter value).2 (SID_GET_IDX voter.sid) := fun hok hother =>
      restore_grants hclear' (by rwa [hidx'']) hok
    generalize rc_restore_log_access voter value = restored at hrestored hevent' hgrants
    split_ifs with hfailed
    · exact ⟨hrestored.idx.trans hidx'', fun _ _ _ hmode => absurd rfl hmode, fun hmode => absurd rfl hmode,
        fun hsends => absurd (hevent'.symm.trans hsends) nofun⟩
    · rw [not_ne_iff] at hfailed
      have hacked := (send_vote_ack_spec restored.2 [⟨data'.idx, .vote, request.sid⟩]).1
      obtain ⟨hservers, hsent⟩ := send_vote_ack_access restored.2 [⟨data'.idx, .vote, request.sid⟩]
      have hsid := hacked.sid.trans hrestored.sid
      have hfinal : ∀ r : handled, r = send_vote_ack restored.2 [⟨data'.idx, .vote, request.sid⟩] →
          SID_GET_IDX r.data.sid ≠ data.idx → Grants r.data (SID_GET_IDX r.data.sid) := by
        rintro r rfl hother
        rw [hsid] at hother ⊢
        exact (hgrants hfailed hother).congr hacked.idx fun k => by rw [hservers]
      refine ⟨hacked.idx.trans (hrestored.idx.trans hidx''), fun _ _ hother _ _ _ => hfinal _ rfl hother,
        fun _ _ hother => hfinal _ rfl hother, fun hsends => ?_⟩
      obtain hsame | hreceives := hsent
      · exact absurd (hevent'.symm.trans (hsame.symm.trans hsends)) nofun
      · exact absurd (hreceives.symm.trans hsends) nofun

/-- A voter that adopts the heartbeat of the server in its state identifier has given it access before. -/
theorem follows_adopted (h : Following data) (hunset : SID_GET_L data.sid = false) {hb : UInt64} (hne : hb ≠ 0)
    (hterm : SID_GET_TERM hb = SID_GET_TERM data.sid) (hname : NamesOwn data hb) (events : List event_t) :
    Follows data ⟨{ data with sid := hb }, .running, [], events⟩ := by
  have hidx := hname hne hterm
  have hgrants : SID_GET_IDX hb ≠ data.idx → Grants { data with sid := hb } (SID_GET_IDX hb) := by
    intro hother
    rw [hidx] at hother ⊢
    exact (h.voter hunset hother).congr rfl fun _ => rfl
  refine ⟨rfl, fun _ _ hother _ _ _ => hgrants hother, fun _ _ hother => hgrants hother, fun hsends => ?_⟩
  rw [(h.sender hsends).1] at hunset
  cases hunset

theorem follows_poll_vote_requests (h : Following data) (hsmall : data.idx < 256) (haccess : AccessInGroup data)
    (hname : NamesOwn data (data.hb (SID_GET_IDX data.sid))) (value : Nat) :
    Follows data (poll_vote_requests data value) := by
  unfold poll_vote_requests
  by_cases hl : SID_GET_L data.sid = true
  · rw [if_pos hl]
    exact follows_of_kept h ⟨rfl, rfl, fun _ => rfl, id⟩
  rw [if_neg hl]
  have hunset : SID_GET_L data.sid = false := by simpa using hl
  have hquiet : data.hb_event ≠ .hb_send_cb := fun hsends => hl (h.sender hsends).1
  simp only
  by_cases hhb : data.hb (SID_GET_IDX data.sid) ≠ 0 ∧
      SID_GET_TERM (data.hb (SID_GET_IDX data.sid)) = SID_GET_TERM data.sid
  · rw [if_pos hhb]
    exact follows_adopted h hunset hhb.1 hhb.2 hname _
  rw [if_neg hhb]
  generalize (List.range (get_group_size data.cid)).foldl (find_best_sid data.idx)
    (SID_SET_L data.sid, data.vote_req) = best
  by_cases hnone : best.1 = SID_SET_L data.sid
  · rw [if_pos hnone]
    exact follows_of_kept h ⟨rfl, rfl, fun _ => rfl, id⟩
  rw [if_neg hnone]
  have hdropped : AccessInGroup { data with vote_req := best.2 } := haccess
  obtain ⟨hclear, hidx, hevent⟩ := choose_candidate_access hdropped best.1
  dsimp only at hidx hevent
  generalize choose_candidate { data with vote_req := best.2 } best.1 = chosen at hclear hidx hevent
  split_ifs
  · refine follows_of_own hidx ?_ fun hsends => absurd (hevent.symm.trans hsends) hquiet
    rw [decline_vote, hidx]
    exact (sid_set_idx_fields _ hsmall).2.2
  · exact follows_cast_vote hidx hclear _ value

theorem follows_verify_leadership (h : Following data) (haccess : AccessInGroup data) (sids : List UInt64) :
    Follows data (rc_verify_leadership data sids 0) := by
  have hleader := better_sid_leads data.sid sids
  unfold rc_verify_leadership
  simp only
  generalize sids.foldl (fun best sid => if best < sid ∧ SID_GET_L sid then sid else best) data.sid = new_sid
    at hleader
  by_cases hsame : new_sid = data.sid
  · rw [if_neg (by simp [hsame])]
    exact follows_of_kept h ⟨rfl, rfl, fun _ => rfl, id⟩
  · rw [if_pos hsame]
    have hl := (hleader.resolve_left hsame).2
    have hadopted : AccessInGroup { data with sid := new_sid } := haccess
    exact follows_follower (by exact rfl) hadopted (fun hunset => absurd (hl.symm.trans hunset) nofun) _

/-- A server that has recovered without a leader gives access to the server in its state identifier, if that is
    connected. -/
theorem follows_recover_log_cb (hsmall : data.idx < 256) (haccess : AccessInGroup data)
    (hreachable : SID_GET_L data.sid = false → SID_GET_IDX data.sid ≠ data.idx →
      data.is_on (SID_GET_IDX data.sid) = true ∧ (data.servers (SID_GET_IDX data.sid)).rc_connected = true) :
    Follows data (recover_log_cb data 0) := by
  unfold recover_log_cb
  split_ifs
  · exact follows_election rfl hsmall rfl
  · exact follows_follower rfl haccess hreachable []

end handlers

/-- The server handles events, or is inside a handler that waits for its vote ACK. -/
def is_running : mode_t → Bool
  | .running | .waiting _ => true
  | .starting | .recovering | .exited => false

/-- A leader in the state identifier that is in the configuration and connected has access to the log, and no other
    server has. -/
def GrantsLeader (data : dare_server_data_t) : Prop :=
  SID_GET_L data.sid = true → SID_GET_IDX data.sid ≠ data.idx → data.is_on (SID_GET_IDX data.sid) = true →
    (data.servers (SID_GET_IDX data.sid)).rc_connected = true → Grants data (SID_GET_IDX data.sid)

/-- That is so for every server that runs and has got a new state identifier. -/
def LogGranted (g g' : group_t) : Prop :=
  ∀ i < MAX_SERVER_COUNT, is_running (g'.mode i) = true → (g'.server i).sid ≠ (g.server i).sid →
    GrantsLeader (g'.server i)

/-- A server that follows has no heartbeat of another leader of its own term than the server in its state identifier,
    the LOG QPs can be reset, and those that are accessible belong to servers that are connected. -/
def FollowsAnew (g : group_t) : Action → Prop
  | .hb_receive_cb i value => value = 0 ∧ AccessInGroup (g.server i) ∧ HeartbeatsNameOwn (g.server i)
  | .poll_vote_requests i _ =>
    AccessInGroup (g.server i) ∧ NamesOwn (g.server i) ((g.server i).hb (SID_GET_IDX (g.server i).sid))
  | .verify_leadership i _ value => value = 0 ∧ AccessInGroup (g.server i)
  | .recover_log_cb i value =>
    value = 0 ∧ AccessInGroup (g.server i) ∧
      (SID_GET_L (g.server i).sid = false → SID_GET_IDX (g.server i).sid ≠ (g.server i).idx →
        (g.server i).is_on (SID_GET_IDX (g.server i).sid) = true ∧
          ((g.server i).servers (SID_GET_IDX (g.server i).sid)).rc_connected = true)
  | _ => True

/-- The servers that run have given access to those they have voted for, and those that send heartbeats lead. -/
structure Granting (g : group_t) : Prop where
  idx : ∀ i < MAX_SERVER_COUNT, (g.server i).idx = i
  following : ∀ i < MAX_SERVER_COUNT, is_running (g.mode i) = true → Following (g.server i)

section steps

variable {g g' : group_t} {a : Action} {i : Nat} {r : handled}

theorem Granting.of_kept (hg : Granting g) (hkept : ∀ k, Kept (g.server k) (g'.server k))
    (hmode : ∀ k, is_running (g'.mode k) = true → is_running (g.mode k) = true) :
    Granting g' ∧ LogGranted g g' :=
  ⟨⟨fun k hk => (hkept k).idx.trans (hg.idx k hk),
    fun k hk hruns => (hg.following k hk (hmode k hruns)).of_kept (hkept k)⟩,
    fun k _ _ hchanged => absurd (hkept k).sid hchanged⟩

/-- A server that does not run yet. -/
theorem Granting.of_waits (hg : Granting g) (hothers : ∀ k ≠ i, g'.server k = g.server k ∧ g'.mode k = g.mode k)
    (hidx : i < MAX_SERVER_COUNT → (g'.server i).idx = i) (hmode : is_running (g'.mode i) = false) :
    Granting g' ∧ LogGranted g g' := by
  refine ⟨⟨fun k hk => ?_, fun k hk hruns => ?_⟩, fun k hk hruns hchanged => ?_⟩
  · by_cases hki : k = i
    · subst hki
      exact hidx hk
    · rw [(hothers k hki).1]
      exact hg.idx k hk
  · by_cases hki : k = i
    · rw [hki, hmode] at hruns
      cases hruns
    · rw [(hothers k hki).2] at hruns
      rw [(hothers k hki).1]
      exact hg.following k hk hruns
  · by_cases hki : k = i
    · rw [hki, hmode] at hruns
      cases hruns
    · exact absurd (congrArg dare_server_data_t.sid (hothers k hki).1) hchanged

theorem is_running_exited {mode : mode_t} (hruns : is_running mode = true) : mode ≠ .exited := by
  rintro rfl
  cases hruns

theorem Granting.after_handler (hg : Granting g)
    (hfollows : i < MAX_SERVER_COUNT → Follows (g.server i) r) :
    Granting (handle g i r) ∧ LogGranted g (handle g i r) := by
  refine ⟨⟨fun k hk => ?_, fun k hk hruns => ?_⟩, fun k hk hruns hchanged => ?_⟩
  · by_cases hki : k = i
    · subst hki
      rw [handle_server_self]
      exact (hfollows hk).idx.trans (hg.idx k hk)
    · rw [handle_server_of_ne hki]
      exact hg.idx k hk
  · by_cases hki : k = i
    · subst hki
      rw [handle_mode_self] at hruns
      rw [handle_server_self]
      have hr := hfollows hk
      refine ⟨fun hl hother => hr.voter (is_running_exited hruns) hl ?_, fun hsends => ?_⟩
      · rwa [hr.idx] at hother
      · rw [hr.idx]
        exact hr.sender hsends
    · rw [handle_mode_of_ne hki] at hruns
      rw [handle_server_of_ne hki]
      exact hg.following k hk hruns
  · by_cases hki : k = i
    · subst hki
      rw [handle_mode_self] at hruns
      rw [handle_server_self] at hchanged ⊢
      intro hl hother
      rw [(hfollows hk).idx] at hother
      exact (hfollows hk).granted hchanged hl hother (is_running_exited hruns)
    · exact absurd (congrArg dare_server_data_t.sid (handle_server_of_ne hki)) hchanged

theorem Granting.after_run_handler (hg : Granting g) {handler : dare_server_data_t → handled}
    (hfollows : i < MAX_SERVER_COUNT → Following (g.server i) → Follows (g.server i) (handler (g.server i))) :
    Granting (run_handler g i handler) ∧ LogGranted g (run_handler g i handler) := by
  unfold run_handler
  split_ifs with hmode
  · exact hg.after_handler fun hi => hfollows hi (hg.following i hi (by rw [hmode]; rfl))
  · exact hg.of_kept (fun _ => ⟨rfl, rfl, fun _ => rfl, id⟩) fun _ hruns => hruns

/-- A write into the control data does not change the access. -/
theorem kept_receive (data : dare_server_data_t) (i : Nat) (w : ctrl_write) : Kept data (receive data i w) := by
  cases w with
  | hb sid => exact ⟨rfl, rfl, fun _ => rfl, id⟩
  | vote_req request => exact ⟨rfl, rfl, fun _ => rfl, id⟩
  | vote_ack commit => exact ⟨rfl, rfl, fun _ => rfl, id⟩

theorem Granting.after_change (hg : Granting g) {data : dare_server_data_t} (hkept : Kept (g.server i) data) :
    Granting (set_data g i data) ∧ LogGranted g (set_data g i data) := by
  refine hg.of_kept (fun k => ?_) fun _ hruns => hruns
  by_cases hk : k = i
  · subst hk
    simp only [set_data, Function.update_self]
    exact hkept
  · simp only [set_data, Function.update_of_ne hk]
    exact ⟨rfl, rfl, fun _ => rfl, id⟩

theorem Granting.delivered (hg : Granting g) (i j : Nat) :
    Granting (deliver g i j) ∧ LogGranted g (deliver g i j) := by
  unfold deliver
  cases hhead : g.wire i j with
  | nil => exact hg.of_kept (fun _ => ⟨rfl, rfl, fun _ => rfl, id⟩) fun _ hruns => hruns
  | cons w rest =>
    have hkept : ∀ k, Kept (g.server k) (Function.update g.server j (receive (g.server j) i w) k) := by
      intro k
      by_cases hk : k = j
      · subst hk
        rw [Function.update_self]
        exact kept_receive (g.server k) i w
      · rw [Function.update_of_ne hk]
        exact ⟨rfl, rfl, fun _ => rfl, id⟩
    cases w with
    | hb sid => exact hg.of_kept hkept fun _ hruns => hruns
    | vote_req request => exact hg.of_kept hkept fun _ hruns => hruns
    | vote_ack commit =>
      simp only
      split_ifs with hwaits
      · refine hg.of_kept (fun k => ?_) fun k hruns => ?_
        · by_cases hk : k = i
          · subst hk
            rw [handle_server_self]
            exact ⟨(hkept k).idx, (hkept k).sid, (hkept k).access, nofun⟩
          · rw [handle_server_of_ne hk]
            exact hkept k
        · by_cases hk : k = i
          · rw [hk, hwaits]
            rfl
          · rwa [handle_mode_of_ne hk] at hruns
      · exact hg.of_kept hkept fun _ hruns => hruns

theorem lt_256_of_lt_max (hi : i < MAX_SERVER_COUNT) : i < 256 := Nat.lt_trans hi (by decide)

theorem Granting.after_step (hg : Granting g) (hok : FollowsAnew g a) :
    Granting (step g a) ∧ LogGranted g (step g a) := by
  have hidle : Granting g ∧ LogGranted g g :=
    hg.of_kept (fun _ => ⟨rfl, rfl, fun _ => rfl, id⟩) fun _ hruns => hruns
  have hsmall : ∀ i < MAX_SERVER_COUNT, (g.server i).idx < 256 := fun i hi => by
    rw [hg.idx i hi]
    exact lt_256_of_lt_max hi
  cases a with
  | start i =>
    simp only [step, start]
    split_ifs with hstarts
    · refine hg.of_waits (fun k hk => ⟨handle_server_of_ne hk, handle_mode_of_ne hk⟩) (fun hi => ?_) ?_
      · rw [handle_server_self]
        exact hg.idx i hi
      · rw [handle_mode_self]
        rfl
    · exact hg.after_handler fun hi => follows_election rfl (hsmall i hi) rfl
    · exact hidle
  | hb_receive_cb i value =>
    obtain ⟨rfl, haccess, hnames⟩ := hok
    simp only [step]
    split_ifs
    · exact hg.after_run_handler fun hi h => follows_hb_receive_cb h (hsmall i hi) haccess hnames
    · exact hidle
  | hb_send_cb i value =>
    simp only [step]
    split_ifs with hevent
    · exact hg.after_run_handler fun _ h => follows_hb_send_cb h hevent value
    · exact hidle
  | to_adjust_cb i =>
    rw [step]
    exact hg.after_run_handler fun _ h => follows_of_kept h ⟨rfl, rfl, fun _ => rfl, id⟩
  | poll_vote_count i value =>
    simp only [step]
    split_ifs with hcandidate
    · exact hg.after_run_handler fun _ h => follows_poll_vote_count h hcandidate value
    · exact hidle
  | poll_vote_requests i value =>
    rw [step]
    exact hg.after_run_handler fun hi h => follows_poll_vote_requests h (hsmall i hi) hok.1 hok.2 value
  | deliver i j => exact hg.delivered i j
  | fail_ack i =>
    simp only [step, fail_ack]
    cases g.mode i with
    | waiting j =>
      have hcut : Granting { g with wire := Function.update g.wire i (Function.update (g.wire i) j []) } :=
        ⟨hg.idx, hg.following⟩
      exact hcut.after_handler fun hi => follows_election rfl (hsmall i hi) rfl
    | starting => exact hidle
    | recovering => exact hidle
    | running => exact hidle
    | exited => exact hidle
  | connect i j connected =>
    refine hg.after_change ⟨rfl, rfl, fun k => ?_, id⟩
    by_cases hk : k = j
    · subst hk
      simp [dare_server_data_t.set_server]
    · simp [dare_server_data_t.set_server, hk]
  | log i log => exact hg.after_change ⟨rfl, rfl, fun _ => rfl, id⟩
  | cid i cid => exact hg.after_change ⟨rfl, rfl, fun _ => rfl, id⟩
  | verify_leadership i sids value =>
    obtain ⟨rfl, haccess⟩ := hok
    rw [step]
    exact hg.after_run_handler fun _ h => follows_verify_leadership h haccess sids
  | join i cid sid log =>
    refine hg.of_waits (fun k hk => ⟨Function.update_of_ne hk .., Function.update_of_ne hk ..⟩) (fun _ => ?_) ?_
    · simp only [step, join, Function.update_self, joined_data]
    · simp only [step, join, Function.update_self, is_running]
  | recover_log_cb i value =>
    obtain ⟨rfl, haccess, hreachable⟩ := hok
    simp only [step]
    split_ifs
    · exact hg.after_handler fun hi => follows_recover_log_cb (hsmall i hi) haccess hreachable
    · exact hidle

/-- In every run, servers that join included, in which no server that follows has a heartbeat of another leader of its
    own term, following a leader grants it the log. -/
theorem followed_leader_has_access {group_size : UInt8} {server : Nat → dare_server_data_t}
    (hinit : ∀ i, init_server_data i group_size = some (server i)) (actions : List Action)
    (hok : AllOk step FollowsAnew (group_init group_size server hinit) actions) :
    AllOk step (fun g a => LogGranted g (step g a)) (group_init group_size server hinit) actions := by
  have hstart : Granting (group_init group_size server hinit) :=
    ⟨fun i _ => (init_server_data_spec (hinit i)).1, nofun⟩
  exact hok.imp (fun g a hg hok => (hg.after_step hok).1) (fun g a hg hok => (hg.after_step hok).2) hstart

end steps

section instances

variable (data : dare_server_data_t)

instance (w : Nat) : Decidable (Grants data w) := inferInstanceAs (Decidable (_ ∧ _))

instance : Decidable (AccessInGroup data) :=
  inferInstanceAs (Decidable (∀ k < MAX_SERVER_COUNT, _ → _ → _ ∧ _))

instance (hb : UInt64) : Decidable (NamesOwn data hb) := inferInstanceAs (Decidable (_ → _ → _))

instance : Decidable (HeartbeatsNameOwn data) := inferInstanceAs (Decidable (_ ∧ (_ → _)))

instance : Decidable (GrantsLeader data) := inferInstanceAs (Decidable (_ → _ → _ → _ → Grants _ _))

instance (g g' : group_t) : Decidable (LogGranted g g') :=
  inferInstanceAs (Decidable (∀ i < MAX_SERVER_COUNT, _ → _ → GrantsLeader _))

instance (g : group_t) : ∀ a, Decidable (FollowsAnew g a)
  | .hb_receive_cb .. => inferInstanceAs (Decidable (_ ∧ _ ∧ _))
  | .poll_vote_requests .. => inferInstanceAs (Decidable (_ ∧ _))
  | .verify_leadership .. => inferInstanceAs (Decidable (_ ∧ _))
  | .recover_log_cb .. => inferInstanceAs (Decidable (_ ∧ _ ∧ (_ → _ → _ ∧ _)))
  | .start _ | .hb_send_cb .. | .to_adjust_cb _ | .poll_vote_count .. | .deliver .. | .fail_ack _ | .connect ..
  | .log .. | .cid .. | .join .. => inferInstanceAs (Decidable True)

end instances

/-- Server 1 follows server 0, for which it has voted. -/
def first_follower : List Action := first_leader ++ [.hb_send_cb 0 0, .deliver 0 1, .poll_vote_requests 1 0]

theorem first_leader_has_access :
    ((steps step group_of_three first_follower).server 1).sid = mk_sid 2 true 0 ∧
      AllOk step (fun g a => LogGranted g (step g a)) group_of_three first_follower :=
  ⟨by decide +kernel, followed_leader_has_access server_of_three_init first_follower (by decide +kernel)⟩

/-- Servers 0 and 2 are candidates of the second term. Server 0 is elected by server 1, and server 2 gets its
    heartbeat. -/
def lost_election : List Action :=
  [.connect 0 1 true, .connect 0 2 true, .connect 1 0 true, .connect 2 0 true, .start 0, .start 1, .start 2,
    .hb_receive_cb 0 0, .hb_receive_cb 2 0, .deliver 0 1, .deliver 0 1, .poll_vote_requests 1 0, .deliver 1 0,
    .deliver 1 0, .poll_vote_count 0 0, .hb_send_cb 0 0, .deliver 0 2, .deliver 0 2, .deliver 0 2,
    .hb_receive_cb 2 0]

/-- Server 2 follows without giving access to its log. -/
theorem followed_without_access :
    ¬AllOk step (fun g a => LogGranted g (step g a)) group_of_three lost_election := by
  decide +kernel

end dare.election
