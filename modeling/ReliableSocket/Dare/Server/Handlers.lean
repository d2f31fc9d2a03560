import ReliableSocket.Dare.Server.Election

open dare.log dare.server

namespace dare.election

/-- Only the heartbeats, the vote requests and what the election does not look at may differ. -/
structure SameBallot (data data' : dare_server_data_t) : Prop where
  idx : data'.idx = data.idx
  cid : data'.cid = data.cid
  sid : data'.sid = data.sid
  vote_ack : data'.vote_ack = data.vote_ack
  len : data'.log.len = data.log.len

/-- Only what the election does not look at may differ. -/
structure SameControl (data data' : dare_server_data_t) : Prop extends SameBallot data data' where
  vote_req : data'.vote_req = data.vote_req
  hb : data'.hb = data.hb
  latest : data'.latest_hb_received = data.latest_hb_received

section frame

variable {data data' data'' : dare_server_data_t}

theorem SameBallot.refl (data : dare_server_data_t) : SameBallot data data := ⟨rfl, rfl, rfl, rfl, rfl⟩

theorem SameBallot.trans (h : SameBallot data data') (h' : SameBallot data' data'') : SameBallot data data'' where
  idx := h'.idx.trans h.idx
  cid := h'.cid.trans h.cid
  sid := h'.sid.trans h.sid
  vote_ack := h'.vote_ack.trans h.vote_ack
  len := h'.len.trans h.len

theorem SameBallot.is_on (h : SameBallot data data') : data'.is_on = data.is_on := by
  funext i
  rw [dare_server_data_t.is_on, dare_server_data_t.is_on, h.cid]

theorem SameControl.refl (data : dare_server_data_t) : SameControl data data :=
  ⟨.refl data, rfl, rfl, rfl⟩

theorem SameControl.trans (h : SameControl data data') (h' : SameControl data' data'') :
    SameControl data data'' where
  toSameBallot := h.toSameBallot.trans h'.toSameBallot
  vote_req := h'.vote_req.trans h.vote_req
  hb := h'.hb.trans h.hb
  latest := h'.latest.trans h.latest

theorem SameControl.foldl {α : Type} {f : dare_server_data_t → α → dare_server_data_t}
    (hf : ∀ data a, SameControl data (f data a)) (as : List α) (data : dare_server_data_t) :
    SameControl data (as.foldl f data) := by
  induction as generalizing data with
  | nil => exact .refl data
  | cons a as ih => exact (hf data a).trans (ih (f data a))

theorem sameControl_servers (data : dare_server_data_t) (servers : Nat → server_t) :
    SameControl data { data with servers := servers } :=
  ⟨⟨rfl, rfl, rfl, rfl, rfl⟩, rfl, rfl, rfl⟩

theorem sameControl_revoke (data : dare_server_data_t) : SameControl data (rc_revoke_log_access data) :=
  sameControl_servers data _

theorem sameControl_restore (data : dare_server_data_t) (value : Nat) :
    SameControl data (rc_restore_log_access data value).2 := by
  have hset : ∀ data i, SameControl data (set_log_access data i true) :=
    fun data _ => sameControl_servers data _
  simp only [rc_restore_log_access]
  split_ifs
  · exact .refl data
  · exact .refl data
  · exact .refl data
  · exact .refl data
  · exact hset data _
  · exact .refl data
  · exact .foldl hset _ data
  · exact .refl data

theorem nc_buf_fill_len {log log' : dare_log_t} {i fuel offset k n : Nat}
    (hfill : nc_buf_fill log i fuel offset k = some (log', n)) : log'.len = log.len := by
  induction fuel generalizing log offset k with
  | zero => cases hfill
  | succ fuel ih =>
    rw [nc_buf_fill] at hfill
    cases hentry : log_get_entry log offset with
    | none =>
      rw [hentry] at hfill
      cases hfill
      rfl
    | some entry =>
      rw [hentry] at hfill
      rw [ih hfill]
      rfl

theorem sameControl_publish (data : dare_server_data_t) : SameControl data (publish_nc_buf data) := by
  refine ⟨⟨rfl, rfl, rfl, rfl, ?_⟩, rfl, rfl, rfl⟩
  change ((log_entries_to_nc_buf data.log data.idx).getD data.log).len = data.log.len
  cases hfill : nc_buf_fill data.log data.idx (data.log.len + 1) data.log.commit 0 with
  | none => simp [log_entries_to_nc_buf, hfill]
  | some result =>
    have hlen : result.1.len = data.log.len := nc_buf_fill_len hfill
    simpa [log_entries_to_nc_buf, hfill, write_word] using hlen

theorem sameControl_record_ack (data : dare_server_data_t) (i : Nat) : SameControl data (record_ack data i) := by
  simp only [record_ack]
  split_ifs
  · exact ⟨⟨rfl, rfl, rfl, rfl, rfl⟩, rfl, rfl, rfl⟩
  · exact ⟨⟨rfl, rfl, rfl, rfl, rfl⟩, rfl, rfl, rfl⟩

end frame

/-- What was read may be reset. -/
structure Dropped (data data' : dare_server_data_t) : Prop extends SameBallot data data' where
  vote_req : ∀ i, data'.vote_req i = data.vote_req i ∨ (data'.vote_req i).sid = 0
  hb : ∀ i, data'.hb i = data.hb i ∨ data'.hb i = 0
  latest : data'.latest_hb_received = data.latest_hb_received ∨ data'.latest_hb_received = 0 ∨
    ∃ i, data'.latest_hb_received = data.hb i

theorem SameControl.dropped {data data' : dare_server_data_t} (h : SameControl data data') :
    Dropped data data' where
  toSameBallot := h.toSameBallot
  vote_req i := .inl (by rw [h.vote_req])
  hb i := .inl (by rw [h.hb])
  latest := .inl h.latest

theorem Dropped.trans {data data' data'' : dare_server_data_t} (h : Dropped data data')
    (h' : Dropped data' data'') : Dropped data data'' where
  toSameBallot := h.toSameBallot.trans h'.toSameBallot
  vote_req i := by
    obtain hsame | hzero := h'.vote_req i
    · rw [hsame]
      exact h.vote_req i
    · exact .inr hzero
  hb i := by
    obtain hsame | hzero := h'.hb i
    · rw [hsame]
      exact h.hb i
    · exact .inr hzero
  latest := by
    obtain hsame | hzero | ⟨i, hi⟩ := h'.latest
    · rw [hsame]
      exact h.latest
    · exact .inr (.inl hzero)
    · obtain hsame | hzero := h.hb i
      · exact .inr (.inr ⟨i, hi.trans hsame⟩)
      · exact .inr (.inl (hi.trans hzero))

theorem Dropped.with_sid {data data' : dare_server_data_t} (h : Dropped data data') (sid : UInt64) :
    Dropped { data with sid := sid } { data' with sid := sid } where
  idx := h.idx
  cid := h.cid
  sid := rfl
  vote_ack := h.vote_ack
  len := h.len
  vote_req := h.vote_req
  hb := h.hb
  latest := h.latest

theorem Dropped.with_cid {data data' : dare_server_data_t} (h : Dropped data data') (cid : dare_cid_t) :
    Dropped { data with cid := cid } { data' with cid := cid } where
  idx := h.idx
  cid := rfl
  sid := h.sid
  vote_ack := h.vote_ack
  len := h.len
  vote_req := h.vote_req
  hb := h.hb
  latest := h.latest

/-- The event of an election. -/
def election_event (data : dare_server_data_t) : event_t := ⟨data.idx, .start_election, election_sid data⟩

/-- What a handler may write to the state identifier, and why. -/
inductive Written (data : dare_server_data_t) (r : handled) : Prop where
  | kept (hevents : r.events = []) (hsid : r.data.sid = data.sid)
  | started (hevents : r.events = [election_event data]) (hsid : r.data.sid = election_sid data)
      (hcleared : ∀ i < get_group_size data.cid, r.data.vote_ack i = data.log.len)
  | voted (i : Nat) (hevents : r.events = [⟨data.idx, .vote, r.data.sid⟩])
      (hl : SID_GET_L data.sid = false) (hbetter : SID_SET_L data.sid < r.data.sid)
      (hsid : r.data.sid = (data.vote_req i).sid)
  | declined (i : Nat) (hevents : r.events = [⟨data.idx, .decline, r.data.sid⟩])
      (hl : SID_GET_L data.sid = false) (hbetter : SID_SET_L data.sid < (data.vote_req i).sid)
      (hsid : r.data.sid =
        SID_SET_IDX (SID_SET_TERM data.sid (SID_GET_TERM (data.vote_req i).sid)) data.idx)
  | promoted (hevents : r.events = [⟨data.idx, .votes, r.data.sid⟩])
      (hcandidate : IS_CANDIDATE data = true) (hmajority : has_majority data = true)
      (hsid : r.data.sid = SID_SET_L data.sid)
  | adopted (hevents : r.events = [⟨data.idx, .heartbeat, r.data.sid⟩])
      (hl : SID_GET_L data.sid = false) (hsid : r.data.sid = data.hb (SID_GET_IDX data.sid))
      (hzero : r.data.sid ≠ 0) (hterm : SID_GET_TERM r.data.sid = SID_GET_TERM data.sid)
  | followed (hevents : r.events = [⟨data.idx, .heartbeat, r.data.sid⟩])
      (hbetter : data.sid < r.data.sid) (hl : SID_GET_L r.data.sid = true)
      (hsid : (∃ i, r.data.sid = data.hb i) ∨ r.data.sid = data.latest_hb_received)
  | verified (hevents : r.events = [⟨data.idx, .verification, r.data.sid⟩])
      (hbetter : data.sid < r.data.sid) (hl : SID_GET_L r.data.sid = true)

/-- All that the other servers can rely on when a server runs a handler. -/
structure Contract (data : dare_server_data_t) (r : handled) : Prop where
  idx : r.data.idx = data.idx
  len : r.data.log.len = data.log.len
  sid : Written data r
  cid : r.data.cid = data.cid ∨
    r.events ≠ [] ∧ ∃ i, (data.vote_req i).sid ≠ 0 ∧ r.data.cid = (data.vote_req i).cid
  hb : ∀ i, r.data.hb i = data.hb i ∨ r.data.hb i = 0
  latest : r.data.latest_hb_received = data.latest_hb_received ∨ r.data.latest_hb_received = 0 ∨
    ∃ i, r.data.latest_hb_received = data.hb i
  vote_req : ∀ i, r.data.vote_req i = data.vote_req i ∨ (r.data.vote_req i).sid = 0 ∨
    i = data.idx ∧ r.events = [election_event data] ∧ (r.data.vote_req i).sid = r.data.sid ∧
      (r.data.vote_req i).cid = data.cid
  vote_ack : r.data.vote_ack = data.vote_ack ∨
    r.events = [election_event data] ∧ ∀ i < get_group_size data.cid, r.data.vote_ack i = data.log.len
  posted_hb : ∀ i sid, (i, .hb sid) ∈ r.posted → i ≠ data.idx ∧ sid = data.sid
  posted_req : ∀ i request, (i, .vote_req request) ∈ r.posted →
    i ≠ data.idx ∧ r.events = [election_event data] ∧ request.sid = r.data.sid ∧ request.cid = data.cid
  posted_ack : ∀ i commit, (i, .vote_ack commit) ∈ r.posted →
    r.mode = .waiting i ∧ i = SID_GET_IDX r.data.sid

/-- Nothing is posted but a vote ACK, for which the server then waits. -/
def AcksOnly (r : handled) : Prop :=
  ∀ i w, (i, w) ∈ r.posted → ∃ commit, w = .vote_ack commit ∧ r.mode = .waiting i ∧ i = SID_GET_IDX r.data.sid

section rules

variable {data data' : dare_server_data_t} {r : handled}

theorem contract_of_dropped
    (hdropped : Dropped { data with sid := r.data.sid, cid := r.data.cid } r.data)
    (hcid : r.data.cid = data.cid ∨
      r.events ≠ [] ∧ ∃ i, (data.vote_req i).sid ≠ 0 ∧ r.data.cid = (data.vote_req i).cid)
    (hsid : Written data r) (hacks : AcksOnly r) : Contract data r where
  idx := hdropped.idx
  len := hdropped.len
  sid := hsid
  cid := hcid
  hb := hdropped.hb
  latest := hdropped.latest
  vote_req i := (hdropped.vote_req i).imp_right .inl
  vote_ack := .inl hdropped.vote_ack
  posted_hb i sid hmem := by
    obtain ⟨commit, hw, -⟩ := hacks i _ hmem
    cases hw
  posted_req i request hmem := by
    obtain ⟨commit, hw, -⟩ := hacks i _ hmem
    cases hw
  posted_ack i commit hmem := by
    obtain ⟨commit, -, hwaiting⟩ := hacks i _ hmem
    exact hwaiting

theorem lt_ne_zero {sid sid' : UInt64} (hlt : sid < sid') : sid' ≠ 0 := by
  intro hzero
  rw [hzero, UInt64.lt_iff_toNat_lt] at hlt
  exact Nat.not_lt_zero _ hlt

theorem SameBallot.election_event (h : SameBallot data data') :
    election_event data' = election_event data := by
  rw [election.election_event, election.election_event, election_sid, election_sid, h.idx, h.sid]

theorem SameBallot.has_majority (h : SameBallot data data') : has_majority data' = has_majority data := by
  have hack : ∀ i, has_ack data' i = has_ack data i := by
    intro i
    rw [has_ack, has_ack, h.idx, h.vote_ack, h.len]
  have hcount : vote_count data' = vote_count data := by
    funext size
    simp only [vote_count, hack, h.cid]
  rw [election.has_majority, election.has_majority, hcount, h.cid]

theorem SameBallot.is_candidate (h : SameBallot data data') : IS_CANDIDATE data' = IS_CANDIDATE data := by
  simp only [IS_CANDIDATE, IS_NONE, h.idx, h.sid]

theorem Dropped.request (h : Dropped data data') {i : Nat} (hsid : (data'.vote_req i).sid ≠ 0) :
    data'.vote_req i = data.vote_req i :=
  (h.vote_req i).resolve_right hsid

/-- What a handler does to the data after some of it was reset, it does to the data before. -/
theorem Written.of_dropped (h : Dropped data data') (hsid : Written data' r) : Written data r := by
  cases hsid with
  | kept hevents hsid => exact .kept hevents (hsid.trans h.sid)
  | started hevents hsid hcleared =>
    rw [h.cid, h.len] at hcleared
    refine .started (by rw [hevents, h.election_event]) ?_ hcleared
    rw [hsid, election_sid, election_sid, h.idx, h.sid]
  | voted i hevents hl hbetter hsid =>
    rw [h.idx] at hevents
    rw [h.sid] at hl hbetter
    refine .voted i hevents hl hbetter ?_
    rw [hsid, h.request (by rw [← hsid]; exact lt_ne_zero hbetter)]
  | declined i hevents hl hbetter hsid =>
    rw [h.idx] at hevents
    have hrequest := h.request (lt_ne_zero hbetter)
    rw [hrequest] at hbetter hsid
    rw [h.sid] at hl hbetter
    exact .declined i hevents hl hbetter (by rw [hsid, h.idx, h.sid])
  | promoted hevents hcandidate hmajority hsid =>
    rw [h.idx] at hevents
    exact .promoted hevents (h.is_candidate ▸ hcandidate) (h.has_majority ▸ hmajority)
      (by rw [hsid, h.sid])
  | adopted hevents hl hsid hzero hterm =>
    rw [h.idx] at hevents
    rw [h.sid] at hl hsid hterm
    refine .adopted hevents hl ?_ hzero hterm
    rw [hsid, (h.hb _).resolve_right (by rw [← hsid]; exact hzero)]
  | followed hevents hbetter hl hsid =>
    rw [h.idx] at hevents
    rw [h.sid] at hbetter
    have hne := lt_ne_zero hbetter
    refine .followed hevents hbetter hl ?_
    obtain ⟨i, hi⟩ | hlatest := hsid
    · exact .inl ⟨i, hi.trans ((h.hb i).resolve_right (hi ▸ hne))⟩
    · obtain hsame | hzero | ⟨i, hi⟩ := h.latest
      · exact .inr (hlatest.trans hsame)
      · exact absurd (hlatest.trans hzero) hne
      · exact .inl ⟨i, hlatest.trans hi⟩
  | verified hevents hbetter hl =>
    rw [h.idx] at hevents
    rw [h.sid] at hbetter
    exact .verified hevents hbetter hl

theorem Contract.of_dropped (h : Dropped data data') (hr : Contract data' r) : Contract data r where
  idx := hr.idx.trans h.idx
  len := hr.len.trans h.len
  sid := hr.sid.of_dropped h
  cid := by
    obtain hsame | ⟨hevents, i, hne, hcid⟩ := hr.cid
    · exact .inl (hsame.trans h.cid)
    · have hrequest := h.request hne
      rw [hrequest] at hne hcid
      exact .inr ⟨hevents, i, hne, hcid⟩
  hb i := by
    obtain hsame | hzero := hr.hb i
    · rw [hsame]
      exact h.hb i
    · exact .inr hzero
  latest := by
    obtain hsame | hzero | ⟨i, hi⟩ := hr.latest
    · rw [hsame]
      exact h.latest
    · exact .inr (.inl hzero)
    · obtain hsame | hzero := h.hb i
      · exact .inr (.inr ⟨i, hi.trans hsame⟩)
      · exact .inr (.inl (hi.trans hzero))
  vote_req i := by
    obtain hsame | hzero | ⟨hi, hevents, hsid, hcid⟩ := hr.vote_req i
    · rw [hsame]
      exact (h.vote_req i).imp_right .inl
    · exact .inr (.inl hzero)
    · exact .inr (.inr ⟨hi.trans h.idx, by rw [hevents, h.election_event], hsid, hcid.trans h.cid⟩)
  vote_ack := by
    obtain hsame | ⟨hevents, hcleared⟩ := hr.vote_ack
    · exact .inl (hsame.trans h.vote_ack)
    · rw [h.cid, h.len] at hcleared
      exact .inr ⟨by rw [hevents, h.election_event], hcleared⟩
  posted_hb i sid hmem := by
    rw [← h.idx, ← h.sid]
    exact hr.posted_hb i sid hmem
  posted_req i request hmem := by
    rw [← h.idx, ← h.cid, ← h.election_event]
    exact hr.posted_req i request hmem
  posted_ack := hr.posted_ack

/-- A handler that writes no state identifier leaves the ballot alone. -/
theorem Contract.sameBallot (hr : Contract data r) (hevents : r.events = []) : SameBallot data r.data where
  idx := hr.idx
  cid := hr.cid.resolve_right fun h => h.1 hevents
  sid := by
    obtain ⟨-, hsid⟩ : r.events = [] ∧ r.data.sid = data.sid := by
      cases hr.sid with
      | kept hevents hsid => exact ⟨hevents, hsid⟩
      | _ => simp_all
    exact hsid
  vote_ack := hr.vote_ack.resolve_right fun h => by simp [hevents] at h
  len := hr.len

/-- The contract of a handler that also sends the old state identifier to others. -/
theorem Contract.posts {posted : List (Nat × ctrl_write)} (hr : Contract data r)
    (hposted : ∀ p ∈ posted, p.1 ≠ data.idx ∧ p.2 = .hb data.sid) :
    Contract data { r with posted := posted ++ r.posted } where
  idx := hr.idx
  len := hr.len
  sid := by
    cases hr.sid with
    | kept hevents hsid => exact .kept hevents hsid
    | started hevents hsid hcleared => exact .started hevents hsid hcleared
    | voted i hevents hl hbetter hsid => exact .voted i hevents hl hbetter hsid
    | declined i hevents hl hbetter hsid => exact .declined i hevents hl hbetter hsid
    | promoted hevents hcandidate hmajority hsid => exact .promoted hevents hcandidate hmajority hsid
    | adopted hevents hl hsid hzero hterm => exact .adopted hevents hl hsid hzero hterm
    | followed hevents hbetter hl hsid => exact .followed hevents hbetter hl hsid
    | verified hevents hbetter hl => exact .verified hevents hbetter hl
  cid := hr.cid
  hb := hr.hb
  latest := hr.latest
  vote_req := hr.vote_req
  vote_ack := hr.vote_ack
  posted_hb i sid hmem := by
    obtain hmem | hmem := List.mem_append.mp hmem
    · obtain ⟨hne, hsid⟩ := hposted _ hmem
      cases hsid
      exact ⟨hne, rfl⟩
    · exact hr.posted_hb i sid hmem
  posted_req i request hmem := by
    obtain hmem | hmem := List.mem_append.mp hmem
    · exact absurd (hposted _ hmem).2 (by simp)
    · exact hr.posted_req i request hmem
  posted_ack i commit hmem := by
    obtain hmem | hmem := List.mem_append.mp hmem
    · exact absurd (hposted _ hmem).2 (by simp)
    · exact hr.posted_ack i commit hmem

end rules

section handlers

variable (data : dare_server_data_t)

theorem contract_continues {data data' : dare_server_data_t} (h : Dropped data data') :
    Contract data (continues data') := by
  have hcid : (continues data').data.cid = data.cid := h.cid
  refine contract_of_dropped ?_ (.inl hcid) (.kept rfl h.sid) fun i w hmem => absurd hmem (by simp [continues])
  change Dropped { data with sid := data'.sid, cid := data'.cid } data'
  rw [h.sid, h.cid]
  exact h

/-- The SID of an election; the term after the last one is 0. -/
theorem election_sid_fields {data : dare_server_data_t} (hidx : data.idx < 256) :
    (SID_GET_TERM (election_sid data)).toNat = ((SID_GET_TERM data.sid).toNat + 1) % 2 ^ 55 ∧
      SID_GET_L (election_sid data) = false ∧ SID_GET_IDX (election_sid data) = data.idx := by
  have hlt := sid_get_term_lt data.sid
  have hadd : (SID_GET_TERM data.sid + 1).toNat = (SID_GET_TERM data.sid).toNat + 1 := by
    rw [UInt64.toNat_add, UInt64.toNat_one]
    omega
  have hset := (sid_set_term_fields 0 (SID_GET_TERM data.sid + 1)).1
  rw [hadd] at hset
  simp only [election_sid, sid_set_idx_fields _ hidx, sid_unset_l_fields, hset, and_self]

theorem start_election_data : (start_election data).data =
    { data with
      sid := election_sid data
      servers := (become_candidate (rc_revoke_log_access { data with sid := election_sid data })).servers
      vote_req := Function.update data.vote_req data.idx
        { sid := election_sid data, index := (last_entry data.log).1, term := (last_entry data.log).2,
          cid := data.cid }
      vote_ack := fun i => if i < get_group_size data.cid then data.log.len else data.vote_ack i
      hb_event := .hb_receive_cb } := by
  simp only [start_election, rc_send_vote_request, become_candidate, rc_revoke_log_access]

/-- A server that starts an election sends nothing but its vote request, and not to itself. -/
theorem start_election_posted {data : dare_server_data_t} {i : Nat} {w : ctrl_write}
    (hmem : (i, w) ∈ (start_election data).posted) :
    i ≠ data.idx ∧ ∃ request, w = .vote_req request ∧ request.sid = election_sid data ∧
      request.cid = data.cid := by
  simp only [start_election, rc_send_vote_request, List.mem_map, List.mem_filter, Prod.mk.injEq] at hmem
  obtain ⟨j, ⟨-, hreachable⟩, rfl, rfl⟩ := hmem
  simp only [is_reachable, Bool.and_eq_true, decide_eq_true_eq] at hreachable
  exact ⟨hreachable.1.1, _, rfl, rfl, rfl⟩

theorem contract_start_election : Contract data (start_election data) := by
  have hdata := start_election_data data
  have hevents : (start_election data).events = [election_event data] := rfl
  have hposted := @start_election_posted data
  generalize start_election data = r at hdata hevents hposted
  refine ⟨?_, ?_, ?_, ?_, fun i => ?_, ?_, fun i => ?_, ?_, ?_, ?_, ?_⟩
  · rw [hdata]
  · rw [hdata]
  · refine .started hevents ?_ fun i hi => ?_
    · rw [hdata]
    · rw [hdata]
      exact if_pos hi
  · exact .inl (by rw [hdata])
  · exact .inl (by rw [hdata])
  · exact .inl (by rw [hdata])
  · by_cases hi : i = data.idx
    · subst hi
      refine .inr (.inr ⟨rfl, hevents, ?_, ?_⟩)
      · simp only [hdata, Function.update_self]
      · simp only [hdata, Function.update_self]
    · exact .inl (by rw [hdata]; exact Function.update_of_ne hi ..)
  · refine .inr ⟨hevents, fun i hi => ?_⟩
    rw [hdata]
    exact if_pos hi
  · intro i sid hmem
    obtain ⟨-, request, hw, -⟩ := hposted hmem
    cases hw
  · intro i request hmem
    obtain ⟨hother, request', hw, hsid, hcid⟩ := hposted hmem
    cases hw
    exact ⟨hother, hevents, by rw [hdata, hsid], hcid⟩
  · intro i commit hmem
    obtain ⟨-, request, hw, -⟩ := hposted hmem
    cases hw

theorem send_vote_ack_spec (events : List event_t) :
    SameControl data (send_vote_ack data events).data ∧ (send_vote_ack data events).events = events ∧
      AcksOnly (send_vote_ack data events) := by
  by_cases hsends : data.is_on (SID_GET_IDX data.sid) ∧ (data.servers (SID_GET_IDX data.sid)).rc_connected
  · have heq : send_vote_ack data events =
        ⟨data, .waiting (SID_GET_IDX data.sid), [(SID_GET_IDX data.sid, .vote_ack data.log.commit)], events⟩ := by
      simp [send_vote_ack, rc_send_vote_ack, hsends]
    rw [heq]
    refine ⟨.refl data, rfl, fun i w hmem => ?_⟩
    simp only [List.mem_singleton, Prod.mk.injEq] at hmem
    exact ⟨_, hmem.2, by rw [hmem.1], hmem.1⟩
  · have heq : send_vote_ack data events =
        ⟨{ data with hb_event := .hb_receive_cb }, .running, [], events⟩ := by
      simp only [send_vote_ack, rc_send_vote_ack, if_neg hsends]
    rw [heq]
    exact ⟨⟨⟨rfl, rfl, rfl, rfl, rfl⟩, rfl, rfl, rfl⟩, rfl, fun i w hmem => absurd hmem (by simp)⟩

theorem server_to_follower_spec (value : Nat) (events : List event_t) :
    SameControl data (server_to_follower data value events).data ∧
      (server_to_follower data value events).events = events ∧
      AcksOnly (server_to_follower data value events) := by
  have hstopped : SameControl data { data with hb_event := .stopped } :=
    ⟨⟨rfl, rfl, rfl, rfl, rfl⟩, rfl, rfl, rfl⟩
  have hrestored := ((hstopped.trans (sameControl_revoke _)).trans (sameControl_publish _)).trans
    (sameControl_restore _ value)
  simp only [server_to_follower]
  split_ifs
  · obtain ⟨hsame, hevents, hacks⟩ := send_vote_ack_spec (rc_restore_log_access
      (publish_nc_buf (rc_revoke_log_access { data with hb_event := .stopped })) value).2 events
    exact ⟨hrestored.trans hsame, hevents, hacks⟩
  · exact ⟨hrestored.trans ⟨⟨rfl, rfl, rfl, rfl, rfl⟩, rfl, rfl, rfl⟩, rfl, fun i w hmem => absurd hmem (by simp)⟩

/-- The contract of a server that goes to follower state, with a new SID or with the old one. -/
theorem contract_follower {data data' : dare_server_data_t} (h : Dropped data data') {sid : UInt64}
    (value : Nat) {events : List event_t}
    (hsid : ∀ r : handled, r.data.sid = sid → r.events = events → Written data r) :
    Contract data (server_to_follower { data' with sid := sid } value events) := by
  obtain ⟨hsame, hevents, hacks⟩ := server_to_follower_spec { data' with sid := sid } value events
  have hcid : (server_to_follower { data' with sid := sid } value events).data.cid = data.cid :=
    hsame.cid.trans h.cid
  refine contract_of_dropped ?_ (.inl hcid) (hsid _ hsame.sid hevents) hacks
  rw [hsame.sid, hcid]
  exact (h.with_sid sid).trans hsame.dropped

theorem contract_vote_ack_sent (success : Bool) : Contract data (vote_ack_sent data success) := by
  cases success with
  | false => exact contract_start_election data
  | true => exact contract_continues (SameControl.dropped ⟨⟨rfl, rfl, rfl, rfl, rfl⟩, rfl, rfl, rfl⟩)

end handlers

section heartbeats

variable {data : dare_server_data_t}

/-- One heartbeat is reset, and the one of the leader possibly kept. -/
theorem dropped_hb (data : dare_server_data_t) (i : Nat) {latest : UInt64}
    (hlatest : latest = data.latest_hb_received ∨ latest = 0 ∨ ∃ i, latest = data.hb i) :
    Dropped data { data with hb := Function.update data.hb i 0, latest_hb_received := latest } := by
  refine ⟨⟨rfl, rfl, rfl, rfl, rfl⟩, fun _ => .inl rfl, fun j => ?_, hlatest⟩
  by_cases hj : j = i
  · subst hj
    exact .inr (Function.update_self ..)
  · exact .inl (Function.update_of_ne hj ..)

theorem fetch_hb_dropped (data : dare_server_data_t) (leader i : Nat) : Dropped data (fetch_hb data leader i).2 := by
  unfold fetch_hb
  split_ifs
  · exact ⟨⟨rfl, rfl, rfl, rfl, rfl⟩, fun _ => .inl rfl, fun _ => .inl rfl, .inr (.inl rfl)⟩
  · exact dropped_hb data i (.inl rfl)

theorem fetch_hb_source (data : dare_server_data_t) (leader i : Nat) :
    (fetch_hb data leader i).1 = data.hb i ∨ (fetch_hb data leader i).1 = data.latest_hb_received := by
  unfold fetch_hb
  split_ifs
  · exact .inr rfl
  · exact .inl rfl

/-- Fetching a heartbeat only clears it. -/
theorem fetch_hb_rest (data : dare_server_data_t) (leader i : Nat) :
    ((fetch_hb data leader i).2.latest_hb_received = data.latest_hb_received ∨
      (fetch_hb data leader i).2.latest_hb_received = 0) ∧
      (fetch_hb data leader i).2.servers = data.servers ∧
      (fetch_hb data leader i).2.hb_event = data.hb_event := by
  unfold fetch_hb
  split_ifs
  · exact ⟨.inr rfl, rfl, rfl⟩
  · exact ⟨.inl rfl, rfl, rfl⟩

/-- What the loop of `hb_receive_cb` has done so far. -/
structure Scanned (data : dare_server_data_t) (s : hb_scan) : Prop where
  dropped : Dropped data s.data
  latest : s.data.latest_hb_received = data.latest_hb_received ∨ s.data.latest_hb_received = 0
  servers : s.data.servers = data.servers
  event : s.data.hb_event = data.hb_event
  le : data.sid ≤ s.new_sid
  source : s.new_sid = data.sid ∨ SID_GET_L s.new_sid = true ∧
    ((∃ i < get_group_size data.cid, s.new_sid = data.hb i) ∨ s.new_sid = data.latest_hb_received)
  posted : ∀ p ∈ s.posted, p.1 ≠ data.idx ∧ p.2 = .hb data.sid

theorem posted_hb_reply {data : dare_server_data_t} {i : Nat} {p : Nat × ctrl_write}
    (hmem : p ∈ rc_send_hb_reply data i) : p = (i, .hb data.sid) := by
  unfold rc_send_hb_reply at hmem
  split_ifs at hmem with hsends
  · exact List.mem_singleton.mp hmem
  · cases hmem

theorem Scanned.server {s : hb_scan} (hs : Scanned data s) (leader : Nat) {i : Nat}
    (hi : i < get_group_size data.cid) : Scanned data (hb_receive_server leader s i) := by
  unfold hb_receive_server
  by_cases hskip : i = s.data.idx ∨ s.data.is_on i = false
  · rw [if_pos hskip]
    exact hs
  rw [if_neg hskip]
  rw [not_or] at hskip
  have hdropped := hs.dropped.trans (fetch_hb_dropped s.data leader i)
  have hsource := fetch_hb_source s.data leader i
  obtain ⟨hlatest, hservers, hevent⟩ := fetch_hb_rest s.data leader i
  have hlatest : (fetch_hb s.data leader i).2.latest_hb_received = data.latest_hb_received ∨
      (fetch_hb s.data leader i).2.latest_hb_received = 0 := by
    obtain hsame | hzero := hlatest
    · rw [hsame]
      exact hs.latest
    · exact .inr hzero
  have hservers := hservers.trans hs.servers
  have hevent := hevent.trans hs.event
  simp only
  split_ifs with hzero hold hleader hleader
  · exact ⟨hdropped, hlatest, hservers, hevent, hs.le, hs.source, hs.posted⟩
  · -- An outdated leader is told the own state identifier.
    refine ⟨hdropped, hlatest, hservers, hevent, hs.le, hs.source, fun p hmem => ?_⟩
    obtain hmem | hmem := List.mem_append.mp hmem
    · exact hs.posted p hmem
    · rw [posted_hb_reply hmem]
      refine ⟨fun hi => hskip.1 (hi.trans hs.dropped.idx.symm), ?_⟩
      exact congrArg ctrl_write.hb hdropped.sid
  · exact ⟨hdropped, hlatest, hservers, hevent, hs.le, hs.source, hs.posted⟩
  · refine ⟨hdropped, hlatest, hservers, hevent, ?_, .inr ⟨hleader, ?_⟩, hs.posted⟩
    · exact UInt64.le_trans hs.le (UInt64.not_lt.mp hold)
    · obtain hown | hkept := hsource
      · have hsame := (hs.dropped.hb i).resolve_right (by rw [← hown]; exact hzero)
        exact .inl ⟨i, hi, hown.trans hsame⟩
      · have hsame := hs.latest.resolve_right (by rw [← hkept]; exact hzero)
        exact .inr (hkept.trans hsame)
  · exact ⟨hdropped, hlatest, hservers, hevent, hs.le, hs.source, hs.posted⟩

/-- An invariant of the scan holds after the loop of `hb_receive_cb`. -/
theorem hb_receive_loop_invariant {P : hb_scan → Prop}
    (hstep : ∀ s i, Scanned data s → i < get_group_size data.cid → P s →
      P (hb_receive_server (SID_GET_IDX data.sid) s i))
    (hstart : P ⟨true, data.sid, { data with log := { data.log with tail := data.log.len } }, []⟩) :
    Scanned data (hb_receive_loop data) ∧ P (hb_receive_loop data) := by
  have hloop : ∀ (is : List Nat) {s : hb_scan}, (∀ i ∈ is, i < get_group_size data.cid) → Scanned data s ∧ P s →
      Scanned data (is.foldl (hb_receive_server (SID_GET_IDX data.sid)) s) ∧
        P (is.foldl (hb_receive_server (SID_GET_IDX data.sid)) s) := by
    intro is
    induction is with
    | nil => exact fun _ hs => hs
    | cons i is ih =>
      intro s his hs
      have hi := his i (List.mem_cons_self ..)
      exact ih (fun j hj => his j (List.mem_cons_of_mem _ hj)) ⟨hs.1.server _ hi, hstep s i hs.1 hi hs.2⟩
  refine hloop _ (fun i hi => List.mem_range.mp hi) ⟨?_, hstart⟩
  exact ⟨SameControl.dropped ⟨⟨rfl, rfl, rfl, rfl, rfl⟩, rfl, rfl, rfl⟩, .inl rfl, rfl, rfl, UInt64.le_refl _,
    .inl rfl, fun p hmem => absurd hmem (by simp)⟩

theorem scanned_loop (data : dare_server_data_t) : Scanned data (hb_receive_loop data) :=
  (hb_receive_loop_invariant (P := fun _ => True) (fun _ _ _ _ _ => trivial) trivial).1

/-- A state identifier that replaces the own one is a better leader's. -/
theorem Scanned.better {s : hb_scan} (hs : Scanned data s) (hne : s.new_sid ≠ data.sid) :
    data.sid < s.new_sid ∧ SID_GET_L s.new_sid = true ∧
      ((∃ i < get_group_size data.cid, s.new_sid = data.hb i) ∨ s.new_sid = data.latest_hb_received) :=
  ⟨UInt64.lt_of_le_of_ne hs.le (Ne.symm hne), hs.source.resolve_left hne⟩

theorem contract_hb_receive_cb (data : dare_server_data_t) (value : Nat) :
    Contract data (hb_receive_cb data value) := by
  have hscan := scanned_loop data
  unfold hb_receive_cb
  by_cases hmember : data.idx ≥ get_group_size data.cid
  · rw [if_pos hmember]
    exact contract_continues (SameControl.refl data).dropped
  rw [if_neg hmember]
  simp only
  generalize hb_receive_loop data = s at hscan
  have hposted := hscan.posted
  split_ifs with htimeout hnew hterm
  · exact ((contract_start_election s.data).of_dropped hscan.dropped).posts hposted
  · obtain ⟨hbetter, hl, hsource⟩ := hscan.better hnew
    refine Contract.posts (contract_follower hscan.dropped value fun r hsid hevents => ?_) hposted
    rw [← hsid] at hbetter hl hsource hevents
    exact .followed hevents hbetter hl (hsource.imp_left fun ⟨i, _, hi⟩ => ⟨i, hi⟩)
  · obtain ⟨hbetter, hl, hsource⟩ := hscan.better hnew
    have hfollowed : Contract data ⟨{ s.data with sid := s.new_sid }, .running, [],
        [⟨data.idx, .heartbeat, s.new_sid⟩]⟩ := by
      refine contract_of_dropped ?_ (.inl hscan.dropped.cid)
        (.followed rfl hbetter hl (hsource.imp_left fun ⟨i, _, hi⟩ => ⟨i, hi⟩))
        fun i w hmem => absurd hmem (by simp)
      change Dropped { data with sid := s.new_sid, cid := s.data.cid } _
      rw [hscan.dropped.cid]
      exact hscan.dropped.with_sid s.new_sid
    simpa using hfollowed.posts hposted
  · simpa [continues] using (contract_continues hscan.dropped).posts hposted

theorem find_hb_reply_dropped (data : dare_server_data_t) (is : List Nat) :
    Dropped data (find_hb_reply data is).2 := by
  induction is generalizing data with
  | nil => exact (SameControl.refl data).dropped
  | cons i is ih =>
    have hreset : Dropped data { data with hb := Function.update data.hb i 0 } :=
      dropped_hb data i (.inl rfl)
    simp only [find_hb_reply]
    split_ifs
    · exact ih data
    · exact hreset.trans (ih _)
    · exact hreset

theorem contract_hb_send_cb (data : dare_server_data_t) (value : Nat) : Contract data (hb_send_cb data value) := by
  have hdropped := find_hb_reply_dropped data (List.range (get_group_size data.cid))
  unfold hb_send_cb
  simp only
  generalize find_hb_reply data (List.range (get_group_size data.cid)) = found at hdropped
  split_ifs
  · exact contract_follower hdropped value fun r hsid hevents => .kept hevents (hsid.trans hdropped.sid)
  · have hposted : ∀ p ∈ rc_send_hb found.2, p.1 ≠ data.idx ∧ p.2 = .hb data.sid := by
      intro p hmem
      simp only [rc_send_hb, List.mem_map, List.mem_filter] at hmem
      obtain ⟨i, ⟨-, hreachable⟩, rfl⟩ := hmem
      simp only [is_reachable, Bool.and_eq_true, decide_eq_true_eq] at hreachable
      rw [← hdropped.idx, ← hdropped.sid]
      exact ⟨hreachable.1.1, rfl⟩
    simpa [continues] using (contract_continues hdropped).posts hposted

theorem contract_to_adjust_cb (data : dare_server_data_t) : Contract data (continues (to_adjust_cb data)) := by
  apply contract_continues
  apply dropped_hb
  split_ifs
  · exact .inr (.inr ⟨_, rfl⟩)
  · exact .inl rfl

end heartbeats

section votes

variable {data : dare_server_data_t}

theorem contract_promoted {data' : dare_server_data_t} {mode : mode_t}
    (h : Dropped { data with sid := SID_SET_L data.sid } data') (hcandidate : IS_CANDIDATE data = true)
    (hmajority : has_majority data = true) :
    Contract data ⟨data', mode, [], [⟨data.idx, .votes, SID_SET_L data.sid⟩]⟩ := by
  refine contract_of_dropped ?_ (.inl h.cid) ?_ fun i w hmem => absurd hmem (by simp)
  · change Dropped { data with sid := data'.sid, cid := data'.cid } data'
    rw [h.sid, h.cid]
    exact h
  · refine .promoted ?_ hcandidate hmajority h.sid
    change _ = [(⟨data.idx, .votes, data'.sid⟩ : event_t)]
    rw [h.sid]

theorem sameControl_counted (data : dare_server_data_t) :
    SameControl data
      (((List.range (get_group_size data.cid)).filter (has_ack data)).foldl record_ack data) :=
  .foldl sameControl_record_ack _ data

theorem contract_poll_vote_count (hcandidate : IS_CANDIDATE data = true) (value : Nat) :
    Contract data (poll_vote_count data value) := by
  have hcounted := sameControl_counted data
  unfold poll_vote_count
  simp only
  generalize ((List.range (get_group_size data.cid)).filter (has_ack data)).foldl record_ack data =
    counted at hcounted
  by_cases hmajority : has_majority data = true
  · rw [if_neg (by simp [hmajority])]
    -- the new leader only changes its timer, the apply offsets and the access to its log
    set leader : dare_server_data_t := { counted with
      sid := SID_SET_L data.sid
      hb_event := .hb_send_cb
      apply_offsets := fun i =>
        if i < get_extended_group_size data.cid then counted.log.head else counted.apply_offsets i }
    have hleader : Dropped { data with sid := SID_SET_L data.sid } leader :=
      (hcounted.dropped.with_sid (SID_SET_L data.sid)).trans
        (SameControl.dropped ⟨⟨rfl, rfl, rfl, rfl, rfl⟩, rfl, rfl, rfl⟩)
    exact contract_promoted (hleader.trans (sameControl_restore leader value).dropped) hcandidate hmajority
  · rw [if_pos (by simpa using hmajority)]
    exact contract_continues hcounted.dropped

theorem drop_request_cases (vote_req : Nat → vote_req_t) (i j : Nat) :
    drop_request vote_req i j = vote_req j ∨ (drop_request vote_req i j).sid = 0 := by
  unfold drop_request
  by_cases hj : j = i
  · subst hj
    rw [Function.update_self]
    exact .inr rfl
  · rw [Function.update_of_ne hj]
    exact .inl rfl

/-- Requests are only dropped. -/
def OnlyDrops (vote_req vote_req' : Nat → vote_req_t) : Prop :=
  ∀ i, vote_req' i = vote_req i ∨ (vote_req' i).sid = 0

theorem OnlyDrops.drop {vote_req vote_req' : Nat → vote_req_t} (h : OnlyDrops vote_req vote_req') (i : Nat) :
    OnlyDrops vote_req (drop_request vote_req' i) := by
  intro j
  obtain hsame | hzero := drop_request_cases vote_req' i j
  · rw [hsame]
    exact h j
  · exact .inr hzero

/-- What the first loop of `poll_vote_requests` has found so far. -/
structure BestSid (data : dare_server_data_t) (s : UInt64 × (Nat → vote_req_t)) : Prop where
  drops : OnlyDrops data.vote_req s.2
  best : s.1 = SID_SET_L data.sid ∨
    SID_SET_L data.sid < s.1 ∧ ∃ i, i ≠ data.idx ∧ s.1 = (data.vote_req i).sid

theorem BestSid.server {s : UInt64 × (Nat → vote_req_t)} (hs : BestSid data s) (i : Nat) :
    BestSid data (find_best_sid data.idx s i) := by
  unfold find_best_sid
  split_ifs with hown hworse
  · exact hs
  · exact ⟨hs.drops.drop i, hs.best⟩
  · have hbetter : s.1 < (s.2 i).sid := UInt64.not_le.mp hworse
    have hsame := (hs.drops i).resolve_right (lt_ne_zero hbetter)
    refine ⟨hs.drops, .inr ⟨?_, i, hown, by rw [hsame]⟩⟩
    obtain hold | ⟨hold, -⟩ := hs.best
    · exact hold ▸ hbetter
    · exact UInt64.lt_trans hold hbetter

theorem bestSid_loop (data : dare_server_data_t) (is : List Nat) :
    BestSid data (is.foldl (find_best_sid data.idx) (SID_SET_L data.sid, data.vote_req)) := by
  have hloop : ∀ (is : List Nat) {s : UInt64 × (Nat → vote_req_t)}, BestSid data s →
      BestSid data (is.foldl (find_best_sid data.idx) s) := by
    intro is
    induction is with
    | nil => exact fun hs => hs
    | cons i is ih => exact fun hs => ih (hs.server i)
  exact hloop is ⟨fun _ => .inl rfl, .inl rfl⟩

/-- The entry with index and term `last` is not more recent than the log of the requesting server. -/
def AtLeast (request : vote_req_t) (last : UInt64 × UInt64) : Prop :=
  last.2 < request.term ∨ last.2 = request.term ∧ last.1 ≤ request.index

theorem AtLeast.trans {request request' : vote_req_t} {last : UInt64 × UInt64}
    (h : AtLeast request last) (h' : AtLeast request' (request.index, request.term)) :
    AtLeast request' last := by
  obtain hlt | ⟨heq, hle⟩ := h
  · obtain hlt' | ⟨heq', -⟩ := h'
    · exact .inl (UInt64.lt_trans hlt hlt')
    · exact .inl (heq' ▸ hlt)
  · obtain hlt' | ⟨heq', hle'⟩ := h'
    · exact .inl (heq ▸ hlt')
    · exact .inr ⟨heq.trans heq', UInt64.le_trans hle hle'⟩

/-- The comparison of the source. -/
theorem atLeast_of_not_better {best request : vote_req_t}
    (h : ¬(best.term > request.term ∨ best.term = request.term ∧ best.index > request.index)) :
    AtLeast request (best.index, best.term) := by
  rw [not_or] at h
  obtain ⟨hterm, hindex⟩ := h
  by_cases heq : best.term = request.term
  · exact .inr ⟨heq, UInt64.not_lt.mp fun hlt => hindex ⟨heq, hlt⟩⟩
  · exact .inl (UInt64.lt_of_le_of_ne (UInt64.not_lt.mp hterm) heq)

/-- What the second loop has found so far: the best request is the own log or one that was received and
    is not behind the own log, and the highest term is that of a request with a better SID. -/
structure BestRequest (data : dare_server_data_t) (last : UInt64 × UInt64) (s : request_scan) : Prop where
  drops : OnlyDrops data.vote_req s.vote_req
  best : s.best.sid = SID_SET_L data.sid ∨
    SID_SET_L data.sid < s.best.sid ∧ ∃ i, s.best = data.vote_req i
  atLeast : AtLeast s.best last
  highest : ∃ i, SID_SET_L data.sid < (data.vote_req i).sid ∧
    s.highest_term = SID_GET_TERM (data.vote_req i).sid

/-- With the leader flag set in the comparison, a candidate is only better in a later term. -/
theorem term_lt_of_better {sid sid' : UInt64} (hbetter : SID_SET_L sid < sid') (hl : SID_GET_L sid' = false) :
    SID_GET_TERM sid < SID_GET_TERM sid' := by
  obtain ⟨hterm, hset, -⟩ := sid_set_l_fields sid
  obtain hlater | ⟨-, hflag | ⟨hflag, -⟩⟩ := sid_lt_iff.mp hbetter
  · rwa [hterm] at hlater
  · rw [hset, hl] at hflag
    exact absurd hflag (by decide)
  · rw [hset, hl] at hflag
    cases hflag

theorem term_mono {sid sid' : UInt64} (hlt : SID_GET_TERM sid < SID_GET_TERM sid') : sid < sid' :=
  sid_lt_iff.mpr (.inl hlt)

theorem set_l_ne_zero {sid sid' : UInt64} (hle : SID_SET_L sid ≤ sid') : sid' ≠ 0 := by
  rintro rfl
  rw [UInt64.le_iff_toNat_le, sid_set_l, UInt64.toNat_zero] at hle
  split at hle <;> omega

theorem BestRequest.server {last : UInt64 × UInt64} {s : request_scan} (hs : BestRequest data last s)
    (i : Nat) : BestRequest data last (find_best_request s i) := by
  unfold find_best_request
  simp only
  by_cases hworse : s.best.sid > (s.vote_req i).sid
  · rw [if_pos hworse]
    exact ⟨hs.drops.drop i, hs.best, hs.atLeast, hs.highest⟩
  rw [if_neg hworse]
  have hbetter : SID_SET_L data.sid ≤ (s.vote_req i).sid := by
    refine UInt64.le_trans ?_ (UInt64.not_lt.mp hworse)
    obtain hown | ⟨hlt, -⟩ := hs.best
    · rw [hown]
      exact UInt64.le_refl _
    · exact UInt64.le_of_lt hlt
  have hsame : s.vote_req i = data.vote_req i :=
    (hs.drops i).resolve_right (set_l_ne_zero hbetter)
  have hhighest : ∃ j, SID_SET_L data.sid < (data.vote_req j).sid ∧
      (if s.highest_term < SID_GET_TERM (s.vote_req i).sid then SID_GET_TERM (s.vote_req i).sid
        else s.highest_term) = SID_GET_TERM (data.vote_req j).sid := by
    obtain ⟨j, hj, hterm⟩ := hs.highest
    split_ifs with hraise
    · rw [hterm] at hraise
      rw [hsame] at hraise ⊢
      exact ⟨i, UInt64.lt_trans hj (term_mono hraise), rfl⟩
    · exact ⟨j, hj, hterm⟩
  generalize (if s.highest_term < SID_GET_TERM (s.vote_req i).sid then SID_GET_TERM (s.vote_req i).sid
    else s.highest_term) = highest_term at hhighest ⊢
  by_cases hbehind : s.best.term > (s.vote_req i).term ∨
      s.best.term = (s.vote_req i).term ∧ s.best.index > (s.vote_req i).index
  · rw [if_pos hbehind]
    exact ⟨hs.drops.drop i, hs.best, hs.atLeast, hhighest⟩
  · rw [if_neg hbehind]
    refine ⟨hs.drops.drop i, ?_, hs.atLeast.trans (atLeast_of_not_better hbehind), hhighest⟩
    by_cases hown : (s.vote_req i).sid = SID_SET_L data.sid
    · exact .inl hown
    · exact .inr ⟨UInt64.lt_of_le_of_ne hbetter (Ne.symm hown), i, hsame⟩

theorem bestRequest_loop {last : UInt64 × UInt64} (is : List Nat) {s : request_scan}
    (hs : BestRequest data last s) : BestRequest data last (is.foldl find_best_request s) := by
  induction is generalizing s with
  | nil => exact hs
  | cons i is ih => exact ih (hs.server i)

/-- Index and term of the last local entry, as a voter finds them. -/
def voter_last_entry (data : dare_server_data_t) : UInt64 × UInt64 :=
  local_last_entry (publish_nc_buf (rc_revoke_log_access data))

/-- Choosing a candidate drops requests, and only if there is one with a better SID it is done at all. -/
theorem choose_candidate_spec {data' : dare_server_data_t} {best_sid : UInt64} (h : Dropped data data')
    (hbest : ∃ i, SID_SET_L data.sid < (data.vote_req i).sid ∧ best_sid = (data.vote_req i).sid) :
    BestRequest data (voter_last_entry data') (choose_candidate data' best_sid).1 ∧
      Dropped data (choose_candidate data' best_sid).2 := by
  have hdropped := h.trans ((sameControl_revoke data').trans (sameControl_publish _)).dropped
  unfold choose_candidate voter_last_entry
  simp only
  generalize publish_nc_buf (rc_revoke_log_access data') = published at hdropped
  generalize local_last_entry published = last
  have hscan : BestRequest data last ((List.range (get_group_size published.cid)).foldl find_best_request
      ⟨⟨SID_SET_L published.sid, last.1, last.2, published.cid⟩, SID_GET_TERM best_sid,
        published.vote_req⟩) := by
    refine bestRequest_loop _ ⟨hdropped.vote_req, .inl ?_, .inr ⟨rfl, UInt64.le_refl _⟩, ?_⟩
    · exact congrArg SID_SET_L hdropped.sid
    · obtain ⟨i, hbetter, hsid⟩ := hbest
      exact ⟨i, hbetter, congrArg SID_GET_TERM hsid⟩
  generalize (List.range (get_group_size published.cid)).foldl find_best_request _ = scan at hscan
  exact ⟨hscan, ⟨⟨hdropped.idx, hdropped.cid, hdropped.sid, hdropped.vote_ack, hdropped.len⟩, hscan.drops,
    hdropped.hb, hdropped.latest⟩⟩

/-- A server that takes over a configuration disconnects the servers that are gone. -/
theorem update_cid_spec {data' : dare_server_data_t} {cid : dare_cid_t}
    (hupdate : update_cid data cid = some data') : SameControl { data with cid := cid } data' := by
  unfold update_cid at hupdate
  by_cases hsame : data.cid = cid
  · rw [if_pos hsame] at hupdate
    cases hupdate
    subst hsame
    exact .refl data
  · rw [if_neg hsame] at hupdate
    simp only at hupdate
    split_ifs at hupdate
    cases hupdate
    have hgone : ∀ is : List Nat, SameControl data (is.foldl (fun data i =>
        data.set_server i { data.servers i with rc_connected := false }) data) :=
      fun is => .foldl (fun data i => sameControl_servers data _) is data
    have hdata := hgone ((List.range (max cid.size_0.toNat cid.size_1.toNat)).filter fun i =>
      !CID_IS_SERVER_ON cid i && data.is_on i)
    exact ⟨⟨hdata.idx, rfl, hdata.sid, hdata.vote_ack, hdata.len⟩, hdata.vote_req, hdata.hb, hdata.latest⟩

theorem cast_vote_events (data : dare_server_data_t) (request : vote_req_t) (value : Nat) :
    (cast_vote data request value).events = [⟨data.idx, .vote, request.sid⟩] := by
  unfold cast_vote
  simp only
  cases update_cid { data with sid := request.sid, hb_event := .stopped } request.cid with
  | none => rfl
  | some voter =>
    simp only
    split_ifs
    · rfl
    · exact (send_vote_ack_spec _ _).2.1

theorem contract_cast_vote {data' : dare_server_data_t} {request : vote_req_t} {i : Nat}
    (h : Dropped data data') (hl : SID_GET_L data.sid = false) (hrequest : request = data.vote_req i)
    (hbetter : SID_SET_L data.sid < request.sid) (value : Nat) :
    Contract data (cast_vote data' request value) := by
  have hvoted : ∀ r : handled, r.events = [⟨data.idx, .vote, request.sid⟩] →
      (r.data.cid = data.cid ∨ r.data.cid = request.cid) →
      Dropped { data with sid := request.sid, cid := r.data.cid } r.data → AcksOnly r →
      Contract data r := by
    intro r hevents hcid hdropped hacks
    have hsid : r.data.sid = request.sid := hdropped.sid
    rw [← hsid] at hevents hdropped hbetter
    refine contract_of_dropped hdropped (hcid.imp_right fun hcid => ⟨by simp [hevents], i, ?_, ?_⟩)
      (.voted i hevents hl hbetter (by rw [hsid, hrequest])) hacks
    · rw [← hrequest, ← hsid]
      exact lt_ne_zero hbetter
    · rw [hcid, hrequest]
  have hvoter : Dropped { data with sid := request.sid }
      { data' with sid := request.sid, hb_event := .stopped } :=
    (h.with_sid request.sid).trans (SameControl.dropped ⟨⟨rfl, rfl, rfl, rfl, rfl⟩, rfl, rfl, rfl⟩)
  have hevents : [(⟨data'.idx, .vote, request.sid⟩ : event_t)] = [⟨data.idx, .vote, request.sid⟩] := by
    rw [h.idx]
  unfold cast_vote
  simp only
  generalize ({ data' with sid := request.sid, hb_event := .stopped } : dare_server_data_t) = voter
    at hvoter
  cases hupdate : update_cid voter request.cid with
  | none =>
    refine hvoted _ hevents (.inl hvoter.cid) ?_ fun j w hmem => absurd hmem (by simp)
    change Dropped { data with sid := request.sid, cid := voter.cid } voter
    rw [hvoter.cid]
    exact hvoter
  | some updated =>
    have hupdated := (hvoter.with_cid request.cid).trans (update_cid_spec hupdate).dropped
    have hmarked : SameControl updated
        { updated with vote_sid := Function.update updated.vote_sid updated.idx updated.sid } :=
      ⟨⟨rfl, rfl, rfl, rfl, rfl⟩, rfl, rfl, rfl⟩
    simp only
    have hrestored := hupdated.trans (hmarked.trans (sameControl_restore _ value)).dropped
    generalize rc_restore_log_access
      { updated with vote_sid := Function.update updated.vote_sid updated.idx updated.sid } value = restored
      at hrestored
    obtain ⟨hacked, hlist, hacks⟩ :=
      send_vote_ack_spec restored.2 [⟨data'.idx, .vote, request.sid⟩]
    split_ifs
    · refine hvoted _ hevents (.inr hrestored.cid) ?_ fun j w hmem => absurd hmem (by simp)
      change Dropped { data with sid := request.sid, cid := restored.2.cid } restored.2
      rw [hrestored.cid]
      exact hrestored
    · have hfinal := hrestored.trans hacked.dropped
      refine hvoted _ (hlist.trans hevents) (.inr hfinal.cid) ?_ hacks
      rw [hfinal.cid]
      exact hfinal

/-- The contract of a server whose log is better than those of the candidates. -/
theorem contract_decline_vote {data' : dare_server_data_t} {i : Nat} (h : Dropped data data')
    (hl : SID_GET_L data.sid = false) (hbetter : SID_SET_L data.sid < (data.vote_req i).sid) :
    Contract data (decline_vote data' (SID_GET_TERM (data.vote_req i).sid)) := by
  unfold decline_vote
  rw [h.sid, h.idx]
  refine contract_of_dropped ?_ (.inl h.cid) (.declined i rfl hl hbetter rfl)
    fun j w hmem => absurd hmem (by simp)
  exact ⟨⟨rfl, rfl, rfl, h.vote_ack, h.len⟩, h.vote_req, h.hb, h.latest⟩

theorem contract_poll_vote_requests (data : dare_server_data_t) (value : Nat) :
    Contract data (poll_vote_requests data value) := by
  unfold poll_vote_requests
  by_cases hl : SID_GET_L data.sid = true
  · rw [if_pos hl]
    exact contract_continues (SameControl.refl data).dropped
  rw [if_neg hl]
  have hunset : SID_GET_L data.sid = false := by simpa using hl
  simp only
  by_cases hhb : data.hb (SID_GET_IDX data.sid) ≠ 0 ∧
      SID_GET_TERM (data.hb (SID_GET_IDX data.sid)) = SID_GET_TERM data.sid
  · rw [if_pos hhb]
    exact contract_of_dropped (SameControl.refl _).dropped (.inl rfl)
      (.adopted rfl hunset rfl hhb.1 hhb.2) fun i w hmem => absurd hmem (by simp)
  rw [if_neg hhb]
  have hbest := bestSid_loop data (List.range (get_group_size data.cid))
  generalize (List.range (get_group_size data.cid)).foldl (find_best_sid data.idx)
    (SID_SET_L data.sid, data.vote_req) = best at hbest
  have hdropped : Dropped data { data with vote_req := best.2 } :=
    ⟨⟨rfl, rfl, rfl, rfl, rfl⟩, hbest.drops, fun _ => .inl rfl, .inl rfl⟩
  by_cases hnone : best.1 = SID_SET_L data.sid
  · rw [if_pos hnone]
    exact contract_continues hdropped
  rw [if_neg hnone]
  have hfound : ∃ i, SID_SET_L data.sid < (data.vote_req i).sid ∧ best.1 = (data.vote_req i).sid := by
    obtain ⟨hlt, i, -, hi⟩ := hbest.best.resolve_left hnone
    exact ⟨i, hi ▸ hlt, hi⟩
  obtain ⟨hscan, hchosen⟩ := choose_candidate_spec hdropped hfound
  generalize choose_candidate { data with vote_req := best.2 } best.1 = chosen at hscan hchosen
  by_cases hown : chosen.1.best.sid = SID_SET_L data.sid
  · rw [if_pos hown]
    obtain ⟨i, hbetter, hterm⟩ := hscan.highest
    rw [hterm]
    exact contract_decline_vote hchosen hunset hbetter
  · rw [if_neg hown]
    obtain ⟨hbetter, i, hi⟩ := hscan.best.resolve_left hown
    exact contract_cast_vote hchosen hunset hi hbetter value

end votes

section recovery

variable {data : dare_server_data_t}

/-- The best of the read SIDs is the own one or a better one of a leader. -/
theorem better_sid_leads (own : UInt64) (sids : List UInt64) :
    sids.foldl (fun best sid => if best < sid ∧ SID_GET_L sid then sid else best) own = own ∨
      own < sids.foldl (fun best sid => if best < sid ∧ SID_GET_L sid then sid else best) own ∧
        SID_GET_L (sids.foldl (fun best sid => if best < sid ∧ SID_GET_L sid then sid else best) own) =
          true := by
  have hfold : ∀ (sids : List UInt64) {best : UInt64}, (best = own ∨ own < best ∧ SID_GET_L best = true) →
      sids.foldl (fun best sid => if best < sid ∧ SID_GET_L sid then sid else best) best = own ∨
        own < sids.foldl (fun best sid => if best < sid ∧ SID_GET_L sid then sid else best) best ∧
          SID_GET_L (sids.foldl (fun best sid => if best < sid ∧ SID_GET_L sid then sid else best) best) =
            true := by
    intro sids
    induction sids with
    | nil => exact fun hbest => hbest
    | cons sid sids ih =>
      intro best hbest
      refine ih ?_
      simp only
      split_ifs with hbetter
      · obtain rfl | ⟨hlt, -⟩ := hbest
        · exact .inr hbetter
        · exact .inr ⟨UInt64.lt_trans hlt hbetter.1, hbetter.2⟩
      · exact hbest
  exact hfold sids (.inl rfl)

theorem contract_verify_leadership (data : dare_server_data_t) (sids : List UInt64) (value : Nat) :
    Contract data (rc_verify_leadership data sids value) := by
  have hnew := better_sid_leads data.sid sids
  unfold rc_verify_leadership
  simp only
  generalize sids.foldl (fun best sid => if best < sid ∧ SID_GET_L sid then sid else best) data.sid =
    new_sid at hnew
  by_cases hsame : new_sid = data.sid
  · rw [if_neg (by simp [hsame])]
    exact contract_continues (SameControl.refl data).dropped
  · rw [if_pos hsame]
    obtain ⟨hlt, hl⟩ := hnew.resolve_left hsame
    refine contract_follower (SameControl.refl data).dropped value fun r hsid hevents => ?_
    rw [← hsid] at hlt hl hevents
    exact .verified hevents hlt hl

theorem contract_recover_log_cb (data : dare_server_data_t) (value : Nat) :
    Contract data (recover_log_cb data value) := by
  unfold recover_log_cb
  split_ifs
  · exact contract_start_election data
  · exact contract_follower (SameControl.refl data).dropped value fun r hsid hevents => .kept hevents hsid

end recovery

end dare.election
