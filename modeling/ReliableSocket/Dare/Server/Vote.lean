import ReliableSocket.Dare.Server.Handlers

open dare.log dare.server

namespace dare.election

section majorities

variable (data : dare_server_data_t)

/-- The number of servers below `size` other than the candidate that have sent a vote ACK. -/
def ack_count (size : Nat) : Nat := ((List.range size).filter (has_ack data)).length

/-- The number of servers below `size` that have sent a vote ACK or are the candidate. -/
def supporters (size : Nat) : Nat :=
  ((List.range size).filter fun i =>
    decide (data.vote_ack i ≠ data.log.len) || decide (i = data.idx)).length

/-- More than half of the servers of the configuration support the candidate; in a transitional
    configuration more than half of the old ones and more than half of the new ones. -/
def HasMajorities : Prop :=
  data.cid.size_0.toNat < 2 * supporters data data.cid.size_0.toNat ∧
    (data.cid.state = CID_TRANSIT → data.cid.size_1.toNat < 2 * supporters data data.cid.size_1.toNat)

variable {data}

/-- A server whose own index is in its SID leads if the leader flag is set. -/
theorem isLeader_eq (hidx : SID_GET_IDX data.sid = data.idx) : IS_LEADER data = SID_GET_L data.sid := by
  cases hl : SID_GET_L data.sid with
  | false => simp [IS_LEADER, hl]
  | true => simp [IS_LEADER, IS_NONE, hidx, hl]

theorem supporters_eq (data : dare_server_data_t) (size : Nat) :
    supporters data size = ack_count data size + if data.idx < size then 1 else 0 := by
  induction size with
  | zero => rfl
  | succ size ih =>
    unfold supporters ack_count at ih ⊢
    rw [List.range_succ, List.filter_append, List.filter_append, List.length_append, List.length_append, ih]
    by_cases hown : size = data.idx
    · have hnot : ¬data.idx < size := by omega
      have hlt : data.idx < size + 1 := by omega
      simp [hown, has_ack]
    · have hiff : (data.idx < size + 1) = (data.idx < size) := propext (by omega)
      by_cases hack : data.vote_ack size = data.log.len
      · simp [has_ack, hown, hack, hiff]
      · simp [has_ack, hown, hack, hiff]
        omega

/-- In a group that is polled the candidate counts its ACKs and itself. -/
theorem vote_count_eq {size : Nat} (hsize : size ≤ get_group_size data.cid) :
    vote_count data size = 1 + ack_count data size := by
  unfold vote_count ack_count
  congr 1
  generalize get_group_size data.cid = n at hsize ⊢
  induction n, hsize using Nat.le_induction with
  | base =>
    congr 1
    apply List.filter_congr
    intro i hi
    simp [List.mem_range.mp hi]
  | succ n hle ih =>
    have hnot : ¬n < size := by omega
    rw [List.range_succ, List.filter_append, List.length_append, ih]
    simp [hnot]

theorem size_le_group (hstate : data.cid.state = CID_TRANSIT) :
    data.cid.size_0.toNat ≤ get_group_size data.cid ∧ data.cid.size_1.toNat ≤ get_group_size data.cid := by
  unfold get_group_size
  rw [if_neg (by simp [hstate])]
  split_ifs with hlt
  · exact ⟨UInt8.le_of_lt hlt, Nat.le_refl _⟩
  · exact ⟨Nat.le_refl _, UInt8.not_lt.mp hlt⟩

theorem group_size_of_not_transit (hstate : data.cid.state ≠ CID_TRANSIT) :
    get_group_size data.cid = data.cid.size_0.toNat := if_pos hstate

/-- Only the votes decide whether a candidate becomes leader. -/
theorem elected_iff_has_majority (hcandidate : IS_CANDIDATE data = true) (value : Nat) :
    IS_LEADER (poll_vote_count data value).data = true ↔ has_majority data = true := by
  simp only [IS_CANDIDATE, Bool.and_eq_true, Bool.not_eq_true', decide_eq_true_eq] at hcandidate
  obtain ⟨⟨-, hidx⟩, hl⟩ := hcandidate
  have hcounted := sameControl_counted data
  unfold poll_vote_count
  simp only
  generalize ((List.range (get_group_size data.cid)).filter (has_ack data)).foldl record_ack data =
    counted at hcounted
  cases hmajority : has_majority data with
  | false =>
    change IS_LEADER counted = true ↔ _
    rw [isLeader_eq (by rw [hcounted.sid, hidx, hcounted.idx]), hcounted.sid, hl]
  | true =>
    rw [if_neg (by simp)]
    set leader : dare_server_data_t := { counted with
      sid := SID_SET_L data.sid
      hb_event := .hb_send_cb
      apply_offsets := fun i =>
        if i < get_extended_group_size data.cid then counted.log.head else counted.apply_offsets i }
      with hleader
    have hrestored := sameControl_restore leader value
    have hsid : (rc_restore_log_access leader value).2.sid = SID_SET_L data.sid := hrestored.sid
    have hown : (rc_restore_log_access leader value).2.idx = data.idx := hrestored.idx.trans hcounted.idx
    rw [isLeader_eq (by rw [hsid, (sid_set_l_fields _).2.2, hidx, hown]), hsid, (sid_set_l_fields _).2.1]

/-- A candidate that becomes leader is supported by the majorities of the configuration, but for
    transitional configurations: there it counts itself in both groups. The majority of a group to which
    it does not belong is missed if just half of this group, rounded down, have sent an ACK. -/
theorem elected_by_majorities_iff (hcandidate : IS_CANDIDATE data = true)
    (hmember : data.idx < get_group_size data.cid) (value : Nat) :
    (IS_LEADER (poll_vote_count data value).data = true → HasMajorities data) ↔
      (data.cid.state = CID_TRANSIT →
        data.cid.size_0.toNat / 2 ≤ ack_count data data.cid.size_0.toNat →
        data.cid.size_1.toNat / 2 ≤ ack_count data data.cid.size_1.toNat →
        (data.cid.size_0.toNat ≤ data.idx →
          ack_count data data.cid.size_0.toNat ≠ data.cid.size_0.toNat / 2) ∧
        (data.cid.size_1.toNat ≤ data.idx →
          ack_count data data.cid.size_1.toNat ≠ data.cid.size_1.toNat / 2)) := by
  rw [elected_iff_has_majority hcandidate value]
  have hsupport₀ := supporters_eq data data.cid.size_0.toNat
  have hsupport₁ := supporters_eq data data.cid.size_1.toNat
  by_cases hstate : data.cid.state = CID_TRANSIT
  · obtain ⟨hle₀, hle₁⟩ := size_le_group hstate
    have hunstable : data.cid.state ≠ CID_STABLE := by
      rw [hstate]
      decide
    have hpromoted : has_majority data = true ↔
        data.cid.size_0.toNat / 2 ≤ ack_count data data.cid.size_0.toNat ∧
          data.cid.size_1.toNat / 2 ≤ ack_count data data.cid.size_1.toNat := by
      simp only [has_majority, vote_count_eq hle₀, vote_count_eq hle₁, Bool.and_eq_true, Bool.or_eq_true,
        decide_eq_true_eq, hunstable, false_or]
      omega
    rw [hpromoted, HasMajorities, hsupport₀, hsupport₁]
    simp only [hstate, true_implies]
    split_ifs <;> omega
  · have hgroup := group_size_of_not_transit hstate
    have hcount : vote_count data data.cid.size_0.toNat = 1 + ack_count data data.cid.size_0.toNat :=
      vote_count_eq (Nat.le_of_eq hgroup.symm)
    rw [hgroup] at hmember
    rw [if_pos hmember] at hsupport₀
    refine ⟨fun _ htransit => absurd htransit hstate, fun _ hmajority => ⟨?_, fun htransit => absurd htransit hstate⟩⟩
    simp only [has_majority, hcount, Bool.and_eq_true, decide_eq_true_eq] at hmajority
    omega

/-- Server `idx` is a candidate of term 1, and the servers of the list have sent it an ACK. -/
def candidate_with_acks (idx : Nat) (size_0 size_1 state : UInt8) (acks : List Nat) : dare_server_data_t :=
  { (init_server_data 0 3).get admits_three with
    idx := idx
    cid := ⟨1, size_0, size_1, state, 0x1F⟩
    sid := mk_sid 1 false idx
    vote_ack := fun i => if i ∈ acks then 0 else LOG_SIZE }

theorem candidate_of_three_elected :
    IS_CANDIDATE (candidate_with_acks 0 3 0 CID_STABLE [1]) = true ∧
      (IS_LEADER (poll_vote_count (candidate_with_acks 0 3 0 CID_STABLE [1]) 0).data = true →
        HasMajorities (candidate_with_acks 0 3 0 CID_STABLE [1])) := by
  have hcandidate : IS_CANDIDATE (candidate_with_acks 0 3 0 CID_STABLE [1]) = true := by decide
  exact ⟨hcandidate, (elected_by_majorities_iff hcandidate (by decide) 0).mpr
    fun hstate => absurd hstate (by decide)⟩

/-- In the transition from four to five servers the new server is a candidate; it becomes leader with the
    ACKs of servers 0 and 1, which are only half of the old group. -/
theorem new_server_elected_by_half :
    IS_CANDIDATE (candidate_with_acks 4 4 5 CID_TRANSIT [0, 1]) = true ∧
      4 < get_group_size (candidate_with_acks 4 4 5 CID_TRANSIT [0, 1]).cid ∧
      IS_LEADER (poll_vote_count (candidate_with_acks 4 4 5 CID_TRANSIT [0, 1]) 0).data = true ∧
      ¬HasMajorities (candidate_with_acks 4 4 5 CID_TRANSIT [0, 1]) := by
  have hcandidate : IS_CANDIDATE (candidate_with_acks 4 4 5 CID_TRANSIT [0, 1]) = true := by decide
  have helected := elected_iff_has_majority hcandidate 0
  refine ⟨hcandidate, by decide, helected.mpr (by decide), ?_⟩
  unfold HasMajorities
  decide

end majorities

section deposed

variable {data : dare_server_data_t}

/-- The first heartbeat that `hb_send_cb` finds not to be below the SID of the leader; it looks at no
    other one after it. -/
def seen_hb (data : dare_server_data_t) : Option UInt64 :=
  ((List.range (get_group_size data.cid)).find? fun i =>
    decide (i ≠ data.idx) && data.is_on i && decide (data.sid ≤ data.hb i)).map data.hb

/-- The data after `hb_send_cb`, its wait for the vote ACK included; `success` tells whether this gets
    through. -/
def hb_send_done (data : dare_server_data_t) (value : Nat) (success : Bool) : dare_server_data_t :=
  let r := hb_send_cb data value
  match r.mode with
  | .waiting _ => (vote_ack_sent r.data success).data
  | _ => r.data

/-- The search of `hb_send_cb` finds a heartbeat that is not below the SID if there is one. -/
theorem find_hb_reply_eq (hsid : data.sid ≠ 0) (is : List Nat) :
    (find_hb_reply data is).1 = (is.find? fun i =>
      decide (i ≠ data.idx) && data.is_on i && decide (data.sid ≤ data.hb i)).isSome := by
  induction is generalizing data with
  | nil => rfl
  | cons i is ih =>
    simp only [find_hb_reply, List.find?_cons]
    by_cases hskip : i = data.idx ∨ data.is_on i = false
    · have hnot : (decide (i ≠ data.idx) && data.is_on i && decide (data.sid ≤ data.hb i)) = false := by
        obtain hown | hoff := hskip
        · simp [hown]
        · simp [hoff]
      rw [if_pos hskip, ih hsid, hnot]
    rw [if_neg hskip]
    rw [not_or] at hskip
    have hon : data.is_on i = true := by simpa using hskip.2
    by_cases hlow : data.hb i < data.sid
    · -- the heartbeat that is reset was too low already
      have hnot : (decide (i ≠ data.idx) && data.is_on i && decide (data.sid ≤ data.hb i)) = false := by
        simp [hlow]
      rw [if_pos hlow, hnot]
      refine (@ih { data with hb := Function.update data.hb i 0 } hsid).trans ?_
      congr 2
      funext j
      by_cases hj : j = i
      · subst hj
        have hzero : ¬data.sid ≤ 0 := fun hle => hsid (UInt64.le_zero_iff.mp hle)
        simp [hlow, hzero]
      · simp [hj, dare_server_data_t.is_on]
    · have hhigh : data.sid ≤ data.hb i := UInt64.not_lt.mp hlow
      simp [hlow, hskip.1, hon, hhigh]

theorem find_hb_reply_servers (data : dare_server_data_t) (is : List Nat) :
    (find_hb_reply data is).2.servers = data.servers := by
  induction is generalizing data with
  | nil => rfl
  | cons i is ih =>
    simp only [find_hb_reply]
    split_ifs
    · exact ih data
    · exact ih _
    · rfl

theorem connected_restore (data : dare_server_data_t) (value i : Nat) :
    ((rc_restore_log_access data value).2.servers i).rc_connected = (data.servers i).rc_connected := by
  have hset : ∀ is : List Nat, ((is.foldl (fun data i => set_log_access data i true) data).servers i).rc_connected =
      (data.servers i).rc_connected := by
    intro is
    rw [set_log_accesses]
    dsimp only
    split <;> rfl
  simp only [rc_restore_log_access]
  split_ifs
  · rfl
  · rfl
  · rfl
  · rfl
  · exact hset [SID_GET_IDX data.sid]
  · rfl
  · exact hset _
  · rfl

theorem connected_revoke (data : dare_server_data_t) (i : Nat) :
    ((rc_revoke_log_access data).servers i).rc_connected = (data.servers i).rc_connected := by
  simp only [rc_revoke_log_access]
  split_ifs <;> rfl

/-- A follower of a leader waits until its vote ACK gets through, if it is connected. -/
theorem server_to_follower_mode (hl : SID_GET_L data.sid = true) (value : Nat) (events : List event_t) :
    (server_to_follower data value events).mode =
      if data.is_on (SID_GET_IDX data.sid) ∧ (data.servers (SID_GET_IDX data.sid)).rc_connected then
        .waiting (SID_GET_IDX data.sid)
      else .running := by
  have hstopped : SameControl data { data with hb_event := .stopped } :=
    ⟨⟨rfl, rfl, rfl, rfl, rfl⟩, rfl, rfl, rfl⟩
  have hrestored := (hstopped.trans (sameControl_revoke _)).trans (sameControl_publish _)
  have hconnected : ∀ i, ((publish_nc_buf (rc_revoke_log_access { data with hb_event := .stopped })).servers
      i).rc_connected = (data.servers i).rc_connected := connected_revoke _
  unfold server_to_follower
  simp only
  generalize publish_nc_buf (rc_revoke_log_access { data with hb_event := .stopped }) = published
    at hrestored hconnected
  have hsame := hrestored.trans (sameControl_restore published value)
  have hsame_connected := fun i => (connected_restore published value i).trans (hconnected i)
  generalize (rc_restore_log_access published value).2 = restored at hsame hsame_connected
  rw [hsame.sid, if_pos hl]
  simp only [send_vote_ack, rc_send_vote_ack, hsame.sid, hsame.is_on, hsame_connected]
  split_ifs <;> rfl

/-- A leader that sees a heartbeat which is not below its SID keeps the SID, unless it is connected to
    itself and the vote ACK that it sends to itself does not get through. -/
theorem hb_send_done_spec (hleader : IS_LEADER data = true) (hseen : (seen_hb data).isSome = true)
    (value : Nat) (success : Bool) :
    (hb_send_done data value success).idx = data.idx ∧
      (hb_send_done data value success).sid =
        if (data.is_on data.idx ∧ (data.servers data.idx).rc_connected) ∧ success = false then
          election_sid data
        else data.sid := by
  simp only [IS_LEADER, Bool.and_eq_true, decide_eq_true_eq] at hleader
  obtain ⟨⟨-, hidx⟩, hl⟩ := hleader
  have hsid : data.sid ≠ 0 := by
    intro hzero
    rw [hzero] at hl
    exact absurd hl (by decide)
  have hfound := find_hb_reply_eq hsid (List.range (get_group_size data.cid))
  have hdropped := find_hb_reply_dropped data (List.range (get_group_size data.cid))
  have hservers := find_hb_reply_servers data (List.range (get_group_size data.cid))
  rw [seen_hb, Option.isSome_map] at hseen
  rw [hseen] at hfound
  unfold hb_send_done hb_send_cb
  simp only
  generalize find_hb_reply data (List.range (get_group_size data.cid)) = found
    at hfound hdropped hservers
  rw [if_pos hfound]
  have hleads : SID_GET_L found.2.sid = true := by rw [hdropped.sid, hl]
  have hmode := server_to_follower_mode hleads value []
  have hsame := (server_to_follower_spec found.2 value []).1
  rw [hdropped.sid, hidx, hdropped.is_on, hservers] at hmode
  generalize server_to_follower found.2 value [] = follower at hmode hsame
  have hfinal := hdropped.toSameBallot.trans hsame.toSameBallot
  by_cases hself : data.is_on data.idx ∧ (data.servers data.idx).rc_connected
  · rw [if_pos hself] at hmode
    simp only [hmode]
    cases success with
    | true =>
      rw [if_neg (by simp)]
      exact ⟨hfinal.idx, hfinal.sid⟩
    | false =>
      rw [if_pos ⟨hself, rfl⟩]
      simp only [vote_ack_sent, Bool.false_eq_true, if_false, start_election_data]
      refine ⟨hfinal.idx, ?_⟩
      rw [election_sid, election_sid, hfinal.sid, hfinal.idx]
  · rw [if_neg hself] at hmode
    rw [if_neg (fun h => hself h.1)]
    simp only [hmode]
    exact ⟨hfinal.idx, hfinal.sid⟩

/-- A leader that sees a heartbeat of a higher term never steps down, whatever the heartbeats are: it
    goes to follower state with its own SID. Were it connected to itself, the failure of the vote ACK to
    itself would make it start an election. -/
theorem deposed_leader_steps_down_iff (hleader : IS_LEADER data = true) (value : Nat) (success : Bool) :
    (∀ hb, seen_hb data = some hb → SID_GET_TERM data.sid < SID_GET_TERM hb →
      hb ≤ (hb_send_done data value success).sid ∧ IS_LEADER (hb_send_done data value success) = false) ↔
    ∀ hb, seen_hb data = some hb → SID_GET_TERM data.sid < SID_GET_TERM hb →
      (data.is_on data.idx ∧ (data.servers data.idx).rc_connected) ∧ success = false ∧
        hb ≤ election_sid data := by
  refine forall_congr' fun hb => forall_congr' fun hseen => forall_congr' fun _ => ?_
  obtain ⟨hidx', hsid'⟩ := hb_send_done_spec hleader (by rw [hseen]; rfl) value success
  have hown : SID_GET_IDX data.sid = data.idx ∧ SID_GET_L data.sid = true := by
    simp only [IS_LEADER, Bool.and_eq_true, decide_eq_true_eq] at hleader
    exact ⟨hleader.1.2, hleader.2⟩
  have hsmall : data.idx < 256 := by
    rw [← hown.1, sid_get_idx]
    exact Nat.mod_lt _ (by decide)
  by_cases hfails : (data.is_on data.idx ∧ (data.servers data.idx).rc_connected) ∧ success = false
  · rw [if_pos hfails] at hsid'
    have hnot : IS_LEADER (hb_send_done data value success) = false := by
      rw [IS_LEADER, hsid', (election_sid_fields hsmall).2.1, Bool.and_false]
    rw [hsid', hnot]
    exact ⟨fun h => ⟨hfails.1, hfails.2, h.1⟩, fun h => ⟨h.2.2, rfl⟩⟩
  · rw [if_neg hfails] at hsid'
    have hstill : IS_LEADER (hb_send_done data value success) = true := by
      rw [isLeader_eq (by rw [hsid', hown.1, hidx']), hsid', hown.2]
    rw [hstill]
    exact ⟨fun h => absurd h.2 (by simp), fun h => absurd ⟨h.1, h.2.1⟩ hfails⟩

/-- The leader of term 1 in a group of three, with the given heartbeat of server 1. -/
def leader_with_hb (hb : UInt64) : dare_server_data_t :=
  { (init_server_data 0 3).get admits_three with
    sid := mk_sid 1 true 0
    hb := fun i => if i = 1 then hb else 0 }

theorem leader_without_heartbeats :
    IS_LEADER (leader_with_hb 0) = true ∧
      ∀ hb, seen_hb (leader_with_hb 0) = some hb →
        SID_GET_TERM (leader_with_hb 0).sid < SID_GET_TERM hb →
        hb ≤ (hb_send_done (leader_with_hb 0) 0 true).sid ∧
          IS_LEADER (hb_send_done (leader_with_hb 0) 0 true) = false := by
  have hleader : IS_LEADER (leader_with_hb 0) = true := by decide
  refine ⟨hleader, (deposed_leader_steps_down_iff hleader 0 true).mpr fun hb hseen => ?_⟩
  have hnone : seen_hb (leader_with_hb 0) = none := by decide
  rw [hnone] at hseen
  cases hseen

/-- The heartbeat of a leader of term 2 is seen, and the leader of term 1 still leads. -/
theorem deposed_leader_keeps_leading :
    IS_LEADER (leader_with_hb (mk_sid 2 true 1)) = true ∧
      seen_hb (leader_with_hb (mk_sid 2 true 1)) = some (mk_sid 2 true 1) ∧
      SID_GET_TERM (leader_with_hb (mk_sid 2 true 1)).sid < SID_GET_TERM (mk_sid 2 true 1) ∧
      (hb_send_done (leader_with_hb (mk_sid 2 true 1)) 0 true).sid = mk_sid 1 true 0 ∧
      IS_LEADER (hb_send_done (leader_with_hb (mk_sid 2 true 1)) 0 true) = true := by
  have hleader : IS_LEADER (leader_with_hb (mk_sid 2 true 1)) = true := by decide
  have hseen : seen_hb (leader_with_hb (mk_sid 2 true 1)) = some (mk_sid 2 true 1) := by decide
  obtain ⟨hidx, hsid⟩ := hb_send_done_spec hleader (by rw [hseen]; rfl) 0 true
  rw [if_neg (by simp)] at hsid
  refine ⟨hleader, hseen, by decide, hsid, ?_⟩
  rw [isLeader_eq (by rw [hsid, hidx]; decide), hsid]
  decide

end deposed

end dare.election
