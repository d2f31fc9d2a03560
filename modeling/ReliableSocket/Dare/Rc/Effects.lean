import ReliableSocket.Dare.Rc.System

open memory
open dare.log dare.server

namespace dare.rc

/-- Nothing changes but what the leader keeps about server `i`, the commit offset of its own log, and
    counters. -/
structure Only (i : Nat) (data data' : dare_server_data_t) : Prop where
  idx : data'.idx = data.idx
  cid : data'.cid = data.cid
  sid : data'.sid = data.sid
  vote_ack : data'.vote_ack = data.vote_ack
  servers : ∀ j, j ≠ i → data'.servers j = data.servers j
  log_offsets : ∀ j, j ≠ i → data'.log_offsets j = data.log_offsets j
  log : ∃ commit, data'.log = { data.log with commit := commit }

section only

variable {i : Nat} {data data₁ data₂ : dare_server_data_t}

theorem Only.refl (i : Nat) (data : dare_server_data_t) : Only i data data :=
  ⟨rfl, rfl, rfl, rfl, fun _ _ => rfl, fun _ _ => rfl, data.log.commit, rfl⟩

theorem Only.trans (hfirst : Only i data data₁) (hsecond : Only i data₁ data₂) : Only i data data₂ := by
  obtain ⟨_, hlog₁⟩ := hfirst.log
  obtain ⟨commit, hlog₂⟩ := hsecond.log
  refine ⟨hsecond.idx.trans hfirst.idx, hsecond.cid.trans hfirst.cid, hsecond.sid.trans hfirst.sid,
    hsecond.vote_ack.trans hfirst.vote_ack, fun j hj => (hsecond.servers j hj).trans (hfirst.servers j hj),
    fun j hj => (hsecond.log_offsets j hj).trans (hfirst.log_offsets j hj), commit, ?_⟩
  rw [hlog₂, hlog₁]

theorem only_set_server (data : dare_server_data_t) (i : Nat) (server : server_t) :
    Only i data (data.set_server i server) :=
  ⟨rfl, rfl, rfl, rfl, fun _ hj => Function.update_of_ne hj _ _, fun _ _ => rfl, data.log.commit, rfl⟩

theorem only_set_log_offsets (data : dare_server_data_t) (i : Nat) (offsets : log_offsets_t) :
    Only i data (data.set_log_offsets i offsets) :=
  ⟨rfl, rfl, rfl, rfl, fun _ _ => rfl, fun _ hj => Function.update_of_ne hj _ _, data.log.commit, rfl⟩

theorem only_ssn (data : dare_server_data_t) (i ssn : Nat) : Only i data { data with ssn } :=
  ⟨rfl, rfl, rfl, rfl, fun _ _ => rfl, fun _ _ => rfl, data.log.commit, rfl⟩

theorem only_set_commit (data : dare_server_data_t) (i commit : Nat) :
    Only i data (data.set_log { data.log with commit }) :=
  ⟨rfl, rfl, rfl, rfl, fun _ _ => rfl, fun _ _ => rfl, commit, rfl⟩

@[simp] theorem set_server_self (data : dare_server_data_t) (i : Nat) (server : server_t) :
    (data.set_server i server).servers i = server := Function.update_self _ _ _

@[simp] theorem set_log_offsets_self (data : dare_server_data_t) (i : Nat) (offsets : log_offsets_t) :
    (data.set_log_offsets i offsets).log_offsets i = offsets := Function.update_self _ _ _

@[simp] theorem set_server_log_offsets (data : dare_server_data_t) (i : Nat) (server : server_t) :
    (data.set_server i server).log_offsets = data.log_offsets := rfl

@[simp] theorem set_server_log (data : dare_server_data_t) (i : Nat) (server : server_t) :
    (data.set_server i server).log = data.log := rfl

@[simp] theorem set_log_offsets_servers (data : dare_server_data_t) (i : Nat)
    (offsets : log_offsets_t) : (data.set_log_offsets i offsets).servers = data.servers := rfl

@[simp] theorem set_log_offsets_log (data : dare_server_data_t) (i : Nat) (offsets : log_offsets_t) :
    (data.set_log_offsets i offsets).log = data.log := rfl

@[simp] theorem set_log_log (data : dare_server_data_t) (log : dare_log_t) :
    (data.set_log log).log = log := rfl

@[simp] theorem set_log_servers (data : dare_server_data_t) (log : dare_log_t) :
    (data.set_log log).servers = data.servers := rfl

@[simp] theorem set_log_log_offsets (data : dare_server_data_t) (log : dare_log_t) :
    (data.set_log log).log_offsets = data.log_offsets := rfl

end only

/-- A completion changes neither the cached end offset nor the request that is waited for. -/
theorem lr_success_kept (server : server_t) :
    (lr_success server).cached_end_offset = server.cached_end_offset ∧
      (lr_success server).next_wr_id = server.next_wr_id := by
  unfold lr_success
  split
  · split <;> exact ⟨rfl, rfl⟩
  all_goals exact ⟨rfl, rfl⟩

theorem lr_failure_kept (server : server_t) :
    (lr_failure server).cached_end_offset = server.cached_end_offset ∧
      (lr_failure server).next_wr_id = server.next_wr_id := by
  unfold lr_failure
  split
  · split <;> exact ⟨rfl, rfl⟩
  · exact ⟨rfl, rfl⟩

theorem handle_waited {data : dare_server_data_t} {wr_id : wr_id_t} {i : Nat} (success : Bool)
    (hconn : wr_id.conn = i) (hid : wr_id = (data.servers i).next_wr_id) :
    handle_lr_work_completion data wr_id success = data.set_server i
      (if success then lr_success (data.servers i) else lr_failure (data.servers i)) := by
  subst hconn
  unfold handle_lr_work_completion
  rw [if_pos hid]

/-- A log is written in at most two parts, and in one if it does not wrap. -/
theorem log_parts_length (len remote_end end_ : Nat) :
    (log_parts len remote_end end_).length ≤ 2 ∧
      (remote_end < end_ → (log_parts len remote_end end_).length ≤ 1) := by
  unfold log_parts
  split
  · simp
  · split <;> simp [*]

/-- What a step does that posts requests for server `i`: the new state of the server, its new
    offsets, the new commit offset of the leader and the requests. -/
structure Posts (i : Nat) (data : dare_server_data_t) (result : dare_server_data_t × List work_request)
    (server : server_t) (offsets : log_offsets_t) (commit : Nat) (operations : List log_operation) :
    Prop where
  only : Only i data result.1
  servers : result.1.servers i = { server with send_flag := false, next_wr_id := ⟨data.ssn + 1, i⟩ }
  log_offsets : result.1.log_offsets i = offsets
  log : result.1.log = { data.log with commit := commit }
  posted : result.2 = operations.map fun operation => ⟨⟨data.ssn + 1, i⟩, true, operation⟩

section cases

variable (data : dare_server_data_t) (i : Nat)

/-- The commit offset of the leader after it has seen the one in the vote ACK. -/
def raised_commit : Nat :=
  if log_is_offset_larger data.log (data.vote_ack i) data.log.commit then data.vote_ack i
  else data.log.commit

theorem post_lr_posts {data₁ : dare_server_data_t} {commit : Nat} {operations : List log_operation}
    (honly : Only i data data₁) (hlog : data₁.log = { data.log with commit := commit })
    (hssn : data₁.ssn = data.ssn + 1) :
    Posts i data (post_lr data₁ i operations) (data₁.servers i) (data₁.log_offsets i) commit
      operations := by
  unfold post_lr
  rw [hssn]
  exact ⟨honly.trans (only_set_server _ i _), set_server_self _ _ _, rfl, hlog, rfl⟩

theorem get_nce_len_posts {data₁ : dare_server_data_t} (honly : Only i data data₁)
    (hlog : data₁.log = data.log) (hssn : data₁.ssn = data.ssn + 1) :
    Posts i data (get_nce_len data₁ i) (data₁.servers i) (data₁.log_offsets i) (raised_commit data i)
      [.read_nc_len] := by
  have hack : data₁.vote_ack i = data.vote_ack i := by rw [honly.vote_ack]
  unfold get_nce_len raised_commit
  simp only [hack, hlog]
  by_cases hlarger : log_is_offset_larger data.log (data.vote_ack i) data.log.commit
  · simp only [hlarger, if_true]
    refine post_lr_posts data i ?_ rfl hssn
    rw [← hlog]
    exact honly.trans (only_set_commit data₁ i _)
  · simp only [hlarger, Bool.false_eq_true, if_false]
    exact post_lr_posts data i honly hlog hssn

theorem log_adjustment_cases :
    (log_adjustment data i = (data, []) ∧
      (adjusts_log data i = false ∨ (data.servers i).next_lr_step = .LR_UPDATE_LOG ∨
        (data.servers i).next_lr_step = .LR_UPDATE_END)) ∨
    ((data.servers i).send_flag = true ∧ data.vote_ack i ≠ data.log.len ∧
      (((data.servers i).next_lr_step = .LR_GET_WRITE ∧
          Posts i data (log_adjustment data i)
            { data.servers i with next_lr_step := .LR_GET_NCE_LEN }
            { data.log_offsets i with commit := data.vote_ack i } (raised_commit data i)
            [.read_nc_len]) ∨
        ((data.servers i).next_lr_step = .LR_GET_NCE_LEN ∧
          Posts i data (log_adjustment data i) (data.servers i) (data.log_offsets i)
            (raised_commit data i) [.read_nc_len]) ∨
        ((data.servers i).next_lr_step = .LR_GET_NCE ∧ nc_buf_len data.log i = 0 ∧
          log_adjustment data i =
            ((({ data with ssn := data.ssn + 1 }).set_log_offsets i
              { data.log_offsets i with end_ := (data.log_offsets i).commit }).set_server i
              { data.servers i with next_lr_step := .LR_UPDATE_LOG }, [])) ∨
        ((data.servers i).next_lr_step = .LR_GET_NCE ∧ nc_buf_len data.log i ≠ 0 ∧
          Posts i data (log_adjustment data i) (data.servers i) (data.log_offsets i) data.log.commit
            [.read_nc_entries (nc_buf_len data.log i * SIZEOF_DET)]) ∨
        ((data.servers i).next_lr_step = .LR_SET_END ∧
          Posts i data (log_adjustment data i) (data.servers i)
            { data.log_offsets i with end_ := log_find_remote_end_offset data.log i }
            data.log.commit [.write_end (log_find_remote_end_offset data.log i)]))) := by
  unfold log_adjustment
  by_cases hadjusts : adjusts_log data i
  swap
  · exact .inl ⟨if_neg hadjusts, .inl (Bool.eq_false_iff.mpr hadjusts)⟩
  rw [if_pos hadjusts]
  simp only [adjusts_log, Bool.and_eq_true, decide_eq_true_eq] at hadjusts
  obtain ⟨⟨⟨-, hflag⟩, -⟩, hack⟩ := hadjusts
  have hssn := only_ssn data i (data.ssn + 1)
  unfold adjustment_step
  dsimp only
  cases hstep : (data.servers i).next_lr_step with
  | LR_GET_WRITE =>
    refine .inr ⟨hflag, Ne.symm hack, .inl ⟨rfl, ?_⟩⟩
    have honly := (hssn.trans (only_set_log_offsets _ i
      { data.log_offsets i with commit := data.vote_ack i })).trans
      (only_set_server _ i { data.servers i with next_lr_step := .LR_GET_NCE_LEN })
    simpa using get_nce_len_posts data i honly rfl rfl
  | LR_GET_NCE_LEN =>
    exact .inr ⟨hflag, Ne.symm hack, .inr (.inl ⟨rfl, get_nce_len_posts data i hssn rfl rfl⟩)⟩
  | LR_GET_NCE =>
    refine .inr ⟨hflag, Ne.symm hack, .inr (.inr ?_)⟩
    by_cases hzero : nc_buf_len data.log i = 0
    · exact .inl ⟨rfl, hzero, by simp only [hzero, if_true]⟩
    · refine .inr (.inl ⟨rfl, hzero, ?_⟩)
      simp only [hzero, if_false]
      exact post_lr_posts data i hssn rfl rfl
  | LR_SET_END =>
    refine .inr ⟨hflag, Ne.symm hack, .inr (.inr (.inr (.inr ⟨rfl, ?_⟩)))⟩
    have honly := hssn.trans (only_set_log_offsets _ i
      { data.log_offsets i with end_ := log_find_remote_end_offset data.log i })
    simpa using post_lr_posts data i honly rfl rfl
  | LR_UPDATE_LOG => exact .inl ⟨rfl, .inr (.inl rfl)⟩
  | LR_UPDATE_END => exact .inl ⟨rfl, .inr (.inr rfl)⟩

theorem log_adjustment_self : log_adjustment data data.idx = (data, []) := by
  simp [log_adjustment, adjusts_log]

theorem update_remote_log_cases :
    (update_remote_log data i = (data, []) ∧
      (updates_log data i = false ∨ log_offset_end_distance data.log (data.log_offsets i).end_ = 0 ∨
        ((data.servers i).next_lr_step ≠ .LR_UPDATE_LOG ∧
          (data.servers i).next_lr_step ≠ .LR_UPDATE_END))) ∨
    ((data.servers i).send_flag = true ∧
      (((data.servers i).next_lr_step = .LR_UPDATE_LOG ∧
          log_offset_end_distance data.log (data.log_offsets i).end_ ≠ 0 ∧
          Posts i data (update_remote_log data i)
            { data.servers i with
              cached_end_offset := data.log.end_
              send_count := if (data.log_offsets i).end_ < data.log.end_ then 1 else 2 }
            (data.log_offsets i) data.log.commit
            (log_parts data.log.len (data.log_offsets i).end_ data.log.end_)) ∨
        ((data.servers i).next_lr_step = .LR_UPDATE_END ∧
          Posts i data (update_remote_log data i) (data.servers i)
            { data.log_offsets i with end_ := (data.servers i).cached_end_offset } data.log.commit
            [.write_end (data.servers i).cached_end_offset]))) := by
  unfold update_remote_log
  by_cases hupdates : updates_log data i
  swap
  · exact .inl ⟨if_neg hupdates, .inl (Bool.eq_false_iff.mpr hupdates)⟩
  rw [if_pos hupdates]
  simp only [updates_log, Bool.and_eq_true] at hupdates
  obtain ⟨⟨-, hflag⟩, -⟩ := hupdates
  have hssn := only_ssn data i (data.ssn + 1)
  unfold update_step
  dsimp only
  cases hstep : (data.servers i).next_lr_step with
  | LR_UPDATE_LOG =>
    by_cases hzero : log_offset_end_distance data.log (data.log_offsets i).end_ = 0
    · exact .inl ⟨by simp only [hzero, if_true], .inr (.inl hzero)⟩
    refine .inr ⟨hflag, .inl ⟨rfl, hzero, ?_⟩⟩
    simp only [hzero, if_false]
    have honly := hssn.trans (only_set_server _ i
      { data.servers i with
        cached_end_offset := data.log.end_
        send_count := if (data.log_offsets i).end_ < data.log.end_ then 1 else 2 })
    simpa [hstep] using post_lr_posts data i honly rfl rfl
  | LR_UPDATE_END =>
    refine .inr ⟨hflag, .inr ⟨rfl, ?_⟩⟩
    have honly := hssn.trans (only_set_log_offsets _ i
      { data.log_offsets i with end_ := (data.servers i).cached_end_offset })
    simpa using post_lr_posts data i honly rfl rfl
  | LR_GET_WRITE => exact .inl ⟨rfl, .inr (.inr ⟨nofun, nofun⟩)⟩
  | LR_GET_NCE_LEN => exact .inl ⟨rfl, .inr (.inr ⟨nofun, nofun⟩)⟩
  | LR_GET_NCE => exact .inl ⟨rfl, .inr (.inr ⟨nofun, nofun⟩)⟩
  | LR_SET_END => exact .inl ⟨rfl, .inr (.inr ⟨nofun, nofun⟩)⟩

theorem update_remote_commit_cases :
    update_remote_commit data i = (data, []) ∨
    ((data.servers i).next_lr_step = .LR_UPDATE_LOG ∧ Only i data (update_remote_commit data i).1 ∧
      (update_remote_commit data i).1.servers = data.servers ∧
      ((update_remote_commit data i).1.log_offsets i).end_ = (data.log_offsets i).end_ ∧
      (update_remote_commit data i).1.log = data.log ∧
      ∃ wr_id offset, wr_id.conn = i ∧
        (update_remote_commit data i).2 = [⟨wr_id, false, .write_commit offset⟩]) := by
  unfold update_remote_commit
  by_cases hupdates : updates_commit data i
  swap
  · exact .inl (if_neg hupdates)
  rw [if_pos hupdates]
  simp only [updates_commit, Bool.and_eq_true, decide_eq_true_eq] at hupdates
  obtain ⟨⟨⟨-, hstep⟩, -⟩, -⟩ := hupdates
  refine .inr ⟨hstep, ?_, rfl, ?_, rfl, _, _, rfl, rfl⟩
  · exact (only_ssn data i _).trans (only_set_log_offsets _ i _)
  · simp

theorem log_adjustment_only : Only i data (log_adjustment data i).1 := by
  obtain ⟨hnone, -⟩ | ⟨-, -, hcases⟩ := log_adjustment_cases data i
  · rw [hnone]
    exact Only.refl _ _
  obtain ⟨-, hposts⟩ | ⟨-, hposts⟩ | ⟨-, -, heq⟩ | ⟨-, -, hposts⟩ | ⟨-, hposts⟩ := hcases
  · exact hposts.only
  · exact hposts.only
  · rw [heq]
    exact ((only_ssn _ _ _).trans (only_set_log_offsets _ _ _)).trans (only_set_server _ _ _)
  · exact hposts.only
  · exact hposts.only

theorem update_remote_log_only : Only i data (update_remote_log data i).1 := by
  obtain ⟨hnone, -⟩ | ⟨-, ⟨-, -, hposts⟩ | ⟨-, hposts⟩⟩ := update_remote_log_cases data i
  · rw [hnone]
    exact Only.refl _ _
  · exact hposts.only
  · exact hposts.only

theorem update_remote_commit_only : Only i data (update_remote_commit data i).1 := by
  obtain hnone | ⟨-, honly, -⟩ := update_remote_commit_cases data i
  · rw [hnone]
    exact Only.refl _ _
  · exact honly

end cases
end dare.rc
