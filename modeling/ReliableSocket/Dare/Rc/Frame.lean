import ReliableSocket.Dare.Rc.Effects

open memory ring
open dare.log dare.server

namespace dare.rc

/-- The requests for server `i` whose completion the leader waits for. -/
def pending (s : State) (i : Nat) : List work_request := (s.posted i).filter (·.signaled)

/-- What a request writes into the log of the leader stays inside the buffer of its server. -/
def ReadsInside (i : Nat) (operation : log_operation) : Prop :=
  i < MAX_SERVER_COUNT ∧
    ∀ len, operation = .read_nc_entries len → len ≤ SIZEOF_DET * MAX_NC_ENTRIES

/-- All queued requests belong to their queue and read into the buffer of their server. -/
structure Safe (s : State) : Prop where
  group : get_extended_group_size s.leader.cid ≤ MAX_SERVER_COUNT
  queued : ∀ i wr, wr ∈ s.posted i → wr.wr_id.conn = i ∧ ReadsInside i wr.operation

/-- Two logs that differ at most in their commit offset and in the buffers of servers other than
    `i`. -/
structure Alike (i : Nat) (log log' : dare_log_t) : Prop where
  head : log'.head = log.head
  end_ : log'.end_ = log.end_
  len : log'.len = log.len
  mem : ∀ a, (nc_buf_addr i ≤ a ∧ a < nc_buf_addr (i + 1)) ∨ ENTRIES_OFFSET ≤ a →
    log'.mem a = log.mem a

section alike

variable {i c : Nat} {log log' : dare_log_t} {before es ys : List dare_log_entry_t}

theorem Alike.entries (halike : Alike i log log') : log'.entries = log.entries := by
  funext b
  exact halike.mem _ (.inr (Nat.le_add_right _ _))

theorem readableFrom_congr (hread : ReadableFrom log before c es) (hhead : log'.head = log.head)
    (hend : log'.end_ = log.end_) (hlen : log'.len = log.len) (hentries : log'.entries = log.entries) :
    ReadableFrom log' before c es := by
  refine ⟨hlen.trans hread.len, ?_⟩
  obtain ⟨hbefore, hes, hempty, hzero, hc⟩ | ⟨hpath, hfrom, hspan⟩ := hread.paths
  · exact .inl ⟨hbefore, hes, by rw [hend, hlen, hempty], hhead.trans hzero, hc⟩
  · refine .inr ⟨?_, hfrom.congr_log hend hlen hentries, ?_⟩
    · rw [hhead]
      exact hpath.congr_log hend hlen hentries
    · rw [hlen, hhead]
      exact hspan

theorem Alike.readableFrom (halike : Alike i log log') (hread : ReadableFrom log before c es) :
    ReadableFrom log' before c es :=
  readableFrom_congr hread halike.head halike.end_ halike.len halike.entries

theorem alike_commit (i : Nat) (log : dare_log_t) (commit : Nat) :
    Alike i log { log with commit } :=
  ⟨rfl, rfl, rfl, fun _ _ => rfl⟩

theorem Only.alike {data data' : dare_server_data_t} {j : Nat} (honly : Only j data data') (i : Nat) :
    Alike i data.log data'.log := by
  obtain ⟨commit, hlog⟩ := honly.log
  rw [hlog]
  exact alike_commit i _ commit

end alike

section execute

variable {i j bytes : Nat} {operation : log_operation} {log remote : dare_log_t}

/-- A request only changes the buffer of its server in the log of the leader. -/
theorem execute_log_outside (bytes : Nat) (log remote : dare_log_t) (hinside : ReadsInside i operation) :
    ∃ m, (execute i operation bytes log remote).1 = { log with mem := m } ∧
      ∀ a, a < nc_buf_addr i ∨ nc_buf_addr (i + 1) ≤ a → m a = log.mem a := by
  have hlast := nc_det_addr_last i
  have hzero := nc_det_addr_zero i
  have hfirst := nc_det_addr_mono i (Nat.zero_le MAX_NC_ENTRIES)
  cases operation with
  | read_nc_len =>
    refine ⟨_, rfl, fun a hout => ?_⟩
    split
    · rfl
    · exact copy_outside (by omega)
  | read_nc_entries len =>
    refine ⟨_, rfl, fun a hout => copy_outside ?_⟩
    have hlen := hinside.2 len rfl
    unfold nc_det_addr at hlast
    omega
  | write_end offset => exact ⟨log.mem, rfl, fun _ _ => rfl⟩
  | write_commit offset => exact ⟨log.mem, rfl, fun _ _ => rfl⟩
  | write_entries offset len => exact ⟨log.mem, rfl, fun _ _ => rfl⟩

/-- A request for another server leaves the entries of the leader and the buffer of `i` alone. -/
theorem execute_alike (hinside : ReadsInside j operation) (hne : j ≠ i) :
    Alike i log (execute j operation bytes log remote).1 := by
  obtain ⟨m, heq, hframe⟩ := execute_log_outside bytes log remote hinside
  rw [heq]
  refine ⟨rfl, rfl, rfl, fun a ha => hframe a ?_⟩
  have hregion := nc_buf_addr_le hinside.1
  obtain hlt | hlt := Nat.lt_or_gt_of_ne hne
  · have hmono := nc_buf_addr_mono (show _ + 1 ≤ _ from hlt)
    have hself := nc_buf_addr_mono (show i ≤ i + 1 by omega)
    omega
  · have hmono := nc_buf_addr_mono (show _ + 1 ≤ _ from hlt)
    omega

theorem execute_remote_nc_buf {a : Nat} (ha : a < ENTRIES_OFFSET) :
    (execute i operation bytes log remote).2.mem a = remote.mem a := by
  cases operation with
  | write_entries offset len => exact copy_outside (.inl (by omega))
  | read_nc_len => rfl
  | read_nc_entries len => rfl
  | write_end offset => rfl
  | write_commit offset => rfl

theorem execute_remote_len : (execute i operation bytes log remote).2.len = remote.len := by
  cases operation <;> rfl

/-- Writing entries copies them from the log of the leader. -/
theorem entries_execute_write (i bytes : Nat) (log remote : dare_log_t) (offset len : Nat) :
    (execute i (.write_entries offset len) bytes log remote).2.entries =
      copy log.entries remote.entries offset (min len bytes) := by
  funext b
  simp only [execute, dare_log_t.entries, copy]
  by_cases hin : offset ≤ b ∧ b < offset + min len bytes
  · rw [if_pos (by omega), if_pos hin]
  · rw [if_neg (by omega), if_neg hin]

end execute

section states

variable (s : State) (i : Nat) (result : dare_server_data_t × List work_request)

@[simp] theorem post_leader : (post s i result).leader = result.1 := rfl

@[simp] theorem post_remote : (post s i result).remote = s.remote := rfl

@[simp] theorem post_posted_self : (post s i result).posted i = s.posted i ++ result.2 :=
  Function.update_self _ _ _

theorem post_posted_ne {j : Nat} (hj : j ≠ i) : (post s i result).posted j = s.posted j :=
  Function.update_of_ne hj _ _

theorem complete_cases (success : Bool) (bytes : Nat) :
    complete s i success bytes = s ∨
    ∃ wr rest logs, s.posted i = wr :: rest ∧
      logs = execute i wr.operation (if success then wr.operation.len else bytes) s.leader.log
        (s.remote i) ∧
      complete s i success bytes =
        { leader := if wr.signaled then
            handle_lr_work_completion (s.leader.set_log logs.1) wr.wr_id success
            else s.leader.set_log logs.1
          remote := Function.update s.remote i logs.2
          posted := Function.update s.posted i rest } := by
  unfold complete
  cases hposted : s.posted i with
  | nil => exact .inl rfl
  | cons wr rest => exact .inr ⟨wr, rest, _, rfl, rfl, rfl⟩

/-- The completion of a request for server `i` changes nothing else the leader keeps. -/
theorem handle_only (data : dare_server_data_t) (wr_id : wr_id_t) (success : Bool) :
    Only wr_id.conn data (handle_lr_work_completion data wr_id success) := by
  unfold handle_lr_work_completion
  dsimp only
  split
  · exact only_set_server _ _ _
  · exact Only.refl _ _

theorem handle_log (data : dare_server_data_t) (wr_id : wr_id_t) (success : Bool) :
    (handle_lr_work_completion data wr_id success).log = data.log ∧
      (handle_lr_work_completion data wr_id success).log_offsets = data.log_offsets := by
  unfold handle_lr_work_completion
  dsimp only
  split
  · exact ⟨rfl, rfl⟩
  · exact ⟨rfl, rfl⟩

end states

/-- No server has published more entries than its buffer has slots. -/
def ShortBuffers (s : State) : Action → Prop
  | .log_adjustment i => Peer s i → (s.leader.servers i).next_lr_step = .LR_GET_NCE →
      nc_buf_len s.leader.log i ≤ MAX_NC_ENTRIES
  | _ => True

section safe

variable {s : State} {i : Nat} {result : dare_server_data_t × List work_request}

theorem Safe.post (hsafe : Safe s) (honly : Only i s.leader result.1)
    (hposted : ∀ wr ∈ result.2, wr.wr_id.conn = i ∧ ReadsInside i wr.operation) :
    Safe (post s i result) := by
  refine ⟨?_, fun j wr hmem => ?_⟩
  · rw [post_leader, honly.cid]
    exact hsafe.group
  · by_cases hj : j = i
    · subst hj
      rw [post_posted_self, List.mem_append] at hmem
      obtain hold | hnew := hmem
      · exact hsafe.queued j wr hold
      · exact hposted wr hnew
    · rw [post_posted_ne s i result hj] at hmem
      exact hsafe.queued j wr hmem

theorem Posts.safe {server : server_t} {offsets : log_offsets_t} {commit : Nat}
    {operations : List log_operation} (hsafe : Safe s)
    (hposts : Posts i s.leader result server offsets commit operations)
    (hinside : ∀ operation ∈ operations, ReadsInside i operation) : Safe (post s i result) := by
  refine hsafe.post hposts.only ?_
  rw [hposts.posted]
  intro wr hmem
  obtain ⟨operation, hop, rfl⟩ := List.mem_map.mp hmem
  exact ⟨rfl, hinside operation hop⟩

theorem safe_complete (hsafe : Safe s) (success : Bool) (bytes : Nat) :
    Safe (complete s i success bytes) := by
  obtain heq | ⟨wr, rest, logs, hposted, -, heq⟩ := complete_cases s i success bytes
  · rwa [heq]
  rw [heq]
  refine ⟨?_, fun j wr' hmem => ?_⟩
  · have honly := handle_only (s.leader.set_log logs.1) wr.wr_id success
    dsimp only
    split
    · rw [honly.cid]
      exact hsafe.group
    · exact hsafe.group
  · by_cases hj : j = i
    · subst hj
      simp only [Function.update_self] at hmem
      exact hsafe.queued j wr' (by rw [hposted]; exact List.mem_cons_of_mem _ hmem)
    · simp only [Function.update_of_ne hj] at hmem
      exact hsafe.queued j wr' hmem

theorem log_parts_writes {len start stop : Nat} :
    ∀ operation ∈ log_parts len start stop, ∃ offset m, operation = .write_entries offset m := by
  intro operation hmem
  unfold log_parts at hmem
  split at hmem
  · exact ⟨_, _, List.mem_singleton.mp hmem⟩
  · obtain heq | hmem := List.mem_cons.mp hmem
    · exact ⟨_, _, heq⟩
    · split at hmem
      · exact ⟨_, _, List.mem_singleton.mp hmem⟩
      · cases hmem

/-- The parts of the log are written, not read. -/
theorem readsInside_log_parts {len start stop : Nat} (hi : i < MAX_SERVER_COUNT) :
    ∀ operation ∈ log_parts len start stop, ReadsInside i operation := by
  intro operation hmem
  obtain ⟨offset, m, rfl⟩ := log_parts_writes operation hmem
  exact ⟨hi, nofun⟩

theorem safe_step {a : Action} (hsafe : Safe s) (hshort : ShortBuffers s a) : Safe (step s a) := by
  cases a with
  | append req_id clt_id data => exact ⟨hsafe.group, hsafe.queued⟩
  | log_adjustment j =>
    simp only [step]
    split
    swap
    · exact hsafe
    rename_i hsize
    have hj : j < MAX_SERVER_COUNT := Nat.lt_of_lt_of_le hsize hsafe.group
    by_cases hself : j = s.leader.idx
    · rw [hself, log_adjustment_self]
      exact hsafe.post (Only.refl _ _) (by simp)
    obtain ⟨hnone, -⟩ | ⟨-, -, hcases⟩ := log_adjustment_cases s.leader j
    · rw [hnone]
      exact hsafe.post (Only.refl _ _) (by simp)
    obtain ⟨-, hposts⟩ | ⟨-, hposts⟩ | ⟨-, -, heq⟩ | ⟨hstep, -, hposts⟩ | ⟨-, hposts⟩ := hcases
    · exact hposts.safe hsafe (by simpa [ReadsInside] using hj)
    · exact hposts.safe hsafe (by simpa [ReadsInside] using hj)
    · rw [heq]
      refine hsafe.post ?_ (by simp)
      exact ((only_ssn _ _ _).trans (only_set_log_offsets _ _ _)).trans (only_set_server _ _ _)
    · refine hposts.safe hsafe ?_
      have hcount := hshort ⟨hself, hsize⟩ hstep
      simp only [List.mem_singleton, forall_eq, ReadsInside, log_operation.read_nc_entries.injEq]
      refine ⟨hj, fun len hlen => ?_⟩
      rw [← hlen, Nat.mul_comm]
      exact Nat.mul_le_mul_left _ hcount
    · exact hposts.safe hsafe (by simpa [ReadsInside] using hj)
  | update_remote_log j =>
    simp only [step]
    split
    swap
    · exact hsafe
    have hj : j < MAX_SERVER_COUNT := Nat.lt_of_lt_of_le ‹_› hsafe.group
    obtain ⟨hnone, -⟩ | ⟨-, ⟨-, -, hposts⟩ | ⟨-, hposts⟩⟩ := update_remote_log_cases s.leader j
    · rw [hnone]
      exact hsafe.post (Only.refl _ _) (by simp)
    · exact hposts.safe hsafe (readsInside_log_parts hj)
    · exact hposts.safe hsafe (by simpa [ReadsInside] using hj)
  | update_commit =>
    refine ⟨?_, hsafe.queued⟩
    simp only [step, update_commit]
    split
    · exact hsafe.group
    · exact hsafe.group
  | update_remote_commit j =>
    simp only [step]
    split
    swap
    · exact hsafe
    have hj : j < MAX_SERVER_COUNT := Nat.lt_of_lt_of_le ‹_› hsafe.group
    obtain hnone | ⟨-, honly, -, -, -, wr_id, offset, hconn, hposted⟩ :=
      update_remote_commit_cases s.leader j
    · rw [hnone]
      exact hsafe.post (Only.refl _ _) (by simp)
    · refine hsafe.post honly ?_
      rw [hposted]
      simpa [ReadsInside, hconn] using hj
  | complete j success bytes => exact safe_complete hsafe success bytes
  | vote_ack j offset => exact ⟨hsafe.group, hsafe.queued⟩
  | fail_count j count => exact ⟨hsafe.group, hsafe.queued⟩
  | remote j log => exact ⟨hsafe.group, hsafe.queued⟩

end safe

end dare.rc
