import ReliableSocket.Dare.Rc.Completion
import ReliableSocket.Dare.Rc.Effects
import ReliableSocket.Dare.Rc.Majority

open dare.ibv dare.log dare.server run

namespace dare.rc

/-- The identifier of a completed request without its tag and its wrap-around bit. -/
def lr_wr_id (wr_id : wrid_t) : wr_id_t := { ssn := wr_id.ssn, conn := wr_id.conn }

/-- The call of `handle_lr_work_completion` for the `i`-th completion of a poll: its status, but the request at
    the place that an index of 8 bits gives. -/
def handle_lr_completion (data : dare_server_data_t) (rc_wc_array : List ibv_wc) (i : Nat) : dare_server_data_t :=
  match rc_wc_array[i]?, rc_wc_array[i % 256]? with
  | some wc, some at_idx =>
    handle_lr_work_completion data (lr_wr_id at_idx.wr_id) (decide (handle_work_completion wc = .WC_SUCCESS))
  | _, _ => data

/-- What really happens to the update of a follower's log: how many of its parts are posted and not completed,
    how many are still to be posted, and if one failed. It is current until another request of log replication
    follows. -/
structure update_t where
  current : Bool
  outstanding : Nat
  unposted : Nat
  failed : Bool
deriving DecidableEq, Repr

/-- A leader that replicates its log to one follower, with the completions it has polled and the next of them
    to handle. -/
structure leader_t where
  data : dare_server_data_t
  rc_wc_array : List ibv_wc
  next : Nat
  update : update_t

/-- Requests are posted when all completions of a poll are handled. The second part of an update is posted after
    the first, with polls in between. -/
inductive leader_action where
  | update
  | second_part
  | adjust
  | other (data : dare_server_data_t)
  | poll (batch : List ibv_wc)
  | handle_next

/-- Other work of the leader leaves the replication to the follower as it is. -/
def keep_replication (server other : server_t) : server_t :=
  { other with
    next_wr_id := server.next_wr_id
    next_lr_step := server.next_lr_step
    send_flag := server.send_flag
    send_count := server.send_count
    cached_end_offset := server.cached_end_offset }

section follower

variable (i : Nat)

/-- The completion belongs to the request that the follower waits for. -/
def completes (data : dare_server_data_t) (wc : ibv_wc) : Bool :=
  decide (lr_wr_id wc.wr_id = (data.servers i).next_wr_id)

def note_part (s : leader_t) : update_t :=
  match s.rc_wc_array[s.next]? with
  | some wc =>
    if completes i s.data wc then
      { s.update with
        outstanding := s.update.outstanding - 1
        failed := s.update.failed || decide (handle_work_completion wc ≠ .WC_SUCCESS) }
    else s.update
  | none => s.update

def note_update (server : server_t) (posted : List work_request) (u : update_t) : update_t :=
  match posted with
  | [] => u
  | _ :: rest =>
    if server.next_lr_step = .LR_UPDATE_LOG then
      { current := true, outstanding := 1, unposted := rest.length, failed := false }
    else { u with current := false }

def post_update (s : leader_t) : leader_t :=
  let posted := update_remote_log s.data i
  { s with data := posted.1, update := note_update (s.data.servers i) posted.2 s.update }

def post_adjustment (s : leader_t) : leader_t :=
  let posted := log_adjustment s.data i
  { s with
    data := posted.1
    update := if posted.2 = [] then s.update else { s.update with current := false } }

def post_second_part (s : leader_t) : leader_t :=
  if 0 < s.update.unposted then
    { s with
      data := s.data.set_server i { s.data.servers i with send_flag := false }
      update := { s.update with outstanding := s.update.outstanding + 1, unposted := s.update.unposted - 1 } }
  else s

def handle_next (s : leader_t) : leader_t :=
  { s with
    data := handle_lr_completion s.data s.rc_wc_array s.next
    next := s.next + 1
    update := note_part i s }

/-- All completions of the last poll are handled. -/
def idle (s : leader_t) : Prop := s.rc_wc_array.length ≤ s.next

instance (s : leader_t) : Decidable (idle s) := inferInstanceAs (Decidable (_ ≤ _))

def leader_step (s : leader_t) : leader_action → leader_t
  | .update => if idle s then post_update i s else s
  | .second_part => if idle s then post_second_part i s else s
  | .adjust => if idle s then post_adjustment i s else s
  | .other data =>
    if idle s then
      { s with data := data.set_server i (keep_replication (s.data.servers i) (data.servers i)) }
    else s
  | .poll batch => if idle s then { s with rc_wc_array := batch, next := 0 } else s
  | .handle_next => if idle s then s else handle_next i s

/-- The update counts as done only when all of its parts succeeded, the follower is free for another request only
    when no part is left, and a failed part leaves the step where it is. -/
structure UpdateSound (s : leader_t) : Prop where
  done : (s.data.servers i).next_lr_step = .LR_UPDATE_END →
    s.update.outstanding = 0 ∧ s.update.unposted = 0 ∧ s.update.failed = false
  free : (s.data.servers i).send_flag = true → s.update.outstanding = 0 ∧ s.update.unposted = 0
  failed : s.update.failed = true → (s.data.servers i).next_lr_step = .LR_UPDATE_LOG

/-- A poll returns no more completions of the update than it has parts outstanding. -/
def PartsArrive (s : leader_t) (a : leader_action) : Prop :=
  match a with
  | .poll batch => s.update.current = true → batch.countP (completes i s.data) ≤ s.update.outstanding
  | _ => True

end follower

/-- The index of each completion fits into 8 bits. -/
def IndexFits (a : leader_action) : Prop :=
  match a with
  | .poll batch => batch.length ≤ 256
  | _ => True

instance (a : leader_action) : Decidable (IndexFits a) :=
  match a with
  | .poll _ => inferInstanceAs (Decidable (_ ≤ _))
  | .update | .second_part | .adjust | .other _ | .handle_next => isTrue trivial

/-- Where the update of a log stands: the send counter tells what happened to the part that completed first. -/
inductive UpdateStage (server : server_t) (u : update_t) : Prop where
  | all_left (hstep : server.next_lr_step = .LR_UPDATE_LOG) (hflag : server.send_flag = false)
      (hcount : server.send_count = 2) (hfailed : u.failed = false) (hleft : u.outstanding + u.unposted ≤ 2)
  | one_left (hstep : server.next_lr_step = .LR_UPDATE_LOG) (hflag : server.send_flag = false)
      (hcount : server.send_count = 1) (hfailed : u.failed = false) (hleft : u.outstanding + u.unposted ≤ 1)
  | one_failed (hstep : server.next_lr_step = .LR_UPDATE_LOG) (hflag : server.send_flag = false)
      (hcount : server.send_count = 0) (hfailed : u.failed = true) (hleft : u.outstanding + u.unposted ≤ 1)
  | failed (hstep : server.next_lr_step = .LR_UPDATE_LOG) (hfailed : u.failed = true)
      (hleft : u.outstanding = 0 ∧ u.unposted = 0)
  | done (hstep : server.next_lr_step = .LR_UPDATE_END) (hfailed : u.failed = false)
      (hleft : u.outstanding = 0 ∧ u.unposted = 0)

section stage

variable {i : Nat} {server : server_t} {u : update_t}

theorem UpdateStage.success (hstage : UpdateStage server u) (hleft : 0 < u.outstanding) :
    UpdateStage (lr_success server) { u with outstanding := u.outstanding - 1 } := by
  cases hstage with
  | all_left hstep hflag hcount hfailed hle =>
    refine .one_left ?_ ?_ ?_ hfailed (by dsimp only; omega) <;> simp [lr_success, hstep, hcount, hflag]
  | one_left hstep hflag hcount hfailed hle =>
    exact .done (by simp [lr_success, hstep, hcount]) hfailed (by dsimp only; omega)
  | one_failed hstep hflag hcount hfailed hle =>
    exact .failed (by simp [lr_success, hstep, hcount]) hfailed (by dsimp only; omega)
  | failed hstep hfailed hnone => omega
  | done hstep hfailed hnone => omega

theorem UpdateStage.failure (hstage : UpdateStage server u) (hleft : 0 < u.outstanding) :
    UpdateStage (lr_failure server) { u with outstanding := u.outstanding - 1, failed := true } := by
  cases hstage with
  | all_left hstep hflag hcount hfailed hle =>
    refine .one_failed ?_ ?_ ?_ rfl (by dsimp only; omega) <;> simp [lr_failure, hstep, hcount, hflag]
  | one_left hstep hflag hcount hfailed hle =>
    exact .failed (by simp [lr_failure, hstep, hcount]) rfl (by dsimp only; omega)
  | one_failed hstep hflag hcount hfailed hle =>
    exact .failed (by simp [lr_failure, hstep, hcount]) rfl (by dsimp only; omega)
  | failed hstep hfailed hnone => omega
  | done hstep hfailed hnone => omega

/-- Posting the second part changes only where it is counted. -/
theorem UpdateStage.second_part (hstage : UpdateStage server u) (hunposted : 0 < u.unposted) :
    UpdateStage { server with send_flag := false }
      { u with outstanding := u.outstanding + 1, unposted := u.unposted - 1 } := by
  cases hstage with
  | all_left hstep hflag hcount hfailed hle => exact .all_left hstep rfl hcount hfailed (by dsimp only; omega)
  | one_left hstep hflag hcount hfailed hle => exact .one_left hstep rfl hcount hfailed (by dsimp only; omega)
  | one_failed hstep hflag hcount hfailed hle =>
    exact .one_failed hstep rfl hcount hfailed (by dsimp only; omega)
  | failed hstep hfailed hnone => omega
  | done hstep hfailed hnone => omega

theorem UpdateStage.other (hstage : UpdateStage server u) (other : server_t) :
    UpdateStage (keep_replication server other) u := by
  cases hstage with
  | all_left hstep hflag hcount hfailed hle => exact .all_left hstep hflag hcount hfailed hle
  | one_left hstep hflag hcount hfailed hle => exact .one_left hstep hflag hcount hfailed hle
  | one_failed hstep hflag hcount hfailed hle => exact .one_failed hstep hflag hcount hfailed hle
  | failed hstep hfailed hnone => exact .failed hstep hfailed hnone
  | done hstep hfailed hnone => exact .done hstep hfailed hnone

theorem UpdateStage.step (hstage : UpdateStage server u) :
    server.next_lr_step = .LR_UPDATE_LOG ∨ server.next_lr_step = .LR_UPDATE_END := by
  cases hstage with
  | all_left hstep | one_left hstep | one_failed hstep | failed hstep => exact .inl hstep
  | done hstep => exact .inr hstep

end stage

/-- The follower waits for its own request, the completions to come are of parts that are outstanding, and the
    update stands where the send counter says. -/
structure Tracked (i : Nat) (s : leader_t) : Prop where
  short : s.rc_wc_array.length ≤ 256
  conn : s.update.current = true → (s.data.servers i).next_wr_id.conn = i
  left : s.update.current = true →
    (s.rc_wc_array.drop s.next).countP (completes i s.data) ≤ s.update.outstanding
  stage : s.update.current = true → UpdateStage (s.data.servers i) s.update

section tracked

variable {i : Nat} {s : leader_t}

theorem Tracked.sound (hs : Tracked i s) (hcurrent : s.update.current = true) : UpdateSound i s := by
  cases hs.stage hcurrent with
  | all_left hstep hflag hcount hfailed hle => constructor <;> simp [hstep, hflag, hfailed]
  | one_left hstep hflag hcount hfailed hle => constructor <;> simp [hstep, hflag, hfailed]
  | one_failed hstep hflag hcount hfailed hle => constructor <;> simp [hstep, hflag]
  | failed hstep hfailed hnone => exact ⟨by simp [hstep], fun _ => hnone, fun _ => hstep⟩
  | done hstep hfailed hnone => exact ⟨fun _ => ⟨hnone.1, hnone.2, hfailed⟩, fun _ => hnone, by simp [hfailed]⟩

/-- A completion of another request leaves the follower alone. -/
theorem handle_lr_of_not_completes {wc : ibv_wc} (data : dare_server_data_t) (success : Bool)
    (hother : completes i data wc = false) :
    (handle_lr_work_completion data (lr_wr_id wc.wr_id) success).servers i = data.servers i := by
  rw [handle_lr_work_completion]
  split
  · rename_i heq
    by_cases hconn : i = (lr_wr_id wc.wr_id).conn
    · rw [← hconn] at heq
      simp [completes, heq] at hother
    · exact Function.update_of_ne hconn _ _
  · rfl

theorem handle_lr_of_completes {wc : ibv_wc} {data : dare_server_data_t} {success : Bool}
    (hconn : (data.servers i).next_wr_id.conn = i) (hown : completes i data wc = true) :
    (handle_lr_work_completion data (lr_wr_id wc.wr_id) success).servers i =
      if success then lr_success (data.servers i) else lr_failure (data.servers i) := by
  have heq := of_decide_eq_true hown
  rw [handle_lr_work_completion, heq, hconn, if_pos rfl]
  exact Function.update_self ..

/-- What handling a completion does to the follower, when its index fits. -/
theorem handle_lr_completion_eq (data : dare_server_data_t) {rc_wc_array : List ibv_wc} {n : Nat} {wc : ibv_wc}
    (hwc : rc_wc_array[n]? = some wc) (hfits : n < 256) :
    handle_lr_completion data rc_wc_array n = handle_lr_work_completion data (lr_wr_id wc.wr_id)
      (decide (handle_work_completion wc = .WC_SUCCESS)) := by
  rw [handle_lr_completion, Nat.mod_eq_of_lt hfits, hwc]

/-- A poll of at most 256 completions handles them one after the other, each with its own request. -/
theorem handle_lr_completions_eq (data : dare_server_data_t) {rc_wc_array : List ibv_wc}
    (hshort : rc_wc_array.length ≤ 256) :
    (List.range rc_wc_array.length).foldl (fun data n => handle_lr_completion data rc_wc_array n) data =
      rc_wc_array.foldl (fun data wc => handle_lr_work_completion data (lr_wr_id wc.wr_id)
        (decide (handle_work_completion wc = .WC_SUCCESS))) data := by
  have hprefix : ∀ n ≤ rc_wc_array.length,
      (List.range n).foldl (fun data n => handle_lr_completion data rc_wc_array n) data =
        (rc_wc_array.take n).foldl (fun data wc => handle_lr_work_completion data (lr_wr_id wc.wr_id)
          (decide (handle_work_completion wc = .WC_SUCCESS))) data := by
    intro n
    induction n with
    | zero => exact fun _ => rfl
    | succ n ih =>
      intro hn
      have hwc := List.getElem?_eq_getElem (Nat.lt_of_succ_le hn)
      rw [List.range_succ, List.foldl_append, ih (Nat.le_of_succ_le hn), List.take_add_one, hwc,
        List.foldl_append]
      exact handle_lr_completion_eq _ hwc (Nat.lt_of_lt_of_le hn hshort)
  have hall := hprefix rc_wc_array.length (Nat.le_refl _)
  rwa [List.take_length] at hall

theorem countP_drop {rc_wc_array : List ibv_wc} {n : Nat} {wc : ibv_wc} (hwc : rc_wc_array[n]? = some wc)
    (p : ibv_wc → Bool) :
    (rc_wc_array.drop n).countP p = (rc_wc_array.drop (n + 1)).countP p + if p wc = true then 1 else 0 := by
  obtain ⟨hn, hget⟩ := List.getElem?_eq_some_iff.mp hwc
  rw [List.drop_eq_getElem_cons hn, List.countP_cons, hget]

theorem Tracked.handle_next (hs : Tracked i s) (hbusy : ¬ idle s) : Tracked i (handle_next i s) := by
  have hnext : s.next < s.rc_wc_array.length := Nat.lt_of_not_le hbusy
  obtain ⟨wc, hwc⟩ : ∃ wc, s.rc_wc_array[s.next]? = some wc := ⟨_, List.getElem?_eq_getElem hnext⟩
  have hdata := handle_lr_completion_eq s.data hwc (Nat.lt_of_lt_of_le hnext hs.short)
  have hcount := countP_drop hwc (completes i s.data)
  rw [rc.handle_next]
  by_cases hown : completes i s.data wc = true
  · rw [if_pos hown] at hcount
    have hnote : note_part i s = { s.update with
        outstanding := s.update.outstanding - 1
        failed := s.update.failed || decide (handle_work_completion wc ≠ .WC_SUCCESS) } := by
      simp only [note_part, hwc, hown, if_true]
    have hserver (hcurrent : s.update.current = true) :
        ((handle_lr_completion s.data s.rc_wc_array s.next).servers i) =
          if handle_work_completion wc = .WC_SUCCESS then lr_success (s.data.servers i)
          else lr_failure (s.data.servers i) := by
      rw [hdata, handle_lr_of_completes (hs.conn hcurrent) hown]
      simp only [decide_eq_true_eq]
    have hwr_id (hcurrent : s.update.current = true) :
        ((handle_lr_completion s.data s.rc_wc_array s.next).servers i).next_wr_id =
          (s.data.servers i).next_wr_id := by
      rw [hserver hcurrent]
      split
      · exact (lr_success_kept _).2
      · exact (lr_failure_kept _).2
    rw [hnote]
    refine ⟨hs.short, fun hcurrent => ?_, fun hcurrent => ?_, fun hcurrent => ?_⟩
    · dsimp only
      rw [hwr_id hcurrent]
      exact hs.conn hcurrent
    · have hleft := hs.left hcurrent
      have hsame : completes i (handle_lr_completion s.data s.rc_wc_array s.next) = completes i s.data := by
        funext wc
        rw [completes, hwr_id hcurrent, ← completes]
      dsimp only
      rw [hsame]
      omega
    · have hpos : 0 < s.update.outstanding := by
        have hleft := hs.left hcurrent
        omega
      dsimp only
      rw [hserver hcurrent]
      by_cases hsuccess : handle_work_completion wc = .WC_SUCCESS
      · have hstage := (hs.stage hcurrent).success hpos
        simpa [hsuccess] using hstage
      · have hstage := (hs.stage hcurrent).failure hpos
        simpa [hsuccess] using hstage
  · rw [Bool.not_eq_true] at hown
    rw [hown] at hcount
    have hnote : note_part i s = s.update := by simp [note_part, hwc, hown]
    have hserver : (handle_lr_completion s.data s.rc_wc_array s.next).servers i = s.data.servers i := by
      rw [hdata]
      exact handle_lr_of_not_completes s.data _ hown
    have hsame : completes i (handle_lr_completion s.data s.rc_wc_array s.next) = completes i s.data := by
      funext wc
      rw [completes, hserver, ← completes]
    rw [hnote]
    refine ⟨hs.short, fun hcurrent => ?_, fun hcurrent => ?_, fun hcurrent => ?_⟩ <;> dsimp only
    · rw [hserver]
      exact hs.conn hcurrent
    · rw [hsame]
      have hleft := hs.left hcurrent
      simp only [Bool.false_eq_true, if_false, Nat.add_zero] at hcount
      omega
    · rw [hserver]
      exact hs.stage hcurrent

theorem Tracked.of_not_current (hshort : s.rc_wc_array.length ≤ 256) (hnot : s.update.current = false) :
    Tracked i s := by
  refine ⟨hshort, ?_, ?_, ?_⟩ <;> (rw [hnot]; exact fun h => Bool.noConfusion h)

/-- When no completion is left to handle, the stage of the update is all there is to show. -/
theorem Tracked.of_stage (hshort : s.rc_wc_array.length ≤ 256) (hidle : idle s)
    (hconn : (s.data.servers i).next_wr_id.conn = i) (hstage : UpdateStage (s.data.servers i) s.update) :
    Tracked i s := by
  refine ⟨hshort, fun _ => hconn, fun _ => ?_, fun _ => hstage⟩
  rw [List.drop_eq_nil_of_le hidle]
  exact Nat.zero_le _

theorem Tracked.post_update (hs : Tracked i s) (hidle : idle s) : Tracked i (post_update i s) := by
  obtain ⟨hnone, -⟩ | ⟨-, ⟨hstep, -, hposts⟩ | ⟨hstep, hposts⟩⟩ := update_remote_log_cases s.data i
  · rw [rc.post_update, hnone]
    exact hs
  · obtain ⟨htwo, hone⟩ := log_parts_length s.data.log.len (s.data.log_offsets i).end_ s.data.log.end_
    have hnonempty : (update_remote_log s.data i).2 ≠ [] := by
      rw [hposts.posted, log_parts]
      split <;> simp
    obtain ⟨first, rest, hparts⟩ := List.exists_cons_of_ne_nil hnonempty
    have hlength := congrArg List.length (hparts.symm.trans hposts.posted)
    rw [List.length_cons, List.length_map] at hlength
    have hnote : note_update (s.data.servers i) (update_remote_log s.data i).2 s.update =
        { current := true, outstanding := 1, unposted := rest.length, failed := false } := by
      rw [hparts]
      exact if_pos hstep
    refine .of_stage hs.short hidle ?_ ?_
    · rw [rc.post_update, hposts.servers]
    · rw [rc.post_update, hposts.servers, hnote]
      by_cases hwrap : (s.data.log_offsets i).end_ < s.data.log.end_
      · have := hone hwrap
        exact .one_left hstep rfl (if_pos hwrap) rfl (by dsimp only; omega)
      · exact .all_left hstep rfl (if_neg hwrap) rfl (by dsimp only; omega)
  · refine .of_not_current hs.short ?_
    have hnot : (s.data.servers i).next_lr_step ≠ .LR_UPDATE_LOG := by simp [hstep]
    have hnote : note_update (s.data.servers i) (update_remote_log s.data i).2 s.update =
        { s.update with current := false } := by
      rw [hposts.posted]
      exact if_neg hnot
    rw [rc.post_update, hnote]

theorem Tracked.post_second_part (hs : Tracked i s) (hidle : idle s) : Tracked i (post_second_part i s) := by
  rw [rc.post_second_part]
  split
  · rename_i hunposted
    by_cases hcurrent : s.update.current = true
    · refine .of_stage hs.short hidle ?_ ?_
      · simp only [dare_server_data_t.set_server, Function.update_self]
        exact hs.conn hcurrent
      · simp only [dare_server_data_t.set_server, Function.update_self]
        exact (hs.stage hcurrent).second_part hunposted
    · exact .of_not_current hs.short (Bool.not_eq_true _ ▸ hcurrent)
  · exact hs

/-- No log is adjusted once it is updated. -/
theorem Tracked.post_adjustment (hs : Tracked i s) : Tracked i (post_adjustment i s) := by
  by_cases hcurrent : s.update.current = true
  · have hnone : log_adjustment s.data i = (s.data, []) := by
      rw [log_adjustment]
      split
      · obtain hstep | hstep := (hs.stage hcurrent).step <;> simp only [adjustment_step, hstep]
      · rfl
    rw [rc.post_adjustment, hnone]
    exact hs
  · refine .of_not_current hs.short ?_
    rw [Bool.not_eq_true] at hcurrent
    rw [rc.post_adjustment]
    dsimp only
    split
    · exact hcurrent
    · rfl

theorem Tracked.step (hs : Tracked i s) {a : leader_action} (harrive : PartsArrive i s a) (hfits : IndexFits a) :
    Tracked i (leader_step i s a) := by
  cases a with
  | update =>
    rw [leader_step]
    split
    · exact hs.post_update (by assumption)
    · exact hs
  | second_part =>
    rw [leader_step]
    split
    · exact hs.post_second_part (by assumption)
    · exact hs
  | adjust =>
    rw [leader_step]
    split
    · exact hs.post_adjustment
    · exact hs
  | other data =>
    rw [leader_step]
    split
    · rename_i hidle
      by_cases hcurrent : s.update.current = true
      · refine .of_stage hs.short hidle ?_ ?_
        · simp only [dare_server_data_t.set_server, Function.update_self]
          exact hs.conn hcurrent
        · simp only [dare_server_data_t.set_server, Function.update_self]
          exact (hs.stage hcurrent).other _
      · exact .of_not_current hs.short (Bool.not_eq_true _ ▸ hcurrent)
    · exact hs
  | poll batch =>
    rw [leader_step]
    split
    · exact ⟨hfits, hs.conn, harrive, hs.stage⟩
    · exact hs
  | handle_next =>
    rw [leader_step]
    split
    · exact hs
    · exact hs.handle_next (by assumption)

end tracked

/-- In every run in which no poll returns more than 256 completions, the update of a follower's log counts as
    done only when all of its parts succeeded, the follower is free only when no part is left, and a failed part
    keeps the step. -/
theorem update_always_sound (i : Nat) (s : leader_t) (actions : List leader_action)
    (hstart : s.update.current = false) (harray : s.rc_wc_array = [])
    (harrive : run.AllOk (leader_step i) (PartsArrive i) s actions) (hfits : ∀ a ∈ actions, IndexFits a) :
    run.Always (leader_step i) (fun s => s.update.current = true → UpdateSound i s) s actions := by
  have hs : Tracked i s := .of_not_current (by rw [harray]; exact Nat.zero_le _) hstart
  exact run.AllOk.always (fun s a hs hok => hs.step hok.2 hok.1) (fun s hs => hs.sound) hs
    (run.AllOk.and_mem hfits harrive)

/-- A leader whose log goes on after the wrap up to 100, with a follower that ends at this offset. -/
def leader_of (remote_end : Nat) : leader_t where
  data := leading stable_cid 1000 900 100 [100, remote_end, remote_end]
  rc_wc_array := []
  next := 0
  update := { current := false, outstanding := 0, unposted := 0, failed := false }

def lr_completion (ssn conn : Nat) (status : ibv_wc_status) : ibv_wc where
  wr_id := { ssn, wa := false, tag := false, conn }
  status

/-- The first part of an update fails and the second succeeds; the update is posted again. -/
def failed_half : List leader_action :=
  [.update, .second_part, .poll [lr_completion 1 2 .IBV_WC_SUCCESS, lr_completion 1 1 .IBV_WC_RETRY_EXC_ERR],
    .handle_next, .handle_next, .poll [lr_completion 1 1 .IBV_WC_SUCCESS], .handle_next, .update]

theorem failed_half_sound :
    run.Always (leader_step 1) (fun s => s.update.current = true → UpdateSound 1 s) (leader_of 950) failed_half :=
  update_always_sound 1 (leader_of 950) failed_half rfl rfl
    ⟨trivial, trivial, fun _ => by decide, trivial, trivial, fun _ => by decide, trivial, trivial, trivial⟩
    (by decide)

/-- The only part of an update fails, and the last of 257 completions in one poll is a success of another
    server. -/
def long_poll : List leader_action :=
  [.update, .poll (lr_completion 1 1 .IBV_WC_RETRY_EXC_ERR ::
    List.replicate 256 (lr_completion 1 2 .IBV_WC_SUCCESS))] ++ List.replicate 257 .handle_next

theorem handle_all_arrive (i n : Nat) (s : leader_t) :
    run.AllOk (leader_step i) (PartsArrive i) s (List.replicate n .handle_next) := by
  induction n generalizing s with
  | zero => trivial
  | succ n ih => exact ⟨trivial, ih _⟩

/-- Completions that nobody waits for change nothing. -/
theorem handle_others {i next n : Nat} {wc : ibv_wc} {s : leader_t}
    (hbatch : ∀ k, next ≤ k → k < next + n → s.rc_wc_array[k]? = some wc) (hfits : next + n ≤ 256)
    (hother : lr_wr_id wc.wr_id ≠ (s.data.servers wc.wr_id.conn).next_wr_id)
    (hnot : completes i s.data wc = false) :
    run.steps (leader_step i) { s with next } (List.replicate n .handle_next) = { s with next := next + n } := by
  induction n generalizing next with
  | zero => rfl
  | succ n ih =>
    have hwc : s.rc_wc_array[next]? = some wc := hbatch next (Nat.le_refl _) (by omega)
    have hbusy : ¬ idle { s with next } := Nat.not_le_of_lt (List.getElem?_eq_some_iff.mp hwc).1
    have hdata : handle_lr_completion s.data s.rc_wc_array next = s.data := by
      rw [handle_lr_completion_eq s.data hwc (by omega), handle_lr_work_completion]
      exact if_neg hother
    have hnote : note_part i { s with next } = s.update := by simp [note_part, hwc, hnot]
    have hstep : leader_step i { s with next } .handle_next = { s with next := next + 1 } := by
      rw [leader_step, if_neg hbusy, handle_next, hdata, hnote]
    have hnext : next + 1 + n = next + (n + 1) := by omega
    rw [List.replicate_succ, run.steps_cons, hstep,
      ih (fun k hlow hhigh => hbatch k (by omega) (by omega)) (by omega), hnext]

/-- All but the first and the last completion of the long poll change nothing. -/
theorem long_poll_steps : ∃ s, run.steps (leader_step 1) (leader_of 50) (long_poll.take 3) = s ∧
    run.steps (leader_step 1) (leader_of 50) long_poll = leader_step 1 { s with next := 256 } .handle_next := by
  refine ⟨_, rfl, ?_⟩
  have hsplit : long_poll = long_poll.take 3 ++ (List.replicate 255 .handle_next ++ [.handle_next]) := by
    rw [long_poll, ← List.replicate_succ']
    rfl
  have hnext : (run.steps (leader_step 1) (leader_of 50) (long_poll.take 3)).next = 1 := by decide +kernel
  have harray : (run.steps (leader_step 1) (leader_of 50) (long_poll.take 3)).rc_wc_array =
      lr_completion 1 1 .IBV_WC_RETRY_EXC_ERR :: List.replicate 256 (lr_completion 1 2 .IBV_WC_SUCCESS) := by
    decide +kernel
  have hother : lr_wr_id (lr_completion 1 2 .IBV_WC_SUCCESS).wr_id ≠
      ((run.steps (leader_step 1) (leader_of 50) (long_poll.take 3)).data.servers
        (lr_completion 1 2 .IBV_WC_SUCCESS).wr_id.conn).next_wr_id := by
    decide +kernel
  have hnot : completes 1 (run.steps (leader_step 1) (leader_of 50) (long_poll.take 3)).data
      (lr_completion 1 2 .IBV_WC_SUCCESS) = false := by
    decide +kernel
  conv_lhs => rw [hsplit, run.steps_append, run.steps_concat]
  generalize run.steps (leader_step 1) (leader_of 50) (long_poll.take 3) = s at hnext harray hother hnot
  have hpassed : run.steps (leader_step 1) { s with next := 1 } (List.replicate 255 .handle_next) =
      { s with next := 256 } := by
    refine handle_others (fun k hlow hhigh => ?_) (Nat.le_refl 256) hother hnot
    obtain ⟨k, rfl⟩ : ∃ j, k = j + 1 := ⟨k - 1, by omega⟩
    rw [harray, List.getElem?_cons_succ]
    exact List.getElem?_replicate_of_lt (by omega)
  obtain ⟨data, rc_wc_array, next, update⟩ := s
  obtain rfl : next = 1 := hnext
  rw [hpassed]

theorem failed_update_done :
    run.AllOk (leader_step 1) (PartsArrive 1) (leader_of 50) long_poll ∧
      ¬ run.Always (leader_step 1) (fun s => s.update.current = true → UpdateSound 1 s) (leader_of 50) long_poll := by
  have hlast :
      let s := run.steps (leader_step 1) (leader_of 50) long_poll
      s.update.current = true ∧ (s.data.servers 1).next_lr_step = .LR_UPDATE_END ∧ s.update.failed = true := by
    obtain ⟨s, rfl, hsteps⟩ := long_poll_steps
    rw [hsteps]
    decide +kernel
  obtain ⟨hcurrent, hdone, hfailed⟩ := hlast
  refine ⟨⟨trivial, fun _ => by decide +kernel, handle_all_arrive 1 257 _⟩, fun halways => ?_⟩
  rw [((halways.last hcurrent).done hdone).2.2] at hfailed
  cases hfailed

end dare.rc
