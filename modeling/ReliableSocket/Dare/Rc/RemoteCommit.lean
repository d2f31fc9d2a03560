import ReliableSocket.Dare.Rc.Commit

open memory ring
open dare.log dare.server

namespace dare.rc

/-- The system together with the last commit offset that the leader has written to the log of each
    server in its term. -/
structure Traced where
  state : State
  told : Nat → Option Nat

/-- The commit offset among the requests that are posted. -/
def written_commit (wrs : List work_request) : Option Nat :=
  wrs.findSome? fun wr =>
    match wr.operation with
    | .write_commit offset => some offset
    | _ => none

/-- The commit offset that a step writes to the log of server `i`. -/
def tells (s : State) (i : Nat) : Option Nat :=
  if i < get_extended_group_size s.leader.cid then written_commit (update_remote_commit s.leader i).2
  else none

def traced_step (t : Traced) (a : Action) : Traced where
  state := step t.state a
  told :=
    match a with
    | .update_remote_commit i => Function.update t.told i ((tells t.state i).or (t.told i))
    | _ => t.told

/-- A commit offset that is written is at or before the leader's own one and the confirmed end offset of
    the server, and not before the one that was written last. -/
def NotTooFar (t : Traced) : Action → Prop
  | .update_remote_commit i =>
    ∀ offset, tells t.state i = some offset →
      AtOrBefore t.state.leader.log offset t.state.leader.log.commit ∧
      AtOrBefore t.state.leader.log offset (t.state.leader.log_offsets i).end_ ∧
      ∀ earlier, t.told i = some earlier → AtOrBefore t.state.leader.log earlier offset
  | _ => True

/-- The log of server `i` is adjusted. -/
def Adjusted (s : State) (i : Nat) : Prop :=
  (s.leader.servers i).next_lr_step = .LR_UPDATE_LOG ∨ (s.leader.servers i).next_lr_step = .LR_UPDATE_END

/-- What was last written to a server as commit offset is neither beyond the end of the server nor beyond
    the leader's commit offset. -/
def ToldUpTo (s : State) (i offset : Nat) : Prop :=
  Adjusted s i ∧ AtOrBefore s.leader.log offset (s.leader.log_offsets i).end_ ∧
    AtOrBefore s.leader.log offset s.leader.log.commit

theorem tells_eq {s : State} {i offset : Nat} (htells : tells s i = some offset) :
    Peer s i ∧ (s.leader.servers i).next_lr_step = .LR_UPDATE_LOG ∧
      offset = (if log_is_offset_larger s.leader.log s.leader.log.commit (s.leader.log_offsets i).end_ then
        (s.leader.log_offsets i).end_ else s.leader.log.commit) := by
  unfold tells update_remote_commit at htells
  split at htells
  · rename_i hsize
    split at htells
    · rename_i hupdates
      simp only [updates_commit, Bool.and_eq_true, decide_eq_true_eq] at hupdates
      simp only [written_commit, List.findSome?_cons, Option.some.injEq] at htells
      exact ⟨⟨hupdates.1.1.1.1.1.1, hsize⟩, hupdates.1.1.2, htells.symm⟩
    · cases htells
  · cases htells

section told

variable {c count : Nat → Nat} {ys : Nat → List dare_log_entry_t} {blank bound commit i : Nat}
  {live : List dare_log_entry_t} {s : State}

theorem adjusted_completed {server : server_t} (success : Bool)
    (hadjusted : server.next_lr_step = .LR_UPDATE_LOG ∨ server.next_lr_step = .LR_UPDATE_END) :
    (if success then lr_success server else lr_failure server).next_lr_step = .LR_UPDATE_LOG ∨
      (if success then lr_success server else lr_failure server).next_lr_step = .LR_UPDATE_END := by
  cases success with
  | false => simpa [lr_failure_step] using hadjusted
  | true =>
    obtain hat | hat := hadjusted
    · simp only [lr_success, hat, if_true]
      split <;> simp [hat]
    · simp [lr_success, hat]

/-- The log of server `i` is adjusted after a step as well, and the end offset of the server has not moved
    backwards. -/
def EndForward (i : Nat) (s s' : State) : Prop :=
  Adjusted s' i ∧ AtOrBefore s.leader.log (s.leader.log_offsets i).end_ (s'.leader.log_offsets i).end_

theorem Adjusted.same {s' : State} (hadjusted : Adjusted s i)
    (hstep : (s'.leader.servers i).next_lr_step = (s.leader.servers i).next_lr_step)
    (hend : (s'.leader.log_offsets i).end_ = (s.leader.log_offsets i).end_) : EndForward i s s' := by
  unfold EndForward Adjusted AtOrBefore
  rw [hstep, hend]
  exact ⟨hadjusted, Nat.le_refl _⟩

theorem Adjusted.post {j : Nat} {result : dare_server_data_t × List work_request} (hadjusted : Adjusted s i)
    (honly : Only j s.leader result.1) (hself : j = i → EndForward i s (rc.post s j result)) :
    EndForward i s (if j < get_extended_group_size s.leader.cid then rc.post s j result else s) := by
  split
  · by_cases hji : j = i
    · exact hself hji
    · exact hadjusted.same (congrArg _ (honly.servers i (Ne.symm hji)))
        (congrArg _ (honly.log_offsets i (Ne.symm hji)))
  · exact hadjusted.same rfl rfl

theorem Adjusted.complete (hadjusted : Adjusted s i) (hcounted : Counted c count ys blank live s) (hi : Peer s i)
    (j : Nat) (success : Bool) (bytes : Nat) : EndForward i s (rc.complete s j success bytes) := by
  by_cases hij : i = j
  · subst hij
    obtain heq | ⟨wr, rest, hdequeues⟩ := (hcounted.tracks i hi).dequeues hcounted.safe success bytes
    · exact hadjusted.same (by rw [heq]) (by rw [heq])
    · refine ⟨?_, by rw [hdequeues.log_offsets]; exact Nat.le_refl _⟩
      unfold Adjusted
      obtain ⟨-, hserver, -⟩ | ⟨-, hserver⟩ := hdequeues.server
      · rw [hserver]
        exact hadjusted
      · rw [hserver]
        exact adjusted_completed success hadjusted
  · obtain ⟨-, -, hserver, hoffsets⟩ := (complete_kept hcounted.safe j success bytes).2.2 i hij
    exact hadjusted.same (congrArg _ hserver) (congrArg _ hoffsets)

theorem Committed.end_forward (hcommitted : Committed count bound commit live s)
    (hcounted : Counted c count ys blank live s) (hi : Peer s i) (hadjusted : Adjusted s i) (a : Action) :
    EndForward i s (rc.step s a) := by
  cases a with
  | log_adjustment j =>
    refine hadjusted.post (log_adjustment_only s.leader j) fun hji => ?_
    subst hji
    obtain ⟨hnone, -⟩ | ⟨-, -, hcases⟩ := log_adjustment_cases s.leader j
    · rw [hnone]
      exact hadjusted.same rfl rfl
    · unfold Adjusted at hadjusted
      obtain ⟨hat, -⟩ | ⟨hat, -⟩ | ⟨hat, -⟩ | ⟨hat, -⟩ | ⟨hat, -⟩ := hcases
      all_goals simp [hat] at hadjusted
  | update_remote_log j =>
    have hcount := hcommitted.servers i hi
    refine hadjusted.post (update_remote_log_only s.leader j) fun hji => ?_
    subst hji
    obtain ⟨hnone, -⟩ | ⟨-, ⟨hat, -, hposts⟩ | ⟨hat, hposts⟩⟩ := update_remote_log_cases s.leader j
    · rw [hnone]
      exact hadjusted.same rfl rfl
    · refine hadjusted.same ?_ ?_
      · rw [post_leader, hposts.servers]
      · rw [post_leader, hposts.log_offsets]
    · unfold EndForward Adjusted
      rw [post_leader, hposts.servers, hposts.log_offsets]
      exact ⟨.inr hat, (hcount.update_end hat).2.1⟩
  | update_remote_commit j =>
    refine hadjusted.post (update_remote_commit_only s.leader j) fun hji => ?_
    subst hji
    obtain hnone | ⟨-, -, hservers, hend, -⟩ := update_remote_commit_cases s.leader j
    · rw [hnone]
      exact hadjusted.same rfl rfl
    · exact hadjusted.same (by rw [post_leader, hservers]) hend
  | complete j success bytes => exact hadjusted.complete hcounted hi j success bytes
  | fail_count j n =>
    refine hadjusted.same ?_ rfl
    by_cases hij : i = j
    · subst hij
      simp [rc.step]
    · simp [rc.step, dare_server_data_t.set_server, Function.update_of_ne hij]
  | update_commit =>
    refine hadjusted.same ?_ ?_
    all_goals
      simp only [rc.step, rc.update_commit]
      split <;> rfl
  | append | vote_ack | remote => exact hadjusted.same rfl rfl

/-- The offset that is written is the smaller one of two. -/
theorem Committed.told (hcommitted : Committed count bound commit live s)
    (hcounted : Counted c count ys blank live s) {offset : Nat} (htells : tells s i = some offset) :
    ToldUpTo s i offset ∧ ∀ earlier, ToldUpTo s i earlier → AtOrBefore s.leader.log earlier offset := by
  obtain ⟨hpeer, hstep, hoffset⟩ := tells_eq htells
  obtain ⟨k, hat, -⟩ := ((hcommitted.servers i hpeer).update_log hstep).1
  have hcommit := hcommitted.at_commit
  split at hoffset
  · rename_i hlarger
    subst hoffset
    exact ⟨⟨.inl hstep, Nat.le_refl _, hat.before_of_larger hcounted.path hcommit hlarger⟩,
      fun _ hearlier => hearlier.2.1⟩
  · rename_i hlarger
    subst hoffset
    refine ⟨⟨.inl hstep, ?_, Nat.le_refl _⟩, fun _ hearlier => hearlier.2.2⟩
    rw [hcommit.before_iff hcounted.path hat]
    simpa using hlarger

/-- What a run keeps: the invariant of the leader, and all that was last written is bounded. -/
structure Following (c count : Nat → Nat) (ys : Nat → List dare_log_entry_t) (blank commit : Nat)
    (live : List dare_log_entry_t) (t : Traced) : Prop where
  counted : Counted c count ys blank live t.state
  committed : Committed count 0 commit live t.state
  told : ∀ i, Peer t.state i → ∀ offset, t.told i = some offset → ToldUpTo t.state i offset

variable {t : Traced} {a : Action}

/-- What was last written after a step is bounded already before it. -/
theorem Following.told_before (hfollowing : Following c count ys blank commit live t) (hi : Peer t.state i)
    {offset : Nat} (htold : (traced_step t a).told i = some offset) : ToldUpTo t.state i offset := by
  cases a with
  | update_remote_commit j =>
    simp only [traced_step] at htold
    by_cases hij : i = j
    · subst hij
      rw [Function.update_self] at htold
      cases htells : tells t.state i with
      | none =>
        rw [htells, Option.none_or] at htold
        exact hfollowing.told i hi offset htold
      | some written =>
        rw [htells, Option.some_or] at htold
        obtain rfl := Option.some.inj htold
        exact (hfollowing.committed.told hfollowing.counted htells).1
    · rw [Function.update_of_ne hij] at htold
      exact hfollowing.told i hi offset htold
  | _ => exact hfollowing.told i hi offset htold

theorem Following.step (hfollowing : Following c count ys blank commit live t) (hok : ReplicatesAll c t.state a) :
    ∃ commit' live', Following c count ys blank commit' live' (traced_step t a) := by
  have hcounted := hfollowing.counted
  obtain ⟨commit', rest, hcounted', hcommitted', hforward⟩ := hfollowing.committed.step hcounted (Nat.zero_le _) hok
    fun i _ hi hat => by
      obtain ⟨n, -, hfound⟩ := hcounted.found hi hat
      exact ⟨_, hfound, .inr (Nat.zero_le _)⟩
  obtain ⟨_, -, hlen, hhead, -⟩ := hcounted.step hok
  have hlog : Continues t.state.leader.log live (rc.step t.state a).leader.log live := ⟨hlen, hhead, List.prefix_rfl⟩
  refine ⟨commit', live ++ rest, hcounted', hcommitted', fun i hi offset htold => ?_⟩
  have hpeer : Peer t.state i := peer_step.mp hi
  obtain ⟨hadjusted, hend, hcommit⟩ := hfollowing.told_before hpeer htold
  obtain ⟨hadjusted', hend'⟩ := hfollowing.committed.end_forward hcounted hpeer hadjusted a
  exact ⟨hadjusted', hlog.before (Nat.le_trans hend hend'), hlog.before (Nat.le_trans hcommit hforward)⟩

theorem Following.notTooFar (hfollowing : Following c count ys blank commit live t) (a : Action) : NotTooFar t a := by
  cases a with
  | update_remote_commit i =>
    intro offset htells
    obtain ⟨⟨-, hend, hcommit⟩, hforward⟩ := hfollowing.committed.told hfollowing.counted htells
    refine ⟨hcommit, hend, fun earlier hearlier => hforward earlier ?_⟩
    exact hfollowing.told i (tells_eq htells).1 earlier hearlier
  | _ => exact trivial

end told

/-- In every run of a new leader's term in which no entry ends exactly at the end of the buffer, no follower is
    told to commit too much, and none is told less than before. -/
theorem followers_commit_not_too_far {c count : Nat → Nat} {F : Nat → dare_log_t}
    {ys : Nat → List dare_log_entry_t} {old : List dare_log_entry_t} {blank : dare_log_entry_t} {s : State}
    (helected : Elected c count F ys old blank s) (actions : List Action)
    (hok : run.AllOk traced_step (fun t a => ReplicatesAll c t.state a) ⟨s, fun _ => none⟩ actions) :
    run.AllOk traced_step NotTooFar ⟨s, fun _ => none⟩ actions := by
  obtain ⟨hcounted, hcommitted⟩ := helected.counted
  obtain ⟨commit, hcommitted⟩ := hcommitted 0
  refine hok.imp (I := fun t => ∃ commit live, Following c count ys (old.length + 1) commit live t) ?_ ?_
    ⟨commit, _, hcounted, hcommitted, fun i _ offset htold => nomatch htold⟩
  · rintro t a ⟨commit, live, hfollowing⟩ hok
    exact hfollowing.step hok
  · rintro t a ⟨commit, live, hfollowing⟩ -
    exact hfollowing.notTooFar a

instance (log : dare_log_t) (offset offset' : Nat) : Decidable (AtOrBefore log offset offset') :=
  Nat.decLe _ _

instance (s : State) (i : Nat) : Decidable (Peer s i) := inferInstanceAs (Decidable (_ ∧ _))

instance (c : Nat → Nat) (s : State) : (a : Action) → Decidable (ReplicatesAll c s a)
  | .append _ _ _ => inferInstanceAs (Decidable (_ < _ ∧ ¬_ = _))
  | .vote_ack _ _ => inferInstanceAs (Decidable (_ → _))
  | .remote _ _ => inferInstanceAs (Decidable (¬_))
  | .log_adjustment _ | .update_remote_log _ | .update_commit | .update_remote_commit _ | .complete _ _ _
  | .fail_count _ _ => isTrue trivial

/-- A log near the end of the buffer that has been pruned up to its last entry, which is committed. -/
def late_log : dare_log_t :=
  { (log_append_entry { log_new with end_ := 67108624, tail := 67108576 } 1 0 0 .noop).1 with
    head := 67108624
    apply := 67108672
    commit := 67108672 }

/-- The same with an entry of term 1 that is not committed. -/
def longer_log : dare_log_t := (log_append_entry late_log 1 0 0 .noop).1

/-- The log of server `i`. -/
def late_server (i : Nat) : dare_log_t := if i = 1 then longer_log else late_log

/-- What is not committed in it. -/
def late_entries (i : Nat) : List dare_log_entry_t := if i = 1 then [⟨2, 1, 0, 0, .noop⟩] else []

/-- The leader of term 2 of three servers has an entry of term 1 that is not committed, and its blank
    entry. Server 1 has the entry of term 1, too, and its vote ACK has not yet come; server 2 has
    voted. -/
def late_start : State where
  leader :=
    { fresh_leader 3 2 (log_append_entry longer_log 2 0 0 .noop).1 fun i => if i = 2 then 67108672 else LOG_SIZE with
      servers := fun i => { fresh_server with next_lr_step := if i = 2 then .LR_GET_NCE_LEN else .LR_GET_WRITE }
      log_offsets := fun i => if i = 2 then ⟨67108672, 0⟩ else ⟨0, 0⟩ }
  remote := fun i => (log_entries_to_nc_buf (late_server i) i).getD (late_server i)
  posted := fun _ => []

/-- What the leader has. -/
def late_live : List dare_log_entry_t := [⟨1, 1, 0, 0, .noop⟩, ⟨2, 1, 0, 0, .noop⟩]

theorem late_readable : Readable late_start.leader.log (late_live ++ [⟨3, 2, 0, 0, .noop⟩]) :=
  ⟨by decide +kernel, .inr (by decide +kernel)⟩

theorem late_published (i : Nat) (hsome : (log_entries_to_nc_buf (late_server i) i).isSome = true) :
    log_entries_to_nc_buf (late_server i) i = some (late_start.remote i) := by
  obtain ⟨log, hlog⟩ := Option.isSome_iff_exists.mp hsome
  simp only [late_start, hlog, Option.getD_some]

theorem late_starts {i : Nat} (hi : i = 1 ∨ i = 2) :
    Starts i 67108672 1 (late_server i) (late_entries i) (late_live ++ [⟨3, 2, 0, 0, .noop⟩]) late_start := by
  refine ⟨by decide, ?_, late_readable, by decide +kernel, ?_, ?_, fun _ => rfl, ?_, ?_, .inr ?_,
    late_published i ?_, ?_⟩
  all_goals obtain rfl | rfl := hi
  · decide
  · decide
  · exact .inr rfl
  · exact .inl rfl
  · exact .inl rfl
  · exact .inr ⟨rfl, rfl⟩
  · decide +kernel
  · decide +kernel
  · decide +kernel
  · decide +kernel
  · decide +kernel
  · decide +kernel
  · decide +kernel
  · decide +kernel
  · exact (logMatching_nil _).cons
  · exact logMatching_nil _

theorem late_elected : Elected (fun _ => 67108672) (fun _ => 1) late_server late_entries late_live
    ⟨3, 2, 0, 0, .noop⟩ late_start := by
  have hpeer : ∀ i, Peer late_start i → i = 1 ∨ i = 2 := by
    rintro i ⟨hother, hsize⟩
    have hidx : late_start.leader.idx = 0 := rfl
    have hgroup : get_extended_group_size late_start.leader.cid = 3 := rfl
    omega
  refine ⟨by decide, late_readable, fun _ => rfl, ⟨1, by decide +kernel⟩, rfl, fun i hi => late_starts (hpeer i hi),
    fun i hi => ?_, fun _ _ => by decide, fun i hi => ?_⟩
  all_goals obtain rfl | rfl := hpeer i hi
  all_goals decide

/-- All entries are written to the log of server 2 and committed, and then the log of server 1 is
    adjusted. -/
def late_actions : List Action :=
  [.log_adjustment 2, .complete 2 true 0, .log_adjustment 2, .update_remote_log 2, .complete 2 true 0,
    .update_remote_log 2, .complete 2 true 0, .update_commit, .update_remote_commit 1,
    .update_remote_commit 2, .complete 2 true 0, .vote_ack 1 67108672, .log_adjustment 1,
    .complete 1 true 0, .log_adjustment 1, .complete 1 true 0, .log_adjustment 1, .complete 1 true 0]

theorem late_server_told_its_end :
    let actions := late_actions ++ [.append 0 0 .noop, .update_remote_commit 1]
    run.AllOk traced_step NotTooFar ⟨late_start, fun _ => none⟩ actions ∧
      (run.steps traced_step ⟨late_start, fun _ => none⟩ actions).told 1 = some 67108720 :=
  ⟨followers_commit_not_too_far late_elected _ (by decide +kernel), by decide +kernel⟩

/-- After another append the last entry ends at the end of the buffer. Server 1, whose end offset is
    67108720, is then told to commit up to 67108768. -/
theorem late_server_told_too_much :
    Elected (fun _ => 67108672) (fun _ => 1) late_server late_entries late_live ⟨3, 2, 0, 0, .noop⟩ late_start ∧
    run.AllOk traced_step (fun t a => ReplicatesAll (fun _ => 67108672) t.state a) ⟨late_start, fun _ => none⟩
      (late_actions ++ [.append 0 0 .noop]) ∧
    let s := (run.steps traced_step ⟨late_start, fun _ => none⟩
      (late_actions ++ [.append 0 0 .noop, .append 0 0 .noop])).state
    s.leader.log.end_ = s.leader.log.len ∧ tells s 1 = some 67108768 ∧
      (s.leader.log_offsets 1).end_ = 67108720 ∧ ¬ AtOrBefore s.leader.log 67108768 67108720 :=
  ⟨late_elected, by decide +kernel⟩

end dare.rc
