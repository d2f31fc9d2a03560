import ReliableSocket.Dare.Group.Transfer

open memory ring
open dare.log dare.server dare.rc

namespace dare.group

/-- What a run keeps: the leader has the entries `live` and has committed `commit` of them. -/
structure Agrees (a c count : Nat → Nat) (ys : Nat → List dare_log_entry_t) (blank : Nat)
    (calls : Nat → List apply_call) (live : List dare_log_entry_t) (commit : Nat) (g : Group) : Prop where
  counted : Counted c count ys blank live g.rc
  committed : Ends g.rc.leader.log live commit g.rc.leader.log.commit
  acks : ∀ i, Peer g.rc i → Ends g.rc.leader.log live (count i) (c i)
  parts : ∀ i, Peer g.rc i → PartsInside g.rc.leader.log.len (c i) (live.drop (count i)) (ys i)
  own : ∃ m, Own (a g.rc.leader.idx) commit live (calls g.rc.leader.idx) g m
  followers : ∀ i, Peer g.rc i → Followed a c count ys calls live commit g i

section steps

variable {a c count : Nat → Nat} {ys : Nat → List dare_log_entry_t} {blank commit commit' j : Nat}
  {calls : Nat → List apply_call} {live rest : List dare_log_entry_t} {g g' : Group}

/-- A step that at most server `j` takes part in. -/
theorem Agrees.next (hagrees : Agrees a c count ys blank calls live commit g)
    (hcounted : Counted c count ys blank (live ++ rest) g'.rc)
    (hlen : g'.rc.leader.log.len = g.rc.leader.log.len) (hhead : g'.rc.leader.log.head = g.rc.leader.log.head)
    (hidx : g'.rc.leader.idx = g.rc.leader.idx) (hcid : g'.rc.leader.cid = g.rc.leader.cid)
    (hsid : g'.rc.leader.sid = g.rc.leader.sid) (happly : g'.rc.leader.log.apply = g.rc.leader.log.apply)
    (hservers : g'.servers = g.servers) (hcommit : commit ≤ commit')
    (hends : Ends g'.rc.leader.log (live ++ rest) commit' g'.rc.leader.log.commit)
    (hother : ∀ i, i ≠ j → g'.rc.remote i = g.rc.remote i ∧ g'.rc.posted i = g.rc.posted i ∧
      (g'.rc.leader.servers i).next_lr_step = (g.rc.leader.servers i).next_lr_step ∧
      (g'.rc.leader.servers i).cached_end_offset = (g.rc.leader.servers i).cached_end_offset ∧
      g'.rc.leader.log_offsets i = g.rc.leader.log_offsets i)
    (hself : Peer g.rc j → Followed a c count ys calls (live ++ rest) commit' g' j) :
    Agrees a c count ys blank calls (live ++ rest) commit' g' := by
  have hpeer : ∀ i, Peer g'.rc i → Peer g.rc i := fun i hi => by rwa [Peer, hidx, hcid] at hi
  refine ⟨hcounted, hends, fun i hi => (hagrees.acks i (hpeer i hi)).mono hlen hhead rest, fun i hi => ?_, ?_,
    fun i hi => ?_⟩
  · have hi := hpeer i hi
    rw [hlen, List.drop_append_of_le_length (hagrees.acks i hi).1]
    exact (hagrees.parts i hi).append (hagrees.counted.parts hi (common_entries_take _ _)) rest
  · obtain ⟨m, hown⟩ := hagrees.own
    rw [hidx]
    exact ⟨m, hown.next hlen hhead hservers hidx hsid happly hcommit⟩
  by_cases hij : i = j
  · subst hij
    exact hself (hpeer i hi)
  · obtain ⟨xs, m, k, t, n, hf⟩ := hagrees.followers i (hpeer i hi)
    obtain ⟨hremote, hposted, hstep, hcached, hoffsets⟩ := hother i hij
    refine ⟨xs, m, k, t, n, hf.frame hlen hhead (by rw [hservers]) hremote hcommit
      (fun wr hwr _ _ => hposted ▸ hwr) ?_⟩
    refine hf.marked.mono hcommit (fun _ _ h => h.mono hlen hhead rest) (fun hbusy => ?_) hstep hcached
      (by rw [hoffsets])
    rwa [pending, hposted] at hbusy

theorem Agrees.post {result : dare_server_data_t × List work_request}
    (hagrees : Agrees a c count ys blank calls live commit g)
    (hcounted : Counted c count ys blank (live ++ rest) (rc.post g.rc j result)) (honly : Only j g.rc.leader result.1)
    (hcommit : commit ≤ commit') (hends : Ends g.rc.leader.log live commit' result.1.log.commit)
    (hself : Peer g.rc j →
      Followed a c count ys calls (live ++ rest) commit' { g with rc := rc.post g.rc j result } j) :
    Agrees a c count ys blank calls (live ++ rest) commit' { g with rc := rc.post g.rc j result } := by
  obtain ⟨o, hlog⟩ := honly.log
  refine hagrees.next hcounted (by rw [post_leader, hlog]) (by rw [post_leader, hlog]) honly.idx honly.cid honly.sid
    (by rw [post_leader, hlog]) rfl hcommit (hends.mono (by rw [post_leader, hlog]) (by rw [post_leader, hlog]) rest)
    (fun i hij => ⟨rfl, post_posted_ne _ _ _ hij, ?_⟩) hself
  rw [post_leader, honly.servers i hij, honly.log_offsets i hij]
  exact ⟨rfl, rfl, rfl⟩

variable {xs : List dare_log_entry_t} {m k t n : Nat}

theorem Follower.post_nothing
    (hf : Follower j (a j) (c j) (count j) commit (ys j) live (calls j) g xs m k t n) (rest : List dare_log_entry_t) :
    Follower j (a j) (c j) (count j) commit (ys j) (live ++ rest) (calls j)
      { g with rc := rc.post g.rc j (g.rc.leader, []) } xs m k t n := by
  have hposted : (rc.post g.rc j (g.rc.leader, [])).posted j = g.rc.posted j := by
    rw [post_posted_self, List.append_nil]
  refine hf.frame rfl rfl rfl rfl (Nat.le_refl _) (fun wr hwr _ _ => hposted ▸ hwr) ?_
  refine hf.marked.mono (Nat.le_refl _) (fun _ _ h => h.mono rfl rfl rest) (fun hbusy => ?_) rfl rfl rfl
  rwa [pending, hposted] at hbusy

/-- The leader posts requests that do not tell the server to commit. -/
theorem Follower.posts {result : dare_server_data_t × List work_request} {server : server_t} {offsets : log_offsets_t}
    {o : Nat} {operations : List log_operation}
    (hf : Follower j (a j) (c j) (count j) commit (ys j) live (calls j) g xs m k t n)
    (hposts : Posts j g.rc.leader result server offsets o operations) (hcommit : commit ≤ commit')
    (hops : ∀ operation ∈ operations, ∀ o, operation ≠ .write_commit o)
    (hmarked : Marked (c j) (count j) commit' t n g.rc.leader.log live (xs.length = n - a j) True server offsets)
    (rest : List dare_log_entry_t) :
    Follower j (a j) (c j) (count j) commit' (ys j) (live ++ rest) (calls j)
      { g with rc := rc.post g.rc j result } xs m k t n := by
  have hlen : (rc.post g.rc j result).leader.log.len = g.rc.leader.log.len := by rw [post_leader, hposts.log]
  have hhead : (rc.post g.rc j result).leader.log.head = g.rc.leader.log.head := by rw [post_leader, hposts.log]
  refine hf.frame hlen hhead rfl rfl hcommit (fun wr hwr o ho => ?_) ?_
  · rw [post_posted_self, hposts.posted] at hwr
    refine (List.mem_append.mp hwr).resolve_right fun hnew => ?_
    obtain ⟨operation, hmem, rfl⟩ := List.mem_map.mp hnew
    exact hops operation hmem o ho
  · refine hmarked.mono (Nat.le_refl _) (fun _ _ h => h.mono hlen hhead rest) (fun _ => trivial) ?_ ?_ ?_
    · rw [post_leader, hposts.servers]
    · rw [post_leader, hposts.servers]
    · rw [post_leader, hposts.log_offsets]

theorem Agrees.post_nothing (hagrees : Agrees a c count ys blank calls live commit g)
    (hcounted : Counted c count ys blank (live ++ rest) (rc.post g.rc j (g.rc.leader, []))) :
    Agrees a c count ys blank calls (live ++ rest) commit { g with rc := rc.post g.rc j (g.rc.leader, []) } := by
  refine hagrees.post hcounted (Only.refl _ _) (Nat.le_refl _) hagrees.committed fun hi => ?_
  obtain ⟨xs, m, k, t, n, hf⟩ := hagrees.followers j hi
  exact ⟨xs, m, k, t, n, hf.post_nothing rest⟩

theorem Agrees.posts {result : dare_server_data_t × List work_request} {server : server_t} {offsets : log_offsets_t}
    {o : Nat} {operations : List log_operation} (hagrees : Agrees a c count ys blank calls live commit g)
    (hcounted : Counted c count ys blank (live ++ rest) (rc.post g.rc j result))
    (hposts : Posts j g.rc.leader result server offsets o operations) (hcommit : commit ≤ commit')
    (hends : Ends g.rc.leader.log live commit' o) (hops : ∀ operation ∈ operations, ∀ o, operation ≠ .write_commit o)
    (hmarked : ∀ xs m k t n, Follower j (a j) (c j) (count j) commit (ys j) live (calls j) g xs m k t n →
      Marked (c j) (count j) commit' t n g.rc.leader.log live (xs.length = n - a j) True server offsets) :
    Agrees a c count ys blank calls (live ++ rest) commit' { g with rc := rc.post g.rc j result } := by
  refine hagrees.post hcounted hposts.only hcommit (by rw [hposts.log]; exact hends) fun hi => ?_
  obtain ⟨xs, m, k, t, n, hf⟩ := hagrees.followers j hi
  exact ⟨xs, m, k, t, n, hf.posts hposts hcommit hops (hmarked xs m k t n hf) rest⟩

theorem Agrees.raised (hagrees : Agrees a c count ys blank calls live commit g) (hj : Peer g.rc j)
    (hack : g.rc.leader.vote_ack j ≠ g.rc.leader.log.len) :
    ∃ commit', commit ≤ commit' ∧ count j ≤ commit' ∧
      Ends g.rc.leader.log live commit' (raised_commit g.rc.leader j) := by
  have hcounted := hagrees.counted
  rw [hcounted.len] at hack
  have hends := hagrees.acks j hj
  rw [← (hcounted.tracks j hj).vote_ack.resolve_right hack] at hends
  unfold raised_commit
  split
  · rename_i hlarger
    exact ⟨count j, hagrees.committed.at.le_of_larger hcounted.path hends.at hlarger, Nat.le_refl _, hends⟩
  · rename_i hlarger
    refine ⟨commit, Nat.le_refl _, ?_, hagrees.committed⟩
    by_contra hlt
    exact hlarger (hagrees.committed.at.larger hcounted.path hends.at (by omega))

/-- When log adjustment finds the beginning of the buffer, the log of the server is committed up to there: it is not
    the place of an entry that has found no room at the end of the buffer. -/
theorem Agrees.found_zero (hagrees : Agrees a c count ys blank calls live commit g) (hj : Peer g.rc j)
    (hat : (g.rc.leader.servers j).next_lr_step = .LR_SET_END)
    (hzero : log_find_remote_end_offset g.rc.leader.log j = 0) : c j = 0 := by
  have hcounted := hagrees.counted
  have htracks := hcounted.tracks j hj
  have hpath := hcounted.path_from hj
  obtain ⟨-, hne, hrecords⟩ := htracks.phase.of_set_end hat
  rw [find_end_of_records hpath hne hcounted.len htracks.matching hrecords
    ((hcounted.fresh hj).not_matched hpath)] at hzero
  split at hzero
  · exact advance_eq_zero hzero
  · rename_i hmore
    have hle := (common_entries_le (live.drop (count j)) (ys j)).2
    rw [met_offset, if_pos (hagrees.parts j hj (by omega))] at hzero
    exact advance_eq_zero hzero

theorem Agrees.log_adjustment (hagrees : Agrees a c count ys blank calls live commit g)
    (hcounted : Counted c count ys blank (live ++ rest) (rc.post g.rc j (rc.log_adjustment g.rc.leader j)))
    (hj : j < get_extended_group_size g.rc.leader.cid) :
    ∃ commit', Agrees a c count ys blank calls (live ++ rest) commit'
      { g with rc := rc.post g.rc j (rc.log_adjustment g.rc.leader j) } := by
  by_cases hself : j = g.rc.leader.idx
  · rw [hself, log_adjustment_self] at hcounted ⊢
    exact ⟨commit, hagrees.post_nothing hcounted⟩
  have hpeer : Peer g.rc j := ⟨hself, hj⟩
  have htracks := hagrees.counted.tracks j hpeer
  obtain ⟨hnone, -⟩ | ⟨hflag, hack, hcases⟩ := log_adjustment_cases g.rc.leader j
  · rw [hnone] at hcounted ⊢
    exact ⟨commit, hagrees.post_nothing hcounted⟩
  obtain ⟨hat, hposts⟩ | ⟨hat, hposts⟩ | ⟨hat, hzero, heq⟩ | ⟨hat, -, hposts⟩ | ⟨hat, hposts⟩ := hcases
  · obtain ⟨commit', hle, hle', hends⟩ := hagrees.raised hpeer hack
    refine ⟨commit', hagrees.posts hcounted hposts hle hends (by simp) fun xs m k t n hf => ?_⟩
    exact .early (.inr (.inl rfl)) (hf.marked.told (by simp [hat]) (by simp [hat])) fun _ => hle'
  · obtain ⟨commit', hle, hle', hends⟩ := hagrees.raised hpeer hack
    refine ⟨commit', hagrees.posts hcounted hposts hle hends (by simp) fun xs m k t n hf => ?_⟩
    exact .early (.inr (.inl hat)) (hf.marked.told (by simp [hat]) (by simp [hat])) fun _ => hle'
  · -- the server has published nothing: its log ends at its commit offset
    obtain ⟨-, hcommit, hlength⟩ := htracks.phase.of_get_nce hat
    have hys : ys j = [] := List.length_eq_zero_iff.mp (hlength.symm.trans hzero)
    have honly := log_adjustment_only g.rc.leader j
    obtain ⟨data, hdata⟩ : ∃ data, rc.log_adjustment g.rc.leader j = (data, []) := ⟨_, heq⟩
    have hlog : data.log = g.rc.leader.log := by
      rw [← show (rc.log_adjustment g.rc.leader j).1 = data by rw [hdata], heq]
      rfl
    have hstep : (data.servers j).next_lr_step = .LR_UPDATE_LOG := by
      rw [← show (rc.log_adjustment g.rc.leader j).1 = data by rw [hdata], heq, set_server_self]
    have hend : (data.log_offsets j).end_ = c j := by
      rw [← show (rc.log_adjustment g.rc.leader j).1 = data by rw [hdata], heq, set_server_log_offsets,
        set_log_offsets_self]
      exact hcommit
    rw [hdata] at hcounted honly ⊢
    have hposted : (rc.post g.rc j (data, [])).posted j = g.rc.posted j := by rw [post_posted_self, List.append_nil]
    refine ⟨commit, hagrees.post hcounted honly (Nat.le_refl _) (by rw [hlog]; exact hagrees.committed) fun _ => ?_⟩
    obtain ⟨xs, m, k, t, n, hf⟩ := hagrees.followers j hpeer
    obtain ⟨-, -, -, hck, hkt, htn, -⟩ := hf.order
    refine ⟨xs, m, k, t, n, hf.frame (by rw [post_leader, hlog]) (by rw [post_leader, hlog]) rfl rfl (Nat.le_refl _)
      (fun wr hwr _ _ => hposted ▸ hwr) (.update_log hstep (hf.whole hys)
        (hf.marked.count_le (by simp [hat]) (by simp [hat])) (Nat.le_refl (count j)) (by omega) ?_
        fun hbusy => absurd (htracks.idle hflag) ?_)⟩
    · rw [post_leader, hlog, hend]
      exact (hagrees.acks j hpeer).mono rfl rfl rest
    · rwa [pending, hposted] at hbusy
  · refine ⟨commit, hagrees.posts hcounted hposts (Nat.le_refl _) hagrees.committed (by simp) fun xs m k t n hf => ?_⟩
    exact .early (.inr (.inr hat)) (hf.marked.told (by simp [hat]) (by simp [hat])) fun _ =>
      hf.marked.count_le (by simp [hat]) (by simp [hat])
  · have hzero := hagrees.found_zero hpeer hat
    generalize log_find_remote_end_offset g.rc.leader.log j = found at hposts hzero
    refine ⟨commit, hagrees.posts hcounted hposts (Nat.le_refl _) hagrees.committed (by simp) fun xs m k t n hf => ?_⟩
    exact .set_end hat (hf.marked.told (by simp [hat]) (by simp [hat]))
      (hf.marked.count_le (by simp [hat]) (by simp [hat])) fun _ => hzero

theorem Agrees.update_remote_log (hagrees : Agrees a c count ys blank calls live commit g)
    (hcounted : Counted c count ys blank (live ++ rest) (rc.post g.rc j (rc.update_remote_log g.rc.leader j))) :
    Agrees a c count ys blank calls (live ++ rest) commit
      { g with rc := rc.post g.rc j (rc.update_remote_log g.rc.leader j) } := by
  obtain ⟨hnone, -⟩ | ⟨-, ⟨hat, -, hposts⟩ | ⟨hat, hposts⟩⟩ := update_remote_log_cases g.rc.leader j
  · rw [hnone] at hcounted ⊢
    exact hagrees.post_nothing hcounted
  · refine hagrees.posts hcounted hposts (Nat.le_refl _) hagrees.committed (fun operation hmem o => ?_)
      fun xs m k t n hf => ?_
    · obtain ⟨offset, len, rfl⟩ := log_parts_writes operation hmem
      nofun
    · have hend : Ends g.rc.leader.log live live.length g.rc.leader.log.end_ :=
        ⟨Nat.le_refl _, by rw [List.take_length, hagrees.counted.path.reaches]⟩
      obtain ⟨hall, ⟨e, hcount, hle, hends⟩, -⟩ := hf.marked.of_update_log hat
      exact .update_log hat hall (hf.marked.count_le (by simp [hat]) (by simp [hat])) hcount hle hends fun _ =>
        ⟨_, hf.order.2.2.2.2.2.2, hend⟩
  · refine hagrees.posts hcounted hposts (Nat.le_refl _) hagrees.committed (by simp) fun xs m k t n hf => ?_
    obtain ⟨hall, e, hle, hcached⟩ := hf.marked.of_update_end hat
    exact .update_end hat hall (hf.marked.count_le (by simp [hat]) (by simp [hat])) hle hcached

theorem Agrees.update_remote_commit (hagrees : Agrees a c count ys blank calls live commit g)
    (hcounted : Counted c count ys blank (live ++ rest) (rc.post g.rc j (rc.update_remote_commit g.rc.leader j))) :
    Agrees a c count ys blank calls (live ++ rest) commit
      { g with rc := rc.post g.rc j (rc.update_remote_commit g.rc.leader j) } := by
  have honly := update_remote_commit_only g.rc.leader j
  unfold rc.update_remote_commit at hcounted honly ⊢
  by_cases hupdates : updates_commit g.rc.leader j
  swap
  · rw [if_neg hupdates] at hcounted ⊢
    exact hagrees.post_nothing hcounted
  rw [if_pos hupdates] at hcounted honly ⊢
  simp only [updates_commit, Bool.and_eq_true, decide_eq_true_eq] at hupdates
  obtain ⟨⟨⟨-, hat⟩, -⟩, -⟩ := hupdates
  refine hagrees.post hcounted honly (Nat.le_refl _) hagrees.committed fun hi => ?_
  obtain ⟨xs, m, k, t, n, hf⟩ := hagrees.followers j hi
  obtain ⟨hall, ⟨e, hce, hen, hends⟩, hcached⟩ := hf.marked.of_update_log hat
  have hcc := hf.marked.count_le (by simp [hat]) (by simp [hat])
  have hpath := hagrees.counted.path
  obtain ⟨o, ho⟩ : ∃ o, o =
      if log_is_offset_larger g.rc.leader.log g.rc.leader.log.commit (g.rc.leader.log_offsets j).end_ then
        (g.rc.leader.log_offsets j).end_
      else g.rc.leader.log.commit := ⟨_, rfl⟩
  simp only [← ho]
  obtain ⟨k', hck', hk'n, hk'c, hends'⟩ :
      ∃ k', count j ≤ k' ∧ k' ≤ n ∧ k' ≤ commit ∧ Ends g.rc.leader.log live k' o := by
    rw [ho]
    split
    · rename_i hlarger
      exact ⟨e, hce, hen, hends.at.le_of_larger hpath hagrees.committed.at hlarger, hends⟩
    · rename_i hlarger
      refine ⟨commit, hcc, ?_, Nat.le_refl _, hagrees.committed⟩
      by_contra hlt
      exact hlarger (hends.at.larger hpath hagrees.committed.at (by omega))
  have hbound := hf.bound
  have horder := hf.order
  refine ⟨xs, m, k, max t k', n, hf.next rfl rfl rfl rfl hf.path hf.shared hf.whole hf.committed (by omega) (by omega)
    (fun wr hwr o' ho' => ?_) (.update_log hat hall hcc hce hen ?_ fun hbusy => ?_)⟩
  · rw [post_posted_self] at hwr
    refine (List.mem_append.mp hwr).imp_right fun hnew => ?_
    obtain rfl := List.mem_singleton.mp hnew
    cases ho'
    exact ⟨k', hck', by omega, hends'⟩
  · simp only [post_leader, set_log_offsets_self]
    exact hends.mono rfl rfl rest
  · obtain ⟨e', hle, hnext⟩ := hcached (by simpa [pending] using hbusy)
    exact ⟨e', hle, hnext.mono rfl rfl rest⟩

end steps

section runs

variable {a c count : Nat → Nat} {ys : Nat → List dare_log_entry_t} {blank commit : Nat}
  {calls : Nat → List apply_call} {live : List dare_log_entry_t} {g : Group} {x : Action}

theorem Agrees.update_commit (hagrees : Agrees a c count ys blank calls live commit g) :
    ∃ commit', commit ≤ commit' ∧ Ends g.rc.leader.log live commit' (rc.update_commit g.rc.leader).log.commit := by
  unfold rc.update_commit
  split
  swap
  · exact ⟨commit, Nat.le_refl _, hagrees.committed⟩
  rename_i hlarger
  obtain ⟨commit', hends⟩ : ∃ commit', Ends g.rc.leader.log live commit' (min_offset g.rc.leader) := by
    have hpath := hagrees.counted.path
    obtain heq | heq | ⟨i, hother, hi, hat, heq⟩ := @candidate_min_offset g.rc.leader
    · exact ⟨commit, heq ▸ hagrees.committed⟩
    · exact ⟨live.length, Nat.le_refl _, by rw [heq, List.take_length, hpath.reaches]⟩
    · obtain ⟨xs, m, k, t, n, hf⟩ := hagrees.followers i ⟨hother, hi⟩
      obtain ⟨-, ⟨e, -, -, hends⟩, -⟩ := hf.marked.of_update_log hat
      exact ⟨e, heq ▸ hends⟩
  exact ⟨commit', hagrees.committed.at.le_of_larger hagrees.counted.path hends.at hlarger, hends⟩

/-- What happens at the leader and in the network leaves the apply offset of the leader. -/
theorem step_apply (hagrees : Agrees a c count ys blank calls live commit g) (hok : ReplicatesAll c g.rc x) :
    (rc.step g.rc x).leader.log.apply = g.rc.leader.log.apply := by
  have hpost {j : Nat} {result : dare_server_data_t × List work_request} (honly : Only j g.rc.leader result.1)
      (p : Prop) [Decidable p] :
      (if p then rc.post g.rc j result else g.rc).leader.log.apply = g.rc.leader.log.apply := by
    obtain ⟨o, hlog⟩ := honly.log
    split
    · rw [post_leader, hlog]
    · rfl
  cases x with
  | append req_id clt_id data =>
    obtain ⟨-, happended, -⟩ := roomy_appended ⟨hagrees.counted.len, .inr hagrees.counted.path⟩ hok rfl
    exact happended.apply
  | log_adjustment j => exact hpost (log_adjustment_only _ j) _
  | update_remote_log j => exact hpost (update_remote_log_only _ j) _
  | update_commit =>
    simp only [rc.step, rc.update_commit]
    split <;> rfl
  | update_remote_commit j => exact hpost (update_remote_commit_only _ j) _
  | complete j success bytes => exact (complete_kept hagrees.counted.safe j success bytes).2.1
  | vote_ack j offset => rfl
  | fail_count j n => rfl
  | remote j log => rfl

/-- What happens at the leader and in the network keeps the invariant. -/
theorem Agrees.step (hagrees : Agrees a c count ys blank calls live commit g) (hok : ReplicatesAll c g.rc x) :
    ∃ rest commit', Agrees a c count ys blank calls (live ++ rest) commit' { g with rc := rc.step g.rc x } := by
  obtain ⟨rest, hcounted, hlen, hhead, -⟩ := hagrees.counted.step hok
  refine ⟨rest, ?_⟩
  -- steps that concern no other server but `j`
  have hnext {s : State} {j commit' : Nat} (hs : rc.step g.rc x = s) (hcommit : commit ≤ commit')
      (hends : Ends g.rc.leader.log live commit' s.leader.log.commit)
      (hother : ∀ i, i ≠ j → s.remote i = g.rc.remote i ∧ s.posted i = g.rc.posted i ∧
        (s.leader.servers i).next_lr_step = (g.rc.leader.servers i).next_lr_step ∧
        (s.leader.servers i).cached_end_offset = (g.rc.leader.servers i).cached_end_offset ∧
        s.leader.log_offsets i = g.rc.leader.log_offsets i)
      (hself : Peer g.rc j → Followed a c count ys calls (live ++ rest) commit' { g with rc := s } j) :
      ∃ commit', Agrees a c count ys blank calls (live ++ rest) commit' { g with rc := rc.step g.rc x } := by
    subst hs
    obtain ⟨hidx, hcid, hsid⟩ := step_kept g.rc x
    exact ⟨commit', hagrees.next hcounted hlen hhead hidx hcid hsid (step_apply hagrees hok) rfl hcommit
      (hends.mono hlen hhead rest) hother hself⟩
  have hnobody (hself : Peer g.rc g.rc.leader.idx) {p : Prop} : p := absurd rfl hself.1
  have hquiet (hs : rc.step g.rc x = g.rc) := hnext hs (Nat.le_refl _) hagrees.committed
    (fun _ _ => ⟨rfl, rfl, rfl, rfl, rfl⟩) fun hi => hnobody hi
  cases x with
  | append req_id clt_id data =>
    refine hnext rfl (Nat.le_refl _) ?_ (fun _ _ => ⟨rfl, rfl, rfl, rfl, rfl⟩) fun hi => hnobody hi
    obtain ⟨-, happended, -, -⟩ := roomy_appended ⟨hagrees.counted.len, .inr hagrees.counted.path⟩ hok rfl
    rw [show (rc.step g.rc (.append req_id clt_id data)).leader.log.commit = _ from happended.commit]
    exact hagrees.committed
  | log_adjustment j =>
    by_cases hj : j < get_extended_group_size g.rc.leader.cid
    · simp only [rc.step, if_pos hj] at hcounted ⊢
      exact hagrees.log_adjustment hcounted hj
    · exact hquiet (if_neg hj)
  | update_remote_log j =>
    by_cases hj : j < get_extended_group_size g.rc.leader.cid
    · simp only [rc.step, if_pos hj] at hcounted ⊢
      exact ⟨commit, hagrees.update_remote_log hcounted⟩
    · exact hquiet (if_neg hj)
  | update_commit =>
    obtain ⟨commit', hle, hends⟩ := hagrees.update_commit
    refine hnext rfl hle hends (fun i _ => ?_) fun hi => hnobody hi
    simp only [rc.step, rc.update_commit]
    split <;> simp
  | update_remote_commit j =>
    by_cases hj : j < get_extended_group_size g.rc.leader.cid
    · simp only [rc.step, if_pos hj] at hcounted ⊢
      exact ⟨commit, hagrees.update_remote_commit hcounted⟩
    · exact hquiet (if_neg hj)
  | complete j success bytes =>
    obtain ⟨hcommit, -, hother⟩ := complete_kept hagrees.counted.safe j success bytes
    refine hnext (j := j) rfl (Nat.le_refl _) ?_ (fun i hij => ?_) fun hi => ?_
    · rw [show (rc.step g.rc (.complete j success bytes)).leader.log.commit = _ from hcommit]
      exact hagrees.committed
    · obtain ⟨hremote, hposted, hserver, hoffsets⟩ := hother i hij
      exact ⟨hremote, hposted, congrArg _ hserver, congrArg _ hserver, hoffsets⟩
    · obtain ⟨xs, m, k, t, n, hf⟩ := hagrees.followers j hi
      exact hf.complete hagrees.counted hi (hagrees.acks j hi) rfl hlen hhead
  | vote_ack j offset =>
    exact hnext rfl (Nat.le_refl _) hagrees.committed (fun _ _ => ⟨rfl, rfl, rfl, rfl, rfl⟩) fun hi => hnobody hi
  | fail_count j n =>
    refine hnext rfl (Nat.le_refl _) hagrees.committed (fun i _ => ⟨rfl, rfl, ?_⟩) fun hi => hnobody hi
    by_cases hij : i = j
    · subst hij
      simp [rc.step]
    · simp [rc.step, dare_server_data_t.set_server, Function.update_of_ne hij]
  | remote j log =>
    refine hnext (j := j) rfl (Nat.le_refl _) hagrees.committed (fun i hij => ⟨?_, rfl, rfl, rfl, rfl⟩) fun hi => ?_
    · exact Function.update_of_ne hij _ _
    · exact absurd hi hok

theorem Agrees.poll {i : Nat} {s : apply_t} (hagrees : Agrees a c count ys blank calls live commit g)
    (hpeer : Peer g.rc i) (hpoll : apply_committed_entries (g.server i) = some s) :
    Agrees a c count ys blank calls live commit (g.polled i s) := by
  obtain ⟨xs, m, k, t, n, hf⟩ := hagrees.followers i hpeer
  obtain ⟨s', hpoll', hlog, hf'⟩ := hf.poll (hagrees.counted.tracks i hpeer).len
  obtain rfl : s' = s := Option.some.inj (hpoll'.symm.trans hpoll)
  obtain ⟨m', hown⟩ := hagrees.own
  have hleader : (g.polled i s').servers g.rc.leader.idx = g.servers g.rc.leader.idx :=
    Function.update_of_ne hpeer.1.symm _ _
  refine ⟨counted_polled hagrees.counted hlog, hagrees.committed, hagrees.acks, hagrees.parts,
    ⟨m', ?_, hown.role, ?_, hown.applied, hown.order⟩, fun j hj => ?_⟩
  · exact (congrArg apply_t.running hleader).trans hown.running
  · exact (congrArg apply_t.calls hleader).trans hown.calls
  by_cases hij : j = i
  · subst hij
    exact ⟨_, _, _, _, _, hf'⟩
  · obtain ⟨xs, m, k, t, n, hf⟩ := hagrees.followers j hj
    have hkept : Follower j (a j) (c j) (count j) commit (ys j) (live ++ []) (calls j) (g.polled i s') xs m k t n :=
      hf.frame rfl rfl (Function.update_of_ne hij _ _) (Function.update_of_ne hij _ _) (Nat.le_refl _)
        (fun _ hwr _ _ => hwr)
        (hf.marked.mono (Nat.le_refl _) (fun _ _ h => h.mono rfl rfl []) id rfl rfl rfl)
    rw [List.append_nil] at hkept
    exact ⟨xs, m, k, t, n, hkept⟩

theorem Agrees.apply {s : apply_t} (hagrees : Agrees a c count ys blank calls live commit g) (hstable : g.Stable)
    (hpoll : apply_committed_entries g.leader = some s) :
    Agrees a c count ys blank calls live commit (g.applied s) ∧
      s.data = g.rc.leader.set_log { g.rc.leader.log with apply := s.log.apply } := by
  obtain ⟨m, hown⟩ := hagrees.own
  obtain ⟨s', hpoll', hdata, hown'⟩ := hown.poll hagrees.counted.path hagrees.committed hstable
  obtain rfl : s' = s := Option.some.inj (hpoll'.symm.trans hpoll)
  have hrc : (g.applied s').rc =
      { g.rc with leader := g.rc.leader.set_log { g.rc.leader.log with apply := s'.log.apply } } := by
    rw [← hdata]
    rfl
  have hlog : (g.applied s').rc.leader.log = { g.rc.leader.log with apply := s'.log.apply } := by rw [hrc]; rfl
  have hends {k o : Nat} (h : Ends g.rc.leader.log live k o) : Ends (g.applied s').rc.leader.log live k o := by
    rw [hlog]
    exact h
  have hpeer {i : Nat} (hi : Peer (g.applied s').rc i) : Peer g.rc i := by rwa [hrc] at hi
  refine ⟨⟨?_, ?_, fun i hi => hends (hagrees.acks i (hpeer hi)), fun i hi => ?_, ⟨commit, ?_⟩, fun i hi => ?_⟩,
    hdata⟩
  · rw [hrc]
    exact counted_applied hagrees.counted _
  · rw [hlog]
    exact hagrees.committed
  · rw [hlog]
    exact hagrees.parts i (hpeer hi)
  · rw [show (g.applied s').rc.leader.idx = g.rc.leader.idx by rw [hrc]; rfl]
    exact hown'
  · obtain ⟨xs, m, k, t, n, hf⟩ := hagrees.followers i (hpeer hi)
    have hkept : Follower i (a i) (c i) (count i) commit (ys i) (live ++ []) (calls i) (g.applied s') xs m k t n := by
      refine hf.frame (by rw [hlog]) (by rw [hlog]) (Function.update_of_ne (hpeer hi).1 _ _) rfl (Nat.le_refl _)
        (fun _ hwr _ _ => hwr) (hf.marked.mono (Nat.le_refl _) (fun k o h => ?_) id (by rw [hrc]; rfl)
          (by rw [hrc]; rfl) (by rw [hrc]; rfl))
      rw [List.append_nil]
      exact hends h
    rw [List.append_nil] at hkept
    exact ⟨xs, m, k, t, n, hkept⟩

theorem group_run_steps {Ok : State → Action → Prop} {start : Group} {actions : List Action}
    (hrun : GroupRun Ok start g) (hok : run.AllOk rc.step Ok g.rc actions) :
    GroupRun Ok start { g with rc := run.steps rc.step g.rc actions } := by
  induction actions generalizing g with
  | nil => exact hrun
  | cons x actions ih => exact ih (.step x hrun hok.1) hok.2

/-- A new leader and the other servers. Server `i` has applied what the leader has before its entry number `a i`, and
    has committed what the leader has before its entry number `count i`. No log leaves that of the leader less than a
    header before the end of the buffer. -/
structure Follows (a c count : Nat → Nat) (F : Nat → dare_log_t) (ys : Nat → List dare_log_entry_t)
    (old : List dare_log_entry_t) (blank : dare_log_entry_t) (g : Group) : Prop where
  elected : Elected c count F ys old blank g.rc
  leader : (g.servers g.rc.leader.idx).running = true ∧ IS_LEADER g.rc.leader = true ∧
    Ends g.rc.leader.log (old ++ [blank]) (a g.rc.leader.idx) g.rc.leader.log.apply
  commit : ∃ k, a g.rc.leader.idx ≤ k ∧ Ends g.rc.leader.log (old ++ [blank]) k g.rc.leader.log.commit
  running : ∀ i, Peer g.rc i → (g.servers i).running = true
  role : ∀ i, Peer g.rc i → IS_LEADER (g.servers i).data = false
  order : ∀ i, Peer g.rc i → a i ≤ count i
  applied : ∀ i, Peer g.rc i → Ends g.rc.leader.log (old ++ [blank]) (a i) (g.rc.remote i).apply
  committed : ∀ i, Peer g.rc i →
    (g.rc.remote i).commit = c i ∧ Ends g.rc.leader.log (old ++ [blank]) (count i) (c i)
  entries : ∀ i, Peer g.rc i → (((old ++ [blank]).take (count i)).drop (a i) ++ ys i = [] ∨
    Path (g.rc.remote i) (g.rc.remote i).apply (((old ++ [blank]).take (count i)).drop (a i) ++ ys i))
  parts : ∀ i, Peer g.rc i → PartsInside g.rc.leader.log.len (c i) ((old ++ [blank]).drop (count i)) (ys i)

variable {F : Nat → dare_log_t} {old : List dare_log_entry_t} {first : dare_log_entry_t} {start : Group}

theorem Follows.agrees (hstart : Follows a c count F ys old first start) :
    ∃ commit,
      Agrees a c count ys (old.length + 1) (fun i => (start.servers i).calls) (old ++ [first]) commit start := by
  obtain ⟨commit, hle, hcommit⟩ := hstart.commit
  obtain ⟨hrunning, hrole, happlied⟩ := hstart.leader
  have hnone (k : Nat) : ((old ++ [first]).take k).drop k = [] := List.drop_eq_nil_of_le (List.length_take_le _ _)
  refine ⟨commit, hstart.elected.counted.1, hcommit, fun i hi => (hstart.committed i hi).2,
    hstart.parts, ⟨_, hrunning, hrole, by simp [hnone], happlied, Nat.le_refl _, hle⟩, fun i hi => ?_⟩
  obtain ⟨hoffset, hends⟩ := hstart.committed i hi
  have horder := hstart.order i hi
  have hlength : (((old ++ [first]).take (count i)).drop (a i)).length = count i - a i := by
    rw [List.length_drop, List.length_take, Nat.min_eq_left hends.1]
  have hposted := hstart.elected.posted i
  refine ⟨((old ++ [first]).take (count i)).drop (a i) ++ ys i, a i, count i, count i, count i, hstart.running i hi,
    hstart.role i hi, ?_, ?_, List.take_left' hlength, fun hys => ?_, hstart.applied i hi, hoffset ▸ hends,
    ⟨Nat.le_refl _, horder, horder, Nat.le_refl _, Nat.le_refl _, Nat.le_refl _, hends.1⟩, Nat.le_max_left _ _,
    fun wr hwr => ?_, ?_⟩
  · simp [hnone]
  · rw [← (hstart.applied i hi).2]
    exact hstart.entries i hi
  · rw [hys, List.append_nil, hlength]
  · rw [hposted] at hwr
    cases hwr
  · have hidle : ¬ pending start.rc i ≠ [] := by simp [pending, hposted]
    obtain hat | ⟨hat, -⟩ := (hstart.elected.starts i hi).step
    · exact .early (.inl hat) (Nat.le_refl _) fun h => by simp [hat] at h
    · exact .early (.inr (.inl hat)) (Nat.le_refl _) fun h => by simp [hat, hidle] at h

/-- The invariant holds in all runs. The leader stays the leader, and the configuration stays. -/
theorem agrees_of_run (hstart : Follows a c count F ys old first start)
    (hrun : GroupRun (ReplicatesAll c) start g) :
    (g.rc.leader.idx = start.rc.leader.idx ∧ g.rc.leader.cid = start.rc.leader.cid) ∧ ∃ rest commit,
      Agrees a c count ys (old.length + 1) (fun i => (start.servers i).calls) (old ++ [first] ++ rest) commit g := by
  induction hrun with
  | start =>
    obtain ⟨commit, hagrees⟩ := hstart.agrees
    exact ⟨⟨rfl, rfl⟩, [], commit, by rwa [List.append_nil]⟩
  | @step g x _ hok ih =>
    obtain ⟨⟨hidx, hcid⟩, rest, commit, hagrees⟩ := ih
    obtain ⟨rest', commit', hagrees'⟩ := hagrees.step hok
    obtain ⟨hidx', hcid', -⟩ := step_kept g.rc x
    exact ⟨⟨hidx'.trans hidx, hcid'.trans hcid⟩, rest ++ rest', commit', by rwa [← List.append_assoc]⟩
  | poll i _ hpeer hpoll ih =>
    obtain ⟨hkept, rest, commit, hagrees⟩ := ih
    exact ⟨hkept, rest, commit, hagrees.poll hpeer hpoll⟩
  | apply _ hstable hpoll ih =>
    obtain ⟨hkept, rest, commit, hagrees⟩ := ih
    obtain ⟨hagrees', hdata⟩ := hagrees.apply hstable hpoll
    refine ⟨?_, rest, commit, hagrees'⟩
    rw [Group.applied, hdata]
    exact hkept

/-- Whatever the order of the leader's steps, the completions, partial transfers and failures of its requests, and the
    polls of the other servers: each server has executed the calls of the leader's entries, in order and without a gap
    from its first one on, and of no entry that is committed neither by the leader nor before. No poll fails. -/
theorem applied_entries_are_committed_entries (hstart : Follows a c count F ys old first start)
    (hrun : GroupRun (ReplicatesAll c) start g) :
    ∃ live commit, log_walk g.rc.leader.log (g.rc.leader.log.len + 1) g.rc.leader.log.head =
        some (live, g.rc.leader.log.end_) ∧
      (g.rc.leader.log.commit, commit) ∈ log_positions g.rc.leader.log ∧
      (∃ m, m ≤ commit ∧ (g.servers g.rc.leader.idx).calls = (start.servers g.rc.leader.idx).calls ++
        ((live.take m).drop (a g.rc.leader.idx)).flatMap (entry_calls true)) ∧
      ∀ i, Peer g.rc i → (apply_committed_entries (g.server i)).isSome ∧
        ∃ m, m ≤ max (count i) commit ∧ (g.servers i).calls =
          (start.servers i).calls ++ ((live.take m).drop (a i)).flatMap (entry_calls false) := by
  obtain ⟨-, rest, commit, hagrees⟩ := agrees_of_run hstart hrun
  have hpath := hagrees.counted.path
  have hlength := hpath.length_le
  unfold SIZEOF_ENTRY at hlength
  refine ⟨_, commit, hpath.log_walk_eq (show _ ≤ g.rc.leader.log.len + 1 by omega),
    hagrees.committed.at.mem_positions hpath, ?_, fun i hi => ?_⟩
  · obtain ⟨m, hown⟩ := hagrees.own
    exact ⟨m, hown.order.2, hown.calls⟩
  obtain ⟨xs, m, k, t, n, hf⟩ := hagrees.followers i hi
  obtain ⟨s, hpoll, -⟩ := hf.poll (hagrees.counted.tracks i hi).len
  refine ⟨by rw [hpoll]; rfl, m, ?_, hf.calls⟩
  have hbound := hf.bound
  obtain ⟨-, hmt, -⟩ := hf.order
  omega

/-- The leader of term 3 and the two other servers, of which one has entries of its own. Nothing is applied. -/
def diverged_group : Group where
  rc := diverged_start
  servers := fun i =>
    { data := { diverged_start.leader with idx := i }
      req_id := 0
      clt_id := 0
      die_af_commit := false
      last_applied_entry := ⟨0, 0, 0⟩
      last_cmt_write_csm_idx := 0
      running := true
      calls := [] }

theorem diverged_follows :
    Follows (fun _ => 0) (fun _ => 0) (fun _ => 0) (fun i => log_of (server_entries i)) server_entries
      (leader_entries.take 2) ⟨3, 3, 0, 0, .noop⟩ diverged_group := by
  have hremote (i : Nat) (hi : Peer diverged_start i) : i = 1 ∨ i = 2 := by
    have hsize : get_extended_group_size diverged_start.leader.cid = 3 := by decide
    have hself : i ≠ 0 := hi.1
    have hlt := hi.2
    omega
  have hends : Ends diverged_group.rc.leader.log (leader_entries.take 2 ++ [⟨3, 3, 0, 0, .noop⟩]) 0 0 :=
    ⟨Nat.zero_le _, by decide +kernel⟩
  refine ⟨diverged_elected, ⟨rfl, by decide, by decide, by decide +kernel⟩,
    ⟨0, Nat.le_refl _, by decide, by decide +kernel⟩,
    fun _ _ => rfl, fun i hi => ?_, fun _ _ => Nat.le_refl _, fun i hi => ?_, fun i hi => ⟨?_, hends⟩, fun i hi => ?_,
    fun i hi => ?_⟩
  all_goals obtain rfl | rfl := hremote i hi
  · decide
  · decide
  · exact ⟨Nat.zero_le _, by decide +kernel⟩
  · exact ⟨Nat.zero_le _, by decide +kernel⟩
  · decide +kernel
  · decide +kernel
  · right
    have hstarts := diverged_starts (show 1 < MAX_SERVER_COUNT by decide)
    obtain ⟨hnil, -⟩ | hpath := hstarts.entries
    · simp [server_entries] at hnil
    · rw [← hstarts.commit] at hpath
      obtain ⟨m, hfill, hentries, -⟩ := log_entries_to_nc_buf_path hpath
        (nc_det_addr_fits (show 1 < MAX_SERVER_COUNT by decide) (show 2 ≤ MAX_NC_ENTRIES by decide))
      rw [hstarts.published, Option.some.injEq] at hfill
      have happly : (diverged_start.remote 1).apply = (log_of (server_entries 1)).commit := by decide +kernel
      have hremote : diverged_group.rc.remote 1 = diverged_start.remote 1 := rfl
      rw [hremote, happly, hfill]
      exact hpath.congr_log rfl rfl hentries
  · exact .inl rfl
  · unfold PartsInside
    decide +kernel
  · unfold PartsInside
    decide +kernel

/-- The entries are replicated to server 1, committed, and the commit offset is written there. -/
def diverged_commits : List Action :=
  diverged_actions ++ [.complete 1 true 0, .update_commit, .update_remote_commit 1, .complete 1 true 0]

/-- Server 1 polls after that. -/
def diverged_polled : Group :=
  let g : Group := { diverged_group with rc := run.steps rc.step diverged_start diverged_commits }
  g.polled 1 ((apply_committed_entries (g.server 1)).getD (g.server 1))

/-- The leader appends another command, which is replicated to server 1 and committed, too. -/
def diverged_appends : List Action :=
  [.append 8 4 (zero_cmd 3 (by decide)), .update_remote_log 1, .complete 1 true 0, .update_remote_log 1,
    .complete 1 true 0, .update_commit]

def diverged_appended : Group :=
  { diverged_polled with rc := run.steps rc.step diverged_polled.rc diverged_appends }

/-- The leader applies its entries before server 1 is told of the last one. -/
def diverged_applied : Group :=
  diverged_appended.applied
    ((apply_committed_entries diverged_appended.leader).getD diverged_appended.leader)

theorem GroupRun.polls {Ok : State → Action → Prop} (hrun : GroupRun Ok start g) {i : Nat} (hpeer : Peer g.rc i)
    (hends : (apply_committed_entries (g.server i)).isSome) :
    GroupRun Ok start (g.polled i ((apply_committed_entries (g.server i)).getD (g.server i))) := by
  obtain ⟨s, hpoll⟩ := Option.isSome_iff_exists.mp hends
  rw [hpoll, Option.getD_some]
  exact .poll i hrun hpeer hpoll

theorem GroupRun.applies {Ok : State → Action → Prop} (hrun : GroupRun Ok start g) (hstable : g.Stable)
    (hends : (apply_committed_entries g.leader).isSome) :
    GroupRun Ok start (g.applied ((apply_committed_entries g.leader).getD g.leader)) := by
  obtain ⟨s, hpoll⟩ := Option.isSome_iff_exists.mp hends
  rw [hpoll, Option.getD_some]
  exact .apply hrun hstable hpoll

theorem diverged_run : GroupRun (ReplicatesAll fun _ => 0) diverged_group diverged_applied := by
  have hcommits : run.AllOk rc.step (ReplicatesAll fun _ => 0) diverged_start diverged_commits := by
    simp only [diverged_commits, diverged_actions, List.cons_append, List.nil_append, run.AllOk, ReplicatesAll,
      and_true]
  have hpolled : GroupRun (ReplicatesAll fun _ => 0) diverged_group diverged_polled :=
    (group_run_steps .start hcommits).polls (by unfold Peer; decide +kernel) (by decide +kernel)
  have happends : run.AllOk rc.step (ReplicatesAll fun _ => 0) diverged_polled.rc diverged_appends := by
    simp only [diverged_appends, run.AllOk, ReplicatesAll, and_true]
    unfold RoomyAppend HasRoom EndsAtLen
    decide +kernel
  have happended : GroupRun (ReplicatesAll fun _ => 0) diverged_group diverged_appended :=
    group_run_steps hpolled happends
  refine happended.applies (fun es hwalk x hx _ cid hcid => ?_) (by decide +kernel)
  have hentries : (log_walk diverged_appended.rc.leader.log (diverged_appended.rc.leader.log.len + 1)
      diverged_appended.rc.leader.log.head).map Prod.fst =
        some (leader_entries ++ [⟨4, 3, 8, 4, zero_cmd 3 (by decide)⟩]) := by decide +kernel
  rw [hwalk, Option.map_some, Option.some.injEq] at hentries
  rw [show es = _ from hentries] at hx
  -- there is no CONFIG entry
  simp only [leader_entries, List.cons_append, List.nil_append, List.mem_cons, List.not_mem_nil, or_false] at hx
  obtain rfl | rfl | rfl | rfl := hx <;> cases hcid

theorem replaced_log_applied :
    (diverged_applied.servers 0).calls.length = 4 ∧ (diverged_applied.servers 1).calls.length = 2 ∧
    ∃ live commit, log_walk diverged_applied.rc.leader.log (diverged_applied.rc.leader.log.len + 1)
        diverged_applied.rc.leader.log.head = some (live, diverged_applied.rc.leader.log.end_) ∧
      (diverged_applied.rc.leader.log.commit, commit) ∈ log_positions diverged_applied.rc.leader.log ∧
      (∃ m, m ≤ commit ∧ (diverged_applied.servers diverged_applied.rc.leader.idx).calls =
        (diverged_group.servers diverged_applied.rc.leader.idx).calls ++
          ((live.take m).drop 0).flatMap (entry_calls true)) ∧
      ∀ i, Peer diverged_applied.rc i → (apply_committed_entries (diverged_applied.server i)).isSome ∧
        ∃ m, m ≤ max 0 commit ∧ (diverged_applied.servers i).calls =
          (diverged_group.servers i).calls ++ ((live.take m).drop 0).flatMap (entry_calls false) := by
  have hcalls := applied_entries_are_committed_entries diverged_follows diverged_run
  exact ⟨by decide +kernel, by decide +kernel, hcalls⟩

/-- The entries in the database of a server. -/
def Group.stored (g : Group) (i : Nat) : List dare_log_entry_t := (g.servers i).calls.filterMap stored_entry

def Group.Member (g : Group) (i : Nat) : Prop := i = g.rc.leader.idx ∨ Peer g.rc i

/-- Each server has applied entries of the leader up to some number. -/
theorem Agrees.stored {i : Nat} (hagrees : Agrees a c count ys blank (fun i => (start.servers i).calls) live commit g)
    (hi : g.Member i) : ∃ m, a i ≤ m ∧ g.stored i = start.stored i ++ clients ((live.take m).drop (a i)) := by
  obtain rfl | hi := hi
  · obtain ⟨m, hown⟩ := hagrees.own
    refine ⟨m, hown.order.1, ?_⟩
    rw [Group.stored, hown.calls, List.filterMap_append, stored_of_calls]
    rfl
  · obtain ⟨xs, m, k, t, n, hf⟩ := hagrees.followers i hi
    refine ⟨m, hf.order.1, ?_⟩
    rw [Group.stored, hf.calls, List.filterMap_append, stored_of_calls]
    rfl

/-- If the databases of the leader and of all others have the client entries of one history at the start of the
    leadership, up to where each server has applied them, then at any time one of any two databases continues the
    other. -/
theorem databases_never_diverge (hstart : Follows a c count F ys old first start) {before : List dare_log_entry_t}
    (hsame : ∀ i, start.Member i → start.stored i = clients (before ++ (old ++ [first]).take (a i)))
    (hrun : GroupRun (ReplicatesAll c) start g) {i j : Nat} (hi : g.Member i)
    (hj : g.Member j) : g.stored i <+: g.stored j ∨ g.stored j <+: g.stored i := by
  obtain ⟨⟨hidx, hcid⟩, rest, commit, hagrees⟩ := agrees_of_run hstart hrun
  have hmember {i : Nat} (hi : g.Member i) : start.Member i := by
    rwa [Group.Member, Peer, hidx, hcid] at hi
  have hstored {i : Nat} (hi : g.Member i) :
      ∃ m, g.stored i = clients (before ++ (old ++ [first] ++ rest).take m) := by
    obtain ⟨m, ham, heq⟩ := hagrees.stored hi
    have hle : a i ≤ (old ++ [first]).length := by
      obtain rfl | hi := hmember hi
      · exact hstart.leader.2.2.1
      · exact (hstart.applied i hi).1
    refine ⟨m, ?_⟩
    rw [heq, hsame i (hmember hi), clients, clients, clients, ← List.filter_append, List.append_assoc,
      ← List.take_append_of_le_length hle, take_append_drop_take ham]
  obtain ⟨m, hm⟩ := hstored hi
  obtain ⟨n, hn⟩ := hstored hj
  have hgrows {m n : Nat} (hmn : m ≤ n) (es : List dare_log_entry_t) :
      clients (before ++ es.take m) <+: clients (before ++ es.take n) := by
    refine List.IsPrefix.filter _ ?_
    rw [List.prefix_append_right_inj]
    exact List.take_prefix_take_left hmn
  rw [hm, hn]
  exact (Nat.le_total m n).imp (hgrows · _) (hgrows · _)

theorem replaced_log_databases :
    (diverged_applied.stored 0 = [⟨2, 2, 7, 4, zero_cmd 5 (by decide)⟩, ⟨4, 3, 8, 4, zero_cmd 3 (by decide)⟩] ∧
      diverged_applied.stored 1 = [⟨2, 2, 7, 4, zero_cmd 5 (by decide)⟩]) ∧
    (diverged_applied.stored 0 <+: diverged_applied.stored 1 ∨
      diverged_applied.stored 1 <+: diverged_applied.stored 0) :=
  ⟨by decide +kernel, @databases_never_diverge _ _ _ _ _ _ _ _ _ diverged_follows [] (fun _ _ => rfl) diverged_run 0 1
    (.inl (by decide +kernel)) (.inr (by unfold Peer; decide +kernel))⟩

end runs

end dare.group
