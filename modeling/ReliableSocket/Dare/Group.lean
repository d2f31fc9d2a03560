import ReliableSocket.Dare.Rc.Commit
import ReliableSocket.Dare.Server.Resume

open memory ring
open dare.log dare.server dare.rc

/-! # What the followers of one leader apply

The leader replicates its log while the other servers apply what they are told to be committed. All steps
interleave: those of the leader, the completions of its requests, and the polls of the servers. -/

namespace dare.group

section poll

variable {s : apply_t} {b m k : Nat} {xs : List dare_log_entry_t}

theorem take_append_drop_take (hmk : m ≤ k) (xs : List dare_log_entry_t) :
    xs.take m ++ (xs.take k).drop m = xs.take k := by
  conv_rhs => rw [← List.take_append_drop m (xs.take k), List.take_take, Nat.min_eq_left hmk]

theorem drop_eq_append (hmk : m ≤ k) (xs : List dare_log_entry_t) :
    (xs.take k).drop m ++ xs.drop k = xs.drop m := by
  refine (List.append_right_inj (xs.take m)).mp ?_
  rw [← List.append_assoc, take_append_drop_take hmk, List.take_append_drop, List.take_append_drop]

theorem path_drop {log : dare_log_t} (hpath : Path log b xs) (m : Nat) :
    Path log (entry_format.advance log.len b (xs.take m)) (xs.drop m) := by
  rw [← List.take_append_drop m xs] at hpath
  exact hpath.behind

/-- No server polls beyond its commit offset. -/
theorem not_larger (hpath : Path s.log b xs) (hkm : k ≤ m)
    (happly : s.log.apply = entry_format.advance s.log.len b (xs.take m))
    (hcommit : s.log.commit = entry_format.advance s.log.len b (xs.take k)) :
    log_is_offset_larger s.log s.log.commit s.log.apply = false := by
  have hmiddle := (path_drop hpath k).end_distance
  have hlast := (path_drop hpath m).end_distance
  rw [← drop_eq_append hkm, RecordFormat.span_append, ← RecordFormat.advance_append,
    take_append_drop_take hkm] at hmiddle
  rw [log_is_offset_larger, decide_eq_false_iff_not, happly, hcommit]
  omega

/-- Of the data of a server, applying entries changes the log only. -/
theorem after_entries_data (s : apply_t) (es : List dare_log_entry_t) :
    (after_entries s es).data = s.data.set_log (after_entries s es).log := by
  induction es generalizing s with
  | nil => rfl
  | cons x es ih =>
    rw [after_entries, List.foldl_cons, ← after_entries, ih]
    simp only [after_entry, apply_t.set_apply, apply_t.set_log, (record_entry_data _ x).1]
    rfl

/-- A server whose log has the entries `xs` behind `b`, of which `m` are applied and `k` committed. -/
theorem poll_spec (hrunning : s.running = true) (hsettled : ∀ x ∈ xs, Settled s x)
    (hpath : xs = [] ∨ Path s.log b xs) (hk : k ≤ xs.length)
    (happly : s.log.apply = entry_format.advance s.log.len b (xs.take m))
    (hcommit : s.log.commit = entry_format.advance s.log.len b (xs.take k)) :
    ∃ s', apply_committed_entries s = some s' ∧ s'.running = true ∧ s'.data = s.data.set_log s'.log ∧
      s'.calls = s.calls ++ ((xs.take k).drop m).flatMap (entry_calls (IS_LEADER s.data)) ∧
      s'.log = { s.log with apply := entry_format.advance s.log.len b (xs.take (max m k)) } := by
  by_cases hlt : m < k
  · obtain rfl | hpath := hpath
    · exact absurd hk (by simp; omega)
    have hlog : Backlog s ((xs.take k).drop m) (xs.drop k) := by
      refine ⟨hrunning, ?_, ?_, fun x hx => hsettled x (List.mem_of_mem_take (List.mem_of_mem_drop hx))⟩
      · rw [drop_eq_append hlt.le, happly]
        exact path_drop hpath m
      · rw [happly, hcommit, ← RecordFormat.advance_append, take_append_drop_take hlt.le]
    refine ⟨_, hlog.apply_committed_entries_some, ?_, after_entries_data s _, after_entries_calls s _, ?_⟩
    · exact (hlog.due.apply_loop_eq (Nat.le_refl _)).1.running
    · rw [after_entries_log, happly, ← RecordFormat.advance_append, take_append_drop_take hlt.le,
        Nat.max_eq_right hlt.le]
  · have hkm : k ≤ m := Nat.le_of_not_lt hlt
    have hstop : log_is_offset_larger s.log s.log.commit s.log.apply = false := by
      obtain rfl | hpath := hpath
      · rw [happly, hcommit, List.take_nil, List.take_nil]
        simp [log_is_offset_larger]
      · exact not_larger hpath hkm happly hcommit
    refine ⟨s, apply_loop_stops hstop _, hrunning, rfl, ?_, ?_⟩
    · rw [List.drop_eq_nil_of_le (by simp; omega), List.flatMap_nil, List.append_nil]
    · rw [Nat.max_eq_left hkm, ← happly]

end poll

/-- A leader and the servers that follow it. Their logs are those that the leader writes to. -/
structure Group where
  rc : State
  servers : Nat → apply_t

def Group.server (g : Group) (i : Nat) : apply_t := (g.servers i).set_log (g.rc.remote i)

def Group.leader (g : Group) : apply_t := { g.servers g.rc.leader.idx with data := g.rc.leader }

/-- Server `i` has become `s` in a poll. -/
def Group.polled (g : Group) (i : Nat) (s : apply_t) : Group where
  rc := { g.rc with remote := Function.update g.rc.remote i s.log }
  servers := Function.update g.servers i s

/-- The leader has become `s` in a poll. -/
def Group.applied (g : Group) (s : apply_t) : Group where
  rc := { g.rc with leader := s.data }
  servers := Function.update g.servers g.rc.leader.idx s

/-- The log of the leader has no CONFIG entry that the leader would have to act upon. -/
def Group.Stable (g : Group) : Prop :=
  ∀ es, log_walk g.rc.leader.log (g.rc.leader.log.len + 1) g.rc.leader.log.head = some (es, g.rc.leader.log.end_) →
    ∀ x ∈ es, Settled g.leader x

/-- Runs in which the steps of the leader and of the network meet a condition, and the servers poll
    whenever they like. -/
inductive GroupRun (Ok : State → Action → Prop) (start : Group) : Group → Prop where
  | start : GroupRun Ok start start
  | step {g : Group} (a : Action) (hrun : GroupRun Ok start g) (hok : Ok g.rc a) :
      GroupRun Ok start { g with rc := rc.step g.rc a }
  | poll {g : Group} {s : apply_t} (i : Nat) (hrun : GroupRun Ok start g) (hpeer : Peer g.rc i)
      (hpoll : apply_committed_entries (g.server i) = some s) : GroupRun Ok start (g.polled i s)
  | apply {g : Group} {s : apply_t} (hrun : GroupRun Ok start g) (hstable : g.Stable)
      (hpoll : apply_committed_entries g.leader = some s) : GroupRun Ok start (g.applied s)

/-- The end of the first `k` entries of a log. -/
def Ends (log : dare_log_t) (live : List dare_log_entry_t) (k o : Nat) : Prop :=
  k ≤ live.length ∧ o = entry_format.advance log.len log.head (live.take k)

/-- A server has the entries `ys` behind its commit offset `c`, and the leader the entries `es`. If the server has an
    entry that the leader does not have, the header of an entry fits where the two logs part. -/
def PartsInside (len c : Nat) (es ys : List dare_log_entry_t) : Prop :=
  common_entries es ys < ys.length →
    entry_format.advance len c (es.take (common_entries es ys)) + SIZEOF_ENTRY ≤ len

/-- What is known about a server by its step, if the leader has committed `commit` entries: `n` is the number of
    entries before the end of its log, and it has been told to commit at most `t`. -/
inductive Marked (c count commit t n : Nat) (log : dare_log_t) (live : List dare_log_entry_t) (all busy : Prop)
    (server : server_t) (offsets : log_offsets_t) : Prop where
  | early (hstep : server.next_lr_step = .LR_GET_WRITE ∨ server.next_lr_step = .LR_GET_NCE_LEN ∨
      server.next_lr_step = .LR_GET_NCE) (ht : t ≤ count)
      (hcommit : server.next_lr_step = .LR_GET_NCE_LEN ∧ busy ∨ server.next_lr_step = .LR_GET_NCE → count ≤ commit)
  | set_end (hstep : server.next_lr_step = .LR_SET_END) (ht : t ≤ count) (hcommit : count ≤ commit)
      (hend : busy → offsets.end_ = 0 → c = 0)
  | update_log (hstep : server.next_lr_step = .LR_UPDATE_LOG) (hall : all) (hcommit : count ≤ commit) {e : Nat}
      (hcount : count ≤ e) (hle : e ≤ n) (hend : Ends log live e offsets.end_)
      (hcached : busy → ∃ e, n ≤ e ∧ Ends log live e server.cached_end_offset)
  | update_end (hstep : server.next_lr_step = .LR_UPDATE_END) (hall : all) (hcommit : count ≤ commit) {e : Nat}
      (hle : n ≤ e) (hcached : Ends log live e server.cached_end_offset)

/-- Server `i` reads the entries `xs` in its log, of which the first `n` are those of the leader. It has applied the
    leader's entries up to number `m`, starting at number `a`, and may apply those up to number `k`. -/
structure Follower (i a c count commit : Nat) (ys live : List dare_log_entry_t) (calls : List apply_call) (g : Group)
    (xs : List dare_log_entry_t) (m k t n : Nat) : Prop where
  running : (g.servers i).running = true
  role : IS_LEADER (g.servers i).data = false
  calls : (g.servers i).calls = calls ++ ((live.take m).drop a).flatMap (entry_calls false)
  path : xs = [] ∨ Path (g.rc.remote i)
    (entry_format.advance g.rc.leader.log.len g.rc.leader.log.head (live.take a)) xs
  shared : xs.take (n - a) = (live.take n).drop a
  whole : ys = [] → xs.length = n - a
  applied : Ends g.rc.leader.log live m (g.rc.remote i).apply
  committed : Ends g.rc.leader.log live k (g.rc.remote i).commit
  order : a ≤ m ∧ m ≤ t ∧ a ≤ count ∧ count ≤ k ∧ k ≤ t ∧ t ≤ n ∧ n ≤ live.length
  bound : t ≤ max count commit
  queued : ∀ wr ∈ g.rc.posted i, ∀ o, wr.operation = .write_commit o →
    ∃ k, count ≤ k ∧ k ≤ t ∧ Ends g.rc.leader.log live k o
  marked : Marked c count commit t n g.rc.leader.log live (xs.length = n - a) (pending g.rc i ≠ [])
    (g.rc.leader.servers i) (g.rc.leader.log_offsets i)

/-- Server `i` follows the leader, in whatever state. -/
abbrev Followed (a c count : Nat → Nat) (ys : Nat → List dare_log_entry_t) (calls : Nat → List apply_call)
    (live : List dare_log_entry_t) (commit : Nat) (g : Group) (i : Nat) : Prop :=
  ∃ xs m k t n, Follower i (a i) (c i) (count i) commit (ys i) live (calls i) g xs m k t n

/-- The leader has applied its entries up to number `m`, starting at number `a`. -/
structure Own (a commit : Nat) (live : List dare_log_entry_t) (calls : List apply_call) (g : Group) (m : Nat) :
    Prop where
  running : (g.servers g.rc.leader.idx).running = true
  role : IS_LEADER g.rc.leader = true
  calls : (g.servers g.rc.leader.idx).calls = calls ++ ((live.take m).drop a).flatMap (entry_calls true)
  applied : Ends g.rc.leader.log live m g.rc.leader.log.apply
  order : a ≤ m ∧ m ≤ commit

section ends

variable {log log' : dare_log_t} {live rest xs : List dare_log_entry_t} {a k n o : Nat}

theorem Ends.at (hends : Ends log live k o) : At log live k o := ⟨hends.1, .inl hends.2⟩

theorem Ends.mono (hlen : log'.len = log.len) (hhead : log'.head = log.head) (rest : List dare_log_entry_t)
    (hends : Ends log live k o) : Ends log' (live ++ rest) k o := by
  refine ⟨?_, ?_⟩
  · rw [List.length_append]
    exact Nat.le_add_right_of_le hends.1
  · rw [hlen, hhead, List.take_append_of_le_length hends.1]
    exact hends.2

theorem Ends.between (hends : Ends log live k o) (hak : a ≤ k) :
    o = entry_format.advance log.len (entry_format.advance log.len log.head (live.take a))
      ((live.take k).drop a) := by
  rw [← RecordFormat.advance_append, take_append_drop_take hak]
  exact hends.2

theorem Ends.advance {c count : Nat} (hends : Ends log live count c) (hn : n ≤ (live.drop count).length) :
    Ends log live (count + n) (entry_format.advance log.len c ((live.drop count).take n)) := by
  have hcount := hends.1
  rw [List.length_drop] at hn
  refine ⟨by omega, ?_⟩
  rw [List.take_add, RecordFormat.advance_append, ← hends.2]

theorem advance_eq_zero {len : Nat} (hzero : entry_format.advance len o live = 0) : o = 0 := by
  induction live generalizing o with
  | nil => exact hzero
  | cons x live ih =>
    have hnext := ih hzero
    have hsize := x.le_len
    unfold SIZEOF_ENTRY at hsize
    rw [RecordFormat.next, entry_size] at hnext
    omega

/-- Entries that the leader appends do not move the point where the logs part. -/
theorem PartsInside.append {len c : Nat} {ys : List dare_log_entry_t} (hparts : PartsInside len c live ys)
    (hlt : common_entries live ys < live.length) (rest : List dare_log_entry_t) :
    PartsInside len c (live ++ rest) ys := by
  unfold PartsInside
  rw [common_entries_append hlt, List.take_append_of_le_length hlt.le]
  exact hparts

theorem take_of_shared (hshared : xs.take (n - a) = (live.take n).drop a) (hkn : k ≤ n) :
    xs.take (k - a) = (live.take k).drop a := by
  have htake := congrArg (List.take (k - a)) hshared
  rwa [List.take_take, List.drop_take, List.take_take, Nat.min_eq_left (by omega), ← List.drop_take] at htake

end ends

section frame

variable {i a c count commit commit' m k t n : Nat} {ys live rest xs : List dare_log_entry_t}
  {calls : List apply_call} {g g' : Group} {log log' : dare_log_t} {all busy busy' : Prop} {server server' : server_t}
  {offsets offsets' : log_offsets_t}

theorem Marked.mono (hmarked : Marked c count commit t n log live all busy server offsets)
    (hcommit : commit ≤ commit') (hends : ∀ k o, Ends log live k o → Ends log' (live ++ rest) k o)
    (hbusy : busy' → busy)
    (hstep : server'.next_lr_step = server.next_lr_step)
    (hcached : server'.cached_end_offset = server.cached_end_offset) (hend : offsets'.end_ = offsets.end_) :
    Marked c count commit' t n log' (live ++ rest) all busy' server' offsets' := by
  cases hmarked with
  | early hat ht hle =>
    rw [← hstep] at hat hle
    exact .early hat ht fun h => (hle (h.imp_left fun h => ⟨h.1, hbusy h.2⟩)).trans hcommit
  | set_end hat ht hle hzero =>
    exact .set_end (hstep.trans hat) ht (hle.trans hcommit) fun hb h => hzero (hbusy hb) (hend ▸ h)
  | update_log hat hall hle hcount hn hends' hnext =>
    refine .update_log (hstep.trans hat) hall (hle.trans hcommit) hcount hn ?_ fun hb => ?_
    · rw [hend]
      exact hends _ _ hends'
    · rw [hcached]
      obtain ⟨e, hle, hnext⟩ := hnext (hbusy hb)
      exact ⟨e, hle, hends _ _ hnext⟩
  | update_end hat hall hle hn hnext =>
    refine .update_end (hstep.trans hat) hall (hle.trans hcommit) hn ?_
    rw [hcached]
    exact hends _ _ hnext

theorem Marked.told (hmarked : Marked c count commit t n log live all busy server offsets)
    (hlog : server.next_lr_step ≠ .LR_UPDATE_LOG) (hend : server.next_lr_step ≠ .LR_UPDATE_END) : t ≤ count := by
  cases hmarked with
  | early _ ht => exact ht
  | set_end _ ht => exact ht
  | update_log hat => exact absurd hat hlog
  | update_end hat => exact absurd hat hend

/-- Before the log of a server is touched, the leader has committed what the server had committed. -/
theorem Marked.count_le (hmarked : Marked c count commit t n log live all busy server offsets)
    (hwrite : server.next_lr_step ≠ .LR_GET_WRITE) (hlen : server.next_lr_step ≠ .LR_GET_NCE_LEN) :
    count ≤ commit := by
  cases hmarked with
  | early hat _ hle => exact hle (.inr ((hat.resolve_left hwrite).resolve_left hlen))
  | set_end _ _ hle => exact hle
  | update_log _ _ hle => exact hle
  | update_end _ _ hle => exact hle

theorem Marked.of_set_end (hmarked : Marked c count commit t n log live all busy server offsets)
    (hat : server.next_lr_step = .LR_SET_END) : busy → offsets.end_ = 0 → c = 0 := by
  obtain ⟨hat', -⟩ | ⟨-, -, -, hend⟩ | ⟨hat', -⟩ | ⟨hat', -⟩ := hmarked
  · simp [hat] at hat'
  · exact hend
  · simp [hat] at hat'
  · simp [hat] at hat'

theorem Marked.of_update_log (hmarked : Marked c count commit t n log live all busy server offsets)
    (hat : server.next_lr_step = .LR_UPDATE_LOG) :
    all ∧ (∃ e, count ≤ e ∧ e ≤ n ∧ Ends log live e offsets.end_) ∧
      (busy → ∃ e, n ≤ e ∧ Ends log live e server.cached_end_offset) := by
  obtain ⟨hat', -⟩ | ⟨hat', -⟩ | ⟨-, hall, -, hcount, hle, hends, hcached⟩ | ⟨hat', -⟩ := hmarked
  · simp [hat] at hat'
  · simp [hat] at hat'
  · exact ⟨hall, ⟨_, hcount, hle, hends⟩, hcached⟩
  · simp [hat] at hat'

theorem Marked.of_update_end (hmarked : Marked c count commit t n log live all busy server offsets)
    (hat : server.next_lr_step = .LR_UPDATE_END) :
    all ∧ ∃ e, n ≤ e ∧ Ends log live e server.cached_end_offset := by
  obtain ⟨hat', -⟩ | ⟨hat', -⟩ | ⟨hat', -⟩ | ⟨-, hall, -, hle, hcached⟩ := hmarked
  · simp [hat] at hat'
  · simp [hat] at hat'
  · simp [hat] at hat'
  · exact ⟨hall, _, hle, hcached⟩

/-- The oldest request succeeds, and it is not one that writes the end of the log. -/
theorem Marked.success (hmarked : Marked c count commit t n log live all True server offsets)
    (hset : server.next_lr_step ≠ .LR_SET_END) (hend : server.next_lr_step ≠ .LR_UPDATE_END)
    (hlast : busy → server.next_lr_step = .LR_UPDATE_LOG) :
    Marked c count commit t n log live all busy (lr_success server) offsets := by
  have hcached := (lr_success_kept server).1
  have hnot (hat : server.next_lr_step ≠ .LR_UPDATE_LOG) : ¬ busy := fun hbusy => hat (hlast hbusy)
  cases hstep : server.next_lr_step with
  | LR_GET_WRITE =>
    exact .early (.inr (.inl (by simp [lr_success, hstep]))) (hmarked.told (by simp [hstep]) (by simp [hstep]))
      fun h => h.elim (fun h => absurd h.2 (hnot (by simp [hstep]))) fun h => by simp [lr_success, hstep] at h
  | LR_GET_NCE_LEN =>
    refine .early (.inr (.inr (by simp [lr_success, hstep]))) (hmarked.told (by simp [hstep]) (by simp [hstep]))
      fun _ => ?_
    cases hmarked with
    | early _ _ hcommit => exact hcommit (.inl ⟨hstep, trivial⟩)
    | set_end _ _ hcommit => exact hcommit
    | update_log _ _ hcommit => exact hcommit
    | update_end _ _ hcommit => exact hcommit
  | LR_GET_NCE =>
    exact .set_end (by simp [lr_success, hstep]) (hmarked.told (by simp [hstep]) (by simp [hstep]))
      (hmarked.count_le (by simp [hstep]) (by simp [hstep])) fun hbusy => absurd hbusy (hnot (by simp [hstep]))
  | LR_SET_END => exact absurd hstep hset
  | LR_UPDATE_LOG =>
    obtain ⟨hall, ⟨e, hce, hen, hends⟩, hnext⟩ := hmarked.of_update_log hstep
    have hcommit := hmarked.count_le (by simp [hstep]) (by simp [hstep])
    have hafter : (lr_success server).next_lr_step = .LR_UPDATE_LOG ∨
        (lr_success server).next_lr_step = .LR_UPDATE_END := by
      simp only [lr_success, hstep]
      split <;> simp [hstep]
    obtain ⟨e', hle, hends'⟩ := hnext trivial
    rw [← hcached] at hends'
    obtain hafter | hafter := hafter
    · exact .update_log hafter hall hcommit hce hen hends fun _ => ⟨e', hle, hends'⟩
    · exact .update_end hafter hall hcommit hle hends'
  | LR_UPDATE_END => exact absurd hstep hend

theorem Marked.failure (hmarked : Marked c count commit t n log live all True server offsets) :
    Marked c count commit t n log live all busy (lr_failure server) offsets := by
  have hmono := hmarked.mono (Nat.le_refl _) (fun _ _ h => h.mono rfl rfl []) (fun _ : busy => trivial)
    (lr_failure_step server) (lr_failure_kept server).1 rfl
  rwa [List.append_nil] at hmono

theorem Follower.next {xs' : List dare_log_entry_t} {k' t' n' : Nat}
    (hf : Follower i a c count commit ys live calls g xs m k t n)
    (hlen : g'.rc.leader.log.len = g.rc.leader.log.len) (hhead : g'.rc.leader.log.head = g.rc.leader.log.head)
    (hserver : g'.servers i = g.servers i) (happly : (g'.rc.remote i).apply = (g.rc.remote i).apply)
    (hpath : xs' = [] ∨ Path (g'.rc.remote i)
      (entry_format.advance g.rc.leader.log.len g.rc.leader.log.head (live.take a)) xs')
    (hshared : xs'.take (n' - a) = (live.take n').drop a) (hwhole : ys = [] → xs'.length = n' - a)
    (hcommit : Ends g.rc.leader.log live k' (g'.rc.remote i).commit)
    (horder : count ≤ k' ∧ k' ≤ t' ∧ t ≤ t' ∧ t' ≤ n' ∧ n' ≤ live.length) (hbound : t' ≤ max count commit')
    (hqueued : ∀ wr ∈ g'.rc.posted i, ∀ o, wr.operation = .write_commit o → wr ∈ g.rc.posted i ∨
      ∃ k, count ≤ k ∧ k ≤ t' ∧ Ends g.rc.leader.log live k o)
    (hmarked : Marked c count commit' t' n' g'.rc.leader.log (live ++ rest) (xs'.length = n' - a)
      (pending g'.rc i ≠ []) (g'.rc.leader.servers i) (g'.rc.leader.log_offsets i)) :
    Follower i a c count commit' ys (live ++ rest) calls g' xs' m k' t' n' := by
  obtain ⟨ham, hmt, hac, -⟩ := hf.order
  have htake : ∀ {j}, j ≤ live.length → (live ++ rest).take j = live.take j := List.take_append_of_le_length
  refine ⟨by rw [hserver]; exact hf.running, by rw [hserver]; exact hf.role, ?_, ?_, ?_, hwhole, ?_,
    hcommit.mono hlen hhead rest, ?_, hbound, fun wr hwr o ho => ?_, hmarked⟩
  · rw [hserver, htake (by omega)]
    exact hf.calls
  · rw [hlen, hhead, htake (by omega)]
    exact hpath
  · rw [htake (by omega)]
    exact hshared
  · rw [happly]
    exact hf.applied.mono hlen hhead rest
  · rw [List.length_append]
    omega
  · obtain hold | ⟨j, hcj, hjt, hends⟩ := hqueued wr hwr o ho
    · obtain ⟨j, hcj, hjt, hends⟩ := hf.queued wr hold o ho
      exact ⟨j, hcj, by omega, hends.mono hlen hhead rest⟩
    · exact ⟨j, hcj, hjt, hends.mono hlen hhead rest⟩

/-- A step that neither touches the log of the server nor tells it to commit. -/
theorem Follower.frame (hf : Follower i a c count commit ys live calls g xs m k t n)
    (hlen : g'.rc.leader.log.len = g.rc.leader.log.len) (hhead : g'.rc.leader.log.head = g.rc.leader.log.head)
    (hserver : g'.servers i = g.servers i) (hremote : g'.rc.remote i = g.rc.remote i) (hcommit : commit ≤ commit')
    (hqueued : ∀ wr ∈ g'.rc.posted i, ∀ o, wr.operation = .write_commit o → wr ∈ g.rc.posted i)
    (hmarked : Marked c count commit' t n g'.rc.leader.log (live ++ rest) (xs.length = n - a)
      (pending g'.rc i ≠ []) (g'.rc.leader.servers i) (g'.rc.leader.log_offsets i)) :
    Follower i a c count commit' ys (live ++ rest) calls g' xs m k t n := by
  obtain ⟨-, -, -, hck, hkt, htn, hn⟩ := hf.order
  exact hf.next hlen hhead hserver (by rw [hremote]) (by rw [hremote]; exact hf.path) hf.shared hf.whole
    (by rw [hremote]; exact hf.committed) ⟨hck, hkt, Nat.le_refl _, htn, hn⟩ (hf.bound.trans (by omega))
    (fun wr hwr o ho => .inl (hqueued wr hwr o ho)) hmarked

/-- A poll ends, and what it applies are the next entries of the leader. -/
theorem Follower.poll (hf : Follower i a c count commit ys live calls g xs m k t n)
    (hlen : (g.rc.remote i).len = g.rc.leader.log.len) :
    ∃ s, apply_committed_entries (g.server i) = some s ∧
      s.log = { g.rc.remote i with apply := s.log.apply } ∧
      Follower i a c count commit ys live calls (g.polled i s) xs (max m k) k t n := by
  obtain ⟨ham, hmt, hac, hck, hkt, htn, hn⟩ := hf.order
  have htake {j : Nat} (hj : j ≤ n) := take_of_shared hf.shared hj
  have hplace {j o : Nat} (haj : a ≤ j) (hjn : j ≤ n) (hends : Ends g.rc.leader.log live j o) :
      o = entry_format.advance (g.rc.remote i).len
        (entry_format.advance g.rc.leader.log.len g.rc.leader.log.head (live.take a)) (xs.take (j - a)) := by
    rw [htake hjn, hlen]
    exact hends.between haj
  have hlength : n - a ≤ xs.length := by
    have hcount := congrArg List.length hf.shared
    rw [List.length_take, List.length_drop, List.length_take] at hcount
    omega
  have hrole : IS_LEADER (g.server i).data = false := hf.role
  have hsettled : ∀ x ∈ xs, Settled (g.server i) x := fun x _ hlead => by simp [hrole] at hlead
  obtain ⟨s, hpoll, hrunning, hdata, hcalls, hlog⟩ := poll_spec (s := g.server i) hf.running hsettled hf.path
    (show k - a ≤ xs.length by omega) (hplace ham (by omega) hf.applied) (hplace (by omega) (by omega) hf.committed)
  rw [hrole] at hcalls
  have hmax : max (m - a) (k - a) = max m k - a := by omega
  have happly : s.log.apply = entry_format.advance (g.rc.remote i).len
      (entry_format.advance g.rc.leader.log.len g.rc.leader.log.head (live.take a)) (xs.take (max m k - a)) := by
    rw [hlog, hmax]
    rfl
  have hkept : s.log = { g.rc.remote i with apply := s.log.apply } := by
    rw [hlog]
    rfl
  have hserver : (g.polled i s).servers i = s := Function.update_self ..
  have hremote : (g.polled i s).rc.remote i = s.log := Function.update_self ..
  refine ⟨s, hpoll, hkept, by rwa [hserver], by rw [hserver, hdata]; exact hrole, ?_, ?_, hf.shared, hf.whole, ?_, ?_,
    ⟨by omega, by omega, hac, hck, hkt, htn, hn⟩, hf.bound, hf.queued, hf.marked⟩
  · rw [hserver, hcalls, show (g.server i).calls = _ from hf.calls, List.append_assoc, ← List.flatMap_append,
      ← htake (show m ≤ n by omega), ← htake (show max m k ≤ n by omega)]
    congr 2
    obtain hmk | hkm := Nat.le_total m k
    · rw [Nat.max_eq_right hmk, take_append_drop_take (by omega)]
    · rw [Nat.max_eq_left hkm, List.drop_eq_nil_of_le (by rw [List.length_take]; omega), List.append_nil]
  · rw [hremote, hkept]
    exact hf.path.imp_right fun hpath => hpath.congr_log rfl rfl rfl
  · refine ⟨by omega, ?_⟩
    rw [hremote, happly, htake (by omega), hlen, ← RecordFormat.advance_append, take_append_drop_take (by omega)]
    rfl
  · rw [hremote, hkept]
    exact hf.committed

/-- A poll does not interfere with the replication of the log. -/
theorem counted_polled {c count : Nat → Nat} {ys : Nat → List dare_log_entry_t} {blank : Nat} {s : apply_t}
    (hcounted : Counted c count ys blank live g.rc) (hlog : s.log = { g.rc.remote i with apply := s.log.apply }) :
    Counted c count ys blank live (g.polled i s).rc := by
  refine ⟨⟨hcounted.safe.group, hcounted.safe.queued⟩, hcounted.len, hcounted.path, hcounted.pos, hcounted.le,
    hcounted.terms, hcounted.slots, hcounted.before, hcounted.earlier, fun j hj => ?_, hcounted.acks⟩
  have htracks := hcounted.tracks j hj
  by_cases hij : j = i
  · subst hij
    have hremote : (g.polled j s).rc.remote j = s.log := Function.update_self ..
    refine ⟨htracks.read, htracks.matching, ?_, ?_, htracks.vote_ack, htracks.idle, htracks.ids,
      htracks.unsignaled, ?_⟩
    · rw [hremote, hlog]
      exact htracks.len
    · rw [hremote]
      exact records_congr (hcounted.slots j hj) (fun _ _ _ => by rw [hlog]) htracks.records
    · rw [hremote]
      exact htracks.phase.congr_remote (by rw [hlog])
  · exact htracks.frame (hcounted.slots j hj) (alike_commit j _ _) (Function.update_of_ne hij _ _) rfl
      ⟨_, rfl⟩ rfl rfl

/-- Nor does the leader when it applies entries. -/
theorem counted_applied {c count : Nat → Nat} {ys : Nat → List dare_log_entry_t} {blank : Nat} {s : State}
    (hcounted : Counted c count ys blank live s) (o : Nat) :
    Counted c count ys blank live { s with leader := s.leader.set_log { s.leader.log with apply := o } } :=
  ⟨⟨hcounted.safe.group, hcounted.safe.queued⟩, hcounted.len, hcounted.path.congr_log rfl rfl rfl, hcounted.pos,
    hcounted.le, hcounted.terms, hcounted.slots, hcounted.before, hcounted.earlier, fun j hj =>
    (hcounted.tracks j hj).frame (hcounted.slots j hj) ⟨rfl, rfl, rfl, fun _ _ => rfl⟩ rfl rfl ⟨_, rfl⟩ rfl rfl,
    hcounted.acks⟩

theorem Own.next (hown : Own a commit live calls g m) (hlen : g'.rc.leader.log.len = g.rc.leader.log.len)
    (hhead : g'.rc.leader.log.head = g.rc.leader.log.head) (hservers : g'.servers = g.servers)
    (hidx : g'.rc.leader.idx = g.rc.leader.idx) (hsid : g'.rc.leader.sid = g.rc.leader.sid)
    (happly : g'.rc.leader.log.apply = g.rc.leader.log.apply) (hcommit : commit ≤ commit') :
    Own a commit' (live ++ rest) calls g' m := by
  obtain ⟨ham, hmc⟩ := hown.order
  refine ⟨?_, ?_, ?_, ?_, ham, hmc.trans hcommit⟩
  · rw [hservers, hidx]
    exact hown.running
  · have hrole := hown.role
    simp only [IS_LEADER, IS_NONE] at hrole ⊢
    rwa [hsid, hidx]
  · rw [hservers, hidx, List.take_append_of_le_length hown.applied.1]
    exact hown.calls
  · rw [happly]
    exact hown.applied.mono hlen hhead rest

/-- A poll of the leader ends, and applies all entries that are committed. -/
theorem Own.poll (hown : Own a commit live calls g m) (hpath : Path g.rc.leader.log g.rc.leader.log.head live)
    (hcommit : Ends g.rc.leader.log live commit g.rc.leader.log.commit) (hstable : g.Stable) :
    ∃ s, apply_committed_entries g.leader = some s ∧
      s.data = g.rc.leader.set_log { g.rc.leader.log with apply := s.log.apply } ∧
      Own a commit live calls (g.applied s) commit := by
  obtain ⟨ham, hmc⟩ := hown.order
  have hlength := hpath.length_le
  unfold SIZEOF_ENTRY at hlength
  have hsettled := hstable live (hpath.log_walk_eq (show _ ≤ g.rc.leader.log.len + 1 by omega))
  obtain ⟨s, hpoll, hrunning, hdata, hcalls, hlog⟩ := poll_spec (s := g.leader) hown.running hsettled (.inr hpath)
    hcommit.1 hown.applied.2 hcommit.2
  rw [Nat.max_eq_right hmc] at hlog
  rw [show IS_LEADER g.leader.data = true from hown.role] at hcalls
  have hkept : s.data = g.rc.leader.set_log { g.rc.leader.log with apply := s.log.apply } := by
    rw [hdata, hlog]
    rfl
  have hserver : (g.applied s).servers s.data.idx = s := by
    rw [hkept]
    exact Function.update_self ..
  refine ⟨s, hpoll, hkept, (congrArg apply_t.running hserver).trans hrunning,
    (congrArg IS_LEADER hdata).trans hown.role, (congrArg apply_t.calls hserver).trans ?_, ?_, ham.trans hmc,
    Nat.le_refl _⟩
  · rw [hcalls, show g.leader.calls = _ from hown.calls, List.append_assoc, ← List.flatMap_append]
    congr 2
    refine (List.append_right_inj (live.take a)).mp ?_
    rw [← List.append_assoc, take_append_drop_take ham, take_append_drop_take hmc, take_append_drop_take (by omega)]
  · refine ⟨hcommit.1, ?_⟩
    change s.log.apply = entry_format.advance s.log.len s.log.head _
    rw [hlog]
    rfl

end frame

end dare.group
