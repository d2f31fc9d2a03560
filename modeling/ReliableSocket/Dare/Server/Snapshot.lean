import ReliableSocket.Dare.Server.Recovery
import ReliableSocket.Run

open memory dare.log proxy run

namespace dare.server

def PREREG_SNAPSHOT_SIZE : Nat := 128 * PAGE_SIZE

/-- A server that is asked for its state machine: its data and its record store, the requests that others have
    written into its control data, and the flag SNAPSHOT. -/
structure sm_server_t where
  node : apply_t
  db : db_t
  sm_req : Nat → UInt64
  has_snapshot : Bool

/-- A call of `dare_ib_send_sm_reply`: the target, what the pointer leads to, and whether the memory is to be
    registered. There is nothing behind a pointer that was never set. -/
structure sm_reply_t where
  target : Nat
  snapshot : Option snapshot_t
  reg_mem : Bool
deriving DecidableEq

/-- The server and the local variables of `poll_sm_requests`, with the calls made so far. -/
structure sm_poll_t where
  srv : sm_server_t
  snapshot : Option snapshot_t
  reg_mem : Bool
  replies : List sm_reply_t

namespace sm_poll_t

def shutdown (p : sm_poll_t) : sm_poll_t :=
  { p with srv := { p.srv with node := { p.srv.node with running := false } } }

/-- A snapshot of the server is made, in preregistered memory or in memory allocated for it. -/
def make_snapshot (p : sm_poll_t) (reg_mem : Bool) : sm_poll_t :=
  { p with
    srv := { p.srv with has_snapshot := true }
    snapshot := some (create_snapshot p.srv.node p.srv.db)
    reg_mem := reg_mem }

def send_sm_reply (p : sm_poll_t) (i : Nat) : sm_poll_t :=
  { p with replies := p.replies ++ [⟨i, p.snapshot, p.reg_mem⟩] }

end sm_poll_t

section poll

/-- The request of the server is taken. -/
def take_request (p : sm_poll_t) (i : Nat) : sm_poll_t :=
  { p with srv := { p.srv with sm_req := Function.update p.srv.sm_req i 0 } }

/-- There is a request of this server. -/
def Requested (s : sm_server_t) (i : Nat) : Prop := i ≠ s.node.data.idx ∧ s.sm_req i ≠ 0

instance (s : sm_server_t) (i : Nat) : Decidable (Requested s i) := inferInstanceAs (Decidable (_ ∧ _))

variable (memalign : Bool) (sent : Nat → Bool)

/-- A snapshot is made unless there is one. `memalign` says that memory can be allocated. -/
def ensure_snapshot (p : sm_poll_t) : sm_poll_t :=
  if p.srv.has_snapshot then p
  else if p.srv.db.records_len.toNat ≤ PREREG_SNAPSHOT_SIZE then p.make_snapshot p.reg_mem
  else if memalign then p.make_snapshot true
  else p.shutdown

/-- One turn of the loop. The thread ends with `dare_server_shutdown`. `sent` says which replies could be
    posted. -/
def poll_sm_request (p : sm_poll_t) (i : Nat) : sm_poll_t :=
  if p.srv.node.running = true ∧ Requested p.srv i then
    let p := ensure_snapshot memalign (take_request p i)
    if p.srv.node.running then
      if sent i then p.send_sm_reply i else (p.send_sm_reply i).shutdown
    else p
  else p

def poll_sm_requests (s : sm_server_t) : sm_poll_t :=
  (List.range (get_group_size s.node.data.cid)).foldl (poll_sm_request memalign sent) ⟨s, none, false, []⟩

end poll

/-- A poll, a request that is written by another server, the end of a snapshot with a head advance, or any work
    of the server on its data and its record store. -/
inductive sm_action where
  | poll_sm_requests (memalign : Bool) (sent : Nat → Bool)
  | sm_req (i : Nat) (value : UInt64)
  | advance_head
  | work (node : apply_t) (db : db_t)

/-- The calls made by an action. Only a server that runs and does not lead polls. -/
def sm_replies (s : sm_server_t) : sm_action → List sm_reply_t
  | .poll_sm_requests memalign sent =>
    if s.node.running && !IS_LEADER s.node.data then (poll_sm_requests memalign sent s).replies else []
  | .sm_req _ _ | .advance_head | .work _ _ => []

def sm_step (s : sm_server_t) : sm_action → sm_server_t
  | .poll_sm_requests memalign sent =>
    if s.node.running && !IS_LEADER s.node.data then (poll_sm_requests memalign sent s).srv else s
  | .sm_req i value => { s with sm_req := Function.update s.sm_req i value }
  | .advance_head => { s with has_snapshot := false }
  | .work node db => { s with node := node, db := db }

/-- All replies carry a snapshot of one state that the server has had. -/
def CarrySnapshots (s : sm_server_t) (actions : List sm_action) : Prop :=
  ∀ before a after, actions = before ++ a :: after → ∀ reply ∈ sm_replies (steps sm_step s before) a,
    ∃ earlier later, before = earlier ++ later ∧
      reply.snapshot =
        some (create_snapshot (steps sm_step s earlier).node (steps sm_step s earlier).db)

/-- The flag is clear when a poll meets a request. -/
def FlagClear (s : sm_server_t) : sm_action → Prop
  | .poll_sm_requests _ _ =>
    s.node.running = true → IS_LEADER s.node.data = false →
      (∃ i < get_group_size s.node.data.cid, Requested s i) → s.has_snapshot = false
  | .sm_req _ _ | .advance_head | .work _ _ => True

section turns

variable {memalign : Bool} {sent : Nat → Bool} {s : sm_server_t} {p : sm_poll_t}

/-- What holds during a poll that began without a snapshot. -/
structure Fresh (s : sm_server_t) (p : sm_poll_t) : Prop where
  last : p.srv.node.last_applied_entry = s.node.last_applied_entry
  db : p.srv.db = s.db
  made : p.srv.has_snapshot = true → p.snapshot = some (create_snapshot s.node s.db)
  replies : ∀ reply ∈ p.replies, reply.snapshot = some (create_snapshot s.node s.db)

theorem Fresh.create_eq (hfresh : Fresh s p) :
    create_snapshot p.srv.node p.srv.db = create_snapshot s.node s.db := by
  rw [create_snapshot, create_snapshot, hfresh.last, hfresh.db]

/-- After `ensure_snapshot` there is one, or the thread has ended. -/
theorem Fresh.ensure (hfresh : Fresh s p) (memalign : Bool) : Fresh s (ensure_snapshot memalign p) ∧
    ((ensure_snapshot memalign p).srv.node.running = true →
      (ensure_snapshot memalign p).snapshot = some (create_snapshot s.node s.db)) := by
  have hmake : ∀ reg_mem, Fresh s (p.make_snapshot reg_mem) ∧
      (p.make_snapshot reg_mem).snapshot = some (create_snapshot s.node s.db) := by
    intro reg_mem
    have hsnapshot : (p.make_snapshot reg_mem).snapshot = some (create_snapshot s.node s.db) :=
      congrArg some hfresh.create_eq
    exact ⟨⟨hfresh.last, hfresh.db, fun _ => hsnapshot, hfresh.replies⟩, hsnapshot⟩
  unfold ensure_snapshot
  split
  · rename_i hflag
    exact ⟨hfresh, fun _ => hfresh.made hflag⟩
  · split
    · exact ⟨(hmake _).1, fun _ => (hmake _).2⟩
    · split
      · exact ⟨(hmake _).1, fun _ => (hmake _).2⟩
      · exact ⟨⟨hfresh.last, hfresh.db, hfresh.made, hfresh.replies⟩, fun h => by cases h⟩

theorem Fresh.turn (hfresh : Fresh s p) (i : Nat) : Fresh s (poll_sm_request memalign sent p i) := by
  rw [poll_sm_request]
  split
  · have htaken : Fresh s (take_request p i) := ⟨hfresh.last, hfresh.db, hfresh.made, hfresh.replies⟩
    obtain ⟨hensured, hsnapshot⟩ := htaken.ensure memalign
    dsimp only
    split
    · rename_i hrunning
      have hsent : Fresh s ((ensure_snapshot memalign (take_request p i)).send_sm_reply i) := by
        refine ⟨hensured.last, hensured.db, hensured.made, List.forall_mem_append.mpr ⟨hensured.replies, ?_⟩⟩
        rw [List.forall_mem_singleton]
        exact hsnapshot hrunning
      split
      · exact hsent
      · exact ⟨hsent.last, hsent.db, hsent.made, hsent.replies⟩
    · exact hensured
  · exact hfresh

theorem Fresh.turns (hfresh : Fresh s p) (is : List Nat) :
    Fresh s (is.foldl (poll_sm_request memalign sent) p) := by
  induction is generalizing p with
  | nil => exact hfresh
  | cons i is ih => exact ih (hfresh.turn i)

/-- What holds during a poll that began with the flag set, until a request is met. -/
structure Stale (s : sm_server_t) (p : sm_poll_t) : Prop where
  srv : p.srv = s
  flag : s.has_snapshot = true
  running : s.node.running = true
  unset : p.snapshot = none

/-- The first request is answered with a pointer that was never set. -/
theorem Stale.requested (hstale : Stale s p) {i : Nat} (hrequested : Requested s i) :
    ∃ reply ∈ (poll_sm_request memalign sent p i).replies, reply.snapshot = none := by
  obtain ⟨rfl, hflag, hrunning, hunset⟩ := hstale
  have hensure : ensure_snapshot memalign (take_request p i) = take_request p i := if_pos hflag
  have hrunning' : (take_request p i).srv.node.running = true := hrunning
  rw [poll_sm_request, if_pos ⟨hrunning, hrequested⟩]
  simp only [hensure, hrunning', if_true]
  refine ⟨⟨i, p.snapshot, p.reg_mem⟩, ?_, hunset⟩
  split <;> exact List.mem_append_right _ (List.mem_singleton_self _)

theorem Stale.skipped (hstale : Stale s p) {i : Nat} (hnot : ¬ Requested s i) :
    poll_sm_request memalign sent p i = p := by
  rw [poll_sm_request, if_neg]
  rw [hstale.srv]
  exact fun h => hnot h.2

/-- A turn takes back no reply. -/
theorem poll_sm_request_replies (p : sm_poll_t) (i : Nat) :
    p.replies ⊆ (poll_sm_request memalign sent p i).replies := by
  have hensure : (ensure_snapshot memalign (take_request p i)).replies = p.replies := by
    unfold ensure_snapshot
    split
    · rfl
    · split
      · rfl
      · split <;> rfl
  rw [poll_sm_request]
  split
  · dsimp only
    rw [← hensure]
    split
    · split <;> exact List.subset_append_left _ _
    · exact List.Subset.refl _
  · exact List.Subset.refl _

theorem poll_replies_subset (p : sm_poll_t) (is : List Nat) :
    p.replies ⊆ (is.foldl (poll_sm_request memalign sent) p).replies := by
  induction is generalizing p with
  | nil => exact List.Subset.refl _
  | cons i is ih => exact List.Subset.trans (poll_sm_request_replies p i) (ih _)

theorem Stale.turns (hstale : Stale s p) {is : List Nat} (hrequested : ∃ i ∈ is, Requested s i) :
    ∃ reply ∈ (is.foldl (poll_sm_request memalign sent) p).replies, reply.snapshot = none := by
  induction is generalizing p with
  | nil =>
    obtain ⟨i, hi, -⟩ := hrequested
    cases hi
  | cons i is ih =>
    rw [List.foldl_cons]
    by_cases hi : Requested s i
    · obtain ⟨reply, hreply, hnone⟩ := hstale.requested hi
      exact ⟨reply, poll_replies_subset _ is hreply, hnone⟩
    · rw [hstale.skipped hi]
      obtain ⟨j, hj, hrequested⟩ := hrequested
      obtain rfl | hj := List.mem_cons.mp hj
      · exact absurd hrequested hi
      · exact ih hstale ⟨j, hj, hrequested⟩

theorem poll_of_no_request {is : List Nat} (hnone : ∀ i ∈ is, ¬ Requested p.srv i) :
    is.foldl (poll_sm_request memalign sent) p = p := by
  induction is with
  | nil => rfl
  | cons i is ih =>
    rw [List.forall_mem_cons] at hnone
    have hskip : poll_sm_request memalign sent p i = p := by
      rw [poll_sm_request, if_neg]
      exact fun h => hnone.1 h.2
    rw [List.foldl_cons, hskip]
    exact ih hnone.2

end turns

section claim

variable {s : sm_server_t} {a : sm_action}

/-- With the flag clear all replies of a poll carry a snapshot of the present state. -/
theorem sm_replies_fresh (hclear : FlagClear s a) :
    ∀ reply ∈ sm_replies s a, reply.snapshot = some (create_snapshot s.node s.db) := by
  cases a with
  | poll_sm_requests memalign sent =>
    rw [sm_replies]
    split
    · rename_i hpolls
      rw [Bool.and_eq_true, Bool.not_eq_true'] at hpolls
      by_cases hrequested : ∃ i < get_group_size s.node.data.cid, Requested s i
      · have hflag := hclear hpolls.1 hpolls.2 hrequested
        have hfresh : Fresh s ⟨s, none, false, []⟩ :=
          ⟨rfl, rfl, fun h => absurd (hflag.symm.trans h) Bool.false_ne_true, fun _ h => absurd h List.not_mem_nil⟩
        exact (hfresh.turns _).replies
      · have hnone : poll_sm_requests memalign sent s = ⟨s, none, false, []⟩ :=
          poll_of_no_request (p := ⟨s, none, false, []⟩) fun i hi h =>
            hrequested ⟨i, List.mem_range.mp hi, h⟩
        rw [hnone]
        exact fun _ h => by cases h
    · exact fun _ h => by cases h
  | sm_req i value => exact fun _ h => by cases h
  | advance_head => exact fun _ h => by cases h
  | work node db => exact fun _ h => by cases h

/-- With the flag set a request is answered without a snapshot. -/
theorem sm_replies_stale (hset : ¬ FlagClear s a) : ∃ reply ∈ sm_replies s a, reply.snapshot = none := by
  cases a with
  | poll_sm_requests memalign sent =>
    simp only [FlagClear, not_forall, Bool.not_eq_false] at hset
    obtain ⟨hrunning, hfollows, ⟨i, hi, hrequested⟩, hflag⟩ := hset
    have hstale : Stale s ⟨s, none, false, []⟩ := ⟨rfl, hflag, hrunning, rfl⟩
    rw [sm_replies, hrunning, hfollows]
    exact hstale.turns ⟨i, List.mem_range.mpr hi, hrequested⟩
  | sm_req i value => exact absurd trivial hset
  | advance_head => exact absurd trivial hset
  | work node db => exact absurd trivial hset

/-- For every run: all replies carry a snapshot of one state of the server just if the flag is clear whenever a
    poll meets a request. -/
theorem replies_carry_snapshot_iff (s : sm_server_t) (actions : List sm_action) :
    CarrySnapshots s actions ↔ AllOk sm_step FlagClear s actions := by
  rw [allOk_iff]
  constructor
  · intro hcarry before a after hactions
    by_contra hset
    obtain ⟨reply, hreply, hnone⟩ := sm_replies_stale hset
    obtain ⟨earlier, later, -, hsnapshot⟩ := hcarry before a after hactions reply hreply
    rw [hnone] at hsnapshot
    cases hsnapshot
  · intro hclear before a after hactions reply hreply
    exact ⟨before, [], (List.append_nil before).symm,
      sm_replies_fresh (hclear before a after hactions) reply hreply⟩

/-- A follower of three servers that has applied nothing. -/
def asked_server : sm_server_t where
  node := ⟨(init_server_data 0 3).get admits_three, 0, 0, false, ⟨0, 0, 0⟩, 0, true, []⟩
  db := initialize_db
  sm_req := fun _ => 0
  has_snapshot := false

/-- Two servers ask one after the other, with a poll after each request. -/
def two_requests : List sm_action :=
  [.sm_req 1 1, .poll_sm_requests true fun _ => true, .sm_req 2 1, .poll_sm_requests true fun _ => true]

theorem second_reply_has_no_snapshot : ¬ CarrySnapshots asked_server two_requests := by
  intro hcarry
  have hreply : ⟨2, none, false⟩ ∈ sm_replies (steps sm_step asked_server (two_requests.take 3))
      (.poll_sm_requests true fun _ => true) := by
    decide
  obtain ⟨_, _, -, hsnapshot⟩ := hcarry _ _ [] rfl _ hreply
  cases hsnapshot

end claim

end dare.server
